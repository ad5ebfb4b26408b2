import FleetSizing.Proofs.SimulatedFleet.Directory.Basic
/-!
# What a directory shows

Every operation on a directory keeps its two maps in agreement, and does to the fleet that
they show what the same operation on a fleet does.
-/

namespace FleetSizing

theorem SimulatedFleet.ext_get? {f g : SimulatedFleet} (h : f.IsAbreast g)
    (hlast : g.lastId = f.lastId) (hpools : ∀ kind, g.pools.get? kind = f.pools.get? kind) :
    g = f := by
  obtain ⟨htickSeconds, hwindow, harrivals, htick⟩ := h
  have heq := SortedMap.ext_get? hpools
  cases f
  cases g
  simp only at htickSeconds hwindow harrivals htick hlast heq
  subst htickSeconds hwindow harrivals htick hlast heq
  rfl

namespace Directory

variable {d : Directory} {f : SimulatedFleet} {kind : Kind} {id : InstanceId} {r : Resident}

theorem rosterD_upsert (d : Directory) (kind kind' : Kind) (change : Roster → Roster) :
    rosterD { d with pools := d.pools.upsert kind' {} change } kind =
      if kind = kind' then change (d.rosterD kind) else d.rosterD kind := by
  unfold rosterD
  rw [SortedMap.get?_upsert]
  split
  next heq => rw [Option.getD_some, heq]
  next => rfl

/-- A change that leaves the instances of a kind alone. -/
theorem IsConsistent.view_upsert (hd : d.IsConsistent) (kind : Kind) {change : Roster → Roster}
    {change' : Pool → Pool} (h : ∀ p members, (change p).pool members = change' (p.pool members)) :
    view { d with pools := d.pools.upsert kind {} change } =
      { d.view with pools := d.view.pools.upsert kind {} change' } := by
  refine SimulatedFleet.ext_get? ⟨rfl, rfl, rfl, rfl⟩ rfl fun kind' => ?_
  have hpool := hd.poolD_view kind
  rw [get?_view, SortedMap.get?_upsert, SortedMap.get?_upsert]
  change _ = if kind' = kind then some (change' (d.view.poolD kind)) else _
  rw [hpool]
  split
  next heq =>
    subst heq
    exact congrArg some (h ..)
  next => exact (get?_view d kind').symm

theorem IsConsistent.upsert (hd : d.IsConsistent) (kind : Kind) {change : Roster → Roster}
    (h : ∀ p, (change p).ids = p.ids) :
    IsConsistent { d with pools := d.pools.upsert kind {} change } where
  listed := by
    intro kind'
    have hlisted := hd.listed kind'
    rw [rosterD_upsert]
    split
    · rw [h]
      exact hlisted
    · exact hlisted
  given := hd.given

theorem IsConsistent.toList_instances_create (hd : d.IsConsistent) (kind : Kind) :
    (d.create kind).instances.toList =
      d.instances.toList ++ [(d.lastId + 1, { kind, window := .ofCapacity d.windowTicks })] :=
  SortedMap.toList_insert_of_lt
    (fun id hid => compare_lt_iff_lt.2 (Nat.lt_succ_of_le (hd.given id hid).2)) _

theorem IsConsistent.members_create (hd : d.IsConsistent) (kind kind' : Kind) :
    (d.create kind').members kind =
      if kind = kind' then
        d.members kind ++ [{ id := d.lastId + 1, window := .ofCapacity d.windowTicks }]
      else d.members kind := by
  unfold members membersOf
  rw [hd.toList_instances_create, List.filter_append, List.map_append]
  by_cases hkind : kind = kind'
  · simp [hkind, Resident.toInstance]
  · simp [hkind, Ne.symm hkind]

theorem IsConsistent.view_create (hd : d.IsConsistent) (kind : Kind) :
    (d.create kind).view = d.view.create kind := by
  refine SimulatedFleet.ext_get? ⟨rfl, rfl, rfl, rfl⟩ rfl fun kind' => ?_
  have hpool := hd.poolD_view kind
  rw [get?_view, hd.members_create]
  change ((d.pools.upsert kind {} _).get? kind').map _ =
    (d.view.pools.upsert kind {} _).get? kind'
  rw [SortedMap.get?_upsert, SortedMap.get?_upsert]
  change _ = if kind' = kind then some ((d.view.poolD kind).add _ _) else _
  rw [hpool]
  split
  next heq =>
    subst heq
    exact congrArg some (Roster.pool_enlist (hd.length_ids kind') ..)
  next => exact (get?_view d kind').symm

theorem IsConsistent.create (hd : d.IsConsistent) (kind : Kind) :
    (d.create kind).IsConsistent where
  listed := by
    intro kind'
    have hlisted := hd.listed kind'
    rw [hd.members_create]
    change (rosterD { d with pools := d.pools.upsert kind {} _ } kind').ids = _
    rw [rosterD_upsert]
    split
    next heq => rw [Roster.enlist, hlisted, List.map_append]; rfl
    next => exact hlisted
  given := by
    intro id hid
    rw [SortedMap.mem_keys_iff] at hid
    change ((d.instances.insert _ _).get? id).isSome = true at hid
    rw [SortedMap.get?_insert] at hid
    split at hid
    next heq => exact ⟨heq ▸ Nat.succ_pos _, heq.le⟩
    next =>
      obtain ⟨hpos, hle⟩ := hd.given id (SortedMap.mem_keys_iff.2 hid)
      exact ⟨hpos, Nat.le_succ_of_le hle⟩

theorem destroy_of_none (hid : d.instances.get? id = none) : d.destroy id = d := by
  rw [destroy, hid]

theorem destroy_of_some (hid : d.instances.get? id = some r) :
    d.destroy id = { d with
      pools := d.pools.upsert r.kind {} (·.strike id r)
      instances := d.instances.erase id } := by
  rw [destroy, hid]

theorem keys_destroy_subset (d : Directory) (id : InstanceId) :
    (d.destroy id).instances.keys ⊆ d.instances.keys := by
  cases hid : d.instances.get? id with
  | none => rw [destroy_of_none hid]; exact List.Subset.refl _
  | some r =>
      intro id' hid'
      rw [destroy_of_some hid, SortedMap.mem_keys_iff] at hid'
      change ((d.instances.erase id).get? id').isSome = true at hid'
      rw [SortedMap.get?_erase] at hid'
      split at hid'
      · cases hid'
      · exact SortedMap.mem_keys_iff.2 hid'

theorem members_destroy (hid : d.instances.get? id = some r) (kind : Kind) :
    (d.destroy id).members kind = (d.members kind).filter (·.id ≠ id) := by
  rw [destroy_of_some hid]
  change membersOf kind (d.instances.erase id).toList = _
  rw [SortedMap.toList_erase]
  unfold members membersOf
  rw [List.filter_map, List.filter_filter, List.filter_filter]
  simp only [Bool.and_comm]
  rfl

theorem not_mem_members (hid : d.instances.get? id = some r) (hkind : kind ≠ r.kind) :
    id ∉ (d.members kind).map (·.id) := by
  rw [mem_map_id_members_iff]
  rintro ⟨r', hr', rfl⟩
  rw [hid] at hr'
  cases hr'
  exact hkind rfl

theorem find?_members (hid : d.instances.get? id = some r) :
    (d.members r.kind).find? (·.id = id) = some (r.toInstance id) := by
  have hmem : r.toInstance id ∈ d.members r.kind :=
    List.mem_map.2 ⟨(id, r), by simp [SortedMap.get?_eq_some_iff.1 hid], rfl⟩
  exact find?_eq_of_nodup ((d.pairwise_members r.kind).imp Nat.ne_of_lt) hmem

theorem IsConsistent.exists_roster (hd : d.IsConsistent) (hid : d.instances.get? id = some r) :
    ∃ p, d.pools.get? r.kind = some p ∧ id ∈ p.ids := by
  have hmem : id ∈ (d.rosterD r.kind).ids :=
    hd.listed r.kind ▸ mem_map_id_members_iff.2 ⟨r, hid, rfl⟩
  unfold rosterD at hmem
  cases hp : d.pools.get? r.kind with
  | none =>
      rw [hp] at hmem
      cases hmem
  | some p =>
      rw [hp] at hmem
      exact ⟨p, rfl, hmem⟩

theorem get?_view_remove (hkind : id ∉ (d.members kind).map (·.id)) :
    (d.view.destroy id).pools.get? kind = d.view.pools.get? kind := by
  change (d.view.pools.map (·.remove id)).get? kind = _
  rw [SortedMap.get?_map, get?_view, Option.map_map]
  exact Option.map_congr fun p _ => Pool.remove_of_not_mem hkind

theorem filter_members (hkind : id ∉ (d.members kind).map (·.id)) :
    (d.members kind).filter (·.id ≠ id) = d.members kind := by
  refine List.filter_eq_self.2 fun i hi => ?_
  have hne : i.id ≠ id := fun heq => hkind (heq ▸ List.mem_map_of_mem hi)
  simpa using hne

theorem IsConsistent.view_destroy (hd : d.IsConsistent) (id : InstanceId) :
    (d.destroy id).view = d.view.destroy id := by
  cases hid : d.instances.get? id with
  | none =>
      rw [destroy_of_none hid]
      refine SimulatedFleet.ext_get? ⟨rfl, rfl, rfl, rfl⟩ rfl fun kind => ?_
      refine (get?_view_remove fun hmem => ?_).symm
      obtain ⟨r, hr, -⟩ := mem_map_id_members_iff.1 hmem
      rw [hid] at hr
      cases hr
  | some r =>
      have hmembers := members_destroy hid
      rw [destroy_of_some hid] at hmembers ⊢
      refine SimulatedFleet.ext_get? ⟨rfl, rfl, rfl, rfl⟩ rfl fun kind => ?_
      rw [get?_view, hmembers, SortedMap.get?_upsert]
      by_cases hkind : kind = r.kind
      · obtain ⟨p, hp, -⟩ := hd.exists_roster hid
        change _ = (d.view.pools.map (·.remove id)).get? kind
        rw [if_pos hkind, hkind, SortedMap.get?_map, get?_view, hp]
        exact congrArg some (Roster.pool_strike (find?_members hid))
      · have hmem := not_mem_members hid hkind
        rw [if_neg hkind, filter_members hmem, get?_view_remove hmem, get?_view]

theorem IsConsistent.destroy (hd : d.IsConsistent) (id : InstanceId) :
    (d.destroy id).IsConsistent := by
  cases hid : d.instances.get? id with
  | none => rwa [destroy_of_none hid]
  | some r =>
      have hkeys := d.keys_destroy_subset id
      have hmembers := members_destroy hid
      rw [destroy_of_some hid] at hkeys hmembers ⊢
      refine ⟨fun kind => ?_, fun id' hid' => hd.given id' (hkeys hid')⟩
      have hlisted := hd.listed kind
      rw [hmembers]
      change (rosterD { d with pools := d.pools.upsert r.kind {} _ } kind).ids = _
      rw [rosterD_upsert]
      split
      next => rw [Roster.strike, hlisted, List.filter_map]; rfl
      next hne => rw [hlisted, filter_members (not_mem_members hid hne)]

/-! ## Work -/

theorem work_resident_of_get? {pools : SortedMap Kind Roster} {p : Roster}
    (hp : pools.get? r.kind = some p) (seconds : Nat) (id : InstanceId) :
    r.work seconds pools =
      let (turn, backlog) := (r.toInstance id).turn seconds p.backlog
      (pools.insert r.kind { p with backlog, completed := p.completed + turn.completed },
        { r with
          running := turn.running
          window := r.window.record (Float.ofNat turn.used / Float.ofNat seconds) }) := by
  rw [Resident.work, hp]
  rfl

/-- The instances of a kind take their turns as if there were no others. -/
theorem workAll_spec (seconds : Nat) {pools : SortedMap Kind Roster}
    {entries : List (InstanceId × Resident)}
    (hpools : ∀ e ∈ entries, ∃ p, pools.get? e.2.kind = some p) (kind : Kind) :
    (workAll seconds pools entries).1.get? kind =
      (pools.get? kind).map (·.work seconds (membersOf kind entries)) ∧
    ∀ p, pools.get? kind = some p →
      membersOf kind (workAll seconds pools entries).2 =
        (membersOf kind entries).zipWith (·.after seconds ·)
          (turns seconds (membersOf kind entries) p.backlog).1 := by
  induction entries generalizing pools with
  | nil =>
      refine ⟨?_, fun _ _ => rfl⟩
      cases hp : pools.get? kind with
      | none => exact hp
      | some p => exact hp
  | cons e entries ih =>
      obtain ⟨id, r⟩ := e
      obtain ⟨⟨p, hp⟩, hrest⟩ := List.forall_mem_cons.1 hpools
      have hwork := work_resident_of_get? hp seconds id
      let turn := ((r.toInstance id).turn seconds p.backlog).1
      let p' : Roster := { p with
        backlog := ((r.toInstance id).turn seconds p.backlog).2
        completed := p.completed + turn.completed }
      have hpools' : (r.work seconds pools).1 = pools.insert r.kind p' := by rw [hwork]
      have hnext (kind : Kind) : (r.work seconds pools).1.get? kind =
          if kind = r.kind then some p' else pools.get? kind := by
        rw [hpools', SortedMap.get?_insert]
      have hlater : ∀ e ∈ entries, ∃ q, (r.work seconds pools).1.get? e.2.kind = some q := by
        intro e he
        rw [hnext]
        split
        · exact ⟨_, rfl⟩
        · exact hrest e he
      obtain ⟨hget, hmembers⟩ := ih hlater
      change (workAll seconds (r.work seconds pools).1 entries).1.get? kind = _ ∧
        ∀ q, _ → membersOf kind ((id, (r.work seconds pools).2) ::
          (workAll seconds (r.work seconds pools).1 entries).2) = _
      rw [hget, hnext, membersOf_cons, membersOf_cons, r.kind_work]
      by_cases hkind : kind = r.kind
      · subst hkind
        rw [if_pos rfl, if_pos rfl, if_pos rfl, hp]
        refine ⟨congrArg some ?_, fun q hq => ?_⟩
        · unfold Roster.work
          simp only [p', turn, turns, sumOf_cons, Nat.add_assoc]
        · cases hq
          have hrest := hmembers p' (by rw [hnext, if_pos rfl])
          rw [hrest, hwork]
          rfl
      · rw [if_neg hkind, if_neg (Ne.symm hkind)]
        refine ⟨rfl, fun q hq => ?_⟩
        rw [if_neg (Ne.symm hkind)]
        exact hmembers q (by rw [hnext, if_neg hkind, hq])

theorem map_id_membersOf_workAll (seconds : Nat) (pools : SortedMap Kind Roster)
    (entries : List (InstanceId × Resident)) (kind : Kind) :
    (membersOf kind (workAll seconds pools entries).2).map (·.id) =
      (membersOf kind entries).map (·.id) := by
  have hread (entries : List (InstanceId × Resident)) :
      (membersOf kind entries).map (·.id) =
        ((entries.map fun e => (e.1, e.2.kind)).filter (·.2 = kind)).map (·.1) := by
    rw [map_id_membersOf, List.filter_map, List.map_map]
    rfl
  rw [hread, hread, map_workAll]

theorem keys_work (d : Directory) : d.work.instances.keys = d.instances.keys :=
  map_fst_workAll d.tickSeconds d.pools d.instances.toList

theorem IsConsistent.exists_roster_of_mem (hd : d.IsConsistent) :
    ∀ e ∈ d.instances.toList, ∃ p, d.pools.get? e.2.kind = some p := by
  intro e he
  obtain ⟨p, hp, -⟩ := hd.exists_roster (SortedMap.get?_eq_some_iff.2 he)
  exact ⟨p, hp⟩

theorem IsConsistent.view_work (hd : d.IsConsistent) : d.work.view = d.view.work := by
  refine SimulatedFleet.ext_get? ⟨rfl, rfl, rfl, rfl⟩ rfl fun kind => ?_
  obtain ⟨hpools, hmembers⟩ := workAll_spec d.tickSeconds hd.exists_roster_of_mem kind
  change (d.work.view.pools.get? kind) = (d.view.pools.map (·.work d.tickSeconds)).get? kind
  rw [get?_view, SortedMap.get?_map, get?_view]
  change ((workAll d.tickSeconds d.pools d.instances.toList).1.get? kind).map _ = _
  rw [hpools]
  cases hp : d.pools.get? kind with
  | none => rfl
  | some p =>
      change some ((p.work d.tickSeconds (d.members kind)).pool
        (membersOf kind (workAll d.tickSeconds d.pools d.instances.toList).2)) = _
      rw [hmembers p hp]
      rfl

theorem IsConsistent.work (hd : d.IsConsistent) : d.work.IsConsistent where
  listed := by
    intro kind
    obtain ⟨hpools, -⟩ := workAll_spec d.tickSeconds hd.exists_roster_of_mem kind
    have hids : (d.work.rosterD kind).ids = (d.rosterD kind).ids := by
      change (((workAll d.tickSeconds d.pools d.instances.toList).1.get? kind).getD {}).ids = _
      rw [hpools, rosterD]
      cases d.pools.get? kind <;> rfl
    rw [hids, hd.listed kind]
    exact (map_id_membersOf_workAll ..).symm
  given := fun id hid => hd.given id (d.keys_work ▸ hid)

/-! ## What a directory shows -/

/-- The maps of a directory agree, and show a fleet. -/
structure Shows (d : Directory) (f : SimulatedFleet) : Prop where
  isConsistent : d.IsConsistent
  view_eq : d.view = f

namespace Shows

theorem register (h : d.Shows f) (kind : Kind) : (d.register kind).Shows (f.register kind) := by
  obtain ⟨hd, rfl⟩ := h
  exact ⟨hd.upsert kind fun _ => rfl, hd.view_upsert kind fun _ _ => rfl⟩

theorem submit (h : d.Shows f) (a : Arrival) : (d.submit a).Shows (f.submit a) := by
  obtain ⟨hd, rfl⟩ := h
  exact ⟨hd.upsert a.kind fun _ => rfl, hd.view_upsert a.kind fun _ _ => rfl⟩

theorem create (h : d.Shows f) (kind : Kind) : (d.create kind).Shows (f.create kind) := by
  obtain ⟨hd, rfl⟩ := h
  exact ⟨hd.create kind, hd.view_create kind⟩

theorem destroy (h : d.Shows f) (id : InstanceId) : (d.destroy id).Shows (f.destroy id) := by
  obtain ⟨hd, rfl⟩ := h
  exact ⟨hd.destroy id, hd.view_destroy id⟩

theorem work (h : d.Shows f) : d.work.Shows f.work := by
  obtain ⟨hd, rfl⟩ := h
  exact ⟨hd.work, hd.view_work⟩

theorem receive (h : d.Shows f) : d.receive.Shows f.receive := by
  obtain ⟨hd, rfl⟩ := h
  have hlater : Shows { d with arrivals := d.arrivals.dropWhile fun a => a.tick ≤ d.tick }
      { d.view with arrivals := d.arrivals.dropWhile fun a => a.tick ≤ d.tick } :=
    ⟨⟨hd.listed, hd.given⟩, rfl⟩
  exact List.foldl_rel hlater fun a _ _ _ h => h.submit a

theorem advance (h : d.Shows f) : d.advance.Shows f.advance := by
  obtain ⟨hd, rfl⟩ := h
  have hnext : Shows { d with tick := d.tick + 1 } { d.view with tick := d.tick + 1 } :=
    ⟨⟨hd.listed, hd.given⟩, rfl⟩
  exact hnext.receive.work

theorem load (h : d.Shows f) (t : Trace) :
    (d.load t).1.Shows (f.load t).1 ∧ (d.load t).2 = (f.load t).2 := by
  obtain ⟨hd, heq⟩ : (t.allKinds.foldl Directory.register d).Shows
      (t.allKinds.foldl SimulatedFleet.register f) :=
    List.foldl_rel h fun kind _ _ _ h => h.register kind
  unfold Directory.load SimulatedFleet.load
  rw [← heq]
  cases t.arrivals with
  | error e => exact ⟨⟨hd, rfl⟩, rfl⟩
  | ok arrivals => exact ⟨⟨⟨hd.listed, hd.given⟩, rfl⟩, rfl⟩

end Shows

end Directory

end FleetSizing
