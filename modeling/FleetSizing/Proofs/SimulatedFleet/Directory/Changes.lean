import FleetSizing.Proofs.SimulatedFleet.Changes
import FleetSizing.Proofs.SimulatedFleet.Directory.View
/-!
# Directories in use

Whatever is done with a directory, its two maps stay in agreement, it shows the fleet that the
same changes lead to, and no id enters it twice.
-/

namespace FleetSizing

namespace Directory

def change (d : Directory) : Change → Directory
  | .register kind => d.register kind
  | .load trace => (d.load trace).1
  | .request action => Fleet.apply d action
  | .sync now => Fleet.sync d now

def changeAll (d : Directory) (cs : List Change) : Directory := cs.foldl change d

def issuedBy (d : Directory) (c : Change) : List InstanceId :=
  (d.change c).instances.keys.filter (· ∉ d.instances.keys)

def issued (d : Directory) : List Change → List InstanceId
  | [] => []
  | c :: cs => d.issuedBy c ++ (d.change c).issued cs

variable {d : Directory} {f : SimulatedFleet}

theorem Shows.change (h : d.Shows f) (c : Change) : (d.change c).Shows (f.change c) := by
  cases c with
  | register kind => exact h.register kind
  | load trace => exact (h.load trace).1
  | request action =>
      cases action with
      | create kind => exact h.create kind
      | destroy kind id => exact h.destroy id
  | sync now => exact h.advance

theorem Shows.changeAll (h : d.Shows f) (cs : List Change) :
    (d.changeAll cs).Shows (f.changeAll cs) :=
  List.foldl_rel h fun c _ _ _ h => h.change c

/-- The pools share no instance and list exactly those of the directory, each under its kind. -/
structure IsIndexed (d : Directory) : Prop where
  ids_lt : ∀ kind p, d.pools.get? kind = some p → p.ids.Pairwise (· < ·)
  disjoint : ∀ kind p kind' p', d.pools.get? kind = some p → d.pools.get? kind' = some p' →
    kind ≠ kind' → p.ids.Disjoint p'.ids
  mem_iff : ∀ id kind, (∃ p, d.pools.get? kind = some p ∧ id ∈ p.ids) ↔
    ∃ r, d.instances.get? id = some r ∧ r.kind = kind
  given : ∀ id ∈ d.instances.keys, 1 ≤ id ∧ id ≤ d.lastId

theorem IsConsistent.isIndexed (hd : d.IsConsistent) : d.IsIndexed := by
  have hlisted (kind : Kind) (p : Roster) (hp : d.pools.get? kind = some p) :
      p.ids = (d.members kind).map (·.id) := by
    have h := hd.listed kind
    rwa [rosterD, hp, Option.getD_some] at h
  have hmem (id : InstanceId) (kind : Kind) : (∃ p, d.pools.get? kind = some p ∧ id ∈ p.ids) ↔
      ∃ r, d.instances.get? id = some r ∧ r.kind = kind := by
    constructor
    · rintro ⟨p, hp, hid⟩
      rw [hlisted kind p hp] at hid
      exact mem_map_id_members_iff.1 hid
    · rintro ⟨r, hr, rfl⟩
      exact hd.exists_roster hr
  refine ⟨fun kind p hp => ?_, ?_, hmem, hd.given⟩
  · rw [hlisted kind p hp]
    exact d.pairwise_members kind
  · intro kind p kind' p' hp hp' hne id hid hid'
    obtain ⟨r, hr, rfl⟩ := (hmem id kind).1 ⟨p, hp, hid⟩
    obtain ⟨r', hr', rfl⟩ := (hmem id kind').1 ⟨p', hp', hid'⟩
    rw [hr] at hr'
    cases hr'
    exact hne rfl

theorem instances_foldl_register (d : Directory) (kinds : List Kind) :
    (kinds.foldl register d).instances = d.instances :=
  List.foldlRecOn (motive := fun d' : Directory => d'.instances = d.instances) kinds register rfl
    fun _ h _ _ => h

theorem instances_foldl_submit (d : Directory) (arrivals : List Arrival) :
    (arrivals.foldl submit d).instances = d.instances :=
  List.foldlRecOn (motive := fun d' : Directory => d'.instances = d.instances) arrivals submit rfl
    fun _ h _ _ => h

theorem keys_load (d : Directory) (t : Trace) :
    (d.load t).1.instances.keys = d.instances.keys := by
  have hregistered := congrArg SortedMap.keys (d.instances_foldl_register t.allKinds)
  unfold load
  split <;> exact hregistered

theorem keys_advance (d : Directory) : d.advance.instances.keys = d.instances.keys :=
  (keys_work _).trans (congrArg SortedMap.keys (instances_foldl_submit ..))

theorem issuedBy_of_subset {c : Change}
    (h : (d.change c).instances.keys ⊆ d.instances.keys) : d.issuedBy c = [] :=
  List.filter_eq_nil_iff.2 fun id hid => by simpa using h hid

theorem IsConsistent.issuedBy_create (hd : d.IsConsistent) (kind : Kind) :
    d.issuedBy (.request (.create kind)) = [d.lastId + 1] := by
  have hkeys : (d.create kind).instances.keys = d.instances.keys ++ [d.lastId + 1] := by
    unfold SortedMap.keys
    rw [hd.toList_instances_create, List.map_append]
    rfl
  have hnew : d.lastId + 1 ∉ d.instances.keys :=
    fun hid => Nat.not_succ_le_self _ (hd.given _ hid).2
  have hnone : d.instances.keys.filter (· ∉ d.instances.keys) = [] :=
    List.filter_eq_nil_iff.2 fun id hid => by simpa using hid
  change (d.create kind).instances.keys.filter (· ∉ d.instances.keys) = _
  rw [hkeys, List.filter_append, hnone, List.nil_append, List.filter_singleton]
  simp [hnew]

theorem IsConsistent.issuedBy_eq (hd : d.IsConsistent) (c : Change) :
    d.issuedBy c = List.range' (d.lastId + 1) c.creates := by
  match c with
  | .register kind => exact issuedBy_of_subset (List.Subset.refl _)
  | .load trace => exact issuedBy_of_subset (List.Perm.of_eq (d.keys_load trace)).subset
  | .request (.create kind) => exact hd.issuedBy_create kind
  | .request (.destroy kind id) => exact issuedBy_of_subset (d.keys_destroy_subset id)
  | .sync now => exact issuedBy_of_subset (List.Perm.of_eq d.keys_advance).subset

theorem Shows.lastId_eq (h : d.Shows f) : d.lastId = f.lastId :=
  congrArg SimulatedFleet.lastId h.view_eq

theorem Shows.issued_eq (h : d.Shows f) (cs : List Change) :
    d.issued cs = List.range' (d.lastId + 1) (sumOf (·.creates) cs) := by
  induction cs generalizing d f with
  | nil => rfl
  | cons c cs ih =>
      have hlast : (d.change c).lastId = d.lastId + c.creates := by
        rw [(h.change c).lastId_eq, f.lastId_change, h.lastId_eq]
      change d.issuedBy c ++ (d.change c).issued cs = _
      rw [h.isConsistent.issuedBy_eq, ih (h.change c), hlast, Nat.add_right_comm,
        List.range'_append_1, sumOf_cons]

theorem exists_ofConfig {c : Config} (hf : SimulatedFleet.ofConfig c = .ok f) :
    ∃ d, ofConfig c = .ok d ∧ d.Shows f := by
  obtain ⟨-, -, heq⟩ := SimulatedFleet.ofConfig_eq_ok hf
  refine ⟨{ tickSeconds := f.tickSeconds, tickSeconds_pos := f.tickSeconds_pos
            windowTicks := f.windowTicks }, ?_, ⟨fun _ => rfl, nofun⟩, heq.symm⟩
  rw [ofConfig, hf]
  rfl

end Directory

/-- Whatever is done with a new fleet, its directory lists every instance once, in the pool of
its kind, and gives no id twice.  The counters tell the number and the ids of the instances
that there have been and the greatest size of each pool, and the schedule has what was loaded
and is not yet over. -/
theorem directory_represents (c : Config) (f₀ : SimulatedFleet)
    (hf₀ : SimulatedFleet.ofConfig c = .ok f₀) (cs : List Change) :
    let f := f₀.changeAll cs
    (∃ d₀, Directory.ofConfig c = .ok d₀ ∧
      let d := d₀.changeAll cs
      d.view = f ∧ d.IsIndexed ∧ (∀ kind, (d.rosterD kind).ids = (f.poolD kind).ids) ∧
        d₀.issued cs = List.range' 1 f.lastId) ∧
    f.lastId = f.createdInstances ∧
    (∀ kind, (f.poolD kind).created = (f.poolD kind).destroyed + (f.poolD kind).size ∧
      IsGreatest (f₀.sizes kind cs) (f.poolD kind).peak) ∧
    f.IsScheduled (cs.flatMap (·.loaded)) (f₀.admitted cs) ∧
    ∀ now, (Fleet.sync f now).arrivals.Perm
      ((cs.flatMap (·.loaded)).filter ((Fleet.sync f now).tick < ·.tick)) := by
  intro f
  have hsound := SimulatedFleet.isSound_ofConfig hf₀
  obtain ⟨d₀, hd₀, hshows₀⟩ := Directory.exists_ofConfig hf₀
  have hshows : (d₀.changeAll cs).Shows f := hshows₀.changeAll cs
  obtain ⟨-, -, hempty⟩ := SimulatedFleet.ofConfig_eq_ok hf₀
  have hlast₀ : f₀.lastId = 0 := congrArg SimulatedFleet.lastId hempty
  have hcreated₀ : f₀.createdInstances = 0 := congrArg SimulatedFleet.createdInstances hempty
  have hpool₀ (kind : Kind) : f₀.poolD kind = {} := congrArg (·.poolD kind) hempty
  have hscheduled₀ : f₀.IsScheduled [] [] := by
    rw [hempty]
    exact ⟨List.Pairwise.nil, List.Perm.refl _, nofun, fun _ => rfl⟩
  have hlast : f.lastId = sumOf (·.creates) cs := by
    rw [f₀.lastId_changeAll, hlast₀, Nat.zero_add]
  have hscheduled : f.IsScheduled (cs.flatMap (·.loaded)) (f₀.admitted cs) :=
    hscheduled₀.changeAll cs
  refine ⟨⟨d₀, hd₀, hshows.view_eq, hshows.isConsistent.isIndexed, fun kind => ?_, ?_⟩, ?_,
    fun kind => ⟨?_, ?_⟩, hscheduled, fun now => hscheduled.perm_arrivals_advance⟩
  · rw [hshows.isConsistent.listed, ← hshows.view_eq, hshows.isConsistent.poolD_view]
    rfl
  · rw [hshows₀.issued_eq, hshows₀.lastId_eq, hlast₀, hlast]
  · rw [hlast, f₀.createdInstances_changeAll, hcreated₀, Nat.zero_add]
  · exact (hsound.isSound_headcount_changeAll (hpool₀ kind ▸ Headcount.isSound_empty) cs).created_eq
  · exact hsound.isGreatest_peak (hpool₀ kind ▸ Headcount.isSound_empty) (by rw [hpool₀]; rfl) cs

/-- An instance is given up under the wrong kind, and so is one that there never was. -/
def wrongKind : List Change :=
  [.request (.create "web"), .load pairTrace, .sync 120, .load { jobs := [⟨"db", 9, "4m", 1⟩] },
    .request (.destroy "db" 1), .request (.destroy "web" 7), .request (.create "db"), .sync 240]

theorem directory_represents_wrongKind :
    ∃ f₀ d₀, SimulatedFleet.ofConfig {} = .ok f₀ ∧ Directory.ofConfig {} = .ok d₀ ∧
      let f := f₀.changeAll wrongKind
      d₀.issued wrongKind = [1, 2] ∧ (d₀.changeAll wrongKind).IsIndexed ∧
        (f.poolD "web").destroyed + (f.poolD "web").size = 1 ∧
        IsGreatest (f₀.sizes "web" wrongKind) 1 ∧
        (Fleet.sync f 360).arrivals = [⟨"db", 9, 240, 1⟩] := by
  have hrun : (do
      let f₀ ← (SimulatedFleet.ofConfig {}).toOption
      let f := f₀.changeAll wrongKind
      return (f.lastId, (f.poolD "web").created, (f.poolD "web").peak,
        (wrongKind.flatMap (·.loaded)).filter ((Fleet.sync f 360).tick < ·.tick))) =
          some (2, 1, 1, [⟨"db", 9, 240, 1⟩]) := by
    decide +kernel
  simp only [bind, Option.bind_eq_some_iff] at hrun
  obtain ⟨f₀, hf₀, heq⟩ := hrun
  have hf := eq_ok_of_toOption hf₀
  have hfigures := Option.some_inj.1 heq
  simp only [Prod.mk.injEq] at hfigures
  obtain ⟨hlast, hcreated, hpeak, hfuture⟩ := hfigures
  obtain ⟨⟨d₀, hd₀, -, hindexed, -, hissued⟩, -, hpools, -, hsync⟩ :=
    directory_represents {} f₀ hf wrongKind
  obtain ⟨hcounts, hgreatest⟩ := hpools "web"
  refine ⟨f₀, d₀, hf, hd₀, ?_, hindexed, hcounts.symm.trans hcreated, ?_, ?_⟩
  · rw [hissued, hlast]
    rfl
  · rwa [hpeak] at hgreatest
  · have hperm := hsync 360
    rw [hfuture] at hperm
    exact List.perm_singleton.1 hperm

end FleetSizing
