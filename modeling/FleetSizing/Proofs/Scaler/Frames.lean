import FleetSizing.Fleet.Script
import FleetSizing.Proofs.Scaler.Ticks
import Mathlib.Data.List.Flatten
/-!
# Reading frames

A tick on a scripted fleet succeeds if nothing is wrong with the frame that is shown,
whatever the idle counts are.  It then reads every pool as it stands in the frame.
-/

namespace FleetSizing

open Scaler

namespace Frame

variable {f g : Frame} {kind : Kind}

def kinds (f : Frame) : List Kind := f.map (·.1)

def members (f : Frame) : List Snapshot := f.flatMap fun entry => entry.2.getD []

/-- Nothing is wrong with the pools of a frame. -/
structure IsReadable (f : Frame) : Prop where
  isSome : ∀ entry ∈ f, entry.2.isSome = true
  nodup : (f.members.map (·.id)).Nodup
  isFraction : ∀ s ∈ f.members, isFraction s.utilization = true

def visits (f : Frame) : List Visit := f.map fun entry => (entry.1, entry.2.getD [])

theorem map_fst_visits (f : Frame) : f.visits.map (·.1) = f.kinds := by
  unfold visits kinds
  rw [List.map_map]
  rfl

theorem members_append (f g : Frame) : members (f ++ g) = f.members ++ g.members :=
  List.flatMap_append

theorem mem_members {entry : Kind × Option (List Snapshot)} (hentry : entry ∈ f) {s : Snapshot}
    (hs : s ∈ entry.2.getD []) : s ∈ f.members :=
  List.mem_flatMap.2 ⟨entry, hentry, hs⟩

theorem IsReadable.sublist (hf : f.IsReadable) (h : g.Sublist f) : g.IsReadable := by
  have hmembers : g.members.Sublist f.members := h.flatMap _
  refine ⟨fun entry hentry => hf.isSome entry (h.subset hentry), ?_, ?_⟩
  · exact hf.nodup.sublist (hmembers.map _)
  · exact fun s hs => hf.isFraction s (hmembers.subset hs)

theorem IsReadable.perm (hf : f.IsReadable) (h : f.Perm g) : g.IsReadable := by
  have hmembers : f.members.Perm g.members := h.flatMap_right _
  refine ⟨fun entry hentry => hf.isSome entry (h.mem_iff.2 hentry), ?_, ?_⟩
  · exact (hmembers.map _).nodup_iff.1 hf.nodup
  · exact fun s hs => hf.isFraction s (hmembers.mem_iff.2 hs)

theorem pool?_eq (hkinds : f.kinds.Nodup) {entry : Kind × Option (List Snapshot)}
    (hentry : entry ∈ f) : f.pool? entry.1 = entry.2 := by
  rw [pool?, find?_eq_of_nodup hkinds hentry, Option.bind_some]

theorem member?_eq (hnodup : (f.members.map (·.id)).Nodup) {s : Snapshot} (hs : s ∈ f.members) :
    f.member? s.id = some s :=
  find?_eq_of_nodup hnodup hs

end Frame

namespace Script

variable {script : Script} {kind : Kind}

theorem utilization_eq (hnodup : (script.current.members.map (·.id)).Nodup) {s : Snapshot}
    (hs : s ∈ script.current.members) : Fleet.utilization script s.id = s.utilization := by
  change ((script.current.member? s.id).map _).getD _ = _
  rw [Frame.member?_eq hnodup hs]
  rfl

theorem snapshot_eq (hnodup : (script.current.members.map (·.id)).Nodup) {s : Snapshot}
    (hs : s ∈ script.current.members) : Fleet.snapshot script s.id = s := by
  have hbusy : Fleet.isBusy script s.id = s.busy := by
    change ((script.current.member? s.id).map _).getD _ = _
    rw [Frame.member?_eq hnodup hs]
    rfl
  rw [Fleet.snapshot, hbusy, utilization_eq hnodup hs]

theorem readPool_eq (hf : script.current.IsReadable) (hkinds : script.current.kinds.Nodup)
    {entry : Kind × Option (List Snapshot)} (hentry : entry ∈ script.current)
    {seen : List InstanceId} (hseen : ∀ s ∈ entry.2.getD [], s.id ∉ seen) :
    readPool script seen entry.1 = .ok (entry.2.getD []) := by
  obtain ⟨pool, hpool⟩ := Option.isSome_iff_exists.1 (hf.isSome entry hentry)
  rw [hpool, Option.getD_some] at hseen ⊢
  have hmem : ∀ s ∈ pool, s ∈ script.current.members := fun s hs =>
    Frame.mem_members hentry (by rwa [hpool])
  have hids : ∀ id ∈ pool.map (·.id), ∃ s ∈ pool, s.id = id := fun id hid => List.mem_map.1 hid
  refine readPool_eq_ok_iff.2 ⟨pool.map (·.id), ?_, ⟨?_, ?_, ?_⟩, ?_⟩
  · change (script.current.pool? entry.1).map _ = _
    rw [Frame.pool?_eq hkinds hentry, hpool]
    rfl
  · have hsublist : pool.Sublist script.current.members := by
      have h := (List.singleton_sublist.2 hentry).flatMap fun entry => entry.2.getD []
      simpa [Frame.members, hpool] using h
    exact hf.nodup.sublist (hsublist.map _)
  · intro id hid
    obtain ⟨s, hs, rfl⟩ := hids id hid
    exact hseen s hs
  · intro id hid
    obtain ⟨s, hs, rfl⟩ := hids id hid
    rw [utilization_eq hf.nodup (hmem s hs)]
    exact hf.isFraction s (hmem s hs)
  · rw [List.map_map]
    exact (List.map_id pool).symm.trans
      (List.map_congr_left fun s hs => (snapshot_eq hf.nodup (hmem s hs)).symm)

theorem applyAll_eq (script : Script) (actions : List Action) :
    Fleet.applyAll script actions = script := by
  induction actions with
  | nil => rfl
  | cons a actions ih =>
      cases a with
      | create kind => exact ih
      | destroy kind id => exact ih

variable {c : Config} {p q : Progress Script} {visits : List Visit}

theorem fleet_of_visits (h : Visits c p visits q) : q.fleet = p.fleet := by
  induction h with
  | nil p => rfl
  | cons hread hrest ih => exact ih.trans (applyAll_eq ..)

theorem readPool_of_mem_visits (h : Visits c p visits q) {v : Visit} (hv : v ∈ visits) :
    ∃ seen, readPool p.fleet seen v.1 = .ok v.2 := by
  obtain ⟨before, after, rfl⟩ := List.append_of_mem hv
  obtain ⟨m, hbefore, hread, -⟩ := h.exists_split
  rw [fleet_of_visits hbefore] at hread
  exact ⟨m.seen, hread⟩

theorem exists_visits (script : Script) (hf : script.current.IsReadable)
    (hkinds : script.current.kinds.Nodup) (hp : p.fleet = script) {before after : Frame}
    (heq : script.current = before ++ after) (hseen : p.seen = before.members.map (·.id)) :
    ∃ q, Visits c p after.visits q := by
  induction after generalizing p before with
  | nil => exact ⟨p, .nil p⟩
  | cons entry after ih =>
      have hentry : entry ∈ script.current := by
        rw [heq]
        exact List.mem_append_right _ (List.mem_cons_self ..)
      have hunseen : ∀ s ∈ entry.2.getD [], s.id ∉ p.seen := by
        intro s hs hmem
        have hnodup := hf.nodup
        rw [heq, Frame.members_append, List.map_append, List.nodup_append] at hnodup
        have hlater : s ∈ Frame.members (entry :: after) := List.mem_append_left _ hs
        rw [hseen] at hmem
        exact hnodup.2.2 _ hmem _ (List.mem_map_of_mem hlater) rfl
      have hread := readPool_eq hf hkinds hentry hunseen
      rw [← hp] at hread
      have hrest : script.current = (before ++ [entry]) ++ after := by simpa using heq
      have hseen' : ((p.noteRead entry.1).settle c entry.1 (entry.2.getD [])).seen =
          (Frame.members (before ++ [entry])).map (·.id) := by
        rw [seen_settle, hseen, Frame.members_append, List.map_append]
        simp [Frame.members]
      obtain ⟨q, hq⟩ := ih ((applyAll_eq ..).trans hp) hrest hseen'
      exact ⟨q, .cons hread hq⟩

theorem map_ids_visits (script : Script) (hkinds : script.current.kinds.Nodup)
    (hp : p.fleet = script) (h : Visits c p visits q)
    (hvisited : visits.map (·.1) = script.current.kinds) :
    visits.map (fun v => some (v.2.map (·.id))) =
      script.current.map fun entry => entry.2.map (List.map (·.id)) := by
  calc
    visits.map (fun v => some (v.2.map (·.id))) =
        (visits.map (·.1)).map (Fleet.pool? script) := by
      rw [List.map_map]
      refine List.map_congr_left fun v hv => ?_
      obtain ⟨seen, hv⟩ := readPool_of_mem_visits h hv
      exact hp ▸ (pool?_of_readPool hv).symm
    _ = script.current.map fun entry => entry.2.map (List.map (·.id)) := by
      rw [hvisited, Frame.kinds, List.map_map]
      refine List.map_congr_left fun entry hentry => ?_
      change (script.current.pool? entry.1).map _ = _
      rw [Frame.pool?_eq hkinds hentry]

variable {s : Scaler} {current f : Frame} {ahead : List Frame} {now : Nat}

theorem fleet_tick (s : Scaler) (current f : Frame) (ahead : List Frame) (now : Nat) :
    (s.tick (⟨current, f :: ahead⟩ : Script) now).fleet = ⟨f, ahead⟩ := by
  let P (script : Script) : Prop := script = ⟨f, ahead⟩
  refine fleet_tick_of_invariant (P := P) rfl fun script a hscript => ?_
  cases a with
  | create kind => exact hscript
  | destroy kind id => exact hscript

/-- A tick that shows a readable frame succeeds and decides for the pools of the frame. -/
theorem tick_of_isReadable (hf : f.IsReadable) (hkinds : f.kinds.Nodup) (s : Scaler)
    (current : Frame) (ahead : List Frame) (now : Nat) :
    ∃ r, (s.tick (⟨current, f :: ahead⟩ : Script) now).result = .ok r ∧
      (s.tick (⟨current, f :: ahead⟩ : Script) now).pools = f.visits.map (·.2) ∧
      r.decisions = f.visits.map fun v => (s.config.evaluate s.idle v.1 v.2).2 := by
  let p := s.start (⟨current, f :: ahead⟩ : Script) now
  obtain ⟨q, hvisits⟩ : ∃ q, Visits s.config p f.visits q :=
    exists_visits ⟨f, ahead⟩ hf hkinds rfl (List.nil_append f).symm rfl
  have heq := visitAll_of_visits hvisits
  rw [Frame.map_fst_visits] at heq
  rw [tick_of_visitAll_ok heq]
  exact ⟨_, rfl, hvisits.pools_eq, hvisits.decisions_eq⟩

theorem isReadable_of_ok (hkinds : f.kinds.Nodup) {r : TickReport}
    (h : (s.tick (⟨current, f :: ahead⟩ : Script) now).result = .ok r) : f.IsReadable := by
  let script : Script := ⟨f, ahead⟩
  obtain ⟨visits, q, hvisits, hvisited, -⟩ := tick_of_ok h
  have hpools : visits.map (fun v => some (v.2.map (·.id))) =
      f.map fun entry => entry.2.map (List.map (·.id)) :=
    map_ids_visits script hkinds rfl hvisits hvisited
  have hids : visitedIds visits = f.members.map (·.id) := by
    have hflat := congrArg (List.flatMap fun pool => pool.getD []) hpools
    rw [List.flatMap_map, List.flatMap_map] at hflat
    rw [Frame.members, List.map_flatMap]
    refine hflat.trans (List.flatMap_congr fun entry _ => ?_)
    cases entry.2 <;> rfl
  have hnodup := hvisits.nodup_seen List.nodup_nil
  rw [hvisits.seen_eq] at hnodup
  change (visitedIds visits).Nodup at hnodup
  rw [hids] at hnodup
  refine ⟨fun entry hentry => ?_, hnodup, fun member hmember => ?_⟩
  · have hmem := List.mem_map_of_mem (f := fun entry => entry.2.map (List.map (·.id))) hentry
    rw [← hpools] at hmem
    obtain ⟨v, -, hv⟩ := List.mem_map.1 hmem
    rw [← Option.isSome_map, ← hv]
    exact Option.isSome_some
  · have hid : member.id ∈ visitedIds visits := by
      rw [hids]
      exact List.mem_map_of_mem hmember
    obtain ⟨v, hv, hmem⟩ := List.mem_flatMap.1 hid
    obtain ⟨seen, hread⟩ := readPool_of_mem_visits hvisits hv
    have hfraction : isFraction (Fleet.utilization script member.id) = true :=
      (isReadable_of_readPool hread).isFraction _ hmem
    rwa [utilization_eq hnodup hmember] at hfraction

end Script

end FleetSizing
