import FleetSizing.Proofs.Utilization
import FleetSizing.SimulatedFleet.Pool
import FleetSizing.SortedMap.Lemmas
import Mathlib.Data.List.Basic
/-!
# Sound pools

The ids of a pool increase in the order of its instances, and every utilization window is
sound.  Work changes neither.
-/

namespace FleetSizing

open Binary64

theorem length_turns (seconds : Nat) (instances : List Instance) (backlog : List Nat) :
    (turns seconds instances backlog).1.length = instances.length := by
  induction instances generalizing backlog with
  | nil => rfl
  | cons i instances ih => exact congrArg (· + 1) (ih _)

theorem used_le_of_mem_turns {seconds : Nat} {instances : List Instance} {backlog : List Nat}
    {t : Turn} (ht : t ∈ (turns seconds instances backlog).1) : t.used ≤ seconds := by
  induction instances generalizing backlog with
  | nil => cases ht
  | cons i instances ih =>
      rcases List.mem_cons.1 ht with rfl | ht
      · exact used_serve_le ..
      · exact ih ht

namespace Pool

variable {p : Pool} {id : InstanceId}

theorem ids_add (capacity : Nat) : (p.add id capacity).ids = p.ids ++ [id] := by
  unfold ids add
  rw [List.map_append]
  rfl

theorem find?_eq_none_iff : p.find? id = none ↔ id ∉ p.ids := by
  unfold find? ids
  rw [List.find?_eq_none, List.mem_map]
  simp only [decide_eq_true_iff, not_exists, not_and]

theorem remove_of_not_mem (h : id ∉ p.ids) : p.remove id = p := by
  rw [remove, find?_eq_none_iff.2 h]

theorem instances_remove (p : Pool) (id : InstanceId) :
    (p.remove id).instances = p.instances.filter (·.id ≠ id) := by
  unfold remove
  split
  next hnone =>
    symm
    rw [List.filter_eq_self]
    intro i hi
    have hne : i.id ≠ id := by
      rintro rfl
      exact find?_eq_none_iff.1 hnone (List.mem_map_of_mem hi)
    simpa using hne
  next => rfl

def workload (p : Pool) (seconds : Nat) : List (Instance × Turn) :=
  p.instances.zip (turns seconds p.instances p.backlog).1

theorem map_fst_workload (p : Pool) (seconds : Nat) :
    (p.workload seconds).map (·.1) = p.instances :=
  List.map_fst_zip (length_turns ..).ge

theorem instances_work (p : Pool) (seconds : Nat) :
    (p.work seconds).instances = (p.workload seconds).map fun e => e.1.after seconds e.2 :=
  List.map_uncurry_zip_eq_zipWith.symm

theorem ids_work (p : Pool) (seconds : Nat) : (p.work seconds).ids = p.ids := by
  calc
    (p.work seconds).ids = ((p.workload seconds).map (·.1)).map (·.id) := by
      rw [ids, instances_work, List.map_map, List.map_map]
      rfl
    _ = p.ids := by rw [map_fst_workload, ids]

/-- The ids increase, and every window is sound. -/
structure IsSound (p : Pool) : Prop where
  ids_lt : p.ids.Pairwise (· < ·)
  window : ∀ i ∈ p.instances, i.window.IsSound

theorem isSound_empty : ({} : Pool).IsSound := ⟨List.Pairwise.nil, nofun⟩

theorem IsSound.nodup (hp : p.IsSound) : p.ids.Nodup := hp.ids_lt.imp Nat.ne_of_lt

theorem IsSound.add (hp : p.IsSound) (hid : ∀ id' ∈ p.ids, id' < id) {capacity : Nat}
    (hcapacity : capacity < Text.word32) : (p.add id capacity).IsSound where
  ids_lt := by
    rw [ids_add, List.pairwise_append]
    refine ⟨hp.ids_lt, List.pairwise_singleton .., fun id' hid' y hy => ?_⟩
    rw [List.mem_singleton.1 hy]
    exact hid id' hid'
  window := by
    intro i hi
    rcases List.mem_append.1 hi with hi | hi
    · exact hp.window i hi
    · rw [List.mem_singleton.1 hi]
      exact Window.isSound_ofCapacity hcapacity

theorem ids_remove (p : Pool) (id : InstanceId) : (p.remove id).ids = p.ids.filter (· ≠ id) := by
  unfold ids
  rw [instances_remove, List.filter_map]
  rfl

theorem IsSound.remove (hp : p.IsSound) (id : InstanceId) : (p.remove id).IsSound where
  ids_lt := by
    rw [ids_remove]
    exact hp.ids_lt.filter _
  window := by
    intro i hi
    rw [instances_remove] at hi
    exact hp.window i (List.mem_of_mem_filter hi)

theorem IsSound.submit (hp : p.IsSound) (seconds count : Nat) :
    (p.submit seconds count).IsSound := ⟨hp.ids_lt, hp.window⟩

theorem IsSound.work (hp : p.IsSound) {seconds : Nat} (hpos : 0 < seconds)
    (hseconds : seconds < Text.word64) : (p.work seconds).IsSound where
  ids_lt := by
    rw [ids_work]
    exact hp.ids_lt
  window := by
    intro i hi
    rw [instances_work] at hi
    obtain ⟨⟨j, t⟩, hjt, rfl⟩ := List.mem_map.1 hi
    obtain ⟨hj, ht⟩ := List.of_mem_zip hjt
    exact (hp.window j hj).record (isFraction_share hpos (used_le_of_mem_turns ht) hseconds)

def snapshots (p : Pool) : List Snapshot :=
  p.instances.map fun i => { id := i.id, busy := i.isBusy, utilization := i.window.average }

theorem map_id_snapshots (p : Pool) : p.snapshots.map (·.id) = p.ids := by
  unfold snapshots ids
  rw [List.map_map]
  rfl

theorem IsSound.find?_eq (hp : p.IsSound) {i : Instance} (hi : i ∈ p.instances) :
    p.find? i.id = some i :=
  find?_eq_of_nodup hp.nodup hi

end Pool

end FleetSizing
