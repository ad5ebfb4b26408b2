import FleetSizing.Proofs.SimulatedFleet.Changes
import FleetSizing.Proofs.SimulatedFleet.Workload
/-!
# Single instances

What a change to a fleet means for one of its instances: it is created, it is destroyed, it
works for a tick, or it stays as it is.
-/

namespace FleetSizing

namespace Pool

variable {p : Pool} {seconds : Nat}

/-- What a tick of `seconds` brings to one of the instances. -/
def turn? (p : Pool) (seconds : Nat) (id : InstanceId) : Option Turn :=
  ((p.workload seconds).find? (·.1.id = id)).map (·.2)

theorem map_id_workload (p : Pool) (seconds : Nat) :
    (p.workload seconds).map (·.1.id) = p.ids := by
  rw [ids, ← p.map_fst_workload seconds, List.map_map]
  rfl

theorem IsSound.turn?_eq (hp : p.IsSound) {e : Instance × Turn} (he : e ∈ p.workload seconds) :
    p.turn? seconds e.1.id = some e.2 := by
  have hnodup : ((p.workload seconds).map (·.1.id)).Nodup := by
    rw [map_id_workload]
    exact hp.nodup
  rw [turn?, find?_eq_of_nodup hnodup he, Option.map_some]

theorem turn?_eq_none {id : InstanceId} (hid : id ∉ p.ids) : p.turn? seconds id = none := by
  rw [turn?, Option.map_eq_none_iff, List.find?_eq_none]
  intro e he
  rw [← p.map_id_workload seconds] at hid
  have hne : e.1.id ≠ id := fun heq => hid (heq ▸ List.mem_map_of_mem he)
  simpa using hne

theorem used_le_of_turn? {id : InstanceId} {t : Turn} (h : p.turn? seconds id = some t) :
    t.used ≤ seconds := by
  obtain ⟨e, he, rfl⟩ := Option.map_eq_some_iff.1 h
  exact used_le_of_mem_turns (List.of_mem_zip (List.mem_of_find?_eq_some he)).2

end Pool

namespace SimulatedFleet

variable {f g : SimulatedFleet} {kind : Kind} {id : InstanceId} {i : Instance}

/-- What the next tick brings to an instance. -/
def turn (f : SimulatedFleet) (id : InstanceId) : Turn :=
  (f.atWork.pools.values.findSome? (·.turn? f.tickSeconds id)).getD ⟨none, 0, 0⟩

def spent (f : SimulatedFleet) (id : InstanceId) : Nat := (f.turn id).used

def share (f : SimulatedFleet) (id : InstanceId) : Float :=
  Float.ofNat (f.spent id) / Float.ofNat f.tickSeconds

theorem spent_le (f : SimulatedFleet) (id : InstanceId) : f.spent id ≤ f.tickSeconds := by
  unfold spent turn
  cases h : f.atWork.pools.values.findSome? (·.turn? f.tickSeconds id) with
  | none => exact Nat.zero_le _
  | some t =>
      obtain ⟨p, -, ht⟩ := List.exists_of_findSome?_eq_some h
      exact Pool.used_le_of_turn? ht

theorem IsSound.isFraction_share (hf : f.IsSound) (id : InstanceId) :
    isFraction (f.share id) = true :=
  FleetSizing.isFraction_share f.tickSeconds_pos (f.spent_le id) hf.tickSeconds_lt

theorem IsSound.atWork (hf : f.IsSound) : f.atWork.IsSound :=
  (hf.reschedule (f.tick + 1) f.arrivals).receive

theorem IsSound.turn_eq (hf : f.IsSound) {e : Instance × Turn}
    (he : e ∈ (f.atWork.poolD kind).workload f.tickSeconds) : f.turn e.1.id = e.2 := by
  have hid : e.1.id ∈ (f.atWork.poolD kind).ids := by
    rw [← Pool.map_id_workload _ f.tickSeconds]
    exact List.mem_map_of_mem he
  obtain ⟨p, hp, hmem⟩ := get?_of_mem_poolD hid
  rw [poolD_of_get? hp] at he
  have hturn := (hf.atWork.pool kind p hp).turn?_eq he
  rw [turn, hf.atWork.findSome?_values hp hmem (fun _ => Pool.turn?_eq_none) hturn,
    Option.getD_some]

theorem instances_poolD_atWork (f : SimulatedFleet) (kind : Kind) :
    (f.atWork.poolD kind).instances = (f.poolD kind).instances := by
  rw [poolD_atWork, Pool.receive_eq]

theorem IsSound.instances_poolD_advance (hf : f.IsSound) (kind : Kind) :
    (f.advance.poolD kind).instances =
      (f.poolD kind).instances.map fun i => i.after f.tickSeconds (f.turn i.id) := by
  rw [poolD_advance, Pool.instances_work, ← instances_poolD_atWork,
    ← (f.atWork.poolD kind).map_fst_workload f.tickSeconds, List.map_map]
  refine List.map_congr_left fun e he => ?_
  rw [Function.comp_apply, hf.turn_eq he]

theorem IsSound.instance?_eq_some_iff (hf : f.IsSound) :
    f.instance? id = some i ↔ i.id = id ∧ ∃ kind, i ∈ (f.poolD kind).instances := by
  constructor
  · intro h
    obtain ⟨p, hp, hfind⟩ := List.exists_of_findSome?_eq_some h
    obtain ⟨⟨kind, p⟩, hentry, rfl⟩ := List.mem_map.1 hp
    refine ⟨by simpa using List.find?_some hfind, kind, ?_⟩
    rw [poolD_of_get? (SortedMap.get?_eq_some_iff.2 hentry)]
    exact List.mem_of_find?_eq_some hfind
  · rintro ⟨rfl, kind, hi⟩
    obtain ⟨p, hp, -⟩ := get?_of_mem_poolD (List.mem_map_of_mem hi)
    rw [poolD_of_get? hp] at hi
    exact hf.instance?_eq hp hi

theorem IsSound.le_lastId_of_instance? (hf : f.IsSound) (h : f.instance? id = some i) :
    id ≤ f.lastId := by
  obtain ⟨rfl, kind, hi⟩ := hf.instance?_eq_some_iff.1 h
  obtain ⟨p, hp, hid⟩ := get?_of_mem_poolD (List.mem_map_of_mem hi)
  exact hf.le_lastId kind p hp _ hid

theorem IsSound.instance?_congr (hf : f.IsSound) (hg : g.IsSound)
    (h : ∀ kind, (g.poolD kind).instances = (f.poolD kind).instances) (id : InstanceId) :
    g.instance? id = f.instance? id := by
  ext i
  rw [hg.instance?_eq_some_iff, hf.instance?_eq_some_iff]
  simp only [h]

theorem IsSound.instance?_register (hf : f.IsSound) (kind : Kind) (id : InstanceId) :
    (f.register kind).instance? id = f.instance? id :=
  hf.instance?_congr (hf.register kind) (fun kind' => by rw [poolD_register]) id

theorem IsSound.instance?_load (hf : f.IsSound) (t : Trace) (id : InstanceId) :
    (f.load t).1.instance? id = f.instance? id :=
  hf.instance?_congr (hf.load t) (fun kind => by rw [poolD_load]) id

theorem IsSound.instance?_create (hf : f.IsSound) (kind : Kind) (id : InstanceId) :
    (f.create kind).instance? id =
      if id = f.lastId + 1 then some { id, window := .ofCapacity f.windowTicks }
      else f.instance? id := by
  have hmem (kind' : Kind) (i : Instance) : i ∈ ((f.create kind).poolD kind').instances ↔
      i ∈ (f.poolD kind').instances ∨
        kind' = kind ∧ i = { id := f.lastId + 1, window := .ofCapacity f.windowTicks } := by
    rw [poolD_create]
    split
    next heq => simp [heq, Pool.add]
    next hne => simp [hne]
  split
  next heq =>
    rw [(hf.create kind).instance?_eq_some_iff]
    exact ⟨rfl, kind, (hmem kind _).2 (Or.inr ⟨rfl, heq ▸ rfl⟩)⟩
  next hne =>
    ext i
    rw [(hf.create kind).instance?_eq_some_iff, hf.instance?_eq_some_iff]
    simp only [hmem]
    constructor
    · rintro ⟨rfl, kind', hi | ⟨-, rfl⟩⟩
      · exact ⟨rfl, kind', hi⟩
      · exact absurd rfl hne
    · rintro ⟨rfl, kind', hi⟩
      exact ⟨rfl, kind', Or.inl hi⟩

theorem IsSound.instance?_destroy (hf : f.IsSound) (id id' : InstanceId) :
    (f.destroy id').instance? id = if id = id' then none else f.instance? id := by
  have hmem (kind : Kind) (i : Instance) : i ∈ ((f.destroy id').poolD kind).instances ↔
      i ∈ (f.poolD kind).instances ∧ i.id ≠ id' := by
    rw [poolD_destroy, Pool.instances_remove, List.mem_filter, decide_eq_true_iff]
  ext i
  rw [(hf.destroy id').instance?_eq_some_iff]
  simp only [hmem]
  split
  next heq => simp +contextual [heq]
  next hne =>
    rw [hf.instance?_eq_some_iff]
    constructor
    · rintro ⟨rfl, kind, hi, -⟩
      exact ⟨rfl, kind, hi⟩
    · rintro ⟨rfl, kind, hi⟩
      exact ⟨rfl, kind, hi, hne⟩

theorem IsSound.instance?_advance (hf : f.IsSound) (id : InstanceId) :
    f.advance.instance? id =
      (f.instance? id).map fun i => i.after f.tickSeconds (f.turn id) := by
  ext i
  rw [hf.advance.instance?_eq_some_iff, Option.map_eq_some_iff]
  simp only [hf.instances_poolD_advance, List.mem_map, hf.instance?_eq_some_iff]
  constructor
  · rintro ⟨rfl, kind, j, hj, rfl⟩
    exact ⟨j, ⟨rfl, kind, hj⟩, rfl⟩
  · rintro ⟨j, ⟨rfl, kind, hj⟩, rfl⟩
    exact ⟨rfl, kind, j, hj, rfl⟩

end SimulatedFleet

end FleetSizing
