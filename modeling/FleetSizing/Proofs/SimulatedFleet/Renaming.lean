import FleetSizing.Proofs.Scaler.Renaming
import FleetSizing.Proofs.SimulatedFleet.Requests
import FleetSizing.Summary.Basic
import Mathlib.Order.Monotone.Basic
/-!
# Renamed pools

Arrival, work and requests do to a pool whose instances are called otherwise what they do to
the pool itself.  New instances are called as the renaming says where it counts on, from the
latest id of the one pool, as the ids of the other do.
-/

namespace FleetSizing

variable {ρ ρ' : InstanceId → InstanceId}

def Instance.rename (ρ : InstanceId → InstanceId) (i : Instance) : Instance :=
  { i with id := ρ i.id }

theorem turns_rename (seconds : Nat) (instances : List Instance) (backlog : List Nat) :
    turns seconds (instances.map (·.rename ρ)) backlog = turns seconds instances backlog := by
  induction instances generalizing backlog with
  | nil => rfl
  | cons i instances ih =>
      have hturn : (i.rename ρ).turn seconds backlog = i.turn seconds backlog := rfl
      simp only [List.map_cons, turns, hturn, ih]

namespace Pool

def rename (ρ : InstanceId → InstanceId) (p : Pool) : Pool :=
  { p with instances := p.instances.map (·.rename ρ) }

variable {p : Pool}

theorem ids_rename (p : Pool) : (p.rename ρ).ids = p.ids.map ρ := by
  unfold ids rename
  rw [List.map_map, List.map_map]
  rfl

theorem rename_congr (h : ∀ x ∈ p.ids, ρ x = ρ' x) : p.rename ρ = p.rename ρ' := by
  have hinstances : p.instances.map (·.rename ρ) = p.instances.map (·.rename ρ') := by
    refine List.map_congr_left fun i hi => ?_
    unfold Instance.rename
    rw [h i.id (List.mem_map_of_mem hi)]
  unfold rename
  rw [hinstances]

theorem snapshots_rename (p : Pool) :
    (p.rename ρ).snapshots = p.snapshots.map (·.rename ρ) := by
  unfold snapshots rename
  rw [List.map_map, List.map_map]
  rfl

theorem summary_rename (kind : Kind) (p : Pool) :
    (p.rename ρ).summary kind = p.summary kind := by
  unfold summary size rename
  rw [List.length_map]

theorem receive_rename (p : Pool) (arrivals : List Arrival) :
    (p.rename ρ).receive arrivals = (p.receive arrivals).rename ρ := by
  induction arrivals generalizing p with
  | nil => rfl
  | cons a arrivals ih => exact ih (p.submit a.seconds a.count)

theorem work_rename (p : Pool) (seconds : Nat) :
    (p.rename ρ).work seconds = (p.work seconds).rename ρ := by
  unfold work rename
  simp only [turns_rename, List.zipWith_map_left, List.map_zipWith]
  rfl

theorem add_rename (p : Pool) (id : InstanceId) (capacity : Nat) :
    (p.rename ρ).add (ρ id) capacity = (p.add id capacity).rename ρ := by
  unfold add size rename
  rw [List.map_append, List.length_map]
  rfl

theorem remove_rename (hρ : Function.Injective ρ) (p : Pool) (id : InstanceId) :
    (p.rename ρ).remove (ρ id) = (p.remove id).rename ρ := by
  have hsame : ((fun i : Instance => decide (i.id = ρ id)) ∘ Instance.rename ρ) =
      fun i => decide (i.id = id) := by
    funext i
    exact decide_eq_decide.2 hρ.eq_iff
  have hother : ((fun i : Instance => decide (i.id ≠ ρ id)) ∘ Instance.rename ρ) =
      fun i => decide (i.id ≠ id) := by
    funext i
    exact decide_eq_decide.2 hρ.ne_iff
  unfold remove find? rename
  rw [List.find?_map, List.filter_map, hsame, hother]
  cases p.instances.find? (·.id = id) with
  | none => rfl
  | some i => rfl

/-- The first pool is the second one renamed, and the ids after its latest id are those after
the latest id of the second one, renamed. -/
structure IsRenamed (ρ : InstanceId → InstanceId) (e e' : Pool × InstanceId) : Prop where
  pool : e.1 = e'.1.rename ρ
  next : ∀ n, ρ (e'.2 + 1 + n) = e.2 + 1 + n

variable {e e' : Pool × InstanceId}

theorem IsRenamed.apply (h : IsRenamed ρ e e') (hρ : Function.Injective ρ) (capacity : Nat)
    (a : Action) :
    IsRenamed ρ (Pool.apply capacity e (a.rename ρ)) (Pool.apply capacity e' a) := by
  cases a with
  | create kind =>
      refine ⟨?_, fun n => ?_⟩
      · have hid : e.2 + 1 = ρ (e'.2 + 1) := (h.next 0).symm
        change e.1.add (e.2 + 1) capacity = (e'.1.add (e'.2 + 1) capacity).rename ρ
        rw [h.pool, hid, add_rename]
      · change ρ (e'.2 + 1 + 1 + n) = e.2 + 1 + 1 + n
        rw [Nat.add_assoc, Nat.add_assoc (e.2 + 1)]
        exact h.next (1 + n)
  | destroy kind id =>
      refine ⟨?_, h.next⟩
      change e.1.remove (ρ id) = (e'.1.remove id).rename ρ
      rw [h.pool, remove_rename hρ]

theorem IsRenamed.applyAll (h : IsRenamed ρ e e') (hρ : Function.Injective ρ) (capacity : Nat)
    (actions : List Action) :
    IsRenamed ρ (Pool.applyAll capacity e (actions.map (·.rename ρ)))
      (Pool.applyAll capacity e' actions) := by
  induction actions generalizing e e' with
  | nil => exact h
  | cons a actions ih => exact ih (h.apply hρ capacity a)

theorem mem_ids_applyAll {capacity : Nat} {actions : List Action} {x : InstanceId}
    (hx : x ∈ (Pool.applyAll capacity e actions).1.ids) : x ∈ e.1.ids ∨ e.2 < x := by
  induction actions generalizing e with
  | nil => exact Or.inl hx
  | cons a actions ih =>
      rcases ih hx with hmem | hlt
      · cases a with
        | create kind =>
            change x ∈ (e.1.add (e.2 + 1) capacity).ids at hmem
            rw [ids_add] at hmem
            rcases List.mem_append.1 hmem with hmem | hmem
            · exact Or.inl hmem
            · rw [List.mem_singleton.1 hmem]
              exact Or.inr (Nat.lt_succ_self _)
        | destroy kind id =>
            change x ∈ (e.1.remove id).ids at hmem
            rw [ids_remove] at hmem
            exact Or.inl (List.mem_of_mem_filter hmem)
      · cases a with
        | create kind => exact Or.inr (Nat.lt_of_succ_lt hlt)
        | destroy kind id => exact Or.inr hlt

end Pool

/-- Renames the ids up to `m` by `ρ`, and those after `m` to those after `last`. -/
def countOn (ρ : Nat → Nat) (m last x : Nat) : Nat :=
  if x ≤ m then ρ x else last + (x - m)

theorem countOn_of_le {ρ : Nat → Nat} {m last x : Nat} (h : x ≤ m) :
    countOn ρ m last x = ρ x := if_pos h

theorem countOn_add (ρ : Nat → Nat) (m last n : Nat) :
    countOn ρ m last (m + 1 + n) = last + 1 + n := by
  unfold countOn
  rw [if_neg (by omega)]
  omega

theorem strictMono_countOn {ρ : Nat → Nat} (hρ : StrictMono ρ) {m last : Nat} (h : ρ m ≤ last) :
    StrictMono (countOn ρ m last) := by
  intro x y hxy
  unfold countOn
  split
  next hx =>
    have hle : ρ x ≤ ρ m := hρ.monotone hx
    split
    next => exact hρ hxy
    next => omega
  next =>
    rw [if_neg (by omega)]
    omega

end FleetSizing
