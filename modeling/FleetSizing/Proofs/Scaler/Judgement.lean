import FleetSizing.Scaler.Tick
import Mathlib.Data.List.Basic
/-!
# Judging a pool

What a decision reads of the idle counts and what it leaves of them: only a sole idle
instance is counted, and every other member of the pool is forgotten.
-/

namespace FleetSizing

namespace IdleTracker

theorem get?_foldl_clear (t : IdleTracker) (pool : List Snapshot) (x : InstanceId) :
    (pool.foldl (fun t s => t.clear s.id) t).get? x =
      if x ∈ pool.map (·.id) then none else t.get? x := by
  induction pool generalizing t with
  | nil => rfl
  | cons s pool ih =>
      rw [List.foldl_cons, ih, get?_clear, List.map_cons]
      by_cases hs : x = s.id <;> by_cases hpool : x ∈ pool.map (·.id) <;> simp [hs, hpool]

/-- The count that is stored when an idle tick brings it to `n`: none at the end of the
grace period. -/
def kept (grace n : Nat) : Option Nat := if n < grace then some n else none

theorem kept_eq_some_iff {grace n m : Nat} : kept grace n = some m ↔ n = m ∧ n < grace := by
  unfold kept
  split
  next hlt => simp [hlt]
  next hge => simp [hge]

theorem next_eq {t t' : IdleTracker} {x : InstanceId} (h : t.get? x = t'.get? x) :
    t.next x = t'.next x := by
  unfold next
  rw [h]

theorem next_pos (t : IdleTracker) (x : InstanceId) : 0 < t.next x := Nat.succ_pos _

theorem mem_keys_iff {t : IdleTracker} {x : InstanceId} :
    x ∈ t.counts.keys ↔ t.get? x ≠ none := by
  rw [SortedMap.mem_keys_iff, Option.isSome_iff_ne_none]
  rfl

theorem size_eq_length {t : IdleTracker} {xs : List InstanceId} (hxs : xs.Nodup)
    (h : ∀ x, t.get? x ≠ none ↔ x ∈ xs) : t.size = xs.length := by
  have hperm : t.counts.keys.Perm xs := by
    rw [List.perm_ext_iff_of_nodup t.counts.nodup_keys hxs]
    intro x
    rw [mem_keys_iff, h]
  have hlength := hperm.length_eq
  rwa [SortedMap.keys, List.length_map] at hlength

end IdleTracker

def Outcome.isGracePeriod : Outcome → Bool
  | .gracePeriod _ => true
  | .coldStart | .retired _ | .shrunk _ | .grew .. | .steady _ => false

theorem Outcome.isGracePeriod_iff {o : Outcome} :
    o.isGracePeriod = true ↔ ∃ n, o = .gracePeriod n := by
  cases o <;> simp [isGracePeriod]

namespace Scaler

theorem idleSole?_eq_some_iff {pool : List Snapshot} {x : InstanceId} :
    idleSole? pool = some x ↔ ∃ s, pool = [s] ∧ s.busy = false ∧ s.id = x := by
  unfold idleSole?
  split
  next s =>
    cases hbusy : s.busy with
    | false => simp [hbusy]
    | true => simp [hbusy]
  next hne =>
    constructor
    · intro h
      cases h
    · rintro ⟨s, rfl, -⟩
      exact absurd rfl (hne s)

theorem ids_of_idleSole? {pool : List Snapshot} {x : InstanceId} (h : idleSole? pool = some x) :
    pool.map (·.id) = [x] := by
  obtain ⟨s, rfl, -, rfl⟩ := idleSole?_eq_some_iff.1 h
  rfl

theorem mem_of_idleSole? {pool : List Snapshot} {x : InstanceId} (h : idleSole? pool = some x) :
    x ∈ pool.map (·.id) := by
  rw [ids_of_idleSole? h]
  exact List.mem_singleton_self x

end Scaler

namespace Config

open Scaler IdleTracker

variable {c : Config} {t t' : IdleTracker} {kind : Kind} {pool : List Snapshot}

theorem get?_judge (x : InstanceId) :
    (c.judge t kind pool).1.get? x =
      if x ∈ pool.map (·.id) then
        if idleSole? pool = some x then kept c.idleGraceTicks (t.next x) else none
      else t.get? x := by
  unfold judge
  split
  next => rfl
  next sole =>
    simp only [List.map_singleton, List.mem_singleton]
    split
    next hbusy => simp [get?_clear, idleSole?, hbusy]
    next hidle =>
      have hsole : idleSole? [sole] = some sole.id := by simp [idleSole?, hidle]
      unfold kept
      by_cases hx : x = sole.id
      · subst hx
        rw [if_pos rfl, if_pos hsole]
        dsimp only
        split
        · rw [get?_observe, if_pos rfl]
        · rw [get?_clear, if_pos rfl]
      · rw [if_neg hx]
        dsimp only
        split
        · rw [get?_observe, if_neg hx]
        · rw [get?_clear, if_neg hx]
  next hempty hsole =>
    have hnone : idleSole? pool ≠ some x := by
      rw [Ne, idleSole?_eq_some_iff]
      rintro ⟨s, rfl, -⟩
      exact hsole s rfl
    rw [get?_foldl_clear, if_neg hnone]

theorem evaluate_congr (h : ∀ x ∈ pool.map (·.id), t.get? x = t'.get? x) :
    (c.evaluate t kind pool).2 = (c.evaluate t' kind pool).2 := by
  suffices hjudge : (c.judge t kind pool).2 = (c.judge t' kind pool).2 by
    unfold evaluate
    simp only [hjudge]
  unfold judge
  split
  next => rfl
  next sole =>
    have hnext : t.next sole.id = t'.next sole.id := next_eq (h _ (List.mem_singleton_self _))
    split
    · rfl
    · rw [hnext]
  next => rfl

/-! ## Outcomes -/

theorem growth_outcome (c : Config) (kind : Kind) (pool : List Snapshot) :
    (∃ average, (c.growth kind pool).1 = .steady average) ∨
      ∃ average factor requested, (c.growth kind pool).1 = .grew average factor requested := by
  unfold growth
  dsimp only
  split
  · exact Or.inl ⟨_, rfl⟩
  · exact Or.inr ⟨_, _, _, rfl⟩

theorem shrinkage_outcome (c : Config) (kind : Kind) (pool : List Snapshot) :
    (∃ destroyed, (c.shrinkage kind pool).1 = .shrunk destroyed) ∨
      (c.shrinkage kind pool).1 = (c.growth kind pool).1 := by
  unfold shrinkage
  split
  · exact Or.inl ⟨_, rfl⟩
  · exact Or.inr rfl

theorem judge_outcome (h : idleSole? pool = none) :
    (∀ n, (c.judge t kind pool).2.1 ≠ .gracePeriod n) ∧
      ∀ x, (c.judge t kind pool).2.1 ≠ .retired x := by
  have hgrowth := growth_outcome c kind pool
  have hshrinkage := shrinkage_outcome c kind pool
  unfold judge
  split
  next => exact ⟨nofun, nofun⟩
  next sole =>
    split
    next => rcases hgrowth with ⟨a, ha⟩ | ⟨a, f, r, ha⟩ <;> simp [ha]
    next hidle => simp [idleSole?, hidle] at h
  next =>
    rcases hshrinkage with ⟨n, hn⟩ | heq
    · simp [hn]
    · rcases hgrowth with ⟨a, ha⟩ | ⟨a, f, r, ha⟩ <;> simp [heq, ha]

theorem judge_sole {x : InstanceId} (h : idleSole? pool = some x) :
    (c.judge t kind pool).2 = c.patience kind x (t.next x) := by
  obtain ⟨s, rfl, hbusy, rfl⟩ := idleSole?_eq_some_iff.1 h
  simp [judge, hbusy]

theorem outcome_eq_gracePeriod_iff {n : Nat} :
    (c.evaluate t kind pool).2.outcome = .gracePeriod n ↔
      ∃ x, idleSole? pool = some x ∧ t.next x = n ∧ n < c.idleGraceTicks := by
  change (c.judge t kind pool).2.1 = _ ↔ _
  cases hsole : idleSole? pool with
  | none => simp [(judge_outcome hsole).1]
  | some x =>
      rw [judge_sole hsole]
      unfold patience
      split
      next hlt =>
        constructor
        · intro h
          cases h
          exact ⟨x, rfl, rfl, hlt⟩
        · rintro ⟨y, hy, rfl, -⟩
          cases hy
          rfl
      next hge =>
        constructor
        · intro h
          cases h
        · rintro ⟨y, hy, rfl, hlt⟩
          cases hy
          exact absurd hlt hge

theorem outcome_eq_retired_iff {x : InstanceId} :
    (c.evaluate t kind pool).2.outcome = .retired x ↔
      idleSole? pool = some x ∧ c.idleGraceTicks ≤ t.next x := by
  change (c.judge t kind pool).2.1 = _ ↔ _
  cases hsole : idleSole? pool with
  | none => simp [(judge_outcome hsole).2]
  | some y =>
      rw [judge_sole hsole, Option.some_inj]
      unfold patience
      split
      next hlt =>
        constructor
        · intro h
          cases h
        · rintro ⟨rfl, hge⟩
          exact absurd hge (Nat.not_le.2 hlt)
      next hge =>
        constructor
        · intro h
          cases h
          exact ⟨rfl, Nat.not_lt.1 hge⟩
        · rintro ⟨rfl, -⟩
          rfl

/-! ## Requests -/

theorem mem_growth {a : Action} (h : a ∈ (c.growth kind pool).2) : a = .create kind := by
  unfold growth at h
  dsimp only at h
  split at h
  · cases h
  · exact List.eq_of_mem_replicate h

theorem allButBusiest_subset (pool : List Snapshot) : allButBusiest pool ⊆ pool := by
  unfold allButBusiest
  split
  · exact List.nil_subset _
  · exact List.eraseP_subset

theorem mem_surplus {s : Snapshot} (h : s ∈ c.surplus pool) : s ∈ pool ∧ c.isSpare s = true := by
  unfold surplus at h
  split at h
  next hall =>
    have hs := allButBusiest_subset pool h
    exact ⟨hs, List.all_eq_true.1 hall s hs⟩
  next => exact List.mem_filter.1 h

theorem busy_of_isSpare {s : Snapshot} (h : c.isSpare s = true) : s.busy = false := by
  unfold isSpare at h
  rw [Bool.and_eq_true, Bool.not_eq_true'] at h
  exact h.1

theorem mem_actions {a : Action} (h : a ∈ (c.evaluate t kind pool).2.actions) :
    a = .create kind ∨ ∃ s ∈ pool, s.busy = false ∧ a = .destroy kind s.id := by
  change a ∈ (c.judge t kind pool).2.2 at h
  unfold judge at h
  split at h
  next => exact Or.inl (List.mem_singleton.1 h)
  next sole =>
    split at h
    next => exact Or.inl (mem_growth h)
    next hidle =>
      change a ∈ (c.patience kind sole.id (t.next sole.id)).2 at h
      unfold patience at h
      split at h
      · cases h
      · refine Or.inr ⟨sole, List.mem_singleton_self _, ?_, List.mem_singleton.1 h⟩
        exact Bool.not_eq_true _ ▸ hidle
  next =>
    change a ∈ (c.shrinkage kind _).2 at h
    unfold shrinkage at h
    split at h
    · obtain ⟨s, hs, rfl⟩ := List.mem_map.1 h
      obtain ⟨hmem, hspare⟩ := mem_surplus hs
      exact Or.inr ⟨s, hmem, busy_of_isSpare hspare, rfl⟩
    · exact Or.inl (mem_growth h)

theorem surplus_ne_nil (hlength : 2 ≤ pool.length) (hspare : pool.any c.isSpare = true) :
    c.surplus pool ≠ [] := by
  unfold surplus
  split
  next =>
    unfold allButBusiest
    split
    next hnone =>
      rw [List.max?_eq_none_iff, List.map_eq_nil_iff] at hnone
      rw [hnone] at hlength
      cases hlength
    next top _ =>
      have hle := List.le_length_eraseP (l := pool)
        (p := fun s => Decimal.totalKey s.utilization == top)
      intro hnil
      rw [hnil, List.length_nil] at hle
      omega
  next =>
    obtain ⟨s, hs, hsp⟩ := List.any_eq_true.1 hspare
    exact List.ne_nil_of_mem (List.mem_filter.2 ⟨hs, hsp⟩)

theorem not_mem_growth (id : InstanceId) : .destroy kind id ∉ (c.growth kind pool).2 := by
  intro h
  cases mem_growth h

/-- An instance is given up where a sole idle one is at the end of its grace period, or where
a larger pool has a spare one. -/
theorem exists_destroy_iff :
    (∃ id, .destroy kind id ∈ (c.evaluate t kind pool).2.actions) ↔
      (∃ s, pool = [s] ∧ s.busy = false ∧ c.idleGraceTicks ≤ t.next s.id) ∨
      (2 ≤ pool.length ∧ ∃ s ∈ pool, c.isSpare s = true) := by
  change (∃ id, _ ∈ (c.judge t kind pool).2.2) ↔ _
  unfold judge
  split
  next => simp
  next sole =>
    split
    next hbusy => simp [hbusy, not_mem_growth]
    next hidle =>
      have hsole : (∃ s, [sole] = [s] ∧ s.busy = false ∧ c.idleGraceTicks ≤ t.next s.id) ↔
          c.idleGraceTicks ≤ t.next sole.id := by
        simp [hidle]
      rw [hsole]
      change (∃ id, _ ∈ (c.patience kind sole.id (t.next sole.id)).2) ↔ _
      unfold patience
      split
      next hlt => simp [Nat.not_le.2 hlt]
      next hge => simp [Nat.not_lt.1 hge]
  next hnil hsole =>
    have hlength : 2 ≤ pool.length := by
      rcases pool with _ | ⟨s, _ | ⟨s', rest⟩⟩
      · exact absurd rfl hnil
      · exact absurd rfl (hsole s)
      · exact Nat.le_add_left ..
    have hnone : ¬ ∃ s, pool = [s] ∧ s.busy = false ∧ c.idleGraceTicks ≤ t.next s.id := by
      rintro ⟨s, rfl, -⟩
      exact hsole s rfl
    rw [or_iff_right hnone, and_iff_right hlength, ← List.any_eq_true]
    unfold shrinkage
    split
    next hany =>
      obtain ⟨s, hs⟩ := List.exists_mem_of_ne_nil _ (surplus_ne_nil hlength hany)
      exact iff_of_true ⟨s.id, List.mem_map.2 ⟨s, hs, rfl⟩⟩ hany
    next hany =>
      exact iff_of_false (fun ⟨id, hid⟩ => not_mem_growth id hid) hany

end Config

end FleetSizing
