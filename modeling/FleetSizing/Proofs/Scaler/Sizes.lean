import FleetSizing.Proofs.Scaler.Judgement
/-!
# The forms of a decision and the sizes that they lead to

What a decision can be: an outcome with the requests that carry it out, one form for each kind
of outcome.  A decision asks for new instances, or it gives up members of the pool.  An empty
pool always gets an instance, and a decision gives up a whole pool only where it retires a sole
instance.
-/

namespace FleetSizing

theorem countP_isCreate_replicate (n : Nat) (kind : Kind) :
    (List.replicate n (Action.create kind)).countP Action.isCreate = n := by
  rw [List.countP_replicate]
  exact if_pos rfl

theorem countP_isDestroy_replicate (n : Nat) (kind : Kind) :
    (List.replicate n (Action.create kind)).countP Action.isDestroy = 0 := by
  rw [List.countP_replicate]
  exact if_neg Bool.false_ne_true

theorem countP_isCreate_destroys (kind : Kind) (doomed : List Snapshot) :
    (doomed.map fun s => Action.destroy kind s.id).countP Action.isCreate = 0 := by
  rw [List.countP_map]
  exact List.countP_eq_zero.2 fun s _ => Bool.false_ne_true

theorem countP_isDestroy_destroys (kind : Kind) (doomed : List Snapshot) :
    (doomed.map fun s => Action.destroy kind s.id).countP Action.isDestroy = doomed.length := by
  rw [List.countP_map]
  exact List.countP_eq_length.2 fun s _ => rfl

namespace Config

open Scaler

variable {c : Config} {t : IdleTracker} {kind : Kind} {pool : List Snapshot}

theorem surplus_sublist (c : Config) (pool : List Snapshot) : (c.surplus pool).Sublist pool := by
  unfold surplus
  split
  · unfold allButBusiest
    split
    · exact List.nil_sublist _
    · exact List.eraseP_sublist
  · exact List.filter_sublist

theorem length_allButBusiest (pool : List Snapshot) :
    (allButBusiest pool).length = pool.length - 1 := by
  unfold allButBusiest
  split
  next hnone =>
    rw [List.max?_eq_none_iff, List.map_eq_nil_iff] at hnone
    rw [hnone]
    rfl
  next top htop =>
    obtain ⟨s, hs, rfl⟩ := List.mem_map.1 (List.max?_mem htop)
    exact List.length_eraseP_of_mem hs (by simp)

theorem length_surplus_lt (c : Config) (hpool : pool ≠ []) :
    (c.surplus pool).length < pool.length := by
  have hpos := List.length_pos_iff.2 hpool
  unfold surplus
  split
  next =>
    rw [length_allButBusiest]
    omega
  next hall =>
    rw [List.all_eq_true] at hall
    push Not at hall
    obtain ⟨s, hs, hspare⟩ := hall
    exact List.length_filter_lt_length_iff_exists.2 ⟨s, hs, hspare⟩

/-- The outcomes that a pool can have, each with its requests. -/
inductive Verdict (c : Config) (kind : Kind) (pool : List Snapshot) :
    Outcome → List Action → Prop where
  | coldStart (hpool : pool = []) : Verdict c kind pool .coldStart [.create kind]
  | gracePeriod (s : Snapshot) (n : Nat) (hpool : pool = [s]) (hidle : s.busy = false) :
    Verdict c kind pool (.gracePeriod n) []
  | retired (s : Snapshot) (hpool : pool = [s]) (hidle : s.busy = false) :
    Verdict c kind pool (.retired s.id) [.destroy kind s.id]
  | shrunk (doomed : List Snapshot) (hdoomed : doomed.Sublist pool) (hne : doomed ≠ [])
    (hlength : doomed.length < pool.length) (hspare : ∀ s ∈ doomed, c.isSpare s = true) :
    Verdict c kind pool (.shrunk (doomed.length % Text.word32))
      (doomed.map fun s => .destroy kind s.id)
  | grew (factor : Float) (hpool : pool ≠ []) (hsole : idleSole? pool = none)
    (hfactor : c.growthFactor (mean (pool.map (·.utilization))) = some factor) :
    Verdict c kind pool (.grew (mean (pool.map (·.utilization))) factor
        ((targetSize pool.length factor - pool.length) % Text.word32))
      (List.replicate (targetSize pool.length factor - pool.length) (.create kind))
  | steady (hpool : pool ≠ []) (hsole : idleSole? pool = none)
    (hnone : c.growthFactor (mean (pool.map (·.utilization))) = none) :
    Verdict c kind pool (.steady (mean (pool.map (·.utilization)))) []

theorem verdict_growth (hpool : pool ≠ []) (hsole : idleSole? pool = none) :
    Verdict c kind pool (c.growth kind pool).1 (c.growth kind pool).2 := by
  unfold growth
  dsimp only
  split
  next hnone => exact .steady hpool hsole hnone
  next factor hfactor => exact .grew factor hpool hsole hfactor

theorem verdict_shrinkage (hlength : 2 ≤ pool.length) :
    Verdict c kind pool (c.shrinkage kind pool).1 (c.shrinkage kind pool).2 := by
  have hpool : pool ≠ [] := List.length_pos_iff.1 (by omega)
  unfold shrinkage
  by_cases hspare : pool.any c.isSpare = true
  · rw [if_pos hspare]
    exact .shrunk _ (c.surplus_sublist pool) (surplus_ne_nil hlength hspare)
      (c.length_surplus_lt hpool) fun s hs => (mem_surplus hs).2
  · rw [if_neg hspare]
    apply verdict_growth hpool
    cases hsole : idleSole? pool with
    | none => rfl
    | some x =>
        obtain ⟨s, rfl, -⟩ := idleSole?_eq_some_iff.1 hsole
        simp at hlength

theorem verdict_evaluate (c : Config) (t : IdleTracker) (kind : Kind) (pool : List Snapshot) :
    Verdict c kind pool (c.evaluate t kind pool).2.outcome (c.evaluate t kind pool).2.actions := by
  change Verdict c kind pool (c.judge t kind pool).2.1 (c.judge t kind pool).2.2
  match pool with
  | [] => exact .coldStart rfl
  | [s] =>
      cases hbusy : s.busy with
      | true =>
          simp only [judge, hbusy, if_true]
          exact verdict_growth (List.cons_ne_nil _ _) (by simp [idleSole?, hbusy])
      | false =>
          simp only [judge, hbusy, Bool.false_eq_true, if_false, patience]
          split
          · exact .gracePeriod s _ rfl hbusy
          · exact .retired s rfl hbusy
  | s :: s' :: rest => exact verdict_shrinkage (by simp)

/-- A decision creates instances and leaves some, or it gives up members of the pool, and all
of them only where it retires a sole one. -/
theorem Verdict.actions_cases {o : Outcome} {as : List Action} (h : Verdict c kind pool o as) :
    (∃ n, 0 < pool.length + n ∧ as = List.replicate n (.create kind)) ∨
      ∃ doomed : List Snapshot, doomed.Sublist pool ∧
        (doomed.length < pool.length ∨ ∃ x, o = .retired x) ∧
        as = doomed.map fun s => .destroy kind s.id := by
  cases h with
  | coldStart => exact Or.inl ⟨1, Nat.succ_pos _, rfl⟩
  | gracePeriod s n hpool => exact Or.inl ⟨0, by simp [hpool], rfl⟩
  | retired s hpool =>
      exact Or.inr ⟨[s], hpool ▸ List.Sublist.refl _, Or.inr ⟨s.id, rfl⟩, rfl⟩
  | shrunk doomed hdoomed _ hlength => exact Or.inr ⟨doomed, hdoomed, Or.inl hlength, rfl⟩
  | grew factor hpool =>
      exact Or.inl ⟨_, Nat.add_pos_left (List.length_pos_iff.2 hpool) _, rfl⟩
  | steady hpool => exact Or.inl ⟨0, List.length_pos_iff.2 hpool, rfl⟩

theorem resultingPoolSize_eq {n : Nat}
    (h : (c.evaluate t kind pool).2.actions = List.replicate n (.create kind)) :
    (c.evaluate t kind pool).2.resultingPoolSize = pool.length + n := by
  unfold Decision.resultingPoolSize Decision.creates Decision.destroys
  rw [h, countP_isCreate_replicate, countP_isDestroy_replicate]
  rfl

theorem resultingPoolSize_eq_sub {doomed : List Snapshot}
    (h : (c.evaluate t kind pool).2.actions = doomed.map fun s => .destroy kind s.id) :
    (c.evaluate t kind pool).2.resultingPoolSize = pool.length - doomed.length := by
  unfold Decision.resultingPoolSize Decision.creates Decision.destroys
  rw [h, countP_isCreate_destroys, countP_isDestroy_destroys]
  rfl

theorem actions_of_gracePeriod {n : Nat} (h : (c.evaluate t kind pool).2.outcome = .gracePeriod n) :
    (c.evaluate t kind pool).2.actions = [] := by
  have hverdict := c.verdict_evaluate t kind pool
  rw [h] at hverdict
  generalize (c.evaluate t kind pool).2.actions = as at hverdict ⊢
  cases hverdict
  rfl

theorem actions_of_retired {x : InstanceId} (h : (c.evaluate t kind pool).2.outcome = .retired x) :
    (c.evaluate t kind pool).2.actions = [.destroy kind x] := by
  have hverdict := c.verdict_evaluate t kind pool
  rw [h] at hverdict
  generalize (c.evaluate t kind pool).2.actions = as at hverdict ⊢
  cases hverdict
  rfl

theorem outcome_eq_coldStart_iff :
    (c.evaluate t kind pool).2.outcome = .coldStart ↔ pool = [] := by
  constructor
  · intro h
    have hverdict := c.verdict_evaluate t kind pool
    rw [h] at hverdict
    generalize (c.evaluate t kind pool).2.actions = as at hverdict
    cases hverdict with
    | coldStart hpool => exact hpool
  · rintro rfl
    rfl

theorem actions_of_coldStart (h : (c.evaluate t kind pool).2.outcome = .coldStart) :
    (c.evaluate t kind pool).2.actions = [.create kind] := by
  obtain rfl := outcome_eq_coldStart_iff.1 h
  rfl

theorem resultingPoolSize_eq_zero_iff :
    (c.evaluate t kind pool).2.resultingPoolSize = 0 ↔
      ∃ x, (c.evaluate t kind pool).2.outcome = .retired x := by
  constructor
  · intro hzero
    rcases (c.verdict_evaluate t kind pool).actions_cases with ⟨n, hpos, h⟩ | ⟨doomed, -, hlt | hretired, h⟩
    · rw [resultingPoolSize_eq h] at hzero
      omega
    · rw [resultingPoolSize_eq_sub h] at hzero
      omega
    · exact hretired
  · rintro ⟨x, hx⟩
    obtain ⟨s, rfl, -, rfl⟩ := idleSole?_eq_some_iff.1 (outcome_eq_retired_iff.1 hx).1
    have hactions : (c.evaluate t kind [s]).2.actions = [s].map fun s => .destroy kind s.id :=
      actions_of_retired hx
    exact resultingPoolSize_eq_sub hactions

end Config

end FleetSizing
