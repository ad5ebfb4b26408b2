import FleetSizing.Proofs.Binary64.TotalOrder
import FleetSizing.Proofs.Scaler.Verdicts
/-!
# Giving up surplus members

A pool of several instances gives up all its spare members in one go.  If that would be all
members, the first one of the highest utilization is kept.  What is left over gives up
nothing more.
-/

namespace FleetSizing

open Decimal

/-- The first member of the highest utilization in the total order stands between the others. -/
structure IsBusiest (before : List Snapshot) (kept : Snapshot) (after : List Snapshot) : Prop where
  lt_of_before : ∀ s ∈ before, totalKey s.utilization < totalKey kept.utilization
  le_of_after : ∀ s ∈ after, totalKey s.utilization ≤ totalKey kept.utilization

theorem IsBusiest.not_lt {before after : List Snapshot} {kept : Snapshot}
    (h : IsBusiest before kept after) {s : Snapshot} (hs : s ∈ before ++ kept :: after) :
    ¬ kept.utilization < s.utilization := by
  intro hlt
  have hkey := Binary64.totalKey_lt_of_lt hlt
  rcases List.mem_append.1 hs with hs | hs
  · have := h.lt_of_before s hs
    omega
  · rcases List.mem_cons.1 hs with rfl | hs
    · omega
    · have := h.le_of_after s hs
      omega

theorem exists_busiest {pool : List Snapshot} (hpool : pool ≠ []) :
    ∃ before kept after, pool = before ++ kept :: after ∧ IsBusiest before kept after ∧
      allButBusiest pool = before ++ after := by
  unfold allButBusiest
  cases htop : (pool.map fun s => totalKey s.utilization).max? with
  | none =>
      rw [List.max?_eq_none_iff, List.map_eq_nil_iff] at htop
      exact absurd htop hpool
  | some top =>
      obtain ⟨hmem, hle⟩ := List.max?_eq_some_iff.1 htop
      obtain ⟨s, hs, hkey⟩ := List.mem_map.1 hmem
      obtain ⟨kept, before, after, hbefore, hkept, rfl, herase⟩ :=
        List.exists_of_eraseP hs (p := fun s => totalKey s.utilization == top) (beq_iff_eq.2 hkey)
      obtain rfl := beq_iff_eq.1 hkept
      have hbound (s : Snapshot) (hs : s ∈ before ++ kept :: after) :
          totalKey s.utilization ≤ totalKey kept.utilization :=
        hle _ (List.mem_map.2 ⟨s, hs, rfl⟩)
      refine ⟨before, kept, after, rfl, ⟨fun s hs => ?_, fun s hs => ?_⟩, herase⟩
      · have hne : totalKey s.utilization ≠ totalKey kept.utilization := fun heq =>
          hbefore s hs (beq_iff_eq.2 heq)
        have := hbound s (List.mem_append_left _ hs)
        omega
      · exact hbound s (List.mem_append_right _ (List.mem_cons_of_mem _ hs))

/-- The members of a pool that a decision does not give up. -/
def Decision.survivors (d : Decision) (pool : List Snapshot) : List Snapshot :=
  pool.filter fun s => s.id ∉ d.destroyedIds

namespace Config

variable {c : Config} {t : IdleTracker} {kind : Kind} {pool : List Snapshot}

theorem Verdict.exists_spare {n : Nat} {as : List Action} (h : Verdict c kind pool (.shrunk n) as) :
    2 ≤ pool.length ∧ ∃ s ∈ pool, c.isSpare s = true := by
  cases h with
  | shrunk doomed hdoomed hne hlength hspare =>
      have hpos := List.length_pos_iff.2 hne
      obtain ⟨s, hs⟩ := List.exists_mem_of_ne_nil _ hne
      exact ⟨by omega, s, hdoomed.subset hs, hspare s hs⟩

theorem judge_of_two_le (hlength : 2 ≤ pool.length) :
    c.judge t kind pool = (pool.foldl (fun t s => t.clear s.id) t, c.shrinkage kind pool) := by
  match pool with
  | [] => simp at hlength
  | [s] => simp at hlength
  | s :: s' :: rest => rfl

theorem get?_evaluate_of_two_le (hlength : 2 ≤ pool.length) {x : InstanceId}
    (hx : x ∈ pool.map (·.id)) : (c.evaluate t kind pool).1.get? x = none := by
  change (c.judge t kind pool).1.get? x = none
  rw [judge_of_two_le hlength, IdleTracker.get?_foldl_clear, if_pos hx]

theorem shrinkage_of_none (hnone : pool.filter c.isSpare = []) :
    c.shrinkage kind pool = c.growth kind pool := by
  unfold shrinkage
  rw [if_neg]
  rw [List.any_eq_true]
  rintro ⟨s, hs, hspare⟩
  exact List.filter_eq_nil_iff.1 hnone s hs hspare

theorem shrinkage_of_some (hsome : pool.filter c.isSpare ≠ []) :
    c.shrinkage kind pool = (.shrunk ((c.surplus pool).length % Text.word32),
      (c.surplus pool).map fun s => .destroy kind s.id) := by
  obtain ⟨s, hs⟩ := List.exists_mem_of_ne_nil _ hsome
  obtain ⟨hmem, hspare⟩ := List.mem_filter.1 hs
  unfold shrinkage
  rw [if_pos (List.any_eq_true.2 ⟨s, hmem, hspare⟩)]

theorem surplus_of_ne (hne : pool.filter c.isSpare ≠ pool) :
    c.surplus pool = pool.filter c.isSpare := by
  unfold surplus
  rw [if_neg]
  intro hall
  exact hne (List.filter_eq_self.2 (List.all_eq_true.1 hall))

theorem surplus_of_eq (heq : pool.filter c.isSpare = pool) :
    c.surplus pool = allButBusiest pool := by
  unfold surplus
  rw [if_pos (List.all_eq_true.2 (List.filter_eq_self.1 heq))]

theorem outcome_ne_shrunk (h : pool.length < 2 ∨ ∀ s ∈ pool, c.isSpare s = false) (n : Nat) :
    (c.evaluate t kind pool).2.outcome ≠ .shrunk n := by
  intro hshrunk
  have hverdict := c.verdict_evaluate t kind pool
  rw [hshrunk] at hverdict
  obtain ⟨hlength, s, hs, hspare⟩ := hverdict.exists_spare
  rcases h with h | h
  · omega
  · rw [h s hs] at hspare
    cases hspare

theorem isSpare_of_mem_survivors {d : Decision}
    (hids : d.destroyedIds = (pool.filter c.isSpare).map (·.id)) {s : Snapshot}
    (hs : s ∈ d.survivors pool) : c.isSpare s = false := by
  obtain ⟨hmem, hleft⟩ := List.mem_filter.1 hs
  rw [decide_eq_true_iff, hids] at hleft
  apply Bool.eq_false_iff.2
  intro hspare
  exact hleft (List.mem_map.2 ⟨s, List.mem_filter.2 ⟨hmem, hspare⟩, rfl⟩)

theorem length_survivors_lt {d : Decision} {before after : List Snapshot} {kept : Snapshot}
    (hids : d.destroyedIds = (before ++ after).map (·.id)) :
    (d.survivors (before ++ kept :: after)).length < 2 := by
  have hgone (part : List Snapshot) (hpart : part ⊆ before ++ after) :
      part.filter (fun s => s.id ∉ d.destroyedIds) = [] := by
    rw [List.filter_eq_nil_iff, hids]
    intro s hs hleft
    rw [decide_eq_true_iff] at hleft
    exact hleft (List.mem_map.2 ⟨s, hpart hs, rfl⟩)
  unfold Decision.survivors
  rw [List.filter_append, List.filter_cons, hgone before (List.subset_append_left ..),
    hgone after (List.subset_append_right ..)]
  split <;> simp

theorem destroys_eq_zero {d : Decision} (h : d.actions = (c.growth kind pool).2) :
    d.destroys = 0 := by
  unfold Decision.destroys
  rw [h, List.countP_eq_zero]
  intro a ha
  rw [mem_growth ha, Action.isDestroy]
  exact Bool.false_ne_true

/-- A pool of several instances gives up exactly its spare members, and all but the first busiest
if all are spare.  What is left over gives up nothing more. -/
theorem spare_members_given_up (c : Config) (t : IdleTracker) (kind : Kind) {pool : List Snapshot}
    (hlength : 2 ≤ pool.length) :
    let spare := pool.filter fun s => !s.busy && decide (s.utilization < c.destroyThreshold)
    let d := (c.evaluate t kind pool).2
    (spare = [] → (d.outcome, d.actions) = c.growth kind pool ∧ d.destroys = 0 ∧
      ((∃ average, d.outcome = .steady average) ∨
        ∃ average factor requested, d.outcome = .grew average factor requested)) ∧
    (spare ≠ [] → spare ≠ pool → d.actions = spare.map (fun s => .destroy kind s.id) ∧
      d.outcome = .shrunk (spare.length % Text.word32)) ∧
    (spare = pool → ∃ before kept after, pool = before ++ kept :: after ∧
      IsBusiest before kept after ∧ (∀ s ∈ pool, ¬ kept.utilization < s.utilization) ∧
      d.actions = (before ++ after).map (fun s => .destroy kind s.id) ∧
      d.outcome = .shrunk ((pool.length - 1) % Text.word32)) ∧
    (∀ s ∈ pool, (c.evaluate t kind pool).1.get? s.id = none) ∧
    ∀ t' kind' n, (c.evaluate t' kind' (d.survivors pool)).2.outcome ≠ .shrunk n := by
  intro spare d
  have hspare : pool.filter c.isSpare = spare := rfl
  have hpool : pool ≠ [] := List.length_pos_iff.1 (by omega)
  have hd : (d.outcome, d.actions) = c.shrinkage kind pool := by
    change (c.judge t kind pool).2 = _
    rw [judge_of_two_le hlength]
  have hgrowth (hnone : spare = []) : (d.outcome, d.actions) = c.growth kind pool :=
    hd.trans (shrinkage_of_none hnone)
  have hsome (hne : spare ≠ []) : d.outcome = .shrunk ((c.surplus pool).length % Text.word32) ∧
      d.actions = (c.surplus pool).map fun s => .destroy kind s.id := by
    rw [shrinkage_of_some hne] at hd
    exact Prod.mk.inj hd
  have hids (hne : spare ≠ []) : d.destroyedIds = (c.surplus pool).map (·.id) := by
    unfold Decision.destroyedIds
    rw [(hsome hne).2, Verdict.destroyedIds_destroys]
  obtain ⟨before, kept, after, hsplit, hbusiest, hrest⟩ := exists_busiest hpool
  refine ⟨fun hnone => ?_, fun hne hnotall => ?_, fun hall => ?_, fun s hs => ?_, ?_⟩
  · refine ⟨hgrowth hnone, ?_, ?_⟩
    · exact destroys_eq_zero (congrArg Prod.snd (hgrowth hnone))
    · have houtcome : d.outcome = (c.growth kind pool).1 := congrArg Prod.fst (hgrowth hnone)
      rw [houtcome]
      exact growth_outcome c kind pool
  · obtain ⟨houtcome, hactions⟩ := hsome hne
    rw [surplus_of_ne hnotall] at houtcome hactions
    exact ⟨hactions, houtcome⟩
  · have hne : spare ≠ [] := hall ▸ hpool
    obtain ⟨houtcome, hactions⟩ := hsome hne
    rw [surplus_of_eq hall] at houtcome hactions
    rw [length_allButBusiest] at houtcome
    rw [hrest] at hactions
    refine ⟨before, kept, after, hsplit, hbusiest, fun s hs => ?_, hactions, houtcome⟩
    rw [hsplit] at hs
    exact hbusiest.not_lt hs
  · exact get?_evaluate_of_two_le hlength (List.mem_map.2 ⟨s, hs, rfl⟩)
  · intro t' kind' n
    apply outcome_ne_shrunk
    by_cases hnone : spare = []
    · right
      intro s hs
      have := List.filter_eq_nil_iff.1 hnone s (List.mem_filter.1 hs).1
      exact Bool.eq_false_iff.2 this
    · by_cases hall : spare = pool
      · left
        rw [hsplit]
        apply length_survivors_lt
        rw [hids hnone, surplus_of_eq hall, hrest]
      · right
        intro s hs
        apply isSpare_of_mem_survivors _ hs
        rw [hids hnone, surplus_of_ne hall]

/-- Spare instances only, with signed zeros. -/
def idlePool : List Snapshot := [⟨1, false, -0.0⟩, ⟨2, false, 0.0⟩, ⟨3, false, 0.0⟩]

/-- `0` counts for more than `-0`, and of two equals the first one is kept. -/
theorem spare_members_given_up_zeros :
    2 ≤ idlePool.length ∧
    (idlePool.filter fun s => !s.busy && decide (s.utilization < ({} : Config).destroyThreshold)) =
      idlePool ∧
    (∃ before kept after, idlePool = before ++ kept :: after ∧ IsBusiest before kept after ∧
      (evaluate {} {} "web" idlePool).2.actions =
        (before ++ after).map (fun s => .destroy "web" s.id)) ∧
    (evaluate {} {} "web" idlePool).2.actions = [.destroy "web" 1, .destroy "web" 3] ∧
    ∀ n, (evaluate {} {} "web"
      ((evaluate {} {} "web" idlePool).2.survivors idlePool)).2.outcome ≠ .shrunk n := by
  have hlength : 2 ≤ idlePool.length := by decide
  have hall : (idlePool.filter fun s =>
      !s.busy && decide (s.utilization < ({} : Config).destroyThreshold)) = idlePool := by
    decide +kernel
  obtain ⟨-, -, hkept, -, hsettled⟩ := spare_members_given_up {} {} "web" hlength
  obtain ⟨before, kept, after, hsplit, hbusiest, -, hactions, -⟩ := hkept hall
  exact ⟨hlength, hall, ⟨before, kept, after, hsplit, hbusiest, hactions⟩, by decide +kernel,
    hsettled {} "web"⟩

end Config

end FleetSizing
