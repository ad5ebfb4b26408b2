import FleetSizing.Proofs.SimulatedFleet.Course
/-!
# Retirement

In a simulation a pool is emptied by nothing but the retirement of its sole instance, which
has then been spared in every tick of its grace period before.  A pool that was emptied gets
a new instance in the very next tick.
-/

namespace FleetSizing

open Scaler SimulatedFleet

namespace Simulation

variable {c : Config} {t : Trace} {n k : Nat} {s : Simulation} {kind : Kind} {x : InstanceId}

/-- In its `k`-th idle tick, the sole instance of a kind is to be spared. -/
structure Spares (s : Simulation) (kind : Kind) (x : InstanceId) (k : Nat) : Prop where
  sole : idleSole? (s.poolRead kind) = some x
  outcome : (s.nextDecision kind).outcome = .gracePeriod k

theorem Spares.next_eq (h : s.Spares kind x k) :
    s.scaler.idle.next x = k ∧ k < s.scaler.config.idleGraceTicks := by
  obtain ⟨y, hy, hnext, hlt⟩ := Config.outcome_eq_gracePeriod_iff.1 h.outcome
  obtain rfl : x = y := Option.some_inj.1 (h.sole.symm.trans hy)
  exact ⟨hnext, hlt⟩

namespace IsNew

variable (h : s.IsNew c t) (hkind : kind ∈ t.allKinds)

include h hkind

theorem exists_spares (hsole : idleSole? ((s.after n).poolRead kind) = some x)
    (hcount : (s.after n).scaler.idle.get? x = some k) :
    ∃ m, m + 1 = n ∧ (s.after m).Spares kind x k := by
  cases n with
  | zero =>
      rw [after, Function.iterate_zero_apply, h.idle] at hcount
      cases hcount
  | succ m =>
      have hx : x ∈ ((s.after (m + 1)).fleet.poolD kind).ids :=
        map_id_poolRead _ kind ▸ mem_of_idleSole? hsole
      rw [after_succ] at hx hcount
      obtain ⟨hsole', hgrace⟩ :=
        ((h.toHasCome.after m).get?_idle_next_iff hkind hx k).1 hcount
      exact ⟨m, rfl, hsole', hgrace⟩

theorem exists_spares_before (hspares : (s.after n).Spares kind x k) {j : Nat} (hj : j < k) :
    ∃ m, m + j = n ∧ (s.after m).Spares kind x (k - j) := by
  induction j with
  | zero => exact ⟨n, rfl, hspares⟩
  | succ j ih =>
      obtain ⟨m, rfl, hm⟩ := ih (Nat.lt_of_succ_lt hj)
      -- A count above one was stored in the tick before.
      have hcount : (s.after m).scaler.idle.get? x = some (k - (j + 1)) := by
        have hnext := hm.next_eq.1
        unfold IdleTracker.next at hnext
        cases hget : (s.after m).scaler.idle.get? x with
        | none =>
            rw [hget, Option.getD_none] at hnext
            omega
        | some k' =>
            rw [hget, Option.getD_some] at hnext
            exact congrArg some (by omega)
      obtain ⟨m', rfl, hm'⟩ := h.exists_spares hkind hm.sole hcount
      exact ⟨m', by omega, hm'⟩

theorem exists_spares_before_retirement
    (hretired : ((s.after n).nextDecision kind).outcome = .retired x) {j : Nat} (hj : 1 ≤ j)
    (hgrace : j < c.idleGraceTicks) :
    ∃ m, m + j = n ∧ (s.after m).Spares kind x (c.idleGraceTicks - j) := by
  obtain ⟨hsole, hnext⟩ := Config.outcome_eq_retired_iff.1 hretired
  rw [(h.toHasCome.after n).config] at hnext
  unfold IdleTracker.next at hnext
  cases hcount : (s.after n).scaler.idle.get? x with
  | none =>
      rw [hcount, Option.getD_none] at hnext
      omega
  | some k =>
      rw [hcount, Option.getD_some] at hnext
      obtain ⟨m, rfl, hm⟩ := h.exists_spares hkind hsole hcount
      have hlt := hm.next_eq.2
      rw [(h.toHasCome.after m).config] at hlt
      obtain ⟨m', hm', hspares⟩ := h.exists_spares_before hkind hm (j := j - 1) (by omega)
      have hk : k - (j - 1) = c.idleGraceTicks - j := by omega
      exact ⟨m', by omega, hk ▸ hspares⟩

theorem ids_eq_nil_iff (n : Nat) :
    ((s.after (n + 1)).fleet.poolD kind).ids = [] ↔
      ∃ x, ((s.after n).nextDecision kind).outcome = .retired x := by
  have hsize := (h.toHasCome.after n).size_next hkind
  rw [after_succ, ← List.length_eq_zero_iff, Pool.length_ids, hsize]
  exact Config.resultingPoolSize_eq_zero_iff

end IsNew

end Simulation

/-- In a simulation of a valid trace, a kind is without instances after a tick exactly where
the tick has retired its sole instance, and gets a new one exactly in the first tick and in
the ticks after such a retirement.  The ticks before a retirement have all spared the same
sole instance, and have counted them up to the end of the grace period. -/
theorem emptied_only_by_retirement (c : Config) (t : Trace) (hc : c.validate = .ok ())
    (ht : t.validate = .ok ()) :
    ∃ s, Simulation.new c t = .ok s ∧ (∀ n, s.run n = .ok (s.after n)) ∧
      ∀ kind ∈ t.allKinds, ∀ n,
        let outcome tick := (s.after tick).lastOutcome kind
        let ids tick := ((s.after tick).fleet.poolD kind).ids
        (ids (n + 1) = [] ↔ ∃ x, outcome (n + 1) = some (.retired x)) ∧
        (outcome (n + 1) = some .coldStart ↔ n = 0 ∨ ∃ x, outcome n = some (.retired x)) ∧
        (∀ x, outcome (n + 1) = some (.retired x) → ∀ j, 1 ≤ j → j < c.idleGraceTicks →
          ∃ m, m + j = n ∧ outcome (m + 1) = some (.gracePeriod (c.idleGraceTicks - j)) ∧
            idleSole? ((s.after m).poolRead kind) = some x) ∧
        ¬(ids (n + 1) = [] ∧ ids (n + 2) = []) := by
  obtain ⟨s, hnew, hs⟩ := Simulation.exists_new_isNew hc ht
  refine ⟨s, hnew, Simulation.run_eq_after hs.fleet, fun kind hkind n => ?_⟩
  intro outcome ids
  have houtcome (m : Nat) : outcome (m + 1) = some ((s.after m).nextDecision kind).outcome := by
    change (s.after (m + 1)).lastOutcome kind = _
    rw [Simulation.after_succ, (hs.toHasCome.after m).lastOutcome_next hkind]
  have hempty (m : Nat) : ids (m + 1) = [] ↔ ∃ x, outcome (m + 1) = some (.retired x) := by
    simp only [houtcome, Option.some_inj]
    exact hs.ids_eq_nil_iff hkind m
  refine ⟨hempty n, ?_, fun x hx j hj hgrace => ?_, ?_⟩
  · rw [houtcome, Option.some_inj, Simulation.outcome_nextDecision_eq_coldStart_iff]
    cases n with
    | zero =>
        refine iff_of_true ?_ (Or.inl rfl)
        rw [Simulation.after, Function.iterate_zero_apply, hs.pool]
        rfl
    | succ m => exact (hempty m).trans (or_iff_right (Nat.succ_ne_zero m)).symm
  · rw [houtcome, Option.some_inj] at hx
    obtain ⟨m, hm, hspares⟩ := hs.exists_spares_before_retirement hkind hx hj hgrace
    exact ⟨m, hm, (houtcome m).trans (congrArg some hspares.outcome), hspares.sole⟩
  · -- The tick that finds the pool empty decides for a cold start, so that it retires nothing.
    rintro ⟨hfirst, hsecond⟩
    obtain ⟨x, hx⟩ := (hempty (n + 1)).1 hsecond
    rw [houtcome, (Simulation.outcome_nextDecision_eq_coldStart_iff ..).2 hfirst] at hx
    cases hx

theorem emptied_only_by_retirement_mixed :
    Config.validate { idleGraceTicks := 2 } = .ok () ∧ mixedTrace.validate = .ok () ∧
    ∃ s, Simulation.new { idleGraceTicks := 2 } mixedTrace = .ok s ∧
      (s.after 5).lastOutcome "web" = some (.retired 2) ∧
      ((s.after 5).fleet.poolD "web").ids = [] ∧
      ((s.after 6).fleet.poolD "web").ids ≠ [] ∧
      (s.after 6).lastOutcome "web" = some .coldStart ∧
      (s.after 4).lastOutcome "web" = some (.gracePeriod 1) ∧
      idleSole? ((s.after 3).poolRead "web") = some 2 := by
  have hc : Config.validate { idleGraceTicks := 2 } = .ok () := by decide +kernel
  have ht : mixedTrace.validate = .ok () := by decide +kernel
  have hrun : ((Simulation.new { idleGraceTicks := 2 } mixedTrace).toOption.map fun s =>
      (s.after 5).lastOutcome "web") = some (some (.retired 2)) := by
    decide +kernel
  obtain ⟨s, hs, hretired⟩ := Option.map_eq_some_iff.1 hrun
  obtain ⟨s₁, h₁, -, hall⟩ := emptied_only_by_retirement { idleGraceTicks := 2 } mixedTrace hc ht
  obtain rfl : s = s₁ := Except.ok.inj ((eq_ok_of_toOption hs).symm.trans h₁)
  have hweb := hall "web" (by decide +kernel)
  obtain ⟨hempty, -, hbefore, hrefilled⟩ := hweb 4
  obtain ⟨m, hm, hspared, hsole⟩ := hbefore 2 hretired 1 (Nat.le_refl 1) (by decide)
  obtain rfl : m = 3 := Nat.succ_inj.1 hm
  have hnil := hempty.2 ⟨2, hretired⟩
  exact ⟨hc, ht, s, h₁, hretired, hnil, fun hnext => hrefilled ⟨hnil, hnext⟩,
    (hweb 5).2.1.2 (Or.inr ⟨2, hretired⟩), hspared, hsole⟩

end FleetSizing
