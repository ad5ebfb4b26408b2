import FleetSizing.Fleet.Script
import FleetSizing.Proofs.Scaler.Ticks
import Mathlib.Data.List.Induction
/-!
# Hysteresis

As long as every tick succeeds, the idle count of an instance is the number of ticks in a
row in which it was a sole idle instance, counted modulo the grace period.  A retirement
closes the circle: an instance that stays is counted anew.
-/

namespace FleetSizing.Scaler

open IdleTracker

variable {φ : Type} [Fleet φ]

/-- In how many ticks in a row, up to the latest one, an instance was a sole idle one. -/
def idleStreak (x : InstanceId) (history : List (Tick φ)) : Nat :=
  (history.reverse.takeWhile fun t => x ∈ t.idleSoles).length

omit [Fleet φ] in
theorem idleStreak_concat (x : InstanceId) (history : List (Tick φ)) (t : Tick φ) :
    idleStreak x (history ++ [t]) =
      if x ∈ t.idleSoles then idleStreak x history + 1 else 0 := by
  unfold idleStreak
  rw [List.reverse_append, List.reverse_singleton, List.singleton_append, List.takeWhile_cons]
  by_cases hx : x ∈ t.idleSoles <;> simp [hx]

def stored (grace streak : Nat) : Option Nat :=
  if streak % grace = 0 then none else some (streak % grace)

theorem getD_stored (grace streak : Nat) : (stored grace streak).getD 0 = streak % grace := by
  unfold stored
  split
  next hzero => exact hzero.symm
  next => rfl

theorem succ_mod_cases {grace : Nat} (hgrace : 0 < grace) (n : Nat) :
    (n % grace + 1 < grace ∧ (n + 1) % grace = n % grace + 1) ∨
      (n % grace + 1 = grace ∧ (n + 1) % grace = 0) := by
  have hlt : n % grace < grace := Nat.mod_lt n hgrace
  rw [← Nat.mod_add_mod]
  rcases Nat.lt_or_eq_of_le (Nat.succ_le_of_lt hlt) with h | h
  · exact Or.inl ⟨h, Nat.mod_eq_of_lt h⟩
  · have heq : n % grace + 1 = grace := h
    exact Or.inr ⟨heq, by rw [heq, Nat.mod_self]⟩

theorem kept_stored {grace : Nat} (hgrace : 0 < grace) (streak : Nat) :
    kept grace ((stored grace streak).getD 0 + 1) = stored grace (streak + 1) := by
  rw [getD_stored]
  unfold kept stored
  rcases succ_mod_cases hgrace streak with ⟨hlt, hmod⟩ | ⟨heq, hmod⟩
  · rw [if_pos hlt, hmod, if_neg (Nat.succ_ne_zero _)]
  · rw [if_neg (by omega), hmod, if_pos rfl]

/-- The idle counts are what the streaks leave. -/
def Reflects (s : Scaler) (history : List (Tick φ)) : Prop :=
  ∀ x, s.idle.get? x = stored s.config.idleGraceTicks (idleStreak x history)

variable {s : Scaler} {past : List (Tick φ)} {fleet : φ} {now : Nat}

theorem Reflects.tick (h : s.Reflects past) (hgrace : 1 ≤ s.config.idleGraceTicks)
    (hok : (s.tick fleet now).result.isOk = true) :
    (s.tick fleet now).scaler.Reflects (past ++ [s.tick fleet now]) := by
  intro x
  obtain ⟨r, hr⟩ := exists_ok_of_isOk hok
  rw [get?_tick_of_ok hr, idleStreak_concat, config_tick]
  split
  next => rw [next, h x, kept_stored hgrace]
  next => rfl

theorem reflects_after {c : Config} (hgrace : 1 ≤ c.idleGraceTicks) (frames : List (φ × Nat))
    (hok : ∀ t ∈ history { config := c } frames, t.result.isOk = true) :
    (after { config := c } frames).Reflects (history { config := c } frames) := by
  induction frames using List.reverseRecOn with
  | nil =>
      intro x
      change none = stored c.idleGraceTicks 0
      rw [stored, Nat.zero_mod, if_pos rfl]
  | append_singleton frames frame ih =>
      -- The runs before the last tick have succeeded as well, so the invariant holds there.
      obtain ⟨fleet, now⟩ := frame
      rw [history_concat] at hok ⊢
      rw [after_concat]
      have hpast := ih fun t ht => hok t (List.mem_append_left _ ht)
      refine hpast.tick ?_ (hok _ (List.mem_append_right _ (List.mem_singleton_self _)))
      rwa [config_after]

def IsBounded (grace : Nat) (t : IdleTracker) : Prop :=
  ∀ x n, t.get? x = some n → 1 ≤ n ∧ n < grace

omit [Fleet φ] in
theorem Reflects.isBounded (h : s.Reflects past) (hgrace : 1 ≤ s.config.idleGraceTicks) :
    IsBounded s.config.idleGraceTicks s.idle := by
  intro x n hn
  rw [h x, stored] at hn
  split at hn
  next => cases hn
  next hne =>
    cases hn
    exact ⟨Nat.one_le_iff_ne_zero.2 hne, Nat.mod_lt _ hgrace⟩

theorem Visits.isBounded {c : Config} {p q : Progress φ} {visits : List Visit}
    (h : Visits c p visits q) (hp : IsBounded c.idleGraceTicks p.idle) :
    IsBounded c.idleGraceTicks q.idle := by
  intro x n hn
  rw [h.get?_idle] at hn
  split at hn
  · split at hn
    · obtain ⟨rfl, hlt⟩ := kept_eq_some_iff.1 hn
      exact ⟨next_pos _ _, hlt⟩
    · cases hn
  · exact hp x n hn

theorem isBounded_visitAll {c : Config} {p : Progress φ} (hp : IsBounded c.idleGraceTicks p.idle)
    (kinds : List Kind) : IsBounded c.idleGraceTicks (visitAll c p kinds).1.idle := by
  rcases visitAll_cases c p kinds with
    ⟨visits, q, hvisits, -, heq⟩ | ⟨visits, q, kind, rest, e, hvisits, -, -, heq⟩
  · rw [heq]
    exact hvisits.isBounded hp
  · rw [heq]
    exact hvisits.isBounded hp

section

variable {r : TickReport} (h : s.Reflects past) (hgrace : 1 ≤ s.config.idleGraceTicks)
  (hr : (s.tick fleet now).result = .ok r) (x : InstanceId)

omit [Fleet φ] in
include h in
theorem Reflects.next_eq :
    s.idle.next x = idleStreak x past % s.config.idleGraceTicks + 1 := by
  rw [next, h x, getD_stored]

omit [Fleet φ] in
theorem idleStreak_pos_iff (t : Tick φ) :
    0 < idleStreak x (past ++ [t]) ↔ x ∈ t.idleSoles := by
  rw [idleStreak_concat]
  split <;> simp_all

variable {streak : Nat} (hstreak : streak = idleStreak x (past ++ [s.tick fleet now]))

include h hgrace hr hstreak

theorem Reflects.spares_iff (n : Nat) :
    (s.tick fleet now).Spares r x n ↔
      0 < streak ∧ n = streak % s.config.idleGraceTicks ∧ n ≠ 0 := by
  rw [Scaler.spares_iff hr, hstreak, idleStreak_pos_iff, h.next_eq x]
  refine and_congr_right fun hx => ?_
  rw [idleStreak_concat, if_pos hx]
  rcases succ_mod_cases hgrace (idleStreak x past) with ⟨hlt, hmod⟩ | ⟨heq, hmod⟩ <;>
    rw [hmod] <;> omega

theorem Reflects.retired_iff :
    (∃ d ∈ r.decisions, d.outcome = .retired x) ↔
      0 < streak ∧ s.config.idleGraceTicks ∣ streak := by
  rw [Scaler.retired_iff hr, hstreak, idleStreak_pos_iff, h.next_eq x, Nat.dvd_iff_mod_eq_zero]
  refine and_congr_right fun hx => ?_
  rw [idleStreak_concat, if_pos hx]
  rcases succ_mod_cases hgrace (idleStreak x past) with ⟨hlt, hmod⟩ | ⟨heq, hmod⟩ <;>
    rw [hmod] <;> omega

end

theorem get?_tick_eq_some_iff {r : TickReport} (hr : (s.tick fleet now).result = .ok r)
    (x : InstanceId) (n : Nat) :
    (s.tick fleet now).scaler.idle.get? x = some n ↔ (s.tick fleet now).Spares r x n := by
  rw [get?_tick_of_ok hr, spares_iff hr]
  split
  next hx =>
    rw [kept_eq_some_iff]
    constructor
    · rintro ⟨rfl, hlt⟩
      exact ⟨hx, rfl, hlt⟩
    · rintro ⟨-, rfl, hlt⟩
      exact ⟨rfl, hlt⟩
  next hx => simp [hx]

/-! ## The law of a run -/

/-- In the last tick of a run of ticks that all succeed, an instance is spared or given up
by the place of its idle streak in the circle of the grace period; whatever is spared is
tracked, and no idle count ever reaches the grace period. -/
theorem hysteresis (c : Config) (hgrace : 1 ≤ c.idleGraceTicks) (before : List (φ × Nat))
    (fleet : φ) (now : Nat)
    (hok : ∀ t ∈ history { config := c } (before ++ [(fleet, now)]), t.result.isOk = true) :
    let s := after { config := c } before
    let t := s.tick fleet now
    let streak x := idleStreak x (history { config := c } (before ++ [(fleet, now)]))
    ∃ r, t.result = .ok r ∧
      (∀ x n, t.Spares r x n ↔
        0 < streak x ∧ n = streak x % c.idleGraceTicks ∧ n ≠ 0) ∧
      (∀ x, (∃ d ∈ r.decisions, d.outcome = .retired x) ↔
        0 < streak x ∧ c.idleGraceTicks ∣ streak x) ∧
      (∀ x n, t.scaler.idle.get? x = some n ↔ t.Spares r x n) ∧
      r.trackedIdle = r.decisions.countP (·.outcome.isGracePeriod) ∧
      (∀ x n, t.scaler.idle.get? x = some n → 1 ≤ n ∧ n < c.idleGraceTicks) ∧
      ∀ kinds x n, (visitAll c (s.start fleet now) kinds).1.idle.get? x = some n →
        1 ≤ n ∧ n < c.idleGraceTicks := by
  intro s t streak
  have hs : s.config = c := config_after _ _
  have hhistory : history { config := c } (before ++ [(fleet, now)]) =
      history { config := c } before ++ [t] := history_concat ..
  have hpast : s.Reflects (history { config := c } before) := by
    refine reflects_after hgrace before fun u hu => hok u ?_
    rw [hhistory]
    exact List.mem_append_left _ hu
  have hgrace' : 1 ≤ s.config.idleGraceTicks := by rwa [hs]
  have htok : t.result.isOk = true := by
    refine hok t ?_
    rw [hhistory]
    exact List.mem_append_right _ (List.mem_singleton_self t)
  obtain ⟨r, hr⟩ := exists_ok_of_isOk htok
  have hlast := hpast.tick hgrace' htok
  have hstreak (x : InstanceId) :
      streak x = idleStreak x (history { config := c } before ++ [t]) :=
    congrArg (idleStreak x) hhistory
  refine ⟨r, hr, fun x n => ?_, fun x => ?_, get?_tick_eq_some_iff hr, trackedIdle_of_ok hr,
    ?_, fun kinds => ?_⟩
  · have hspares := hpast.spares_iff hgrace' hr x (hstreak x) n
    rwa [hs] at hspares
  · have hretired := hpast.retired_iff hgrace' hr x (hstreak x)
    rwa [hs] at hretired
  · have hbounded := hlast.isBounded (by rwa [config_tick])
    rwa [config_tick, hs] at hbounded
  · have hbounded := hpast.isBounded hgrace'
    rw [hs] at hbounded
    exact isBounded_visitAll hbounded kinds

def idleScript : Script := { ahead := [[("web", some [⟨1, false, 0.0⟩])]] }

theorem hysteresis_second_idle_tick :
    (∀ t ∈ history { config := { idleGraceTicks := 2 } }
      ([(idleScript, 60)] ++ [(idleScript, 120)]), t.result.isOk = true) ∧
    let t := (after { config := { idleGraceTicks := 2 } } [(idleScript, 60)]).tick idleScript 120
    ∃ r, t.result = .ok r ∧ (∃ d ∈ r.decisions, d.outcome = .retired 1) ∧
      ∀ n, t.scaler.idle.get? 1 ≠ some n := by
  have hok : ∀ t ∈ history { config := { idleGraceTicks := 2 } }
      ([(idleScript, 60)] ++ [(idleScript, 120)]), t.result.isOk = true := by
    decide +kernel
  refine ⟨hok, ?_⟩
  obtain ⟨r, hr, hspares, hretired, htracked, -, -, -⟩ :=
    hysteresis { idleGraceTicks := 2 } (by decide) [(idleScript, 60)] idleScript 120 hok
  refine ⟨r, hr, (hretired 1).2 ⟨by decide +kernel, by decide +kernel⟩, fun n hn => ?_⟩
  obtain ⟨-, hmod, hne⟩ := (hspares 1 n).1 ((htracked 1 n).1 hn)
  exact hne (hmod.trans (by decide +kernel))

end FleetSizing.Scaler
