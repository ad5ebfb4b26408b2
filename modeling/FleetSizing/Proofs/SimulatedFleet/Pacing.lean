import FleetSizing.Fleet.Script
import FleetSizing.Proofs.Scaler.Likeness
import FleetSizing.Proofs.SimulatedFleet.Sessions
/-!
# The paced loop

Until it is told to stop, the paced loop does nothing but tick: it leaves what the ticks
leave one after the other, whether they fail or not, and hands on the reports of those that
succeed.  A simulated fleet takes no notice of the clock, so that the paced loop on it is
the simulation.
-/

namespace FleetSizing

namespace Scaler

variable {φ : Type} [Fleet φ]

def ticksOn (s : Scaler) (fleet : φ) : List Nat → List (Tick φ)
  | [] => []
  | now :: nows =>
    let t := s.tick fleet now
    t :: t.scaler.ticksOn t.fleet nows

def afterTicks (s : Scaler) (fleet : φ) (nows : List Nat) : Scaler × φ :=
  nows.foldl (fun e now => ((e.1.tick e.2 now).scaler, (e.1.tick e.2 now).fleet)) (s, fleet)

def reportsOf (ticks : List (Tick φ)) : List TickReport :=
  ticks.filterMap (·.result.toOption)

theorem length_ticksOn (s : Scaler) (fleet : φ) (nows : List Nat) :
    (s.ticksOn fleet nows).length = nows.length := by
  induction nows generalizing s fleet with
  | nil => rfl
  | cons now nows ih => exact congrArg (· + 1) (ih ..)

theorem ticks_afterTicks (s : Scaler) (fleet : φ) (nows : List Nat) :
    (s.afterTicks fleet nows).1.ticks = s.ticks + nows.length := by
  induction nows generalizing s fleet with
  | nil => rfl
  | cons now nows ih =>
      have hrest := ih (s.tick fleet now).scaler (s.tick fleet now).fleet
      have hticks : (s.tick fleet now).scaler.ticks = s.ticks + 1 := rfl
      change ((s.tick fleet now).scaler.afterTicks _ nows).1.ticks = _
      rw [hrest, hticks, List.length_cons]
      omega

omit [Fleet φ] in
theorem reportsOf_cons (t : Tick φ) (ticks : List (Tick φ)) :
    reportsOf (t :: ticks) = t.result.toOption.toList ++ reportsOf ticks := by
  unfold reportsOf
  rw [List.filterMap_cons]
  cases t.result.toOption <;> rfl

theorem tick_eq_of_ok {s : Scaler} {fleet : φ} {now : Nat} {r : TickReport}
    (h : (s.tick fleet now).result = .ok r) : r.tick = s.ticks + 1 := by
  obtain ⟨-, -, -, -, -, rfl⟩ := tick_of_ok h
  rfl

theorem mem_ticks_reportsOf_iff (s : Scaler) (fleet : φ) (nows : List Nat) (k : Nat) :
    k ∈ (reportsOf (s.ticksOn fleet nows)).map (·.tick) ↔
      ∃ i t, (s.ticksOn fleet nows)[i]? = some t ∧ t.result.isOk = true ∧ k = s.ticks + i + 1 := by
  induction nows generalizing s fleet with
  | nil => simp [ticksOn, reportsOf]
  | cons now nows ih =>
      have hrest := ih (s.tick fleet now).scaler (s.tick fleet now).fleet
      have hticks : (s.tick fleet now).scaler.ticks = s.ticks + 1 := rfl
      have hfirst : k ∈ (s.tick fleet now).result.toOption.toList.map (·.tick) ↔
          (s.tick fleet now).result.isOk = true ∧ k = s.ticks + 1 := by
        cases hresult : (s.tick fleet now).result with
        | error e => simp [Except.toOption, Except.isOk, Except.toBool]
        | ok r => simp [Except.toOption, Except.isOk, Except.toBool, tick_eq_of_ok hresult]
      rw [ticksOn, reportsOf_cons, List.map_append, List.mem_append, hfirst, hrest, hticks]
      constructor
      · rintro (⟨hok, hk⟩ | ⟨i, t, ht, hok, hk⟩)
        · exact ⟨0, _, rfl, hok, hk⟩
        · exact ⟨i + 1, t, ht, hok, by omega⟩
      · rintro ⟨i, t, ht, hok, hk⟩
        cases i with
        | zero =>
            cases ht
            exact Or.inl ⟨hok, hk⟩
        | succ i => exact Or.inr ⟨i, t, ht, hok, by omega⟩

theorem pairwise_ticks_reportsOf (s : Scaler) (fleet : φ) (nows : List Nat) :
    ((reportsOf (s.ticksOn fleet nows)).map (·.tick)).Pairwise (· < ·) := by
  induction nows generalizing s fleet with
  | nil => exact List.Pairwise.nil
  | cons now nows ih =>
      rw [ticksOn, reportsOf_cons, List.map_append]
      cases hresult : (s.tick fleet now).result with
      | error e => exact ih ..
      | ok r =>
          apply List.pairwise_cons.2
          constructor
          · intro k hk
            obtain ⟨i, -, -, -, hk⟩ := (mem_ticks_reportsOf_iff ..).1 hk
            have hticks : (s.tick fleet now).scaler.ticks = s.ticks + 1 := rfl
            show r.tick < k
            rw [tick_eq_of_ok hresult]
            omega
          · exact ih ..

theorem Pace.run_eq (p : Pace φ) (nows : List Nat) (later : List Wake) :
    p.run (nows.map .timer ++ .shutdown :: later) =
      { scaler := (p.scaler.afterTicks p.fleet nows).1
        fleet := (p.scaler.afterTicks p.fleet nows).2
        calls := p.calls ++ (p.scaler.ticksOn p.fleet nows).flatMap (·.calls)
        reports := p.reports ++ reportsOf (p.scaler.ticksOn p.fleet nows) } := by
  induction nows generalizing p with
  | nil =>
      obtain ⟨scaler, fleet, calls, reports⟩ := p
      simp [Pace.run, afterTicks, ticksOn, reportsOf]
  | cons now nows ih =>
      rw [List.map_cons, List.cons_append, Pace.run, ih, ticksOn, reportsOf_cons,
        List.flatMap_cons, ← List.append_assoc, ← List.append_assoc]
      rfl

theorem wakes_eq {interval stop n : Nat} (hle : n * interval ≤ stop)
    (hlt : stop < (n + 1) * interval) :
    wakes interval stop = ((List.range' 1 n).map (· * interval)).map .timer ++ [.shutdown] := by
  have hcount : stop / interval = n := Nat.div_eq_of_lt_le hle hlt
  rw [wakes, hcount, List.range'_eq_map_range, List.map_map, List.map_map]
  simp only [Function.comp_def, Nat.add_comm 1]

end Scaler

open Scaler SimulatedFleet

/-! ## Simulations -/

namespace Simulation

theorem exists_run_eq_afterTicks {s : Simulation} (hs : s.fleet.IsSound) (nows : List Nat) :
    ∃ s', s.run nows.length = .ok s' ∧
      s.scaler.afterTicks s.fleet nows = (s'.scaler, s'.fleet) ∧
      s'.reports.toList.map (·.undated) = s.reports.toList.map (·.undated) ++
        (reportsOf (s.scaler.ticksOn s.fleet nows)).map (·.undated) := by
  induction nows generalizing s with
  | nil => exact ⟨s, rfl, rfl, by simp [ticksOn, reportsOf]⟩
  | cons now nows ih =>
      obtain ⟨r, hr, hsound, -⟩ := hs.tick s.scaler s.now
      obtain ⟨hscaler, hfleet, hresult⟩ :=
        tick_alike Fleet.isLikeness_eq s.scaler (f := s.fleet) now s.now rfl
      let s₁ : Simulation :=
        { scaler := (s.scaler.tick s.fleet s.now).scaler
          fleet := (s.scaler.tick s.fleet s.now).fleet
          reports := s.reports.push r }
      have hstep : s.step = .ok s₁ := step_eq hr
      have hreport : ((s.scaler.tick s.fleet now).result.toOption.toList).map (·.undated) =
          [r.undated] := by
        rw [hr] at hresult
        cases hpaced : (s.scaler.tick s.fleet now).result with
        | error e =>
            rw [hpaced] at hresult
            cases hresult
        | ok r' =>
            rw [hpaced] at hresult
            exact congrArg (fun x => [x]) (Except.ok.inj hresult)
      obtain ⟨s', hrun, hafter, hreports⟩ := ih (s := s₁) hsound
      refine ⟨s', (run_succ hstep _).trans hrun, ?_, ?_⟩
      · change (s.scaler.tick s.fleet now).scaler.afterTicks
          (s.scaler.tick s.fleet now).fleet nows = _
        rw [hscaler, hfleet]
        exact hafter
      · rw [hreports, ticksOn, reportsOf_cons, List.map_append, hreport, hscaler, hfleet]
        simp [s₁]

end Simulation

/-- Up to a shutdown the paced loop leaves what ticks at the same clock values leave, and it
hands on the reports of those that succeed, under increasing numbers that leave out just the
failed ones.  A shutdown between the `n`th expiration of the timer and the next one lets `n`
ticks through.  On the parts of a simulation the loop comes to what the simulation comes
to. -/
theorem pacing_is_ticking {φ : Type} [Fleet φ] (scaler : Scaler) (fleet : φ) (nows : List Nat)
    (later : List Wake) (c : Config) (t : Trace) :
    (let p := scaler.run fleet (nows.map .timer ++ .shutdown :: later)
      let ticks := scaler.ticksOn fleet nows
      (p.scaler, p.fleet) = scaler.afterTicks fleet nows ∧
      p.calls = ticks.flatMap (·.calls) ∧
      p.reports = reportsOf ticks ∧
      (p.reports.map (·.tick)).Pairwise (· < ·) ∧
      (∀ k, k ∈ p.reports.map (·.tick) ↔
        ∃ i tick, ticks[i]? = some tick ∧ tick.result.isOk = true ∧ k = scaler.ticks + i + 1) ∧
      p.scaler.ticks = scaler.ticks + nows.length ∧ ticks.length = nows.length) ∧
    (∀ interval stop n, n * interval ≤ stop → stop < (n + 1) * interval →
      wakes interval stop =
        ((List.range' 1 n).map (· * interval)).map .timer ++ [.shutdown]) ∧
    (c.validate = .ok () → t.validate = .ok () →
      ∃ s s', Simulation.new c t = .ok s ∧ s.run nows.length = .ok s' ∧
        let p := s.pace (nows.map .timer ++ .shutdown :: later)
        p.fleet = s'.fleet ∧ p.scaler = s'.scaler ∧
          p.reports.map (·.undated) = s'.reports.toList.map (·.undated)) := by
  refine ⟨?_, fun interval stop n => wakes_eq, fun hc ht => ?_⟩
  · have hrun := Pace.run_eq { scaler, fleet } nows later
    simp only [List.nil_append] at hrun
    intro p ticks
    have hp : p = _ := hrun
    rw [hp]
    exact ⟨rfl, rfl, rfl, pairwise_ticks_reportsOf .., mem_ticks_reportsOf_iff _ _ _,
      ticks_afterTicks .., length_ticksOn ..⟩
  · obtain ⟨f, hf, hnew⟩ := Simulation.exists_new_eq hc ht
    obtain ⟨s', hrun, hafter, hreports⟩ :=
      Simulation.exists_run_eq_afterTicks
        (s := { scaler := { config := c }, fleet := (f.load t).1 })
        ((isSound_ofConfig hf).load t) nows
    refine ⟨_, s', hnew, hrun, ?_⟩
    have hpace := Pace.run_eq { scaler := { config := c }, fleet := (f.load t).1 } nows later
    simp only [List.nil_append] at hpace
    intro p
    have hp : p = _ := hpace
    rw [hp]
    refine ⟨congrArg Prod.snd hafter, congrArg Prod.fst hafter, ?_⟩
    rw [hreports]
    rfl

/-- A scripted fleet whose pool is missing at the second sync. -/
def gapScript : Script :=
  { ahead := [[("web", some [⟨1, true, 0.5⟩])], [("web", none)], [("web", some [])]] }

theorem pacing_is_ticking_gap :
    (let p := Scaler.run { config := {} } gapScript ([60, 120, 180].map .timer ++ [.shutdown]);
      p.scaler.ticks = 3 ∧ p.reports.map (·.tick) = [1, 3]) ∧
    wakes 60 200 = [60, 120, 180].map .timer ++ [.shutdown] ∧
    Config.validate {} = .ok () ∧ steadyTrace.validate = .ok () ∧
    ∃ s s', Simulation.new {} steadyTrace = .ok s ∧ s.run 3 = .ok s' ∧
      (s.pace ([60, 120, 180].map .timer ++ [.shutdown])).fleet = s'.fleet := by
  have hc : Config.validate {} = .ok () := by decide +kernel
  have ht : steadyTrace.validate = .ok () := by decide +kernel
  obtain ⟨⟨-, -, hreports, -, -, hticks, -⟩, hwakes, hsimulation⟩ :=
    pacing_is_ticking { config := {} } gapScript [60, 120, 180] [] {} steadyTrace
  obtain ⟨s, s', hnew, hrun, hfleet, -⟩ := hsimulation hc ht
  have hnumbers : (reportsOf (Scaler.ticksOn { config := {} } gapScript [60, 120, 180])).map
      (·.tick) = [1, 3] := by decide +kernel
  exact ⟨⟨hticks, (congrArg (List.map (·.tick)) hreports).trans hnumbers⟩,
    hwakes 60 200 3 (by decide) (by decide), hc, ht, s, s', hnew, hrun, hfleet⟩

end FleetSizing
