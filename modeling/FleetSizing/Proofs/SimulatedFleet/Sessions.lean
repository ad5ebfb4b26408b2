import FleetSizing.Proofs.Config.Acceptance
import FleetSizing.Proofs.SimulatedFleet.Ticks
import FleetSizing.Simulation
/-!
# Sessions

Whatever is done with a simulated fleet, every tick on it succeeds.  So does every
simulation of a valid trace under a valid configuration.
-/

namespace FleetSizing

open SimulatedFleet

/-- What can be done with a simulated fleet and a scaler. -/
inductive Operation where
  | register (kind : Kind)
  | load (trace : Trace)
  | create (kind : Kind)
  | destroy (kind : Kind) (id : InstanceId)
  | sync (now : Nat)
  | tick (now : Nat)

structure Session where
  scaler : Scaler
  fleet : SimulatedFleet
  results : List (Except ScaleError TickReport) := []

namespace Session

def apply (s : Session) : Operation → Session
  | .register kind => { s with fleet := s.fleet.register kind }
  | .load trace => { s with fleet := (s.fleet.load trace).1 }
  | .create kind => { s with fleet := Fleet.create s.fleet kind }
  | .destroy kind id => { s with fleet := Fleet.destroy s.fleet kind id }
  | .sync now => { s with fleet := Fleet.sync s.fleet now }
  | .tick now =>
    let t := s.scaler.tick s.fleet now
    { scaler := t.scaler, fleet := t.fleet, results := s.results ++ [t.result] }

def run (s : Session) (ops : List Operation) : Session := ops.foldl apply s

structure IsSound (s : Session) : Prop where
  fleet : s.fleet.IsSound
  results : ∀ result ∈ s.results, ∃ r, result = .ok r

theorem IsSound.apply {s : Session} (hs : s.IsSound) (op : Operation) : (s.apply op).IsSound := by
  cases op with
  | register kind => exact ⟨hs.fleet.register kind, hs.results⟩
  | load trace => exact ⟨hs.fleet.load trace, hs.results⟩
  | create kind => exact ⟨hs.fleet.create kind, hs.results⟩
  | destroy kind id => exact ⟨hs.fleet.destroy id, hs.results⟩
  | sync now => exact ⟨hs.fleet.advance, hs.results⟩
  | tick now =>
      obtain ⟨r, hr, hfleet, -⟩ := hs.fleet.tick s.scaler now
      refine ⟨hfleet, fun result hresult => ?_⟩
      rcases List.mem_append.1 hresult with hresult | hresult
      · exact hs.results result hresult
      · exact ⟨r, (List.mem_singleton.1 hresult).trans hr⟩

theorem IsSound.run {s : Session} (hs : s.IsSound) (ops : List Operation) :
    (s.run ops).IsSound := by
  induction ops generalizing s with
  | nil => exact hs
  | cons op ops ih => exact ih (hs.apply op)

end Session

/-! ## Simulations -/

theorem eq_ok_of_toOption {ε α : Type} {result : Except ε α} {a : α}
    (h : result.toOption = some a) : result = .ok a := by
  cases result with
  | ok b => exact congrArg _ (Option.some_inj.1 h)
  | error e => cases h

theorem SimulatedFleet.exists_ofConfig {c : Config} (h : c.validate = .ok ()) :
    ∃ f, ofConfig c = .ok f := by
  obtain ⟨tick, window, haccepted⟩ := Config.validate_eq_ok_iff.1 h
  simp [ofConfig, Config.windowTicks, haccepted.tickSeconds, haccepted.windowSeconds,
    haccepted.tick_pos, haccepted.tick_pos.ne', bind, Except.bind, pure, Except.pure]

theorem SimulatedFleet.load_ok {t : Trace} (h : t.validate = .ok ()) (f : SimulatedFleet) :
    (f.load t).2 = .ok () := by
  unfold Trace.validate at h
  cases hseconds : Trace.secondsFrom 0 t.jobs with
  | error e => simp [hseconds, bind, Except.bind] at h
  | ok seconds =>
      simp [load, Trace.arrivals, hseconds, bind, Except.bind, pure, Except.pure]

namespace Simulation

theorem exists_new_eq {c : Config} {t : Trace} (hc : c.validate = .ok ())
    (ht : t.validate = .ok ()) :
    ∃ f, ofConfig c = .ok f ∧
      new c t = .ok { scaler := { config := c }, fleet := (f.load t).1 } := by
  obtain ⟨f, hf⟩ := exists_ofConfig hc
  have hload := load_ok ht f
  refine ⟨f, hf, ?_⟩
  simp [new, hc, hf, hload, Except.mapError, bind, Except.bind, pure, Except.pure]

theorem exists_new {c : Config} {t : Trace} (hc : c.validate = .ok ()) (ht : t.validate = .ok ()) :
    ∃ s, new c t = .ok s ∧ s.scaler = { config := c } ∧ s.fleet.IsSound := by
  obtain ⟨f, hf, hnew⟩ := exists_new_eq hc ht
  exact ⟨_, hnew, rfl, (isSound_ofConfig hf).load t⟩

theorem step_eq {s : Simulation} {r : TickReport}
    (hr : (s.scaler.tick s.fleet s.now).result = .ok r) :
    s.step = .ok { scaler := (s.scaler.tick s.fleet s.now).scaler
                   fleet := (s.scaler.tick s.fleet s.now).fleet
                   reports := s.reports.push r } := by
  simp only [step, hr, bind, Except.bind, pure, Except.pure]

theorem run_succ {s s' : Simulation} (h : s.step = .ok s') (n : Nat) :
    s.run (n + 1) = s'.run n := by
  simp only [run, h, bind, Except.bind]

theorem exists_step {s : Simulation} (hs : s.fleet.IsSound) :
    ∃ s', s.step = .ok s' ∧ s'.fleet.IsSound ∧ s'.scaler.config = s.scaler.config ∧
      s'.fleet = (s.scaler.tick s.fleet s.now).fleet := by
  obtain ⟨r, hr, hfleet, -⟩ := hs.tick s.scaler s.now
  exact ⟨_, step_eq hr, hfleet, rfl, rfl⟩

theorem exists_run {s : Simulation} (hs : s.fleet.IsSound) (n : Nat) :
    ∃ s', s.run n = .ok s' ∧ s'.fleet.IsSound ∧ s'.scaler.config = s.scaler.config := by
  induction n generalizing s with
  | zero => exact ⟨s, rfl, hs, rfl⟩
  | succ n ih =>
      obtain ⟨s', hstep, hfleet, hconfig, -⟩ := exists_step hs
      obtain ⟨s'', hrun, hfleet', hconfig'⟩ := ih hfleet
      exact ⟨s'', (run_succ hstep n).trans hrun, hfleet', hconfig'.trans hconfig⟩

end Simulation

/-- Whatever is done with a new simulated fleet, and whatever scaler ticks on it, every tick
succeeds; a simulation of a valid trace under a valid configuration runs for any number of
ticks.  As in `Config.growth`, the requests are taken to fit memory. -/
theorem simulated_ticks_succeed (c : Config) (t : Trace) :
    (∀ f, ofConfig c = .ok f → ∀ (scaler : Scaler) (ops : List Operation),
      ∀ result ∈ (Session.run { scaler, fleet := f } ops).results, ∃ r, result = .ok r) ∧
    (c.validate = .ok () → t.validate = .ok () →
      ∃ s, Simulation.new c t = .ok s ∧ ∀ n, ∃ s', s.run n = .ok s') := by
  constructor
  · intro f hf scaler ops
    have hnew : Session.IsSound { scaler, fleet := f } := ⟨isSound_ofConfig hf, nofun⟩
    exact (hnew.run ops).results
  · intro hc ht
    obtain ⟨s, hnew, -, hs⟩ := Simulation.exists_new hc ht
    refine ⟨s, hnew, fun n => ?_⟩
    obtain ⟨s', hrun, -⟩ := Simulation.exists_run hs n
    exact ⟨s', hrun⟩

def steadyTrace : Trace := { jobs := [⟨"web", 1, "4m", 1⟩] }

theorem simulated_ticks_succeed_steady :
    (∃ f, ofConfig {} = .ok f ∧
      ∀ result ∈ (Session.run { scaler := { config := {} }, fleet := f }
        [.load steadyTrace, .tick 120, .destroy "db" 1, .tick 240]).results,
          ∃ r, result = .ok r) ∧
    Config.validate {} = .ok () ∧ steadyTrace.validate = .ok () ∧
    ∃ s, Simulation.new {} steadyTrace = .ok s ∧ ∃ s', s.run 100 = .ok s' := by
  have hc : Config.validate {} = .ok () := by decide +kernel
  have ht : steadyTrace.validate = .ok () := by decide +kernel
  obtain ⟨f, hf⟩ := exists_ofConfig hc
  obtain ⟨s, hnew, hrun⟩ := (simulated_ticks_succeed {} steadyTrace).2 hc ht
  exact ⟨⟨f, hf, (simulated_ticks_succeed {} steadyTrace).1 f hf _ _⟩, hc, ht, s, hnew, hrun 100⟩

/-- Two jobs that arrive together and fill an instance for two ticks and a half each. -/
def pairTrace : Trace := { jobs := [⟨"web", 1, "5m", 2⟩] }

end FleetSizing
