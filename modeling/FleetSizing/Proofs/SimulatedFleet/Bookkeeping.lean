import FleetSizing.Proofs.SimulatedFleet.Course
/-!
# Bookkeeping

The decisions of a run are entered into four books: the reports list them, the metrics and
the counters of the pools add them up, and the idle counts follow them.  In a simulation the
books agree after every tick, as each request is carried out once and nothing else changes
the size of a pool.
-/

namespace FleetSizing

open Scaler SimulatedFleet

namespace Headcount

end Headcount

namespace Simulation

variable {c : Config} {t : Trace} {n : Nat} {s : Simulation} {kind : Kind}

/-- The reports of a simulation of the trace `t` under `c`, one for each of `n` ticks. -/
structure HasReported (c : Config) (t : Trace) (n : Nat) (s : Simulation) : Prop where
  size : s.reports.size = n
  report : ∀ i r, s.reports[i]? = some r → r.tick = i + 1 ∧
    (∃ seconds, c.tickSeconds = .ok seconds ∧ r.now = (i + 1) * seconds % Text.word64) ∧
    r.decisions.map (·.kind) = t.allKinds

theorem HasReported.next (h : s.HasCome c t n) (hreports : s.HasReported c t n) :
    s.next.HasReported c t (n + 1) := by
  obtain ⟨r, -, hnext, htick, hnow, hkinds, -⟩ := h.exists_next
  rw [hnext]
  refine ⟨?_, fun i r' hr' => ?_⟩
  · rw [Array.size_push, hreports.size]
  · rw [Array.getElem?_push, hreports.size] at hr'
    split at hr'
    next heq =>
      cases hr'
      exact ⟨heq ▸ htick, ⟨_, h.tickSeconds, heq ▸ hnow⟩, hkinds⟩
    next => exact hreports.report i r' hr'

end Simulation

end FleetSizing
