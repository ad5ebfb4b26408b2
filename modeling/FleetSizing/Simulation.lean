import FleetSizing.Scaler.Pace
import FleetSizing.Summary.Basic
/-!
# Simulations

A control loop on a simulated fleet, as fast as it can be computed.  The clock is the
simulated time.
-/

namespace FleetSizing

inductive SetupError where
  | config (e : ConfigError)
  | trace (e : TraceError)
deriving DecidableEq

def SetupError.message : SetupError → String
  | .config e => "config error: " ++ e.message
  | .trace e => "trace error: " ++ e.message

structure Simulation where
  scaler : Scaler
  fleet : SimulatedFleet
  /-- The reports of the ticks so far, the first one first. -/
  reports : Array TickReport := #[]

namespace Simulation

def new (c : Config) (t : Trace) : Except SetupError Simulation := do
  c.validate.mapError .config
  let fleet ← (SimulatedFleet.ofConfig c).mapError .config
  let (fleet, result) := fleet.load t
  result.mapError .trace
  return { scaler := { config := c }, fleet }

/-- The clock at the next tick.  It is a 64-bit word and starts over when the simulated
seconds no longer fit. -/
def now (s : Simulation) : Nat := (s.fleet.tick + 1) * s.fleet.tickSeconds % Text.word64

def step (s : Simulation) : Except ScaleError Simulation := do
  let t := s.scaler.tick s.fleet s.now
  let report ← t.result
  return { scaler := t.scaler, fleet := t.fleet, reports := s.reports.push report }

def run : (ticks : Nat) → Simulation → Except ScaleError Simulation
  | 0, s => .ok s
  | n + 1, s => do run n (← s.step)

def summary (s : Simulation) : Summary := s.fleet.summary

def pace (s : Simulation) (wakes : List Scaler.Wake) : Scaler.Pace SimulatedFleet :=
  s.scaler.run s.fleet wakes

end Simulation

end FleetSizing
