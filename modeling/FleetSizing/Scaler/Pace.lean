import FleetSizing.Scaler.Tick
/-!
# The paced loop

The control loop waits for a timer and runs a tick each time it expires, until it is
told to stop.  A failed tick gives no report and does not end the loop.
-/

namespace FleetSizing.Scaler

variable {φ : Type} [Fleet φ]

inductive Wake where
  /-- The timer has expired, at a clock value. -/
  | timer (now : Nat)
  | shutdown
deriving DecidableEq, Repr

structure Pace (φ : Type) where
  scaler : Scaler
  fleet : φ
  calls : List Call := []
  /-- The reports of the ticks that succeeded. -/
  reports : List TickReport := []

def Pace.tick (p : Pace φ) (now : Nat) : Pace φ :=
  let t := p.scaler.tick p.fleet now
  { scaler := t.scaler
    fleet := t.fleet
    calls := p.calls ++ t.calls
    reports := p.reports ++ t.result.toOption.toList }

def Pace.run (p : Pace φ) : List Wake → Pace φ
  | [] => p
  | .shutdown :: _ => p
  | .timer now :: wakes => (p.tick now).run wakes

def run (s : Scaler) (fleet : φ) (wakes : List Wake) : Pace φ :=
  Pace.run { scaler := s, fleet } wakes

/-- The wakes of a timer that is set anew for `interval` seconds after each tick, up to
a shutdown after `stop` seconds. -/
def wakes (interval stop : Nat) : List Wake :=
  (List.range (stop / interval)).map (fun k => .timer ((k + 1) * interval)) ++ [.shutdown]

end FleetSizing.Scaler
