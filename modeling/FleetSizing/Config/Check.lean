import FleetSizing.Config.Basic
/-!
# Checking a configuration

The first defect of a configuration, in a fixed order: the tick interval, the
window, the grace, the threshold, then the growth bands from the first to the last.
-/

namespace FleetSizing

/-- A share of a whole; `NaN` is none. -/
def isFraction (x : Float) : Bool := decide (0.0 ≤ x) && decide (x ≤ 1.0)

namespace GrowthBand

def check (i : Nat) (band : GrowthBand) : Except Defect Unit := do
  if !isFraction band.lower then throw (.lowerBound i band.lower)
  if let some upper := band.upper then
    if !isFraction upper then throw (.upperBound i upper)
    if upper ≤ band.lower then throw (.emptyBand i upper band.lower)
  if band.factor.isNaN || decide (band.factor ≤ 1.0) then throw (.factor i band.factor)

def checkFrom (i : Nat) : List GrowthBand → Except Defect Unit
  | [] => .ok ()
  | band :: bands => do
    band.check i
    checkFrom (i + 1) bands

end GrowthBand

namespace Config

/-- The first defect of a configuration whose durations are `tick` and `window` seconds. -/
def checkValues (c : Config) (tick window : Nat) : Except Defect Unit := do
  if window < tick then throw (.windowBelowTick c.utilizationWindow c.tickInterval)
  if c.idleGraceTicks = 0 then throw .zeroGrace
  if !isFraction c.destroyThreshold then throw (.threshold c.destroyThreshold)
  GrowthBand.checkFrom 0 c.growthBands

def validate (c : Config) : Except ConfigError Unit := do
  let tick ← c.tickSeconds
  if tick = 0 then throw (.invalid .zeroTick)
  let window ← c.windowSeconds
  (c.checkValues tick window).mapError .invalid

end Config

end FleetSizing
