import FleetSizing.Decimal.Text
import FleetSizing.Duration
/-!
# Scaler configuration

The tunables of the control loop: its cadence, how long an idle sole instance is
kept, when an idle instance of a larger pool is given up, and the table of growth
bands.  Durations are kept as written and read when they are needed.
-/

namespace FleetSizing

/-- A row of the growth table: a pool whose average utilization lies strictly between
the bounds is scaled by `factor`.  Without an upper bound the band is open-ended. -/
structure GrowthBand where
  lower : Float
  upper : Option Float
  factor : Float
deriving DecidableEq

namespace GrowthBand

def contains (band : GrowthBand) (average : Float) : Bool :=
  decide (band.lower < average) && band.upper.all fun upper => decide (average < upper)

end GrowthBand

/-- Settings of the control loop.  The growth bands are tried in order. -/
structure Config where
  tickInterval : String := "2m"
  idleGraceTicks : Nat := 30
  destroyThreshold : Float := 0.20
  utilizationWindow : String := "1h"
  growthBands : List GrowthBand :=
    [⟨0.60, some 0.69, 1.20⟩, ⟨0.70, some 0.79, 1.40⟩, ⟨0.80, some 0.90, 1.60⟩,
     ⟨0.90, none, 1.80⟩]
deriving DecidableEq

instance : Inhabited Config := ⟨{}⟩

inductive Defect where
  | zeroTick
  | windowBelowTick (window tick : String)
  | zeroGrace
  | threshold (value : Float)
  | lowerBound (band : Nat) (value : Float)
  | upperBound (band : Nat) (value : Float)
  | emptyBand (band : Nat) (upper lower : Float)
  | factor (band : Nat) (value : Float)
deriving DecidableEq

def Defect.message : Defect → String
  | .zeroTick => "tick_interval must be non-zero"
  | .windowBelowTick window tick =>
    s!"utilization_window ({window}) is shorter than tick_interval ({tick})"
  | .zeroGrace => "idle_grace_ticks must be at least 1"
  | .threshold value =>
    s!"destroy_utilization_threshold {Decimal.text value} is outside [0, 1]"
  | .lowerBound band value =>
    s!"growth band {band}: lower bound {Decimal.text value} is outside [0, 1]"
  | .upperBound band value =>
    s!"growth band {band}: upper bound {Decimal.text value} is outside [0, 1]"
  | .emptyBand band upper lower =>
    s!"growth band {band}: upper bound {Decimal.text upper} must exceed lower bound " ++
      Decimal.text lower
  | .factor band value =>
    s!"growth band {band}: factor {Decimal.text value} must be greater than 1.0"

inductive ConfigError where
  | unreadable
  | malformed
  | duration (e : Duration.Malformed)
  | invalid (defect : Defect)
  /-- The seconds of a grace period do not fit 64 bits.  This is a panic, and not an error that
  the program returns. -/
  | graceOverflow
deriving DecidableEq

/-- The text of an error; that of the panic is left out. -/
def ConfigError.message : ConfigError → String
  | .unreadable => "failed to read config"
  | .malformed => "failed to parse config"
  | .duration e => e.message
  | .invalid defect => "invalid config: " ++ defect.message
  | .graceOverflow => ""

namespace Config

def tickSeconds (c : Config) : Except ConfigError Nat :=
  (Duration.parse c.tickInterval).mapError .duration

/-- Seconds of load history that a utilization covers. -/
def windowSeconds (c : Config) : Except ConfigError Nat :=
  (Duration.parse c.utilizationWindow).mapError .duration

/-- How many ticks the utilization window holds: at least one, kept as a 32-bit word. -/
def windowTicks (c : Config) : Except ConfigError Nat := do
  let tick ← c.tickSeconds
  let window ← c.windowSeconds
  if tick = 0 then throw (.invalid .zeroTick)
  return max (window / tick) 1 % Text.word32

/-- Seconds that a sole idle instance is kept. -/
def graceSeconds (c : Config) : Except ConfigError Nat := do
  let tick ← c.tickSeconds
  if tick * c.idleGraceTicks < Text.word64 then return tick * c.idleGraceTicks
  else throw .graceOverflow

/-- The factor of the first growth band that contains an average. -/
def growthFactor (c : Config) (average : Float) : Option Float :=
  (c.growthBands.find? (·.contains average)).map (·.factor)

end Config

end FleetSizing
