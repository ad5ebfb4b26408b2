import FleetSizing.Decimal.Text
import FleetSizing.Metrics.Basic
/-!
# The text exposition of metrics

Metrics are exposed as lines of text.  Each family of samples has a line of help and a
line with its type, then a line for each sample: name, label, value.
-/

namespace FleetSizing.Metrics

open Text

inductive Measure where
  /-- A count that never falls. -/
  | counter
  /-- A value that goes up and down. -/
  | gauge
deriving DecidableEq, Repr

def Measure.name : Measure → String
  | .counter => "counter"
  | .gauge => "gauge"

structure Family where
  name : String
  help : String
  measure : Measure
  value : KindMetrics → List Char

def ticksName : String := "poolscale_ticks_total"

def families : List Family :=
  [{ name := "poolscale_pool_size"
     help := "Instances per kind after the latest tick."
     measure := .gauge
     value := fun m => digits m.poolSize },
   { name := "poolscale_average_utilization"
     help := "Mean hourly utilization at the latest growth check (0.0-1.0)."
     measure := .gauge
     value := fun m => Decimal.writeFixed 4 m.average },
   { name := "poolscale_idle_ticks"
     help := "Consecutive idle ticks of the sole instance."
     measure := .gauge
     value := fun m => digits m.idleTicks },
   { name := "poolscale_instances_created_total"
     help := "Instance creations requested."
     measure := .counter
     value := fun m => digits m.created },
   { name := "poolscale_instances_destroyed_total"
     help := "Instance destructions requested."
     measure := .counter
     value := fun m => digits m.destroyed },
   { name := "poolscale_retirements_total"
     help := "Sole instances destroyed after the idle grace period."
     measure := .counter
     value := fun m => digits m.retirements }]

def familyHeader (name help : String) (measure : Measure) : List Char :=
  "# HELP ".toList ++ name.toList ++ ' ' :: help.toList ++ "\n# TYPE ".toList ++
    name.toList ++ ' ' :: measure.name.toList ++ ['\n']

/-- The label of a kind; its name is written as it is. -/
def label (kind : Kind) : List Char :=
  '\x7b' :: "kind=\"".toList ++ kind.toList ++ ['"', '\x7d']

def sample (name : String) (label value : List Char) : List Char :=
  name.toList ++ label ++ ' ' :: value ++ ['\n']

namespace Family

def write (f : Family) (kinds : List (Kind × KindMetrics)) : List Char :=
  familyHeader f.name f.help f.measure ++
    kinds.flatMap fun (kind, m) => sample f.name (label kind) (f.value m)

end Family

def expose (kinds : List (Kind × KindMetrics)) (ticks : Nat) : List Char :=
  familyHeader ticksName "Control-loop ticks completed." .counter ++
    sample ticksName [] (digits ticks) ++ families.flatMap (·.write kinds)

def text (m : Metrics) : String := String.ofList (expose m.snapshot m.ticks)

end FleetSizing.Metrics
