import FleetSizing.Decision.Basic
import FleetSizing.SortedMap.Basic
/-!
# Metrics

What the reports of a control loop add up to for each kind.
-/

namespace FleetSizing

structure KindMetrics where
  /-- The pool size that the latest decision aims at. -/
  poolSize : Nat := 0
  created : Nat := 0
  destroyed : Nat := 0
  /-- How many sole instances were given up after their grace period. -/
  retirements : Nat := 0
  /-- The average of the latest growth decision. -/
  average : Float := 0.0
  /-- The idle ticks in the latest decision, zero if it is none about them. -/
  idleTicks : Nat := 0
deriving DecidableEq

namespace KindMetrics

def record (m : KindMetrics) (d : Decision) : KindMetrics where
  poolSize := d.resultingPoolSize
  created := m.created + d.creates
  destroyed := m.destroyed + d.destroys
  retirements := match d.outcome with
    | .retired _ => m.retirements + 1
    | _ => m.retirements
  average := match d.outcome with
    | .grew average _ _ => average
    | .steady average => average
    | _ => m.average
  idleTicks := match d.outcome with
    | .gracePeriod n => n
    | _ => 0

end KindMetrics

/-- The metrics of all kinds that were ever decided for. -/
structure Metrics where
  ticks : Nat := 0
  kinds : SortedMap Kind KindMetrics := ∅

namespace Metrics

def record (m : Metrics) (r : TickReport) : Metrics where
  ticks := m.ticks + 1
  kinds := r.decisions.foldl (fun ms d => ms.upsert d.kind {} (·.record d)) m.kinds

def ofReports (reports : List TickReport) : Metrics := reports.foldl record {}

def snapshot (m : Metrics) : List (Kind × KindMetrics) := m.kinds.toList

end Metrics

end FleetSizing
