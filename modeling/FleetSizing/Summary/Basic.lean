import FleetSizing.SimulatedFleet.Basic
import FleetSizing.SortedMap.Lemmas
/-!
# Summaries

How a simulated fleet stands, kind by kind.
-/

namespace FleetSizing

structure KindSummary where
  kind : Kind
  finalPool : Nat
  peakPool : Nat
  created : Nat
  destroyed : Nat
  submitted : Nat
  completed : Nat
  backlog : Nat
deriving DecidableEq, Repr

structure Summary where
  ticks : Nat
  /-- The simulated time, a 64-bit word like the clock. -/
  seconds : Nat
  outstanding : Nat
  kinds : List KindSummary
deriving DecidableEq, Repr

def Pool.summary (kind : Kind) (p : Pool) : KindSummary where
  kind := kind
  finalPool := p.size
  peakPool := p.peak
  created := p.created
  destroyed := p.destroyed
  submitted := p.submitted
  completed := p.completed
  backlog := p.backlog.length

/-- How a fleet stands, its kinds in increasing order. -/
def SimulatedFleet.summary (f : SimulatedFleet) : Summary where
  ticks := f.tick
  seconds := f.tick * f.tickSeconds % Text.word64
  outstanding := f.outstandingJobs
  kinds := f.pools.toList.map fun (kind, p) => p.summary kind

def Summary.kindFor (s : Summary) (kind : Kind) : Option KindSummary :=
  s.kinds.find? (·.kind = kind)

theorem SimulatedFleet.kindFor_summary (f : SimulatedFleet) (kind : Kind) :
    f.summary.kindFor kind = (f.pools.get? kind).map (·.summary kind) := by
  have hkinds : f.summary.kinds = f.pools.toList.map fun entry => entry.2.summary entry.1 := rfl
  have hfind := f.pools.find?_toList kind
  rw [Summary.kindFor, hkinds, List.find?_map]
  change (f.pools.toList.find? (·.1 = kind)).map _ = _
  rw [hfind, Option.map_map]
  rfl

end FleetSizing
