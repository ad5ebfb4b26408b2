import FleetSizing.Config.Basic
import FleetSizing.Fleet.Basic
import FleetSizing.SimulatedFleet.Pool
import FleetSizing.SortedMap.Basic
/-!
# Simulated fleets

A fleet whose instances work on the jobs of traces.  Each sync is one tick of
simulated time, whatever the clock says: jobs that are due join the backlog of their
kind, then every instance works for the length of the tick.
-/

namespace FleetSizing

/-- Equal jobs that will join the backlog of their kind at a tick. -/
structure Arrival where
  kind : Kind
  tick : Nat
  seconds : Nat
  count : Nat
deriving DecidableEq, Repr

namespace Trace

def arrivals (t : Trace) : Except TraceError (List Arrival) := do
  let seconds ← secondsFrom 0 t.jobs
  return t.jobs.zipWith
    (fun job seconds =>
      { kind := job.kind, tick := job.arrivalTick, seconds, count := job.count }) seconds

end Trace

structure SimulatedFleet where
  tickSeconds : Nat
  tickSeconds_pos : 0 < tickSeconds
  /-- How many ticks the utilization of an instance covers. -/
  windowTicks : Nat
  pools : SortedMap Kind Pool := ∅
  /-- What is yet to arrive, in the order of the ticks. -/
  arrivals : List Arrival := []
  /-- The id of the latest instance; ids are counted from one. -/
  lastId : InstanceId := 0
  tick : Nat := 0

namespace SimulatedFleet

def ofConfig (c : Config) : Except ConfigError SimulatedFleet := do
  let tickSeconds ← c.tickSeconds
  let windowTicks ← c.windowTicks
  if h : 0 < tickSeconds then return { tickSeconds, tickSeconds_pos := h, windowTicks }
  else throw (.invalid .zeroTick)

/-- Gives a kind an empty pool unless it has one. -/
def register (f : SimulatedFleet) (kind : Kind) : SimulatedFleet :=
  { f with pools := f.pools.upsert kind {} id }

/-- Arrivals in the order of their ticks; those of the same tick stay in order. -/
def schedule (arrivals : List Arrival) : List Arrival :=
  arrivals.mergeSort fun a b => a.tick ≤ b.tick

/-- Registers the kinds of a trace and schedules its jobs, unless one is defective. -/
def load (f : SimulatedFleet) (t : Trace) : SimulatedFleet × Except TraceError Unit :=
  let f := t.allKinds.foldl register f
  match t.arrivals with
  | .error e => (f, .error e)
  | .ok arrivals => ({ f with arrivals := schedule (arrivals ++ f.arrivals) }, .ok ())

def instance? (f : SimulatedFleet) (id : InstanceId) : Option Instance :=
  f.pools.values.findSome? (·.find? id)

def create (f : SimulatedFleet) (kind : Kind) : SimulatedFleet :=
  let id := f.lastId + 1
  { f with
    pools := f.pools.upsert kind {} (·.add id f.windowTicks)
    lastId := id }

def destroy (f : SimulatedFleet) (id : InstanceId) : SimulatedFleet :=
  { f with pools := f.pools.map (·.remove id) }

/-- The mean busy share of an instance over its window, zero for an unknown one. -/
def utilization (f : SimulatedFleet) (id : InstanceId) : Float :=
  ((f.instance? id).map (·.window.average)).getD 0.0

def isRunning (f : SimulatedFleet) (id : InstanceId) : Bool :=
  (f.instance? id).any (·.isBusy)

/-! ## Time -/

def submit (f : SimulatedFleet) (a : Arrival) : SimulatedFleet :=
  { f with pools := f.pools.upsert a.kind {} (·.submit a.seconds a.count) }

def receive (f : SimulatedFleet) : SimulatedFleet :=
  let isDue (a : Arrival) : Bool := a.tick ≤ f.tick
  (f.arrivals.takeWhile isDue).foldl submit
    { f with arrivals := f.arrivals.dropWhile isDue }

def work (f : SimulatedFleet) : SimulatedFleet :=
  { f with pools := f.pools.map (·.work f.tickSeconds) }

def advance (f : SimulatedFleet) : SimulatedFleet :=
  { f with tick := f.tick + 1 }.receive.work

instance : Fleet SimulatedFleet where
  kinds f := f.pools.keys
  pool? f kind := (f.pools.get? kind).map (·.ids)
  create f kind := f.create kind
  destroy f _ id := f.destroy id
  sync f _ := f.advance
  utilization f id := f.utilization id
  isBusy f id := f.isRunning id

def pendingJobs (f : SimulatedFleet) : Nat := sumOf (·.count) f.arrivals

def outstandingJobs (f : SimulatedFleet) : Nat :=
  f.pendingJobs + sumOf (·.backlog.length) f.pools.values + sumOf (·.busyCount) f.pools.values

end SimulatedFleet

end FleetSizing
