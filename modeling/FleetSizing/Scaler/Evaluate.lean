import FleetSizing.Config.Basic
import FleetSizing.Decimal.Rounding
import FleetSizing.IdleTracker
import FleetSizing.Mean
/-!
# Evaluating a pool

The decision for one pool.  An empty pool gets an instance.  A sole idle instance is
kept for the grace period and then given up.  A larger pool gives up its idle
instances of low utilization, though never all of them.  Where nothing is given up
the growth bands decide.
-/

namespace FleetSizing

/-- How far a target may exceed a whole number before it is rounded up. -/
def targetTolerance : Float := 1e-9

def targetSize (size : Nat) (factor : Float) : Nat :=
  Decimal.ceilUpTo (Text.word64 - 1) (Float.ofNat size * factor - targetTolerance)

namespace Config

/-- The outcome and the requests for a pool that gives nothing up.  The requests are taken to
fit memory: a factor that asks for more of them, an infinite one for example, ends the
program. -/
def growth (c : Config) (kind : Kind) (pool : List Snapshot) : Outcome × List Action :=
  let average := mean (pool.map (·.utilization))
  match c.growthFactor average with
  | none => (.steady average, [])
  | some factor =>
    let requested := targetSize pool.length factor - pool.length
    (.grew average factor (requested % Text.word32), List.replicate requested (.create kind))

def isSpare (c : Config) (s : Snapshot) : Bool :=
  !s.busy && decide (s.utilization < c.destroyThreshold)

end Config

/-- All members of a pool but the first one of the highest utilization. -/
def allButBusiest (pool : List Snapshot) : List Snapshot :=
  match (pool.map fun s => Decimal.totalKey s.utilization).max? with
  | none => []
  | some top => pool.eraseP fun s => Decimal.totalKey s.utilization == top

namespace Config

/-- The members of a pool that are given up: the spare ones, but for the busiest if that
would be all. -/
def surplus (c : Config) (pool : List Snapshot) : List Snapshot :=
  if pool.all c.isSpare then allButBusiest pool else pool.filter c.isSpare

def shrinkage (c : Config) (kind : Kind) (pool : List Snapshot) : Outcome × List Action :=
  if pool.any c.isSpare then
    let doomed := c.surplus pool
    (.shrunk (doomed.length % Text.word32), doomed.map fun s => .destroy kind s.id)
  else c.growth kind pool

/-- The decision for an idle sole instance in its `count`-th idle tick. -/
def patience (c : Config) (kind : Kind) (id : InstanceId) (count : Nat) :
    Outcome × List Action :=
  if count < c.idleGraceTicks then (.gracePeriod count, [])
  else (.retired id, [.destroy kind id])

/-- The outcome for a pool, its requests, and the idle counts that follow. -/
def judge (c : Config) (idle : IdleTracker) (kind : Kind) (pool : List Snapshot) :
    IdleTracker × Outcome × List Action :=
  match pool with
  | [] => (idle, .coldStart, [.create kind])
  | [sole] =>
    if sole.busy then (idle.clear sole.id, c.growth kind pool)
    else
      let count := idle.next sole.id
      (if count < c.idleGraceTicks then idle.observe sole.id else idle.clear sole.id,
        c.patience kind sole.id count)
  | _ => (pool.foldl (fun t s => t.clear s.id) idle, c.shrinkage kind pool)

def evaluate (c : Config) (idle : IdleTracker) (kind : Kind) (pool : List Snapshot) :
    IdleTracker × Decision :=
  let (idle, outcome, actions) := c.judge idle kind pool
  (idle, { kind, poolSize := pool.length, outcome, actions })

end Config

end FleetSizing
