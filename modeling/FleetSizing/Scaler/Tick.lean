import FleetSizing.Config.Check
import FleetSizing.Fleet.Basic
import FleetSizing.Scaler.Evaluate
/-!
# Ticks

One tick of the control loop: the fleet is brought up to date, then the kinds are
visited in order.  A visit reads the pool, decides, and carries out the requests at
once.  The first thing wrong with a pool ends the tick, and what was done before it
stays done.
-/

namespace FleetSizing

inductive ScaleError where
  | kindVanished (kind : Kind)
  | utilizationOutOfRange (id : InstanceId) (value : Float)
  | duplicateInstance (id : InstanceId)
deriving DecidableEq

def ScaleError.message : ScaleError → String
  | .kindVanished kind => s!"workload kind {kind} was listed but has no pool"
  | .utilizationOutOfRange id value =>
    s!"utilization {Decimal.text value} of instance vm-{id} is outside [0, 1]"
  | .duplicateInstance id => s!"instance vm-{id} reported more than once in a single tick"

/-- A control loop between two ticks. -/
structure Scaler where
  config : Config
  idle : IdleTracker := {}
  ticks : Nat := 0

namespace Scaler

variable {φ : Type} [Fleet φ]

def evaluate (s : Scaler) (kind : Kind) (pool : List Snapshot) : Scaler × Decision :=
  let (idle, decision) := s.config.evaluate s.idle kind pool
  ({ s with idle }, decision)

/-- The members of a pool.  None may be among the instances `seen` before in the tick,
and every utilization must be a fraction. -/
def members (fleet : φ) (seen : List InstanceId) :
    List InstanceId → Except ScaleError (List Snapshot)
  | [] => .ok []
  | id :: ids => do
    if id ∈ seen then throw (.duplicateInstance id)
    let s := Fleet.snapshot fleet id
    if !isFraction s.utilization then throw (.utilizationOutOfRange id s.utilization)
    return s :: (← members fleet (id :: seen) ids)

def readPool (fleet : φ) (seen : List InstanceId) (kind : Kind) :
    Except ScaleError (List Snapshot) :=
  match Fleet.pool? fleet kind with
  | none => .error (.kindVanished kind)
  | some ids => members fleet seen ids

def idleSole? : List Snapshot → Option InstanceId
  | [s] => if s.busy then none else some s.id
  | _ => none

structure Progress (φ : Type) where
  idle : IdleTracker
  fleet : φ
  calls : List Call
  /-- The pools that were read and decided for, in order. -/
  pools : List (List Snapshot) := []
  decisions : List Decision := []

namespace Progress

def seen (p : Progress φ) : List InstanceId := p.pools.flatten.map (·.id)

def idleSoles (p : Progress φ) : List InstanceId := p.pools.filterMap idleSole?

def noteRead (p : Progress φ) (kind : Kind) : Progress φ :=
  { p with calls := p.calls ++ [.read kind (Fleet.pool? p.fleet kind)] }

/-- Decides for a kind whose pool has been read, and carries the decision out. -/
def settle (c : Config) (p : Progress φ) (kind : Kind) (pool : List Snapshot) :
    Progress φ :=
  let (idle, decision) := c.evaluate p.idle kind pool
  { idle
    fleet := Fleet.applyAll p.fleet decision.actions
    calls := p.calls ++ decision.actions.map .request
    pools := p.pools ++ [pool]
    decisions := p.decisions ++ [decision] }

end Progress

def visitAll (c : Config) : Progress φ → List Kind → Progress φ × Except ScaleError Unit
  | p, [] => (p, .ok ())
  | p, kind :: kinds =>
    match readPool p.fleet p.seen kind with
    | .error e => (p.noteRead kind, .error e)
    | .ok pool => visitAll c ((p.noteRead kind).settle c kind pool) kinds

structure Tick (φ : Type) where
  scaler : Scaler
  fleet : φ
  calls : List Call
  /-- The pools that were read and decided for, in order. -/
  pools : List (List Snapshot)
  result : Except ScaleError TickReport

/-- One tick at the clock value `now`.  A tick that succeeds drops the idle counts of
all but the sole instances that it has seen idle. -/
def tick (s : Scaler) (fleet : φ) (now : Nat) : Tick φ :=
  let fleet := Fleet.sync fleet now
  let ticks := s.ticks + 1
  let (p, result) :=
    visitAll s.config { idle := s.idle, fleet, calls := [.sync now] } (Fleet.kinds fleet)
  let idle := match result with
    | .error _ => p.idle
    | .ok _ => p.idle.retain p.idleSoles
  { scaler := { s with idle, ticks }
    fleet := p.fleet
    calls := p.calls
    pools := p.pools
    result := result.map fun _ =>
      { tick := ticks, now, decisions := p.decisions, trackedIdle := idle.size } }

end Scaler

end FleetSizing
