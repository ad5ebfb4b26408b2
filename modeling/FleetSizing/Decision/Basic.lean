import FleetSizing.Trace.Basic
import FleetSizing.Text.Numeral
/-!
# Decisions

What the control loop sees of a pool, what it decides for it, and the report of a
whole tick.
-/

namespace FleetSizing

/-- The number of an instance, unique in its fleet. -/
abbrev InstanceId := Nat

structure Snapshot where
  id : InstanceId
  /-- Work is in flight or waiting for it. -/
  busy : Bool
  /-- The busy share of the utilization window. -/
  utilization : Float
deriving DecidableEq

inductive Action where
  | create (kind : Kind)
  | destroy (kind : Kind) (id : InstanceId)
deriving DecidableEq, Repr

inductive Outcome where
  /-- The pool is empty and gets its first instance. -/
  | coldStart
  /-- The only instance has been idle for so many ticks, which is not long enough. -/
  | gracePeriod (idleTicks : Nat)
  /-- The only instance has been idle for the whole grace period and is given up. -/
  | retired (id : InstanceId)
  /-- Idle instances of low utilization are given up. -/
  | shrunk (destroyed : Nat)
  /-- The average utilization lies in a growth band. -/
  | grew (average factor : Float) (requested : Nat)
  /-- The average utilization lies in no growth band. -/
  | steady (average : Float)
deriving DecidableEq

namespace Action

def isCreate : Action → Bool
  | .create _ => true
  | .destroy .. => false

def isDestroy : Action → Bool
  | .create _ => false
  | .destroy .. => true

end Action

/-- The decision for one kind, with the requests that carry it out. -/
structure Decision where
  kind : Kind
  poolSize : Nat
  outcome : Outcome
  actions : List Action
deriving DecidableEq

namespace Decision

def creates (d : Decision) : Nat := d.actions.countP Action.isCreate

def destroys (d : Decision) : Nat := d.actions.countP Action.isDestroy

/-- The size of the pool once the requests are carried out, as a whole number: the sum is not
cut to a word. -/
def resultingPoolSize (d : Decision) : Nat := d.poolSize + d.creates - d.destroys

end Decision

structure TickReport where
  tick : Nat
  now : Nat
  decisions : List Decision
  /-- How many idle instances are within their grace period. -/
  trackedIdle : Nat
deriving DecidableEq

namespace TickReport

def decisionFor (r : TickReport) (kind : Kind) : Option Decision :=
  r.decisions.find? (·.kind = kind)

def actions (r : TickReport) : List Action := r.decisions.flatMap (·.actions)

def totalCreates (r : TickReport) : Nat := sumOf (·.creates) r.decisions

def totalDestroys (r : TickReport) : Nat := sumOf (·.destroys) r.decisions

def isChange (r : TickReport) : Bool := r.totalCreates + r.totalDestroys != 0

end TickReport

end FleetSizing
