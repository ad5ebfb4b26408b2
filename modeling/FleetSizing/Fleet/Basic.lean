import FleetSizing.Decision.Basic
/-!
# Fleets

What the control loop needs of a fleet: its kinds and pools, requests that change a
pool, and the load of each instance.
-/

namespace FleetSizing

class Fleet (φ : Type) where
  /-- The kinds to decide for, in order. -/
  kinds : φ → List Kind
  /-- The instances of a kind, if it has a pool. -/
  pool? : φ → Kind → Option (List InstanceId)
  create : φ → Kind → φ
  destroy : φ → Kind → InstanceId → φ
  /-- Brings the fleet up to date at a clock value. -/
  sync : φ → Nat → φ
  utilization : φ → InstanceId → Float
  isBusy : φ → InstanceId → Bool

namespace Fleet

variable {φ : Type} [Fleet φ]

def snapshot (fleet : φ) (id : InstanceId) : Snapshot :=
  { id, busy := isBusy fleet id, utilization := utilization fleet id }

def apply (fleet : φ) : Action → φ
  | .create kind => create fleet kind
  | .destroy kind id => destroy fleet kind id

def applyAll (fleet : φ) (actions : List Action) : φ := actions.foldl apply fleet

end Fleet

/-- What a control loop asks of a fleet. -/
inductive Call where
  | sync (now : Nat)
  /-- For the pool of a kind, with the answer. -/
  | read (kind : Kind) (ids : Option (List InstanceId))
  | request (action : Action)
deriving DecidableEq, Repr

end FleetSizing
