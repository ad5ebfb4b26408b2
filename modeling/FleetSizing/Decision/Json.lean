import FleetSizing.Decision.Basic
import FleetSizing.Json.Record
import FleetSizing.Text.Numeral
/-!
# Decisions in JSON

The form of reports in JSON.  Outcomes and actions are tagged with their variant.
-/

namespace FleetSizing

open Json

namespace Action

def order : String → Option (List String)
  | "create" => some ["kind"]
  | "destroy" => some ["kind", "instance"]
  | _ => none

def toJson : Action → Json
  | .create kind => .object [("action", .string "create"), ("kind", .string kind)]
  | .destroy kind id =>
    .object [("action", .string "destroy"), ("kind", .string kind), ("instance", .ofNat id)]

def ofJson? (v : Json) : Option Action := do
  match ← variant? "action" order v with
  | ("create", fields) => return .create (← fields.read "kind" string?)
  | ("destroy", fields) =>
    return .destroy (← fields.read "kind" string?)
      (← fields.read "instance" (natBelow? Text.word64))
  | _ => none

end Action

namespace Outcome

def order : String → Option (List String)
  | "cold_start" => some []
  | "grace_period" => some ["idle_ticks"]
  | "retired" => some ["instance"]
  | "shrunk" => some ["destroyed"]
  | "grew" => some ["average", "factor", "requested"]
  | "steady" => some ["average"]
  | _ => none

def toJson (num : Float → Json) : Outcome → Json
  | .coldStart => .object [("outcome", .string "cold_start")]
  | .gracePeriod n => .object [("outcome", .string "grace_period"), ("idle_ticks", .ofNat n)]
  | .retired id => .object [("outcome", .string "retired"), ("instance", .ofNat id)]
  | .shrunk n => .object [("outcome", .string "shrunk"), ("destroyed", .ofNat n)]
  | .grew average factor requested =>
    .object [("outcome", .string "grew"), ("average", num average), ("factor", num factor),
      ("requested", .ofNat requested)]
  | .steady average => .object [("outcome", .string "steady"), ("average", num average)]

def ofJson? (v : Json) : Option Outcome := do
  match ← variant? "outcome" order v with
  | ("cold_start", _) => return .coldStart
  | ("grace_period", fields) =>
    return .gracePeriod (← fields.read "idle_ticks" (natBelow? Text.word32))
  | ("retired", fields) => return .retired (← fields.read "instance" (natBelow? Text.word64))
  | ("shrunk", fields) => return .shrunk (← fields.read "destroyed" (natBelow? Text.word32))
  | ("grew", fields) =>
    return .grew (← fields.read "average" double?) (← fields.read "factor" double?)
      (← fields.read "requested" (natBelow? Text.word32))
  | ("steady", fields) => return .steady (← fields.read "average" double?)
  | _ => none

end Outcome

namespace Decision

def order : List String := ["kind", "pool_size", "outcome", "actions"]

def toJson (num : Float → Json) (d : Decision) : Json :=
  .object
    [("kind", .string d.kind), ("pool_size", .ofNat d.poolSize),
     ("outcome", d.outcome.toJson num), ("actions", .array (d.actions.map (·.toJson)))]

def ofJson? (v : Json) : Option Decision := do
  let fields ← record? order v
  return {
    kind := ← fields.read "kind" string?
    poolSize := ← fields.read "pool_size" (natBelow? Text.word64)
    outcome := ← fields.read "outcome" Outcome.ofJson?
    actions := ← fields.read "actions" (listOf? Action.ofJson?) }

end Decision

namespace TickReport

def order : List String := ["tick", "now", "kinds", "tracked_idle"]

def toJson (num : Float → Json) (r : TickReport) : Json :=
  .object
    [("tick", .ofNat r.tick), ("now", .ofNat r.now),
     ("kinds", .array (r.decisions.map (·.toJson num))), ("tracked_idle", .ofNat r.trackedIdle)]

def ofJson? (v : Json) : Option TickReport := do
  let fields ← record? order v
  return {
    tick := ← fields.read "tick" (natBelow? Text.word64)
    now := ← fields.read "now" (natBelow? Text.word64)
    decisions := ← fields.read "kinds" (listOf? Decision.ofJson?)
    trackedIdle := ← fields.read "tracked_idle" (natBelow? Text.word64) }

end TickReport

end FleetSizing
