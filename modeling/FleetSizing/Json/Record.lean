import FleetSizing.Json.Basic
/-!
# Records in JSON

Reading values as strings, numbers, lists and records.  The fields of a record are
named in an object or are the items of an array in a fixed order.  Fields of an object
that nobody asks for are ignored.
-/

namespace FleetSizing.Json

def string? : Json → Option String
  | .string s => some s
  | _ => none

def natBelow? (bound : Nat) : Json → Option Nat
  | .integer i => if 0 ≤ i ∧ i < bound then some i.toNat else none
  | _ => none

def double? : Json → Option Float
  | .float x => some x
  | .integer i => some (Float.ofInt i)
  | _ => none

def list? : Json → Option (List Json)
  | .array items => some items
  | _ => none

def listOf? (read : Json → Option α) (v : Json) : Option (List α) := do
  (← list? v).mapM read

abbrev Fields := String → Option Json

namespace Fields

/-- Fields by their places in a list. -/
def ofList? (order : List String) (items : List Json) : Option Fields :=
  if items.length = order.length then some fun name => items[order.idxOf name]? else none

def read (fields : Fields) (name : String) (decode : Json → Option α) : Option α :=
  (fields name).bind decode

end Fields

/-- The fields of a record whose fields come in the given order. -/
def record? (order : List String) : Json → Option Fields
  | .object fields => some fun name => lookup name fields
  | .array items => Fields.ofList? order items
  | _ => none

/-- The variant that a record belongs to, named by the field `tag` or the first item, and
the fields that this variant has. -/
def variant? (tag : String) (order : String → Option (List String)) :
    Json → Option (String × Fields)
  | .object fields => do
    let name ← string? (← lookup tag fields)
    let _ ← order name
    return (name, fun field => lookup field fields)
  | .array (head :: items) => do
    let name ← string? head
    return (name, ← Fields.ofList? (← order name) items)
  | _ => none

end FleetSizing.Json
