import FleetSizing.Toml.Value
/-!
# Records in TOML

Reading values as strings, numbers, lists and records.  The fields of a record are
named in a table or stand in a fixed order in an array; fields that nobody asks for
are ignored.
-/

namespace FleetSizing.Toml

def string? : Toml → Option String
  | .string s => some s
  | _ => none

def natBelow? (bound : Nat) : Toml → Option Nat
  | .integer i => if 0 ≤ i ∧ i < bound then some i.toNat else none
  | _ => none

def double? : Toml → Option Float
  | .float x => some x
  | .integer i => some (Float.ofInt i)
  | _ => none

/-- The elements of an array, or the tables under repeated headers. -/
def list? : Toml → Option (List Toml)
  | .array items => some items
  | .tables items => some (items.map (.table .header))
  | _ => none

/-- The field of a record whose fields come in the given order. -/
def field? (order : List String) (record : Toml) (name : String) : Option Toml :=
  match record with
  | .table _ entries => lookup name entries
  | _ => do (← list? record)[order.idxOf name]?

def required (read : Toml → Option α) : Option Toml → Option α
  | some v => read v
  | none => none

def optional (read : Toml → Option α) (default : α) : Option Toml → Option α
  | some v => read v
  | none => some default

def listOf? (read : Toml → Option α) (v : Toml) : Option (List α) := do
  (← list? v).mapM read

end FleetSizing.Toml
