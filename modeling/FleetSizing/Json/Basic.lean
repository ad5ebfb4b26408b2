/-!
# JSON values

The tree that a JSON text denotes.  Whole numbers are kept exact.
-/

namespace FleetSizing

/-- A JSON value.  Of several fields with one name the last one counts. -/
inductive Json where
  | null
  | boolean (b : Bool)
  | integer (i : Int)
  | float (x : Float)
  | string (s : String)
  | array (items : List Json)
  | object (fields : List (String × Json))

namespace Json

instance : Inhabited Json := ⟨null⟩

def ofNat (n : Nat) : Json := integer n

/-- A double as a value; only finite ones are numbers in JSON. -/
def ofFloat (x : Float) : Json := if x.isFinite then float x else null

/-- The value of the last field with a name. -/
def lookup (name : String) : List (String × Json) → Option Json
  | [] => none
  | (k, v) :: rest =>
    match lookup name rest with
    | some w => some w
    | none => if k = name then some v else none

end Json

end FleetSizing
