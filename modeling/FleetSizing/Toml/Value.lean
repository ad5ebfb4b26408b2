/-!
# TOML values

The tree that a TOML document denotes.  A table remembers how it was written,
because that decides whether later lines may still add to it.
-/

namespace FleetSizing

namespace Toml

inductive Origin where
  /-- In braces; it is complete. -/
  | inline
  /-- Under a header of its own. -/
  | header
  /-- Only as the parent of a table with a header. -/
  | implied
  /-- As the parent in a dotted key. -/
  | dotted
deriving DecidableEq, Repr

end Toml

/-- A value of a TOML document.  `tables` collects the tables under repeated `[[name]]`
headers; the content of a date or time is not kept. -/
inductive Toml where
  | string (s : String)
  | integer (i : Int)
  | float (x : Float)
  | boolean (b : Bool)
  | moment
  | array (items : List Toml)
  | table (origin : Toml.Origin) (entries : List (String × Toml))
  | tables (items : List (List (String × Toml)))

namespace Toml

abbrev Entries := List (String × Toml)

def lookup (key : String) : Entries → Option Toml
  | [] => none
  | (k, v) :: rest => if k = key then some v else lookup key rest

def replace (key : String) (v : Toml) : Entries → Entries
  | [] => []
  | (k, w) :: rest => if k = key then (k, v) :: rest else (k, w) :: replace key v rest

end Toml

end FleetSizing
