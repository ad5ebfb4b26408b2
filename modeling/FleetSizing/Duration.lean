import FleetSizing.Text.Blank
import FleetSizing.Text.Numeral
/-!
# Durations

Durations are written as a number of seconds, minutes or hours, such as `90s`,
`2m` or `1h`; a bare number counts seconds.  They are whole seconds below
`2 ^ 64`.
-/

namespace FleetSizing.Duration

open Text

structure Malformed where
  text : String
deriving DecidableEq, Repr

def Malformed.message (e : Malformed) : String := "invalid duration: " ++ e.text

def unitSeconds : Char → Option Nat
  | 's' => some 1
  | 'm' => some 60
  | 'h' => some 3600
  | _ => none

/-- Splits off the unit letter at the end, one second if there is none. -/
def splitUnit (cs : List Char) : List Char × Nat :=
  match cs.getLast?.bind unitSeconds with
  | some seconds => (cs.dropLast, seconds)
  | none => (cs, 1)

def readTrimmed (cs : List Char) : Option Nat := do
  let (count, seconds) := splitUnit cs
  let n ← readBelow word64 (trim count)
  if n * seconds < word64 then some (n * seconds) else none

/-- The seconds that a text denotes; white space around the number is ignored. -/
def parse (s : String) : Except Malformed Nat :=
  let cs := trim s.toList
  match readTrimmed cs with
  | some seconds => .ok seconds
  | none => .error ⟨String.ofList cs⟩

end FleetSizing.Duration
