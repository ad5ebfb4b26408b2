import FleetSizing.Decimal.Text
import FleetSizing.Summary.Basic
/-!
# The summary table

A summary as text: a line about the whole fleet, then a table with a row for each
kind.  The column of the names is as wide as the UTF-8 form of the longest one.
-/

namespace FleetSizing.Summary

open Text

def padEnd (width : Nat) (cs : List Char) : List Char :=
  cs ++ List.replicate (width - cs.length) ' '

def padStart (width : Nat) (cs : List Char) : List Char :=
  List.replicate (width - cs.length) ' ' ++ cs

/-- The headings of the columns after the names, with the widths of the columns. -/
def columns : List (String × Nat) :=
  [("POOL", 5), ("PEAK", 5), ("CREATED", 7), ("DESTROYED", 9), ("COMPLETED", 9),
   ("BACKLOG", 7)]

def row (width : Nat) (name : List Char) (cells : List (List Char)) : List Char :=
  let cell (c : Nat) (text : List Char) : List Char := ' ' :: ' ' :: padStart c text
  padEnd width name ++ (List.zipWith cell (columns.map (·.2)) cells).flatten ++ ['\n']

def cells (k : KindSummary) : List (List Char) :=
  [digits k.finalPool, digits k.peakPool, digits k.created, digits k.destroyed,
   digits k.completed ++ '/' :: digits k.submitted, digits k.backlog]

def nameHeading : String := "KIND"

def nameWidth (kinds : List KindSummary) : Nat :=
  (kinds.map (·.kind.utf8ByteSize)).foldl max nameHeading.utf8ByteSize

/-- The hours of a number of seconds, with one place. -/
def hours (seconds : Nat) : List Char :=
  Decimal.writeFixed 1 (Float.ofNat seconds / 3600.0)

def heading (s : Summary) : List Char :=
  "Simulated ".toList ++ digits s.ticks ++ " ticks (".toList ++ hours s.seconds ++
    "h), ".toList ++ digits s.outstanding ++ " jobs outstanding\n\n".toList

def table (kinds : List KindSummary) : List Char :=
  let width := nameWidth kinds
  row width nameHeading.toList (columns.map (·.1.toList)) ++
    kinds.flatMap fun k => row width k.kind.toList (cells k)

def write (s : Summary) : List Char :=
  s.heading ++ if s.kinds.isEmpty then "No workload kinds.\n".toList else table s.kinds

def text (s : Summary) : String := String.ofList s.write

end FleetSizing.Summary
