import FleetSizing.Decimal.Shortest
import FleetSizing.Json.Basic
import FleetSizing.Text.Hex
import FleetSizing.Text.Numeral
/-!
# Reading JSON

Each reader takes a list of characters and gives what it has read with what follows.
A whole number that a 64-bit word holds is read exactly, any other number as the
nearest double.
-/

namespace FleetSizing.Json

open Text

def isSpace (c : Char) : Bool := c == ' ' || c == '\n' || c == '\r' || c == '\t'

def skipSpace (cs : List Char) : List Char := cs.dropWhile isSpace

def unescape : Char → Option Char
  | '"' => some '"'
  | '\\' => some '\\'
  | '/' => some '/'
  | 'b' => some '\x08'
  | 'f' => some '\x0c'
  | 'n' => some '\n'
  | 'r' => some '\r'
  | 't' => some '\t'
  | _ => none

/-- The code point of a pair of surrogates. -/
def ofSurrogates (high low : Nat) : Option Char :=
  if 0xD800 ≤ high ∧ high < 0xDC00 ∧ 0xDC00 ≤ low ∧ low < 0xE000 then
    ofCodePoint (0x10000 + (high - 0xD800) * 0x400 + (low - 0xDC00))
  else none

def stringBody : List Char → Option (List Char × List Char)
  | [] => none
  | '"' :: r => some ([], r)
  | '\\' :: 'u' :: c₁ :: c₂ :: c₃ :: c₄ :: '\\' :: 'u' :: d₁ :: d₂ :: d₃ :: d₄ :: r =>
    match ofHexDigits [c₁, c₂, c₃, c₄] with
    | none => none
    | some n =>
      match ofCodePoint n with
      | some c =>
        (stringBody ('\\' :: 'u' :: d₁ :: d₂ :: d₃ :: d₄ :: r)).map fun (s, r) => (c :: s, r)
      | none =>
        match (ofHexDigits [d₁, d₂, d₃, d₄]).bind (ofSurrogates n) with
        | none => none
        | some c => (stringBody r).map fun (s, r) => (c :: s, r)
  | '\\' :: 'u' :: c₁ :: c₂ :: c₃ :: c₄ :: r =>
    match (ofHexDigits [c₁, c₂, c₃, c₄]).bind ofCodePoint with
    | none => none
    | some c => (stringBody r).map fun (s, r) => (c :: s, r)
  | '\\' :: c :: r =>
    match unescape c with
    | none => none
    | some c => (stringBody r).map fun (s, r) => (c :: s, r)
  | c :: r =>
    if c < ' ' ∨ c = '\\' then none else (stringBody r).map fun (s, r) => (c :: s, r)

def digitRun (cs : List Char) : Option (List Char × List Char) :=
  let ds := cs.takeWhile Char.isDigit
  if ds = [] then none else some (ds, cs.dropWhile Char.isDigit)

def integral (cs : List Char) : Option (List Char × List Char) := do
  let (ds, r) ← digitRun cs
  if ds.head? = some '0' ∧ ds ≠ ['0'] then none else some (ds, r)

def fraction : List Char → Option (List Char × List Char)
  | '.' :: r => digitRun r
  | r => some ([], r)

def exponent : List Char → Option (Option Int × List Char)
  | [] => some (none, [])
  | c :: r =>
    if c = 'e' ∨ c = 'E' then do
      let (negative, r) := match r with
        | '-' :: r => (true, r)
        | '+' :: r => (false, r)
        | r => (false, r)
      let (ds, r) ← digitRun r
      let n : Int := ofDigits ds
      return (some (if negative then -n else n), r)
    else some (none, c :: r)

/-- A double with a sign; one that is not finite is no number. -/
def finite (negative : Bool) (d : Decimal) : Option Json :=
  let x := d.toFloat
  if x.isFinite then some (.float (if negative then -x else x)) else none

/-- A whole number; `-0` is a double. -/
def whole (negative : Bool) (n : Nat) : Option Json :=
  if negative then
    if 0 < n ∧ n ≤ halfWord64 then some (.integer (-n)) else finite true ⟨n, 0⟩
  else if n < word64 then some (.integer n) else finite false ⟨n, 0⟩

def number (cs : List Char) : Option (Json × List Char) := do
  let (negative, r) := match cs with
    | '-' :: r => (true, r)
    | r => (false, r)
  let (ds, r) ← integral r
  let (frac, r) ← fraction r
  let (exp, r) ← exponent r
  let v ← if frac = [] ∧ exp = none then whole negative (ofDigits ds)
    else finite negative ⟨ofDigits (ds ++ frac), exp.getD 0 - frac.length⟩
  return (v, r)

/-! ## Values -/

def dropText : List Char → List Char → Option (List Char)
  | [], cs => some cs
  | c :: text, d :: cs => if c = d then dropText text cs else none
  | _ :: _, [] => none

/-- Drops a given character and the white space before it. -/
def token (c : Char) (cs : List Char) : Option (List Char) := dropText [c] (skipSpace cs)

/-- A comma and more of a list, or the end of the list. -/
def listEnd (close : Char) (more : List Char → Option (List α × List Char))
    (cs : List Char) : Option (List α × List Char) :=
  match token ',' cs with
  | some r => more r
  | none => (token close cs).map ([], ·)

/-- One or more items separated by commas.  Each item uses up some text, so the length
of the text is fuel enough. -/
def items (close : Char) (item : List Char → Option (α × List Char)) :
    (fuel : Nat) → List Char → Option (List α × List Char)
  | 0, _ => none
  | fuel + 1, cs => do
    let (x, r) ← item cs
    let (xs, r) ← listEnd close (items close item fuel) r
    return (x :: xs, r)

/-- Items up to a closing bracket, perhaps none. -/
def bracketed (close : Char) (item : List Char → Option (α × List Char)) (fuel : Nat)
    (cs : List Char) : Option (List α × List Char) :=
  match token close cs with
  | some r => some ([], r)
  | none => items close item fuel cs

def field (value : List Char → Option (Json × List Char)) (cs : List Char) :
    Option ((String × Json) × List Char) := do
  let (name, r) ← stringBody (← token '"' cs)
  let (v, r) ← value (← token ':' r)
  return ((String.ofList name, v), r)

def scalar (cs : List Char) : Option (Json × List Char) :=
  match cs with
  | 'n' :: r => (dropText "ull".toList r).map (.null, ·)
  | 't' :: r => (dropText "rue".toList r).map (.boolean true, ·)
  | 'f' :: r => (dropText "alse".toList r).map (.boolean false, ·)
  | '"' :: r => (stringBody r).map fun (s, r) => (.string (String.ofList s), r)
  | _ => number cs

/-- A value with at most `depth` levels of arrays and objects, in a text of at most
`size` characters. -/
def value (size : Nat) : (depth : Nat) → List Char → Option (Json × List Char)
  | 0, cs => scalar (skipSpace cs)
  | depth + 1, cs =>
    match skipSpace cs with
    | '[' :: r => (bracketed ']' (value size depth) size r).map fun (vs, r) => (.array vs, r)
    | '\x7b' :: r =>
      (bracketed '\x7d' (field (value size depth)) size r).map fun (fs, r) => (.object fs, r)
    | cs => scalar cs

/-- How deep values may nest. -/
def depthLimit : Nat := 127

def parse (text : String) : Option Json := do
  let cs := text.toList
  let (v, r) ← value cs.length depthLimit cs
  if skipSpace r = [] then some v else none

end FleetSizing.Json
