import FleetSizing.Decimal.Shortest
import FleetSizing.Text.Hex
import FleetSizing.Text.Numeral
import FleetSizing.Toml.Value
/-!
# Unquoted TOML values

Integers, floats, booleans, dates and times.  None of them contains a character
that may follow a value, so each is the longest run of the characters they are made
of; only between a date and a time of day may a space stand in place of a `T`.
-/

namespace FleetSizing.Toml

open Text

def isBare (c : Char) : Bool :=
  c.isAlphanum || c == '_' || c == '+' || c == '-' || c == '.' || c == ':'

/-- Digits of a kind, single underscores between them left out. -/
def ungroup (isDigit : Char → Bool) : List Char → Option (List Char)
  | [] => none
  | [c] => if isDigit c then some [c] else none
  | c :: '_' :: r => if isDigit c then (ungroup isDigit r).map (c :: ·) else none
  | c :: r => if isDigit c then (ungroup isDigit r).map (c :: ·) else none

def splitSign : List Char → Bool × List Char
  | '-' :: r => (true, r)
  | '+' :: r => (false, r)
  | cs => (false, cs)

/-- The digits of a decimal integer without needless leading zeros. -/
def decimalDigits (cs : List Char) : Option (List Char) := do
  let ds ← ungroup Char.isDigit cs
  if ds.head? = some '0' ∧ ds ≠ ['0'] then none else some ds

def based (base : Nat) (cs : List Char) : Option Nat := do
  let ds ← ungroup (fun c => (hexValue c).any (· < base)) cs
  ds.foldlM (fun n c => (hexValue c).map (base * n + ·)) 0

def inWord (i : Int) : Option Int :=
  if -halfWord64 ≤ i ∧ i < halfWord64 then some i else none

/-- A decimal integer with an optional sign, or an unsigned one in base 16, 8 or 2. -/
def integer? : List Char → Option Int
  | '0' :: 'x' :: r => do inWord (← based 16 r)
  | '0' :: 'o' :: r => do inWord (← based 8 r)
  | '0' :: 'b' :: r => do inWord (← based 2 r)
  | cs => do
    let (negative, r) := splitSign cs
    let n := ofDigits (← decimalDigits r)
    inWord (if negative then -n else n)

def exponent? (cs : List Char) : Option Int := do
  let (negative, r) := splitSign cs
  let n := ofDigits (← ungroup Char.isDigit r)
  return if negative then -n else n

/-- The fractional digits and the exponent that follow the integral digits of a float;
at least one of them is there. -/
def fraction? : List Char → Option (List Char × Int)
  | '.' :: r => do
    let isMark := fun c => c == 'e' || c == 'E'
    let ds ← ungroup Char.isDigit (r.takeWhile (!isMark ·))
    match r.dropWhile (!isMark ·) with
    | [] => return (ds, 0)
    | _ :: r' => return (ds, ← exponent? r')
  | 'e' :: r => do return ([], ← exponent? r)
  | 'E' :: r => do return ([], ← exponent? r)
  | _ => none

def magnitude? (cs : List Char) : Option Decimal := do
  let isIntegral := fun c => c.isDigit || c == '_'
  let whole ← decimalDigits (cs.takeWhile isIntegral)
  let (frac, exponent) ← fraction? (cs.dropWhile isIntegral)
  return ⟨ofDigits (whole ++ frac), exponent - frac.length⟩

def applySign (negative : Bool) (x : Float) : Float := if negative then -x else x

/-- A float; a decimal too large for any finite double is refused unless it is negative. -/
def float? (cs : List Char) : Option Float :=
  let (negative, r) := splitSign cs
  if r = ['i', 'n', 'f'] then some (applySign negative (1.0 / 0.0))
  else if r = ['n', 'a', 'n'] then some (0.0 / 0.0)
  else do
    let x := applySign negative (← magnitude? r).toFloat
    if x == 1.0 / 0.0 then none else some x

/-- A numeral of exactly `width` digits in a range, and what follows it. -/
def field (width low high : Nat) (cs : List Char) : Option (Nat × List Char) :=
  let ds := cs.take width
  if ds.length = width ∧ ds.all Char.isDigit ∧ low ≤ ofDigits ds ∧ ofDigits ds ≤ high then
    some (ofDigits ds, cs.drop width)
  else none

def expect (c : Char) : List Char → Option (List Char)
  | [] => none
  | d :: r => if d = c then some r else none

def daysIn (year month : Nat) : Nat :=
  if month = 2 then if year % 4 = 0 ∧ (year % 100 ≠ 0 ∨ year % 400 = 0) then 29 else 28
  else if month ∈ [4, 6, 9, 11] then 30
  else 31

def date (cs : List Char) : Option (List Char) := do
  let (year, r) ← field 4 0 9999 cs
  let (month, r) ← field 2 1 12 (← expect '-' r)
  let (_, r) ← field 2 1 (daysIn year month) (← expect '-' r)
  return r

def timeOfDay (cs : List Char) : Option (List Char) := do
  let (_, r) ← field 2 0 23 cs
  let (_, r) ← field 2 0 59 (← expect ':' r)
  let (_, r) ← field 2 0 60 (← expect ':' r)
  match r with
  | '.' :: r' => if r'.head?.any Char.isDigit then return r'.dropWhile Char.isDigit else none
  | _ => return r

/-- A time zone: `Z`, or hours and minutes ahead or behind. -/
def isOffset : List Char → Bool
  | ['Z'] => true
  | ['z'] => true
  | c :: r =>
    (c == '+' || c == '-') && (do
      let (_, r) ← field 2 0 23 r
      let (_, r) ← field 2 0 59 (← expect ':' r)
      return r.isEmpty : Option Bool) == some true
  | [] => false

/-- A date, a time of day, or both with an optional time zone. -/
def isMoment (cs : List Char) : Bool :=
  match date cs with
  | none => timeOfDay cs == some []
  | some [] => true
  | some (c :: r) =>
    (c == 'T' || c == 't' || c == ' ') && (timeOfDay r).any fun r => r.isEmpty || isOffset r

def bare? (cs : List Char) : Option Toml :=
  if cs = "true".toList then some (.boolean true)
  else if cs = "false".toList then some (.boolean false)
  else if isMoment cs then some .moment
  else match float? cs with
    | some x => some (.float x)
    | none => (integer? cs).map .integer

/-- A date is followed by a space and a time of day. -/
def isSplitMoment (run rest : List Char) : Bool :=
  date run == some [] &&
    match rest with
    | ' ' :: c :: d :: ':' :: _ => c.isDigit && d.isDigit
    | _ => false

def bare (cs : List Char) : Option (Toml × List Char) :=
  let run := cs.takeWhile isBare
  let rest := cs.dropWhile isBare
  if isSplitMoment run rest then
    let time := (rest.drop 1).takeWhile isBare
    if isMoment (run ++ ' ' :: time) then some (.moment, (rest.drop 1).dropWhile isBare) else none
  else (bare? run).map (·, rest)

end FleetSizing.Toml
