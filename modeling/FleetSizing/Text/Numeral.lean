/-!
# Decimal numerals

Natural numbers written in ASCII decimal digits, and the bounds of the machine
words that files and messages may hold.
-/

namespace FleetSizing.Text

def word32 : Nat := 4294967296

def word64 : Nat := 18446744073709551616

def halfWord64 : Nat := 9223372036854775808

def ofDigits (cs : List Char) : Nat := Nat.ofDigitChars 10 cs 0

def digits (n : Nat) : List Char := Nat.toDigits 10 n

@[simp] theorem ofDigits_digits (n : Nat) : ofDigits (digits n) = n :=
  Nat.ofDigitChars_toDigits (by decide) (by decide)

theorem isDigit_of_mem_digits {n : Nat} {c : Char} (h : c ∈ digits n) : c.isDigit :=
  Nat.isDigit_of_mem_toDigits (by decide) (by decide) h

theorem digits_ne_nil (n : Nat) : digits n ≠ [] := Nat.toDigits_ne_nil

/-- Reads a numeral below `bound`: an optional plus sign, then one or more ASCII
digits and nothing else. -/
def readBelow (bound : Nat) (cs : List Char) : Option Nat :=
  let ds := match cs with
    | '+' :: rest => rest
    | _ => cs
  if ds ≠ [] ∧ ds.all Char.isDigit ∧ ofDigits ds < bound then some (ofDigits ds) else none

def zeros (k : Nat) : List Char := List.replicate k '0'

/-- Pads on the left with zeros to at least `width` characters. -/
def zeroPad (width : Nat) (cs : List Char) : List Char :=
  zeros (width - cs.length) ++ cs

end FleetSizing.Text
