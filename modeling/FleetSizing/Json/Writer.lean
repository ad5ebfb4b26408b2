import FleetSizing.Decimal.Text
import FleetSizing.Json.Basic
import FleetSizing.Text.Hex
import FleetSizing.Text.Numeral
/-!
# Writing JSON

A value is written in one line, or with every item and field on a line of its own.
-/

namespace FleetSizing.Json

open Text

def escape (c : Char) : List Char :=
  match c with
  | '"' => ['\\', '"']
  | '\\' => ['\\', '\\']
  | '\x08' => ['\\', 'b']
  | '\x0c' => ['\\', 'f']
  | '\n' => ['\\', 'n']
  | '\r' => ['\\', 'r']
  | '\t' => ['\\', 't']
  | c => if c < ' ' then '\\' :: 'u' :: hexDigits false 4 c.toNat else [c]

def quote (cs : List Char) : List Char := '"' :: cs.flatMap escape ++ ['"']

def writeInt : Int → List Char
  | .ofNat n => digits n
  | .negSucc n => '-' :: digits (n + 1)

def spelling : Decimal.Spelling := ⟨"null".toList, "null".toList, ['.', '0']⟩

/-- A double; one that is not finite has no number. -/
def writeFloat (x : Float) : List Char :=
  if x.isFinite then Decimal.write spelling x else "null".toList

structure Layout where
  /-- Before an item, a field or a closing bracket at a depth. -/
  newline : (depth : Nat) → List Char
  /-- Between a name and its value. -/
  colon : List Char

def compact : Layout := ⟨fun _ => [], [':']⟩

/-- Each item on a line of its own, indented by two blanks for each level. -/
def indented : Layout := ⟨fun depth => '\n' :: List.replicate (2 * depth) ' ', [':', ' ']⟩

mutual

def writeAt (l : Layout) (depth : Nat) : Json → List Char
  | .null => "null".toList
  | .boolean true => "true".toList
  | .boolean false => "false".toList
  | .integer i => writeInt i
  | .float x => writeFloat x
  | .string s => quote s.toList
  | .array [] => ['[', ']']
  | .array (v :: vs) =>
    '[' :: l.newline (depth + 1) ++ writeAt l (depth + 1) v ++ writeItems l (depth + 1) vs ++
      l.newline depth ++ [']']
  | .object [] => ['\x7b', '\x7d']
  | .object ((k, v) :: fs) =>
    '\x7b' :: l.newline (depth + 1) ++ quote k.toList ++ l.colon ++ writeAt l (depth + 1) v ++
      writeFields l (depth + 1) fs ++ l.newline depth ++ ['\x7d']

def writeItems (l : Layout) (depth : Nat) : List Json → List Char
  | [] => []
  | v :: vs => ',' :: l.newline depth ++ writeAt l depth v ++ writeItems l depth vs

def writeFields (l : Layout) (depth : Nat) : List (String × Json) → List Char
  | [] => []
  | (k, v) :: fs =>
    ',' :: l.newline depth ++ quote k.toList ++ l.colon ++ writeAt l depth v ++
      writeFields l depth fs

end

def text (l : Layout) (v : Json) : String := String.ofList (writeAt l 0 v)

end FleetSizing.Json
