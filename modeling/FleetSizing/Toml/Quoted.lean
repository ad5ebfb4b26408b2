import FleetSizing.Text.Hex
/-!
# Quoted TOML strings

The four kinds of strings of TOML: basic and literal ones, each on one line or on
several.  A reader takes the text after the opening quotes and gives the content
with the text after the closing ones.  A string is written in the first kind that
holds it, see `quote`.
-/

namespace FleetSizing.Toml

open Text

/-- A character that may stand for itself: anything but the ASCII control characters,
of which only the tab may. -/
def isPlain (c : Char) : Bool := c == '\t' || (0x20 ≤ c.toNat && c.toNat != 0x7F)

def isSpace (c : Char) : Bool := c == ' ' || c == '\t'

def consRead (c : Char) (read : List Char × List Char) : List Char × List Char :=
  (c :: read.1, read.2)

def codePoint (ds : List Char) : Option Char := (ofHexDigits ds).bind ofCodePoint

def escape : List Char → Option (Char × List Char)
  | 'b' :: r => some ('\x08', r)
  | 't' :: r => some ('\t', r)
  | 'n' :: r => some ('\n', r)
  | 'f' :: r => some ('\x0c', r)
  | 'r' :: r => some ('\r', r)
  | '"' :: r => some ('"', r)
  | '\\' :: r => some ('\\', r)
  | 'u' :: r =>
    if 4 ≤ r.length then (codePoint (r.take 4)).map (·, r.drop 4) else none
  | 'U' :: r =>
    if 8 ≤ r.length then (codePoint (r.take 8)).map (·, r.drop 8) else none
  | _ => none

theorem length_lt_of_escape {cs r : List Char} {c : Char} (h : escape cs = some (c, r)) :
    r.length < cs.length := by
  unfold escape at h
  split at h <;> try (simp only [Option.some.injEq, Prod.mk.injEq] at h; simp [← h.2])
  all_goals first
    | (split at h
       · obtain ⟨_, _, h⟩ := Option.map_eq_some_iff.1 h
         simp only [Prod.mk.injEq] at h
         simp only [← h.2, List.length_drop, List.length_cons]
         omega
       · contradiction)
    | contradiction

def basic (cs : List Char) : Option (List Char × List Char) :=
  match cs with
  | [] => none
  | '"' :: r => some ([], r)
  | '\\' :: r =>
    match h : escape r with
    | some (c, r') =>
      have := length_lt_of_escape h
      (basic r').map (consRead c)
    | none => none
  | c :: r => if isPlain c then (basic r).map (consRead c) else none
termination_by cs.length
decreasing_by all_goals simp_all <;> omega

def literal : List Char → Option (List Char × List Char)
  | [] => none
  | '\x27' :: r => some ([], r)
  | c :: r => if isPlain c then (literal r).map (consRead c) else none

/-- The end of a string on several lines: up to two quotes before the closing ones
belong to the content. -/
def closing (quote : Char) (cs : List Char) : Option (List Char × List Char) :=
  let run := (cs.takeWhile (· == quote)).length
  if run < 3 then none
  else some (List.replicate (min (run - 3) 2) quote, cs.drop (min run 5))

def lineBreak : List Char → Option (List Char)
  | '\n' :: r => some r
  | '\r' :: '\n' :: r => some r
  | _ => none

def dropBlankLines : List Char → List Char
  | ' ' :: r => dropBlankLines r
  | '\t' :: r => dropBlankLines r
  | '\n' :: r => dropBlankLines r
  | '\r' :: '\n' :: r => dropBlankLines r
  | cs => cs

theorem length_dropBlankLines_le (cs : List Char) :
    (dropBlankLines cs).length ≤ cs.length := by
  fun_induction dropBlankLines cs <;> simp_all <;> omega

theorem length_lt_of_lineBreak {cs r : List Char} (h : lineBreak cs = some r) :
    r.length < cs.length := by
  unfold lineBreak at h
  split at h
  · cases h
    exact Nat.lt_succ_self _
  · cases h
    exact Nat.lt_add_of_pos_right Nat.two_pos
  · cases h

/-- What follows a backslash that ends its line: the line break and all white space
after it are left out of the content. -/
def continuation (cs : List Char) : Option (List Char) :=
  (lineBreak (cs.dropWhile isSpace)).map dropBlankLines

theorem length_lt_of_continuation {cs r : List Char} (h : continuation cs = some r) :
    r.length < cs.length := by
  obtain ⟨r', hbreak, rfl⟩ := Option.map_eq_some_iff.1 h
  have h₁ := length_lt_of_lineBreak hbreak
  have h₂ := length_dropBlankLines_le r'
  have h₃ := (List.dropWhile_sublist (p := isSpace) (l := cs)).length_le
  omega

/-- The body of a basic string on several lines and what follows its closing quotes. -/
def basicLines (cs : List Char) : Option (List Char × List Char) :=
  match cs with
  | [] => none
  | '"' :: r =>
    match closing '"' ('"' :: r) with
    | some read => some read
    | none => (basicLines r).map (consRead '"')
  | '\\' :: r =>
    match h : continuation r with
    | some r' =>
      have := length_lt_of_continuation h
      basicLines r'
    | none =>
      match h : escape r with
      | some (c, r') =>
        have := length_lt_of_escape h
        (basicLines r').map (consRead c)
      | none => none
  | '\r' :: '\n' :: r => (basicLines r).map (consRead '\n')
  | c :: r => if isPlain c || c == '\n' then (basicLines r).map (consRead c) else none
termination_by cs.length
decreasing_by all_goals simp_all <;> omega

def literalLines : List Char → Option (List Char × List Char)
  | [] => none
  | '\x27' :: r =>
    match closing '\x27' ('\x27' :: r) with
    | some read => some read
    | none => (literalLines r).map (consRead '\x27')
  | '\r' :: '\n' :: r => (literalLines r).map (consRead '\n')
  | c :: r => if isPlain c || c == '\n' then (literalLines r).map (consRead c) else none

/-- A line break right after the opening quotes of several lines is not content. -/
def dropFirstBreak (cs : List Char) : List Char := (lineBreak cs).getD cs

def quoted : List Char → Option (List Char × List Char)
  | '"' :: '"' :: '"' :: r => basicLines (dropFirstBreak r)
  | '"' :: r => basic r
  | '\x27' :: '\x27' :: '\x27' :: r => literalLines (dropFirstBreak r)
  | '\x27' :: r => literal r
  | _ => none

/-! ## Writing -/

def longestRun (c : Char) (cs : List Char) : Nat :=
  (cs.foldl (fun (run, best) d => if d == c then (run + 1, max best (run + 1)) else (0, best))
    (0, 0)).2

/-- A control character that no string holds as it stands, the line break apart. -/
def isControl (c : Char) : Bool := !isPlain c && c != '\n'

/-- How a character is written in a basic string, quotes apart. -/
def escaped (multiline : Bool) (c : Char) : List Char :=
  if c == '\x08' then ['\\', 'b']
  else if c == '\t' then ['\\', 't']
  else if c == '\n' then if multiline then ['\n'] else ['\\', 'n']
  else if c == '\x0c' then ['\\', 'f']
  else if c == '\r' then ['\\', 'r']
  else if c == '\\' then ['\\', '\\']
  else if isControl c then '\\' :: 'u' :: hexDigits true 4 c.toNat
  else [c]

/-- The content of a basic string: of a run of quotes `limit` stand as they are, the
next one is escaped and starts the count anew. -/
def escapeAll (multiline : Bool) (limit : Nat) : (run : Nat) → List Char → List Char
  | _, [] => []
  | run, c :: cs =>
    if c == '"' then
      if run < limit then '"' :: escapeAll multiline limit (run + 1) cs
      else '\\' :: '"' :: escapeAll multiline limit 0 cs
    else escaped multiline c ++ escapeAll multiline limit 0 cs

def triple (c : Char) : List Char := [c, c, c]

/-- A string on several lines; a line break in the content asks for one in front. -/
def onLines (quote : Char) (content body : List Char) : List Char :=
  triple quote ++ (if content.contains '\n' then ['\n'] else []) ++ body ++ triple quote

def basicForm (cs : List Char) : List Char := '"' :: escapeAll false 0 0 cs ++ ['"']

def basicLinesForm (cs : List Char) : List Char := onLines '"' cs (escapeAll true 2 0 cs)

/-- Writes a string in the first kind that holds it without escapes for backslashes,
quotes and control characters, or else as a basic one.  A tab counts as plain but is
always escaped in a basic string. -/
def quote (cs : List Char) : List Char :=
  let hasControl := cs.any isControl
  let hasBackslash := cs.contains '\\'
  let hasBreak := cs.contains '\n'
  let doubles := longestRun '"' cs
  let singles := longestRun '\x27' cs
  if !hasControl && !hasBackslash && !hasBreak && doubles == 0 then basicForm cs
  else if !hasControl && !hasBreak && singles == 0 then '\x27' :: cs ++ ['\x27']
  else if !hasControl && !hasBackslash && doubles ≤ 2 then basicLinesForm cs
  else if !hasControl && singles ≤ 2 then onLines '\x27' cs cs
  else if hasBreak then basicLinesForm cs
  else basicForm cs

end FleetSizing.Toml
