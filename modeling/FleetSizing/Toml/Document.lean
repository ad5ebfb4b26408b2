import FleetSizing.Toml.Quoted
import FleetSizing.Toml.Scalar
/-!
# TOML documents

A document is read in two steps: its text is a list of statements, each a header or
a binding, and the statements build the table that the document denotes.
-/

namespace FleetSizing.Toml

/-- Changes the table at the end of a path by `f`, which is also told how that table
was written; `here` and `entries` are the table to start from.  Missing tables on the
way are added.  A path inside a dotted key enters no table that has a header of its own. -/
def within (dotted : Bool) (f : Origin → Entries → Option Entries) (here : Origin) :
    List String → Entries → Option Entries
  | [], entries => f here entries
  | key :: path, entries =>
    match lookup key entries with
    | none => do
      let origin := if dotted then .dotted else .implied
      let t ← within dotted f origin path []
      return entries ++ [(key, .table origin t)]
    | some (.table origin t) =>
      if origin = .inline ∨ (dotted ∧ origin = .header) then none
      else do
        let t' ← within dotted f origin path t
        return replace key (.table origin t') entries
    | some (.tables items) => do
      let last ← items.getLast?
      let last' ← within dotted f .header path last
      return replace key (.tables (items.dropLast ++ [last'])) entries
    | some _ => none

def bind (key : String) (v : Toml) (entries : Entries) : Option Entries :=
  match lookup key entries with
  | none => some (entries ++ [(key, v)])
  | some _ => none

/-- Adds the binding of a dotted key.  Its parents are tables that only dotted keys write. -/
def bindAt (path : List String) (key : String) (v : Toml) (entries : Entries) :
    Option Entries :=
  within true
    (fun origin t => if path ≠ [] ∧ origin ≠ .dotted then none else bind key v t)
    .header path entries

structure Binding where
  path : List String
  key : String
  value : Toml

def bindAll (bindings : List Binding) (entries : Entries) : Option Entries :=
  bindings.foldlM (fun t b => bindAt b.path b.key b.value t) entries

structure Header where
  path : List String
  key : String
  repeated : Bool

/-- Adds the table that a header opens, with the bindings below it. -/
def addSection (header : Header) (bindings : List Binding) (entries : Entries) :
    Option Entries :=
  within false
    (fun _ t =>
      match lookup header.key t, header.repeated with
      | none, false => do
        return t ++ [(header.key, .table .header (← bindAll bindings []))]
      | none, true => do
        return t ++ [(header.key, .tables [← bindAll bindings []])]
      | some (.table .implied t'), false => do
        return replace header.key (.table .header (← bindAll bindings t')) t
      | some (.tables items), true => do
        return replace header.key (.tables (items ++ [← bindAll bindings []])) t
      | some _, _ => none)
    .header header.path entries

inductive Statement where
  | binding (b : Binding)
  | header (h : Header)

/-- Groups statements: the bindings before the first header, then each header with
the bindings below it. -/
def sections : List Statement → List Binding × List (Header × List Binding)
  | [] => ([], [])
  | .binding b :: rest =>
    let (bindings, groups) := sections rest
    (b :: bindings, groups)
  | .header h :: rest =>
    let (bindings, groups) := sections rest
    ([], (h, bindings) :: groups)

def ofStatements (statements : List Statement) : Option Entries := do
  let (bindings, groups) := sections statements
  let root ← bindAll bindings []
  groups.foldlM (fun t (header, bindings) => addSection header bindings t) root

/-! ## Reading -/

def isKeyChar (c : Char) : Bool := c.isAlphanum || c == '_' || c == '-'

def keyPart (cs : List Char) : Option (String × List Char) :=
  match cs with
  | '"' :: r => (basic r).map fun (k, r') => (String.ofList k, r')
  | '\x27' :: r => (literal r).map fun (k, r') => (String.ofList k, r')
  | _ =>
    let k := cs.takeWhile isKeyChar
    if k = [] then none else some (String.ofList k, cs.dropWhile isKeyChar)

/-- How deep values may nest and how many parts a key may have. -/
def depthLimit : Nat := 79

/-- A dotted key of at most `limit` parts, split into its parents and its last part. -/
def dottedKey : (limit : Nat) → List Char → Option ((List String × String) × List Char)
  | 0, _ => none
  | limit + 1, cs => do
    let (part, r) ← keyPart (cs.dropWhile isSpace)
    match r.dropWhile isSpace with
    | '.' :: r' =>
      let ((path, key), r'') ← dottedKey limit r'
      return ((part :: path, key), r'')
    | r' => return (([], part), r')

/-- Drops white space, line breaks and comments, the first of them from the inside if
`inComment`. -/
def dropFiller (inComment : Bool) : List Char → List Char
  | '\n' :: r => dropFiller false r
  | '\r' :: '\n' :: r => dropFiller false r
  | c :: r =>
    if inComment then if isPlain c then dropFiller true r else c :: r
    else if isSpace c then dropFiller false r
    else if c == '#' then dropFiller true r
    else c :: r
  | [] => []

/-- The elements of an array and what follows its bracket.  Each element uses up some
text, so the length of the text is fuel enough. -/
def elements (value : List Char → Option (Toml × List Char)) :
    (fuel : Nat) → List Char → Option (List Toml × List Char)
  | 0, _ => none
  | fuel + 1, cs =>
    match dropFiller false cs with
    | ']' :: r => some ([], r)
    | cs' => do
      let (v, r) ← value cs'
      match dropFiller false r with
      | ',' :: r' =>
        let (vs, r'') ← elements value fuel r'
        return (v :: vs, r'')
      | ']' :: r' => return ([v], r')
      | _ => none

def members (value : List Char → Option (Toml × List Char)) :
    (fuel : Nat) → List Char → Option (List Binding × List Char)
  | 0, _ => none
  | fuel + 1, cs => do
    let ((path, key), r) ← dottedKey depthLimit cs
    let (v, r) ← value ((← expect '=' r).dropWhile isSpace)
    match r.dropWhile isSpace with
    | ',' :: r' =>
      let (bs, r'') ← members value fuel r'
      return (⟨path, key, v⟩ :: bs, r'')
    | '}' :: r' => return ([⟨path, key, v⟩], r')
    | _ => none

def scalar (cs : List Char) : Option (Toml × List Char) :=
  match cs with
  | '"' :: _ => (quoted cs).map fun (s, r) => (.string (String.ofList s), r)
  | '\x27' :: _ => (quoted cs).map fun (s, r) => (.string (String.ofList s), r)
  | _ => bare cs

/-- A value with at most `depth` levels of arrays and inline tables, and what follows it. -/
def value : (depth : Nat) → List Char → Option (Toml × List Char)
  | 0, cs => scalar cs
  | depth + 1, cs => match cs with
    | '[' :: r => do
      let (vs, r') ← elements (value depth) (r.length + 1) r
      return (.array vs, r')
    | '\x7b' :: r => do
      let (bs, r') ← match r.dropWhile isSpace with
        | '\x7d' :: r' => some ([], r')
        | _ => members (value depth) (r.length + 1) r
      return (.table .inline (← bindAll bs []), r')
    | _ => scalar cs

/-- The end of a line: white space, perhaps a comment, and a line break or the end of
the text. -/
def lineEnd (cs : List Char) : Option (List Char) :=
  let r := match cs.dropWhile isSpace with
    | '#' :: r => r.dropWhile isPlain
    | r => r
  if r = [] then some [] else lineBreak r

def headerLine (repeated : Bool) (cs : List Char) : Option (Statement × List Char) := do
  let ((path, key), r) ← dottedKey depthLimit cs
  let r ← expect ']' r
  let r ← if repeated then expect ']' r else some r
  return (.header ⟨path, key, repeated⟩, ← lineEnd r)

def bindingLine (cs : List Char) : Option (Statement × List Char) := do
  let ((path, key), r) ← dottedKey depthLimit cs
  let (v, r) ← value depthLimit ((← expect '=' r).dropWhile isSpace)
  return (.binding ⟨path, key, v⟩, ← lineEnd r)

/-- The statements of a text.  Each line uses up some of it, so its length is fuel
enough. -/
def statements : (fuel : Nat) → List Char → Option (List Statement)
  | 0, _ => none
  | fuel + 1, cs =>
    match cs.dropWhile isSpace with
    | [] => some []
    | c :: r =>
      if c == '#' || c == '\n' || c == '\r' then do statements fuel (← lineEnd (c :: r))
      else do
        let (s, r') ← match c, r with
          | '[', '[' :: r' => headerLine true r'
          | '[', r' => headerLine false r'
          | c, r' => bindingLine (c :: r')
        return s :: (← statements fuel r')

/-- A byte order mark in front of a text is not part of it. -/
def dropMark : List Char → List Char
  | '\ufeff' :: r => r
  | cs => cs

def parse (text : String) : Option Entries := do
  let cs := dropMark text.toList
  ofStatements (← statements (cs.length + 1) cs)

end FleetSizing.Toml
