import FleetSizing.Text.Numeral
/-!
# Command-line options

Options are written `--name value`, `--name=value`, `-n value`, `-nvalue` or `-n=value`,
flags `--name` or `-n`.  They are read from the left.  Each may be given once, and
nothing else may stand between them.
-/

namespace FleetSizing.Command

inductive Stop where
  | misuse
  | help
  | version
deriving DecidableEq, Repr

structure Flag where
  long : String
  short : Option Char := none
  /-- The values that are accepted; none for a flag. -/
  accepts : Option (String → Bool) := none
  /-- What the option asks for instead of an execution. -/
  stop : Option Stop := none

/-- An option with what was given for it. -/
abbrev Given := List (String × String)

def splitEquals (cs : List Char) : List Char × Option (List Char) :=
  match cs.dropWhile (· ≠ '=') with
  | [] => (cs, none)
  | _ :: value => (cs.takeWhile (· ≠ '='), some value)

def dropEquals : List Char → List Char
  | '=' :: cs => cs
  | cs => cs

/-- Adds an option, unless it has been given before or its value is not accepted. -/
def give (given : Given) (flag : Flag) (value : String) : Except Stop Given :=
  if given.any (·.1 = flag.long) ∨ !(flag.accepts.all (· value)) then .error .misuse
  else .ok (given ++ [(flag.long, value)])

/-- What an argument says: an option that takes a value, perhaps with the value, or a
flag. -/
inductive Token where
  | option (flag : Flag) (value : Option (List Char))
  | flag (flag : Flag)

def token? (flags : List Flag) : List Char → Option Token
  | '-' :: '-' :: cs => do
    let (name, value) := splitEquals cs
    let flag ← flags.find? fun f => f.long.toList = name
    match flag.accepts, value with
    | some _, value => some (.option flag value)
    | none, none => some (.flag flag)
    | none, some _ => none
  | '-' :: c :: cs => do
    let flag ← flags.find? fun f => f.short = some c
    match flag.accepts, cs with
    | some _, [] => some (.option flag none)
    | some _, cs => some (.option flag (some (dropEquals cs)))
    | none, [] => some (.flag flag)
    | none, _ => if flag.stop.isSome then some (.flag flag) else none
  | _ => none

/-- An argument that is no value: a hyphen with something behind it. -/
def isHyphenated : List Char → Bool
  | '-' :: _ :: _ => true
  | _ => false

/-- Reads options from the left.  Two hyphens may end them. -/
def readOptions (flags : List Flag) (given : Given) : List String → Except Stop Given
  | [] => .ok given
  | arg :: rest =>
    if arg = "--" then if rest = [] then .ok given else .error .misuse
    else match token? flags arg.toList, rest with
      | none, _ => .error .misuse
      | some (.flag flag), rest =>
        match flag.stop with
        | some stop => .error stop
        | none => do readOptions flags (← give given flag "") rest
      | some (.option flag (some value)), rest => do
        readOptions flags (← give given flag (String.ofList value)) rest
      | some (.option _ none), [] => .error .misuse
      | some (.option flag none), value :: rest =>
        if isHyphenated value.toList then .error .misuse
        else do readOptions flags (← give given flag value) rest

def Given.get? (given : Given) (name : String) : Option String :=
  (given.find? (·.1 = name)).map (·.2)

end FleetSizing.Command
