import FleetSizing.Command.Options
/-!
# The command line

The commands of the program: to replay a trace, to pace the control loop by the wall
clock, and to check a configuration.
-/

namespace FleetSizing

inductive Command where
  | simulate (config : Option String) (trace : String) (ticks : Nat) (json metrics : Bool)
  | run (config : Option String) (trace : String) (tickInterval : Option String)
  | checkConfig (config : String)
deriving DecidableEq, Repr

namespace Command

def isPath (value : String) : Bool := value ≠ ""

def isCount (value : String) : Bool := (Text.readBelow Text.word64 value.toList).isSome

def commonFlags : List Flag :=
  [{ long := "help", short := some 'h', stop := some .help },
   { long := "version", short := some 'V', stop := some .version }]

def configFlag : Flag := { long := "config", short := some 'c', accepts := some isPath }

def traceFlag : Flag := { long := "trace", short := some 't', accepts := some isPath }

def simulateFlags : List Flag :=
  configFlag :: traceFlag ::
    { long := "ticks", short := some 'n', accepts := some isCount } ::
    { long := "json" } :: { long := "metrics" } :: commonFlags

def runFlags : List Flag :=
  configFlag :: traceFlag ::
    { long := "tick-interval", accepts := some fun _ => true } :: commonFlags

def checkConfigFlags : List Flag := configFlag :: commonFlags

def demand (given : Given) (name : String) : Except Stop String :=
  match given.get? name with
  | some value => .ok value
  | none => .error .misuse

/-- One simulated day at the default cadence. -/
def defaultTicks : Nat := 720

def ticks (given : Given) : Nat :=
  ((given.get? "ticks").bind fun n => Text.readBelow Text.word64 n.toList).getD defaultTicks

def parseSimulate (args : List String) : Except Stop Command := do
  let given ← readOptions simulateFlags [] args
  return .simulate (given.get? "config") (← demand given "trace") (ticks given)
    (given.get? "json").isSome (given.get? "metrics").isSome

def parseRun (args : List String) : Except Stop Command := do
  let given ← readOptions runFlags [] args
  return .run (given.get? "config") (← demand given "trace") (given.get? "tick-interval")

def parseCheckConfig (args : List String) : Except Stop Command := do
  let given ← readOptions checkConfigFlags [] args
  return .checkConfig (← demand given "config")

def names : List String := ["simulate", "run", "check-config", "help"]

def isHelpTopic : List String → Bool
  | [] => true
  | [name] => name ∈ names
  | _ => false

def programName : String := "poolscaled"

/-- Why there is nothing to execute, and the name of the command that says so. -/
structure Refusal where
  name : String
  stop : Stop
deriving DecidableEq, Repr

def parse : List String → Except Refusal Command
  | "simulate" :: args => (parseSimulate args).mapError (.mk (programName ++ "-simulate"))
  | "run" :: args => (parseRun args).mapError (.mk (programName ++ "-run"))
  | "check-config" :: args =>
    (parseCheckConfig args).mapError (.mk (programName ++ "-check-config"))
  | "help" :: topic => .error ⟨programName, if isHelpTopic topic then .help else .misuse⟩
  | args =>
    match readOptions commonFlags [] args with
    | .ok _ => .error ⟨programName, .misuse⟩
    | .error stop => .error ⟨programName, stop⟩

def paths : Command → List String
  | .simulate config trace _ _ _ => config.toList ++ [trace]
  | .run config trace _ => config.toList ++ [trace]
  | .checkConfig config => [config]

end Command

end FleetSizing
