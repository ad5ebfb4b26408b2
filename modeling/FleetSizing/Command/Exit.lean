import FleetSizing.Command.Basic
import FleetSizing.Config.Toml
import FleetSizing.Json.Writer
import FleetSizing.Metrics.Exposition
import FleetSizing.Simulation
import FleetSizing.Summary.Json
import FleetSizing.Summary.Table
import FleetSizing.Trace.Toml
/-!
# Executing commands

What each command prints and how it ends, as a function of the files it reads.
-/

namespace FleetSizing.Command

structure Exit where
  code : Nat
  stdout : String := ""
  stderr : String := ""
deriving DecidableEq, Repr

abbrev Files := String → Option ByteArray

inductive Failure where
  | loadConfig (path : String) (e : ConfigError)
  | loadTrace (path : String) (e : TraceError)
  | config (e : ConfigError)
  | interval (e : Duration.Malformed)
  | zeroInterval
  | setup (e : SetupError)
  | scale (e : ScaleError)
deriving DecidableEq

namespace Failure

def message : Failure → String
  | .loadConfig path _ => "loading config " ++ path
  | .loadTrace path _ => "loading trace " ++ path
  | .config e => e.message
  | .interval e => e.message
  | .zeroInterval => "tick interval must be non-zero"
  | .setup e => e.message
  | .scale e => e.message

def cause : Failure → Option String
  | .loadConfig _ e => some e.message
  | .loadTrace _ e => some e.message
  | _ => none

def exit (f : Failure) : Exit where
  code := 1
  stderr := "Error: " ++ f.message ++ "\n" ++
    (match f.cause with
      | some cause => "\nCaused by:\n    " ++ cause ++ "\n"
      | none => "")

end Failure

def loadConfig (files : Files) : Option String → Except Failure Config
  | none => .ok {}
  | some path => (Config.ofFile (files path)).mapError (.loadConfig path)

def loadTrace (files : Files) (path : String) : Except Failure Trace :=
  (Trace.ofFile (files path)).mapError (.loadTrace path)

/-! ## Commands -/

def epilogue (summary : Summary) (json : Bool) (metrics : Option Metrics) : String :=
  (if json then summary.toJson.text Json.indented ++ "\n" else summary.text) ++
    match metrics with
    | some m => "\n" ++ m.text
    | none => ""

def replay (files : Files) (config : Option String) (trace : String) (ticks : Nat)
    (json metrics : Bool) : Except Failure String := do
  let c ← loadConfig files config
  let t ← loadTrace files trace
  let s ← (Simulation.new c t).mapError .setup
  let s ← (s.run ticks).mapError .scale
  return epilogue s.summary json
    (if metrics then some (.ofReports s.reports.toList) else none)

/-- A control loop to be paced by the wall clock. -/
structure Live where
  simulation : Simulation
  /-- Seconds between two ticks, at least one. -/
  interval : Nat

def prepare (files : Files) (config : Option String) (trace : String)
    (tickInterval : Option String) : Except Failure Live := do
  let c ← loadConfig files config
  let interval ← match tickInterval with
    | some text => (Duration.parse text).mapError .interval
    | none => c.tickSeconds.mapError .config
  if interval = 0 then throw .zeroInterval
  let t ← loadTrace files trace
  return { simulation := ← (Simulation.new c t).mapError .setup, interval }

/-- What a paced control loop prints when it has stopped. -/
def Live.farewell (fleet : SimulatedFleet) (metrics : Metrics) : String :=
  epilogue fleet.summary false (some metrics)

def validLine (path : String) : String := "✓ " ++ path ++ " is valid\n"

def timesLine (c : Config) (grace window : Nat) : String :=
  s!"  {c.idleGraceTicks} idle ticks ≈ {grace}s grace, " ++
    s!"{window} samples per utilization window\n\n"

/-- Checks a configuration and prints its effective values.  At a grace period of `2 ^ 64`
seconds or more the program panics after the first line; what it then says is left out. -/
def inspect (files : Files) (path : String) : Except Failure Exit := do
  let c ← loadConfig files (some path)
  match c.graceSeconds, c.windowTicks with
  | .ok grace, .ok window =>
    return { code := 0, stdout := validLine path ++ timesLine c grace window ++ c.toText }
  | .error .graceOverflow, _ => return { code := 101, stdout := validLine path }
  | .error e, _ | _, .error e =>
    return { code := 1, stdout := validLine path, stderr := "Error: " ++ e.message ++ "\n" }

def usage : String :=
  "Usage: poolscaled <COMMAND>\n\n" ++
  "  simulate -t <TRACE> [-c <CONFIG>] [-n <TICKS>] [--json] [--metrics]\n" ++
  "  run -t <TRACE> [-c <CONFIG>] [--tick-interval <DURATION>]\n" ++
  "  check-config -c <CONFIG>\n"

def Refusal.exit (r : Refusal) : Exit :=
  match r.stop with
  | .misuse => { code := 2, stderr := usage }
  | .help => { code := 0, stdout := usage }
  | .version => { code := 0, stdout := r.name ++ " 0.1.0\n" }

/-- What a command leads to: an end, or a loop that goes on. -/
inductive Effect where
  | exit (e : Exit)
  | live (l : Live)

def execute (files : Files) : Command → Except Failure Effect
  | .simulate config trace ticks json metrics => do
    return .exit { code := 0, stdout := ← replay files config trace ticks json metrics }
  | .run config trace tickInterval => do
    return .live (← prepare files config trace tickInterval)
  | .checkConfig path => do return .exit (← inspect files path)

def respond (files : Files) (args : List String) : Effect :=
  match parse args with
  | .error r => .exit r.exit
  | .ok command =>
    match execute files command with
    | .error f => .exit f.exit
    | .ok e => e

end FleetSizing.Command
