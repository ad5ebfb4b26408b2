import FleetSizing.Command.Exit
/-!
# The program

Reads the files that the command line names, and writes what the command prints.  A
paced control loop goes on until the terminal it reads from is closed or the program is
interrupted.
-/

namespace FleetSizing.Program

def readFile (path : String) : IO (Option ByteArray) :=
  try
    return some (← IO.FS.readBinFile path)
  catch _ => return none

def readFiles (paths : List String) : IO Command.Files := do
  let contents ← paths.mapM fun path => return (path, ← readFile path)
  return fun path => (contents.lookup path).join

/-- Waits for the end of the standard input if that is a terminal. -/
partial def awaitEnd : IO Unit := do
  let input ← IO.getStdin
  let rec drain : IO Unit := do
    if (← input.getLine) ≠ "" then drain
  if ← input.isTty then drain else IO.sleep 3600000 *> awaitEnd

/-- Sleeps for a number of seconds unless a task finishes before. -/
partial def sleepUnless (stop : Task α) (seconds : Nat) : IO Bool := do
  if ← IO.hasFinished stop then return true
  if seconds = 0 then return false
  IO.sleep 1000
  sleepUnless stop (seconds - 1)

partial def pace (stop : Task α) (interval : Nat) (p : Scaler.Pace SimulatedFleet)
    (m : Metrics) : IO Unit := do
  if ← sleepUnless stop interval then
    IO.print (Command.Live.farewell p.fleet m)
  else
    let p := { p with calls := [], reports := [] }.tick ((← IO.monoMsNow) / 1000)
    for r in p.reports do
      if r.isChange then
        IO.eprintln s!"tick {r.tick}: creates {r.totalCreates}, destroys {r.totalDestroys}"
    pace stop interval p (p.reports.foldl Metrics.record m)

def pathsOf (args : List String) : List String :=
  match Command.parse args with
  | .ok command => command.paths
  | .error _ => []

end FleetSizing.Program

open FleetSizing in
def main (args : List String) : IO UInt32 := do
  let files ← Program.readFiles (Program.pathsOf args)
  match Command.respond files args with
  | .exit e =>
    IO.print e.stdout
    IO.eprint e.stderr
    return e.code.toUInt32
  | .live l =>
    let stop ← IO.asTask Program.awaitEnd
    let s := l.simulation
    Program.pace stop l.interval { scaler := s.scaler, fleet := s.fleet } {}
    return 0
