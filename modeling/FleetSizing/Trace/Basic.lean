import FleetSizing.Duration
import FleetSizing.Sums
/-!
# Workload traces

A trace tells which jobs arrive at which tick.  Each entry stands for a number of
equal jobs of one kind.
-/

namespace FleetSizing

/-- The name of a class of workload.  Each kind has a pool of its own. -/
abbrev Kind := String

/-- Equal jobs that arrive together. -/
structure JobSpec where
  kind : Kind
  /-- The tick, counted from one, at which the jobs become visible. -/
  arrivalTick : Nat
  /-- The run time of each job, as written. -/
  duration : String
  count : Nat := 1
deriving DecidableEq, Repr

/-- The jobs of a trace, and kinds that exist even if no job names them. -/
structure Trace where
  jobs : List JobSpec := []
  kinds : List Kind := []
deriving DecidableEq, Repr

inductive JobDefect where
  | duration (e : Duration.Malformed)
  | zero
deriving DecidableEq, Repr

def JobDefect.message : JobDefect → String
  | .duration e => e.message
  | .zero => "duration must be non-zero"

inductive TraceError where
  | unreadable
  | malformed
  | invalidJob (index : Nat) (defect : JobDefect)
deriving DecidableEq, Repr

def TraceError.message : TraceError → String
  | .unreadable => "failed to read trace"
  | .malformed => "failed to parse trace"
  | .invalidJob index defect => s!"job {index}: " ++ defect.message

namespace JobSpec

def seconds (job : JobSpec) : Except JobDefect Nat := do
  let n ← (Duration.parse job.duration).mapError .duration
  if n = 0 then throw .zero
  return n

end JobSpec

namespace Trace

/-- The run times of the jobs from position `index` on, or the first defect. -/
def secondsFrom (index : Nat) : List JobSpec → Except TraceError (List Nat)
  | [] => .ok []
  | job :: jobs => do
    let n ← job.seconds.mapError (.invalidJob index)
    return n :: (← secondsFrom (index + 1) jobs)

def validate (t : Trace) : Except TraceError Unit := do
  let _ ← secondsFrom 0 t.jobs

/-- Puts a kind into its place in a strictly increasing list. -/
def insertKind (k : Kind) : List Kind → List Kind
  | [] => [k]
  | k' :: rest => if k < k' then k :: k' :: rest else if k = k' then k' :: rest
    else k' :: insertKind k rest

def allKinds (t : Trace) : List Kind :=
  (t.kinds ++ t.jobs.map (·.kind)).foldr insertKind []

theorem mem_insertKind_iff {k k' : Kind} {kinds : List Kind} :
    k ∈ insertKind k' kinds ↔ k = k' ∨ k ∈ kinds := by
  induction kinds with
  | nil => simp [insertKind]
  | cons k'' kinds ih =>
      unfold insertKind
      split
      next => exact List.mem_cons
      next =>
        split
        next heq => simp [heq]
        next => rw [List.mem_cons, ih, List.mem_cons, or_left_comm]

theorem mem_allKinds_iff {t : Trace} {k : Kind} :
    k ∈ t.allKinds ↔ k ∈ t.kinds ∨ k ∈ t.jobs.map (·.kind) := by
  have hfold (kinds : List Kind) : k ∈ kinds.foldr insertKind [] ↔ k ∈ kinds := by
    induction kinds with
    | nil => rfl
    | cons k' kinds ih => rw [List.foldr_cons, mem_insertKind_iff, ih, List.mem_cons]
  rw [allKinds, hfold, List.mem_append]

def jobCount (t : Trace) : Nat := sumOf (·.count) t.jobs

end Trace

end FleetSizing
