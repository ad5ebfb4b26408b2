import FleetSizing.Decision.Basic
import FleetSizing.Window
/-!
# Simulated pools

The instances of one kind and the jobs that wait for them.  A job is given by its
remaining seconds.  A free instance takes the next job from the front of the backlog,
also in the middle of a tick.
-/

namespace FleetSizing

structure Instance where
  id : InstanceId
  running : Option Nat := none
  window : Window

/-- The state of one kind, with counters over its whole history. -/
structure Pool where
  /-- The instances, the oldest first. -/
  instances : List Instance := []
  /-- The remaining seconds of the waiting jobs, the next one first. -/
  backlog : List Nat := []
  created : Nat := 0
  destroyed : Nat := 0
  /-- The largest number of instances there have been. -/
  peak : Nat := 0
  submitted : Nat := 0
  completed : Nat := 0

instance : Inhabited Pool := ⟨{}⟩

structure Turn where
  /-- The remaining seconds of the job that is still in flight. -/
  running : Option Nat
  completed : Nat
  used : Nat
deriving DecidableEq, Repr

/-- Works on jobs one after the other for up to `budget` seconds, and leaves those not
begun. -/
def serve (budget : Nat) : List Nat → Turn × List Nat
  | [] => (⟨none, 0, 0⟩, [])
  | job :: jobs =>
    if budget = 0 then (⟨none, 0, 0⟩, job :: jobs)
    else if budget < job then (⟨some (job - budget), 0, budget⟩, jobs)
    else
      let (turn, left) := serve (budget - job) jobs
      (⟨turn.running, turn.completed + 1, job + turn.used⟩, left)

theorem used_serve_le (budget : Nat) (jobs : List Nat) :
    (serve budget jobs).1.used ≤ budget := by
  fun_induction serve budget jobs with
  | case1 budget => exact Nat.zero_le _
  | case2 job jobs => exact Nat.zero_le _
  | case3 budget job jobs hbudget hjob => exact Nat.le_refl _
  | case4 budget job jobs hbudget hjob turn left heq ih =>
      rw [heq] at ih
      simp only at ih ⊢
      omega

theorem used_add_left_serve (budget : Nat) (jobs : List Nat) :
    (serve budget jobs).1.used + (serve budget jobs).1.running.getD 0
      + sumOf id (serve budget jobs).2 = sumOf id jobs := by
  fun_induction serve budget jobs with
  | case1 budget => rfl
  | case2 job jobs => simp
  | case3 budget job jobs hbudget hjob =>
      simp only [Option.getD_some, sumOf_cons, id_eq]
      omega
  | case4 budget job jobs hbudget hjob turn left heq ih =>
      rw [heq] at ih
      simp only [sumOf_cons, id_eq] at ih ⊢
      omega

theorem left_serve_of_used_lt {budget : Nat} {jobs : List Nat}
    (h : (serve budget jobs).1.used < budget) :
    (serve budget jobs).1.running = none ∧ (serve budget jobs).2 = [] := by
  fun_induction serve budget jobs with
  | case1 budget => exact ⟨rfl, rfl⟩
  | case2 job jobs => exact absurd h (Nat.lt_irrefl _)
  | case3 budget job jobs hbudget hjob => exact absurd h (Nat.lt_irrefl _)
  | case4 budget job jobs hbudget hjob turn left heq ih =>
      rw [heq] at ih
      simp only at ih h ⊢
      exact ih (by omega)

namespace Instance

def isBusy (i : Instance) : Bool := i.running.isSome

/-- What a tick of `seconds` brings to an instance, and what it leaves of the backlog. -/
def turn (seconds : Nat) (backlog : List Nat) (i : Instance) : Turn × List Nat :=
  serve seconds (i.running.toList ++ backlog)

def after (seconds : Nat) (i : Instance) (t : Turn) : Instance :=
  { i with
    running := t.running
    window := i.window.record (Float.ofNat t.used / Float.ofNat seconds) }

end Instance

/-- What a tick brings to each instance, and what they leave of their backlog. -/
def turns (seconds : Nat) : List Instance → List Nat → List Turn × List Nat
  | [], backlog => ([], backlog)
  | i :: instances, backlog =>
    let (turn, backlog) := i.turn seconds backlog
    let (rest, backlog) := turns seconds instances backlog
    (turn :: rest, backlog)

namespace Pool

def size (p : Pool) : Nat := p.instances.length

def ids (p : Pool) : List InstanceId := p.instances.map (·.id)

def find? (p : Pool) (id : InstanceId) : Option Instance := p.instances.find? (·.id = id)

def busyCount (p : Pool) : Nat := p.instances.countP (·.isBusy)

def add (p : Pool) (id : InstanceId) (capacity : Nat) : Pool :=
  { p with
    instances := p.instances ++ [{ id, window := .ofCapacity capacity }]
    created := p.created + 1
    peak := max p.peak (p.size + 1) }

/-- Removes an instance.  Its job goes back to the front of the backlog. -/
def remove (p : Pool) (id : InstanceId) : Pool :=
  match p.find? id with
  | none => p
  | some i =>
    { p with
      instances := p.instances.filter (·.id ≠ id)
      backlog := i.running.toList ++ p.backlog
      destroyed := p.destroyed + 1 }

def submit (p : Pool) (seconds count : Nat) : Pool :=
  { p with
    backlog := p.backlog ++ List.replicate count seconds
    submitted := p.submitted + count }

def work (p : Pool) (seconds : Nat) : Pool :=
  let (turns, backlog) := turns seconds p.instances p.backlog
  { p with
    instances := p.instances.zipWith (·.after seconds ·) turns
    backlog
    completed := p.completed + sumOf (·.completed) turns }

end Pool

end FleetSizing
