import FleetSizing.Proofs.SimulatedFleet.Accounts
/-!
# Work in rounds

An instance spends its tick in rounds.  In each of them it takes a job unless it has one, and
works on it until the job or the tick is over.  Every round but the last one completes a job,
so there are no more rounds than jobs and one.
-/

namespace FleetSizing

/-- An instance in the middle of a tick. -/
structure Stint where
  /-- The seconds that are left of the tick. -/
  budget : Nat
  running : Option Nat
  backlog : List Nat
  completed : Nat := 0

namespace Stint

def jobs (s : Stint) : List Nat := s.running.toList ++ s.backlog

/-- Takes the next job from the backlog, unless there is one in flight or none at all. -/
def pull (s : Stint) : Stint :=
  match s.running, s.backlog with
  | none, job :: backlog => { s with running := some job, backlog }
  | _, _ => s

/-- Works on the job in flight until it is completed or the time is up. -/
def spend (s : Stint) (job : Nat) : Stint :=
  let spent := min s.budget job
  if job - spent = 0 then
    { s with budget := s.budget - spent, running := none, completed := s.completed + 1 }
  else { s with budget := s.budget - spent, running := some (job - spent) }

/-- Rounds until the time is up or nothing is left to do; `none` if a number of them is not
enough. -/
def loop : (rounds : Nat) → Stint → Option Stint
  | 0, s => if s.budget = 0 then some s else none
  | rounds + 1, s =>
    if s.budget = 0 then some s
    else
      match s.pull.running with
      | none => some s.pull
      | some job => loop rounds (s.pull.spend job)

def finish (s : Stint) : Stint where
  budget := s.budget - (serve s.budget s.jobs).1.used
  running := (serve s.budget s.jobs).1.running
  backlog := (serve s.budget s.jobs).2
  completed := s.completed + (serve s.budget s.jobs).1.completed

theorem pull_of_jobs_nil {s : Stint} (h : s.jobs = []) : s.pull = s ∧ s.running = none := by
  obtain ⟨budget, running, backlog, completed⟩ := s
  obtain ⟨hrunning, rfl⟩ := List.append_eq_nil_iff.1 h
  cases running with
  | none => exact ⟨rfl, rfl⟩
  | some job => cases hrunning

theorem pull_of_jobs_cons {s : Stint} {job : Nat} {jobs : List Nat} (h : s.jobs = job :: jobs) :
    s.pull = { s with running := some job, backlog := jobs } := by
  obtain ⟨budget, running, backlog, completed⟩ := s
  cases running with
  | none =>
      obtain rfl : backlog = job :: jobs := h
      rfl
  | some job' =>
      obtain ⟨rfl, rfl⟩ := List.cons.inj h
      rfl

theorem loop_of_budget_eq_zero (rounds : Nat) {s : Stint} (h : s.budget = 0) :
    s.loop rounds = some s := by
  cases rounds <;> simp [loop, h]

theorem serve_zero (jobs : List Nat) : serve 0 jobs = (⟨none, 0, 0⟩, jobs) := by
  cases jobs <;> rfl

theorem finish_of_budget_eq_zero {s : Stint} (hrunning : s.running = none) (h : s.budget = 0) :
    s.finish = s := by
  obtain ⟨budget, running, backlog, completed⟩ := s
  obtain rfl : running = none := hrunning
  obtain rfl : budget = 0 := h
  simp [finish, jobs, serve_zero]

theorem finish_of_jobs_nil {s : Stint} (h : s.jobs = []) : s.finish = s := by
  obtain ⟨-, hrunning⟩ := pull_of_jobs_nil h
  obtain ⟨-, hbacklog⟩ := List.append_eq_nil_iff.1 h
  obtain ⟨budget, running, backlog, completed⟩ := s
  obtain rfl : running = none := hrunning
  obtain rfl : backlog = [] := hbacklog
  rfl

theorem finish_of_lt {s : Stint} {job : Nat} {jobs : List Nat} (h : s.jobs = job :: jobs)
    (hjob : s.budget < job) (hbudget : 0 < s.budget) :
    s.finish = s.pull.spend job := by
  rw [pull_of_jobs_cons h, spend, finish, h, serve, if_neg hbudget.ne', if_pos hjob,
    min_eq_left hjob.le, if_neg (Nat.sub_ne_zero_of_lt hjob)]
  simp

theorem finish_of_le {s : Stint} {job : Nat} {jobs : List Nat} (h : s.jobs = job :: jobs)
    (hjob : job ≤ s.budget) (hbudget : 0 < s.budget) :
    s.finish = (s.pull.spend job).finish ∧ (s.pull.spend job).running = none ∧
      (s.pull.spend job).jobs = jobs := by
  have hspend : s.pull.spend job =
      { budget := s.budget - job, running := none, backlog := jobs
        completed := s.completed + 1 } := by
    rw [pull_of_jobs_cons h, spend, min_eq_right hjob, if_pos (Nat.sub_self job)]
  have hjobs : (s.pull.spend job).jobs = jobs := by
    rw [hspend]
    rfl
  refine ⟨?_, by rw [hspend], hjobs⟩
  rw [finish, finish, h, hjobs, serve, if_neg hbudget.ne', if_neg (Nat.not_lt.2 hjob), hspend]
  simp only [Nat.sub_sub, Nat.add_assoc, Nat.add_comm 1]

/-- Enough rounds come to what the jobs take one after the other. -/
theorem loop_eq_finish {rounds : Nat} {s : Stint} (hrounds : s.jobs.length < rounds)
    (hs : s.running = none ∨ 0 < s.budget) : s.loop rounds = some s.finish := by
  induction rounds generalizing s with
  | zero => exact absurd hrounds (Nat.not_lt_zero _)
  | succ rounds ih =>
      by_cases hbudget : s.budget = 0
      · have hrunning := hs.resolve_right (Nat.not_lt.2 hbudget.le)
        rw [loop_of_budget_eq_zero _ hbudget, finish_of_budget_eq_zero hrunning hbudget]
      · have hpos : 0 < s.budget := Nat.pos_of_ne_zero hbudget
        rw [loop, if_neg hbudget]
        cases hjobs : s.jobs with
        | nil =>
            obtain ⟨hpull, hrunning⟩ := pull_of_jobs_nil hjobs
            rw [hpull, hrunning, finish_of_jobs_nil hjobs]
        | cons job jobs =>
            have hrunning : s.pull.running = some job := by rw [pull_of_jobs_cons hjobs]
            rw [hrunning]
            change (s.pull.spend job).loop rounds = some s.finish
            by_cases hjob : s.budget < job
            · rw [finish_of_lt hjobs hjob hpos]
              refine loop_of_budget_eq_zero _ ?_
              rw [pull_of_jobs_cons hjobs, spend, min_eq_left hjob.le,
                if_neg (Nat.sub_ne_zero_of_lt hjob)]
              exact Nat.sub_self _
            · obtain ⟨hfinish, hnone, hrest⟩ := finish_of_le hjobs (Nat.not_lt.1 hjob) hpos
              rw [hfinish]
              refine ih ?_ (Or.inl hnone)
              rw [hjobs, List.length_cons] at hrounds
              rw [hrest]
              omega

end Stint

/-! ## The rounds of a pool -/

def Instance.stint (seconds : Nat) (backlog : List Nat) (i : Instance) : Stint where
  budget := seconds
  running := i.running
  backlog := backlog

/-- What a tick brings to an instance if a number of rounds is enough. -/
def Instance.turnWithin (rounds seconds : Nat) (backlog : List Nat) (i : Instance) :
    Option (Turn × List Nat) :=
  ((i.stint seconds backlog).loop rounds).map fun s =>
    (⟨s.running, s.completed, seconds - s.budget⟩, s.backlog)

def turnsWithin (rounds seconds : Nat) : List Instance → List Nat → Option (List Turn × List Nat)
  | [], backlog => some ([], backlog)
  | i :: instances, backlog => do
    let (turn, backlog) ← i.turnWithin rounds seconds backlog
    let (rest, backlog) ← turnsWithin rounds seconds instances backlog
    return (turn :: rest, backlog)

theorem Instance.turnWithin_eq {rounds seconds : Nat} {backlog : List Nat} {i : Instance}
    (hseconds : 0 < seconds) (hrounds : i.running.toList.length + backlog.length < rounds) :
    i.turnWithin rounds seconds backlog = some (i.turn seconds backlog) := by
  have hjobs : (i.stint seconds backlog).jobs = i.running.toList ++ backlog := rfl
  have hloop : (i.stint seconds backlog).loop rounds = some (i.stint seconds backlog).finish := by
    refine Stint.loop_eq_finish ?_ (Or.inr hseconds)
    rw [hjobs, List.length_append]
    exact hrounds
  have hused : (i.turn seconds backlog).1.used ≤ seconds := used_serve_le ..
  have hspent : seconds - (seconds - (i.turn seconds backlog).1.used) =
      (i.turn seconds backlog).1.used := by omega
  rw [turnWithin, hloop, Option.map_some]
  change some (Turn.mk (i.turn seconds backlog).1.running (0 + (i.turn seconds backlog).1.completed)
    (seconds - (seconds - (i.turn seconds backlog).1.used)), (i.turn seconds backlog).2) = _
  rw [hspent, Nat.zero_add]

theorem turnsWithin_eq {rounds seconds : Nat} {instances : List Instance} {backlog : List Nat}
    (hseconds : 0 < seconds)
    (hrounds : ∀ i ∈ instances, i.running.toList.length + backlog.length < rounds) :
    turnsWithin rounds seconds instances backlog = some (turns seconds instances backlog) := by
  induction instances generalizing backlog with
  | nil => rfl
  | cons i instances ih =>
      have hleft := (left_turn_suffix hseconds i backlog).length_le
      have hrest : turnsWithin rounds seconds instances (i.turn seconds backlog).2 =
          some (turns seconds instances (i.turn seconds backlog).2) := by
        refine ih fun j hj => ?_
        have := hrounds j (List.mem_cons_of_mem _ hj)
        omega
      rw [turnsWithin, Instance.turnWithin_eq hseconds (hrounds i (List.mem_cons_self ..))]
      simp only [bind, Option.bind_some, hrest]
      rfl

namespace Pool

def jobCount (p : Pool) : Nat := p.busyCount + p.backlog.length

/-- A tick of `seconds` if a number of rounds is enough for each instance. -/
def workWithin (rounds seconds : Nat) (p : Pool) : Option Pool :=
  (turnsWithin rounds seconds p.instances p.backlog).map fun (turns, backlog) =>
    { p with
      instances := p.instances.zipWith (·.after seconds ·) turns
      backlog
      completed := p.completed + sumOf (·.completed) turns }

theorem workWithin_jobCount (p : Pool) {seconds : Nat} (hseconds : 0 < seconds) :
    p.workWithin (p.jobCount + 1) seconds = some (p.work seconds) := by
  have hturns : turnsWithin (p.jobCount + 1) seconds p.instances p.backlog =
      some (turns seconds p.instances p.backlog) := by
    refine turnsWithin_eq hseconds fun i hi => ?_
    have hle : i.running.toList.length ≤ p.busyCount := by
      cases hrunning : i.running with
      | none => exact Nat.zero_le _
      | some job =>
          have hbusy : i.isBusy = true := by rw [Instance.isBusy, hrunning, Option.isSome_some]
          exact List.countP_pos_iff.2 ⟨i, hi, hbusy⟩
    unfold jobCount
    omega
  rw [workWithin, hturns, Option.map_some]
  rfl

end Pool

end FleetSizing
