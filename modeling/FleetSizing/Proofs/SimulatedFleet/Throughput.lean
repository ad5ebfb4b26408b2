import FleetSizing.Proofs.SimulatedFleet.Instances
import FleetSizing.Proofs.SimulatedFleet.Stints
import FleetSizing.Proofs.SimulatedFleet.WaitingWork
/-!
# What a tick works

Every job that waits or is in flight has work left.  In a tick each instance records the share
that it has worked, the jobs lose just as much, and no instance has time left over while a job
of its kind waits.
-/

namespace FleetSizing

theorem pos_of_running_serve {budget : Nat} {jobs : List Nat} {job : Nat}
    (h : (serve budget jobs).1.running = some job) : 0 < job := by
  fun_induction serve budget jobs with
  | case1 budget => cases h
  | case2 job' jobs => cases h
  | case3 budget job' jobs hbudget hjob =>
      obtain rfl := Option.some.inj h
      omega
  | case4 budget job' jobs hbudget hjob turn left heq ih =>
      rw [heq] at ih
      exact ih h

theorem pos_of_mem_turns {seconds : Nat} {instances : List Instance} {backlog : List Nat}
    {t : Turn} (ht : t ∈ (turns seconds instances backlog).1) {job : Nat}
    (h : t.running = some job) : 0 < job := by
  induction instances generalizing backlog with
  | nil => cases ht
  | cons i instances ih =>
      rcases List.mem_cons.1 ht with rfl | ht
      · exact pos_of_running_serve h
      · exact ih ht

namespace Pool

variable {p : Pool}

/-- No job is over that waits or is in flight. -/
structure IsUnfinished (p : Pool) : Prop where
  backlog : ∀ job ∈ p.backlog, 0 < job
  running : ∀ i ∈ p.instances, ∀ job ∈ i.running, 0 < job

theorem isUnfinished_empty : ({} : Pool).IsUnfinished := ⟨nofun, nofun⟩

theorem IsUnfinished.receive (hp : p.IsUnfinished) {arrivals : List Arrival}
    (h : ∀ a ∈ arrivals, 0 < a.seconds) : (p.receive arrivals).IsUnfinished := by
  induction arrivals generalizing p with
  | nil => exact hp
  | cons a arrivals ih =>
      obtain ⟨ha, harrivals⟩ := List.forall_mem_cons.1 h
      have hsubmit : (p.submit a.seconds a.count).IsUnfinished := by
        refine ⟨fun job hjob => ?_, hp.running⟩
        rcases List.mem_append.1 hjob with hjob | hjob
        · exact hp.backlog job hjob
        · rwa [(List.mem_replicate.1 hjob).2]
      exact ih hsubmit harrivals

theorem IsUnfinished.work (hp : p.IsUnfinished) {seconds : Nat} (hseconds : 0 < seconds) :
    (p.work seconds).IsUnfinished := by
  refine ⟨fun job hjob => ?_, fun i hi job hjob => ?_⟩
  · exact hp.backlog job ((backlog_work_suffix hseconds p).mem hjob)
  · rw [instances_work] at hi
    obtain ⟨e, he, rfl⟩ := List.mem_map.1 hi
    exact pos_of_mem_turns (List.of_mem_zip he).2 hjob

theorem IsUnfinished.add (hp : p.IsUnfinished) (id : InstanceId) (capacity : Nat) :
    (p.add id capacity).IsUnfinished := by
  refine ⟨hp.backlog, fun i hi job hjob => ?_⟩
  rcases List.mem_append.1 hi with hi | hi
  · exact hp.running i hi job hjob
  · rw [List.mem_singleton.1 hi] at hjob
    cases hjob

theorem IsUnfinished.remove (hp : p.IsUnfinished) (id : InstanceId) :
    (p.remove id).IsUnfinished := by
  refine ⟨fun job hjob => ?_, fun i hi job hjob => ?_⟩
  · unfold Pool.remove at hjob
    split at hjob
    next => exact hp.backlog job hjob
    next i hi =>
      rcases List.mem_append.1 hjob with hjob | hjob
      · exact hp.running i (List.mem_of_find?_eq_some hi) job (Option.mem_toList.1 hjob)
      · exact hp.backlog job hjob
  · rw [instances_remove] at hi
    exact hp.running i (List.mem_of_mem_filter hi) job hjob

end Pool

theorem JobSpec.pos_of_seconds {job : JobSpec} {n : Nat} (h : job.seconds = .ok n) : 0 < n := by
  unfold seconds at h
  cases hparse : (Duration.parse job.duration).mapError JobDefect.duration with
  | error e =>
      rw [hparse] at h
      cases h
  | ok m =>
      rw [hparse] at h
      by_cases hzero : m = 0
      · rw [hzero] at h
        cases h
      · simp only [bind, Except.bind, if_neg hzero, pure, Except.pure] at h
        cases h
        exact Nat.pos_of_ne_zero hzero

theorem JobSpec.secondsD_pos {job : JobSpec} (h : job.seconds.isOk = true) : 0 < job.secondsD := by
  unfold secondsD
  cases hseconds : job.seconds with
  | error e =>
      rw [hseconds] at h
      cases h
  | ok n => exact pos_of_seconds hseconds

namespace SimulatedFleet

variable {f : SimulatedFleet} {kind : Kind}

/-- No job is over that waits, is in flight or is yet to arrive. -/
structure IsUnfinished (f : SimulatedFleet) : Prop where
  pool : ∀ kind, (f.poolD kind).IsUnfinished
  arrivals : ∀ a ∈ f.arrivals, 0 < a.seconds

theorem IsUnfinished.atWork (hf : f.IsUnfinished) (kind : Kind) :
    (f.atWork.poolD kind).IsUnfinished := by
  rw [poolD_atWork]
  refine (hf.pool kind).receive fun a ha => hf.arrivals a ?_
  rw [← f.due_append_later]
  exact List.mem_append_left _ (List.mem_of_mem_filter ha)

theorem IsUnfinished.load (hf : f.IsUnfinished) (t : Trace) : (f.load t).1.IsUnfinished := by
  refine ⟨fun kind => by rw [poolD_load]; exact hf.pool kind, fun a ha => ?_⟩
  have hregistered := (isAbreast_foldl_register f t.allKinds).arrivals
  by_cases ht : t.validate = .ok ()
  · rw [(isAbreast_load ht f).arrivals] at ha
    rcases List.mem_append.1 ((schedule_perm _).mem_iff.1 ha) with ha | ha
    · obtain ⟨job, hjob, rfl⟩ := List.mem_map.1 ha
      exact JobSpec.secondsD_pos (Trace.validate_eq_ok_iff.1 ht job hjob)
    · exact hf.arrivals a ha
  · obtain ⟨e, he⟩ := load_of_not_validate ht f
    rw [he] at ha
    exact hf.arrivals a (hregistered ▸ ha)

theorem IsUnfinished.change (hf : f.IsUnfinished) (c : Change) : (f.change c).IsUnfinished := by
  match c with
  | .register kind' =>
      refine ⟨fun kind => ?_, hf.arrivals⟩
      change ((f.register kind').poolD kind).IsUnfinished
      rw [poolD_register]
      exact hf.pool kind
  | .load trace => exact hf.load trace
  | .request (.create kind') =>
      refine ⟨fun kind => ?_, hf.arrivals⟩
      change ((f.create kind').poolD kind).IsUnfinished
      rw [poolD_create]
      split
      · exact (hf.pool kind).add _ _
      · exact hf.pool kind
  | .request (.destroy _ id) =>
      refine ⟨fun kind => ?_, hf.arrivals⟩
      change ((f.destroy id).poolD kind).IsUnfinished
      rw [poolD_destroy]
      exact (hf.pool kind).remove id
  | .sync now =>
      refine ⟨fun kind => ?_, fun a ha => hf.arrivals a ?_⟩
      · change (f.advance.poolD kind).IsUnfinished
        rw [poolD_advance]
        exact (hf.atWork kind).work f.tickSeconds_pos
      · change a ∈ f.advance.arrivals at ha
        rw [(isAbreast_advance f).arrivals] at ha
        rw [← f.due_append_later]
        exact List.mem_append_right _ ha

theorem IsUnfinished.changeAll (hf : f.IsUnfinished) (cs : List Change) :
    (f.changeAll cs).IsUnfinished :=
  List.foldlRecOn cs _ hf fun _ hg c _ => hg.change c

theorem isUnfinished_ofConfig {c : Config} (h : ofConfig c = .ok f) : f.IsUnfinished := by
  obtain ⟨-, -, heq⟩ := ofConfig_eq_ok h
  rw [heq]
  exact ⟨fun _ => Pool.isUnfinished_empty, nofun⟩

theorem IsSound.exists_workload (hf : f.IsSound) {i : Instance}
    (hi : i ∈ (f.atWork.poolD kind).instances) :
    ∃ t ∈ (turns f.tickSeconds (f.atWork.poolD kind).instances (f.atWork.poolD kind).backlog).1,
      f.turn i.id = t := by
  rw [← Pool.map_fst_workload _ f.tickSeconds] at hi
  obtain ⟨e, he, rfl⟩ := List.mem_map.1 hi
  exact ⟨e.2, (List.of_mem_zip he).2, hf.turn_eq he⟩

theorem IsSound.sumOf_spent (hf : f.IsSound) (kind : Kind) :
    sumOf f.spent (f.atWork.poolD kind).ids = (f.atWork.poolD kind).worked f.tickSeconds := by
  have hsnd := List.map_snd_zip (length_turns f.tickSeconds (f.atWork.poolD kind).instances
    (f.atWork.poolD kind).backlog).le
  rw [Pool.worked, ← hsnd, ← Pool.map_id_workload _ f.tickSeconds, sumOf_map, sumOf_map]
  refine sumOf_congr fun e he => ?_
  change (f.turn e.1.id).used = e.2.used
  rw [hf.turn_eq he]

end SimulatedFleet

open SimulatedFleet

/-- Whatever has been done with a new fleet, no job is over that waits or is in flight, and a
sync does for each kind just the work that it records.  An instance that has time left has no
job in flight, and no job of its kind waits.  No instance needs more rounds than there are
jobs of its kind, and one. -/
theorem sync_works_what_it_records (c : Config) (f₀ : SimulatedFleet)
    (hf₀ : ofConfig c = .ok f₀) (cs : List Change) (now : Nat) :
    let f := f₀.changeAll cs
    ∀ kind,
      (∀ job ∈ (f.poolD kind).backlog, 1 ≤ job) ∧
      (∀ i ∈ (f.poolD kind).instances, ∀ job ∈ i.running, 1 ≤ job) ∧
      let p := f.atWork.poolD kind
      let p' := (Fleet.sync f now).poolD kind
      List.Forall₂
        (fun i i' => i'.id = i.id ∧ f.spent i.id ≤ f.tickSeconds ∧
          i'.window.samples = (i.window.samples ++
            [Float.ofNat (f.spent i.id) / Float.ofNat f.tickSeconds]).rtake i.window.capacity ∧
          (f.spent i.id < f.tickSeconds → i'.running = none ∧ p'.backlog = []))
        p.instances p'.instances ∧
      sumOf f.spent p.ids + p'.remaining = p.remaining ∧
      p'.jobCount ≤ p.jobCount ∧ p'.completed = p.completed + (p.jobCount - p'.jobCount) ∧
      p.workWithin (p.jobCount + 1) f.tickSeconds = some p' := by
  intro f kind
  have hsound : f.IsSound := (isSound_ofConfig hf₀).changeAll cs
  obtain ⟨hbacklog, hrunning⟩ := ((isUnfinished_ofConfig hf₀).changeAll cs).pool kind
  refine ⟨hbacklog, hrunning, ?_⟩
  intro p p'
  have hp' : p' = p.work f.tickSeconds := f.poolD_advance kind
  have hinstances : p'.instances = p.instances.map fun i => i.after f.tickSeconds (f.turn i.id) := by
    rw [instances_poolD_atWork]
    exact hsound.instances_poolD_advance kind
  have hjobs := p.completed_add_left_work f.tickSeconds
  have hcompleted : (p.work f.tickSeconds).completed =
    p.completed + sumOf (·.completed) (turns f.tickSeconds p.instances p.backlog).1 := rfl
  refine ⟨?_, ?_, ?_, ?_, ?_⟩
  · rw [hinstances, List.forall₂_map_right_iff, List.forall₂_same]
    intro i hi
    refine ⟨rfl, f.spent_le i.id, ?_, fun hspent => ?_⟩
    · have hwindow := (hsound.atWork.poolD kind).window i hi
      exact hwindow.samples_record (hsound.isFraction_share i.id)
    · obtain ⟨t, ht, hturn⟩ := hsound.exists_workload hi
      change (f.turn i.id).used < _ at hspent
      rw [hp', Instance.after, hturn]
      exact idle_of_mem_turns f.tickSeconds_pos ht (hturn ▸ hspent)
  · rw [hsound.sumOf_spent, hp']
    exact p.worked_add_remaining f.tickSeconds
  · rw [hp']
    unfold Pool.jobCount
    omega
  · rw [hp']
    unfold Pool.jobCount
    omega
  · rw [hp']
    exact p.workWithin_jobCount f.tickSeconds_pos

/-- Three jobs, of which two instances complete two and begin the third in one tick. -/
def sharedQueue : List Change :=
  [.request (.create "web"), .request (.create "web"), .load { jobs := [⟨"web", 1, "90s", 3⟩] }]

theorem sync_works_what_it_records_shared : ∃ f₀, ofConfig {} = .ok f₀ ∧
    let f := f₀.changeAll sharedQueue
    let p := (Fleet.sync f 120).poolD "web"
    f.spent 1 = 120 ∧ f.spent 2 = 90 ∧ f.spent 1 + f.spent 2 + p.remaining = 270 ∧
      p.completed = 3 - p.jobCount ∧ (f.atWork.poolD "web").workWithin 4 120 = some p := by
  have hrun : (do
      let f₀ ← (ofConfig {}).toOption
      let f := f₀.changeAll sharedQueue
      let p := f.atWork.poolD "web"
      return (p.ids, [f.spent 1, f.spent 2, p.remaining, p.completed, p.jobCount,
        f.tickSeconds])) = some ([1, 2], [120, 90, 270, 0, 3, 120]) := by
    decide +kernel
  simp only [bind, Option.bind_eq_some_iff] at hrun
  obtain ⟨f₀, hf₀, heq⟩ := hrun
  have hf₀' := eq_ok_of_toOption hf₀
  obtain ⟨-, -, -, hspent, -, hcompleted, hrounds⟩ :=
    sync_works_what_it_records {} f₀ hf₀' sharedQueue 120 "web"
  simp only [pure, Option.some.injEq, Prod.mk.injEq, List.cons.injEq, and_true] at heq
  obtain ⟨hids, hfirst, hsecond, hremaining, hnone, hjobs, hseconds⟩ := heq
  rw [hids, hremaining] at hspent
  rw [hnone, hjobs, Nat.zero_add] at hcompleted
  rw [hjobs, hseconds] at hrounds
  exact ⟨f₀, hf₀', hfirst, hsecond, hspent, hcompleted, hrounds⟩

end FleetSizing
