import FleetSizing.Proofs.SimulatedFleet.Accounts
import FleetSizing.Proofs.SimulatedFleet.Requests
import FleetSizing.Proofs.SimulatedFleet.Schedule
import FleetSizing.Proofs.SimulatedFleet.Sessions
/-!
# The order of service

In a simulation the jobs of a kind are begun in the order in which they arrive, and a job
that has been begun is worked until it is completed: the control loop gives up no instance
that has a job in flight.
-/

namespace FleetSizing

def jobSeconds (arrivals : List Arrival) : List Nat :=
  arrivals.flatMap fun a => List.replicate a.count a.seconds

theorem jobSeconds_append (xs ys : List Arrival) :
    jobSeconds (xs ++ ys) = jobSeconds xs ++ jobSeconds ys := List.flatMap_append

namespace Pool

variable {p : Pool} {jobs begun : List Nat} {burned : Nat}

/-- Of the jobs submitted, those `begun` are a first part, of which `burned` seconds have been
worked, and the others wait in full. -/
structure HasServed (p : Pool) (jobs begun : List Nat) (burned : Nat) : Prop where
  jobs_eq : jobs = begun ++ p.backlog
  submitted_eq : p.submitted = begun.length + p.backlog.length
  begun_length : begun.length = p.completed + p.busyCount
  burned_eq : burned + p.inFlight = sumOf id begun

theorem hasServed_empty : ({} : Pool).HasServed [] [] 0 := ⟨rfl, rfl, rfl, rfl⟩

theorem HasServed.of_eq (h : p.HasServed jobs begun burned) {q : Pool}
    (hbacklog : q.backlog = p.backlog) (hsubmitted : q.submitted = p.submitted)
    (hcompleted : q.completed = p.completed) (hbusy : q.busyCount = p.busyCount)
    (hflight : q.inFlight = p.inFlight) : q.HasServed jobs begun burned where
  jobs_eq := by rw [hbacklog, h.jobs_eq]
  submitted_eq := by rw [hsubmitted, hbacklog, h.submitted_eq]
  begun_length := by rw [hcompleted, hbusy, h.begun_length]
  burned_eq := by rw [hflight, h.burned_eq]

/-! ## Arrival, work and requests -/

theorem HasServed.receive (h : p.HasServed jobs begun burned) (arrivals : List Arrival) :
    (p.receive arrivals).HasServed (jobs ++ jobSeconds arrivals) begun burned := by
  induction arrivals generalizing p jobs with
  | nil =>
      rw [jobSeconds, List.flatMap_nil, List.append_nil]
      exact h
  | cons a arrivals ih =>
      have hsubmit : (p.submit a.seconds a.count).HasServed
          (jobs ++ List.replicate a.count a.seconds) begun burned := by
        refine ⟨?_, ?_, h.begun_length, h.burned_eq⟩
        · rw [h.jobs_eq, List.append_assoc]
          rfl
        · have hlength : (p.submit a.seconds a.count).backlog.length =
              p.backlog.length + a.count := by
            simp [submit]
          rw [hlength, ← Nat.add_assoc, ← h.submitted_eq]
          rfl
      have hrest := ih hsubmit
      rw [List.append_assoc] at hrest
      exact hrest

theorem HasServed.work (h : p.HasServed jobs begun burned) {seconds : Nat}
    (hseconds : 0 < seconds) :
    ∃ begun', (p.work seconds).HasServed jobs begun' (burned + p.worked seconds) := by
  obtain ⟨taken, htaken⟩ := backlog_work_suffix hseconds p
  have hjobs := p.completed_add_left_work seconds
  have hleft := p.worked_add_remaining seconds
  have hsubmitted : (p.work seconds).submitted = p.submitted := rfl
  have hlength : p.backlog.length = taken.length + (p.work seconds).backlog.length := by
    rw [← htaken, List.length_append]
  have hsum : sumOf id p.backlog = sumOf id taken + sumOf id (p.work seconds).backlog := by
    rw [← htaken, sumOf_append]
  obtain ⟨hall, hsub, hbegun, hburned⟩ := h
  unfold remaining at hleft
  refine ⟨begun ++ taken, ?_, ?_, ?_, ?_⟩
  · rw [hall, ← htaken, List.append_assoc]
  · rw [hsubmitted, List.length_append]
    omega
  · rw [List.length_append]
    omega
  · rw [sumOf_append]
    omega

theorem HasServed.add (h : p.HasServed jobs begun burned) (id : InstanceId) (capacity : Nat) :
    (p.add id capacity).HasServed jobs begun burned :=
  h.of_eq rfl rfl rfl (p.busyCount_add id capacity) (by simp [inFlight, Pool.add])

/-- Nothing is put back when an idle instance is removed. -/
theorem HasServed.remove (h : p.HasServed jobs begun burned) {id : InstanceId}
    (hidle : ∀ i ∈ p.instances, i.id = id → i.running = none) :
    (p.remove id).HasServed jobs begun burned := by
  have hbacklog : (p.remove id).backlog = p.backlog := by
    unfold Pool.remove
    split
    next => rfl
    next i hi =>
      have hnone := hidle i (List.mem_of_find?_eq_some hi) (by simpa using List.find?_some hi)
      rw [hnone]
      rfl
  have hsum (g : Option Nat → Nat) (hg : g none = 0) :
      sumOf (fun i => g i.running) (p.remove id).instances =
        sumOf (fun i => g i.running) p.instances := by
    rw [instances_remove]
    refine sumOf_filter fun i hi hdropped => ?_
    rw [hidle i hi (by simpa using hdropped), hg]
  refine h.of_eq hbacklog (p.submitted_remove id) (p.completed_remove id) ?_ (hsum (·.getD 0) rfl)
  rw [busyCount_eq_sumOf, busyCount_eq_sumOf]
  exact hsum (·.toList.length) rfl

theorem HasServed.applyAll {actions : List Action} {last : InstanceId} (capacity : Nat)
    (h : p.HasServed jobs begun burned)
    (hidle : ∀ kind id, .destroy kind id ∈ actions →
      ∀ i ∈ p.instances, i.id = id → i.running = none) :
    (Pool.applyAll capacity (p, last) actions).1.HasServed jobs begun burned := by
  induction actions generalizing p last with
  | nil => exact h
  | cons a actions ih =>
      have hrest : ∀ kind id, .destroy kind id ∈ actions →
          ∀ i ∈ p.instances, i.id = id → i.running = none :=
        fun kind id hmem => hidle kind id (List.mem_cons_of_mem _ hmem)
      cases a with
      | create kind =>
          refine ih (h.add (last + 1) capacity) fun kind' id hmem i hi => ?_
          rcases List.mem_append.1 hi with hi | hi
          · exact hrest kind' id hmem i hi
          · intro _
            rw [List.mem_singleton.1 hi]
      | destroy kind id =>
          have hremoved := h.remove (hidle kind id (List.mem_cons_self ..))
          refine ih hremoved fun kind' id' hmem i hi => ?_
          rw [instances_remove] at hi
          exact hrest kind' id' hmem i (List.mem_of_mem_filter hi)

end Pool

namespace SimulatedFleet

variable {f : SimulatedFleet} {all received : List Arrival} {burned : Kind → Nat}

def worked (f : SimulatedFleet) (kind : Kind) : Nat := (f.atWork.poolD kind).worked f.tickSeconds

/-- Of all arrivals, those `received` are a first part, and every pool has served those of
its kind. -/
structure HasServed (f : SimulatedFleet) (all received : List Arrival) (burned : Kind → Nat) :
    Prop where
  sorted : all.Pairwise fun a b => a.tick ≤ b.tick
  all_eq : all = received ++ f.arrivals
  received_le : ∀ a ∈ received, a.tick ≤ f.tick
  pool : ∀ kind, ∃ begun,
    (f.poolD kind).HasServed (jobSeconds (received.filter (·.kind = kind))) begun (burned kind)

theorem HasServed.pairwise_arrivals (h : f.HasServed all received burned) :
    f.arrivals.Pairwise fun a b => a.tick ≤ b.tick := by
  have hsorted := h.sorted
  rw [h.all_eq, List.pairwise_append] at hsorted
  exact hsorted.2.1

theorem HasServed.advance (h : f.HasServed all received burned) :
    f.advance.HasServed all (received ++ f.due) fun kind => burned kind + f.worked kind where
  sorted := h.sorted
  all_eq := by
    rw [(isAbreast_advance f).arrivals, List.append_assoc, due_append_later, h.all_eq]
  received_le := by
    intro a ha
    rw [(isAbreast_advance f).tick]
    rcases List.mem_append.1 ha with ha | ha
    · exact Nat.le_succ_of_le (h.received_le a ha)
    · rw [due_eq_filter h.pairwise_arrivals] at ha
      simpa using (List.mem_filter.1 ha).2
  pool := by
    intro kind
    obtain ⟨begun, hbegun⟩ := h.pool kind
    have hreceived := hbegun.receive (f.due.filter (·.kind = kind))
    rw [← poolD_atWork, ← jobSeconds_append, ← List.filter_append] at hreceived
    rw [poolD_advance]
    exact hreceived.work f.tickSeconds_pos

theorem IsSound.running_of_destroy (hf : f.IsSound) {s : Scaler} {kind kind' : Kind}
    {id : InstanceId} (h : .destroy kind' id ∈ f.requests s kind) :
    ∀ i ∈ (f.advance.poolD kind).instances, i.id = id → i.running = none := by
  rintro i hi rfl
  rcases Config.mem_actions h with heq | ⟨snapshot, hsnapshot, hbusy, heq⟩
  · cases heq
  · have hid := (Action.destroy.inj heq).2
    obtain ⟨j, hj, rfl⟩ := List.mem_map.1 hsnapshot
    -- The instance that was seen idle is the one that is destroyed, as no two share an id.
    have hpool := hf.advance.poolD kind
    have hij : some i = some j := by
      rw [← hpool.find?_eq hi, ← hpool.find?_eq hj, hid]
    obtain rfl := Option.some_inj.1 hij
    simpa [Instance.isBusy] using hbusy

theorem HasServed.tick (hf : f.IsSound) (h : f.HasServed all received burned) (s : Scaler)
    (now : Nat) :
    (s.tick f now).fleet.HasServed all (received ++ f.due) fun kind =>
      burned kind + f.worked kind := by
  have hadvance := h.advance
  have habreast := isAbreast_tick hf s now
  refine ⟨h.sorted, ?_, ?_, fun kind => ?_⟩
  · rw [habreast.arrivals]
    exact hadvance.all_eq
  · rw [habreast.tick]
    exact hadvance.received_le
  · obtain ⟨begun, hbegun⟩ := hadvance.pool kind
    refine ⟨begun, ?_⟩
    by_cases hkind : kind ∈ f.advance.pools.keys
    · obtain ⟨last, -, hpool, -⟩ := exists_poolD_tick hf s now hkind
      rw [hpool]
      exact hbegun.applyAll f.windowTicks fun _ _ hmem => hf.running_of_destroy hmem
    · rwa [poolD_tick_of_not_mem hf hkind]

theorem HasServed.lt_of_mem_arrivals (hf : f.IsSound) (h : f.HasServed all received burned)
    (s : Scaler) (now : Nat) :
    ∀ a ∈ (s.tick f now).fleet.arrivals, (s.tick f now).fleet.tick < a.tick := by
  have habreast := (isAbreast_advance f).trans (isAbreast_tick hf s now)
  intro a ha
  rw [habreast.arrivals] at ha
  change a ∈ f.later at ha
  rw [later_eq_filter h.pairwise_arrivals] at ha
  rw [habreast.tick]
  simpa using (List.mem_filter.1 ha).2

theorem hasServed_load {c : Config} (hf : ofConfig c = .ok f) {t : Trace}
    (ht : t.validate = .ok ()) :
    (f.load t).1.HasServed (schedule (t.jobs.map (·.arrival))) [] fun _ => 0 := by
  obtain ⟨-, -, heq⟩ := ofConfig_eq_ok hf
  have harrivals : f.arrivals = [] := congrArg arrivals heq
  have hloaded := (isAbreast_load ht f).arrivals
  rw [harrivals, List.append_nil] at hloaded
  refine ⟨pairwise_schedule _, hloaded.symm, nofun, fun kind => ⟨[], ?_⟩⟩
  rw [poolD_load, heq]
  exact Pool.hasServed_empty

end SimulatedFleet

namespace Simulation

open SimulatedFleet

def worked (kind : Kind) : (ticks : Nat) → Simulation → Nat
  | 0, _ => 0
  | n + 1, s =>
    s.fleet.worked kind +
      match s.step with
      | .ok s' => worked kind n s'
      | .error _ => 0

theorem worked_succ {s s' : Simulation} (h : s.step = .ok s') (kind : Kind) (n : Nat) :
    s.worked kind (n + 1) = s.fleet.worked kind + s'.worked kind n := by
  rw [worked, h]

theorem exists_hasServed_run {s : Simulation} (hs : s.fleet.IsSound) {all received : List Arrival}
    {burned : Kind → Nat} (h : s.fleet.HasServed all received burned) (n : Nat) :
    ∃ s' received', s.run n = .ok s' ∧
      s'.fleet.HasServed all received' (fun kind => burned kind + s.worked kind n) ∧
      s'.fleet.tick = s.fleet.tick + n ∧
      ((∀ a ∈ s.fleet.arrivals, s.fleet.tick < a.tick) ∨ 1 ≤ n →
        ∀ a ∈ s'.fleet.arrivals, s'.fleet.tick < a.tick) := by
  induction n generalizing s received burned with
  | zero => exact ⟨s, received, rfl, h, rfl, fun hn => hn.resolve_right (Nat.not_succ_le_zero 0)⟩
  | succ n ih =>
      obtain ⟨s₁, hstep, hs₁, -, hfleet⟩ := exists_step hs
      have hadvance := (isAbreast_advance s.fleet).trans (isAbreast_tick hs s.scaler s.now)
      have h₁ := h.tick hs s.scaler s.now
      have hlater₁ := h.lt_of_mem_arrivals hs s.scaler s.now
      rw [← hfleet] at hadvance h₁ hlater₁
      obtain ⟨s', received', hrun, hserved, htick, hlater⟩ := ih hs₁ h₁
      refine ⟨s', received', (run_succ hstep n).trans hrun, ?_, ?_, fun _ => ?_⟩
      · simp only [worked_succ hstep, ← Nat.add_assoc]
        exact hserved
      · rw [htick, hadvance.tick]
        exact Nat.add_right_comm ..
      · exact hlater (Or.inl hlater₁)

end Simulation

/-! ## The queue of a kind -/

/-- The jobs of a kind in the order of their arrival, each with its tick and its seconds. -/
def Trace.queue (t : Trace) (kind : Kind) : List (Nat × Nat) :=
  ((t.jobs.filter (·.kind = kind)).mergeSort fun a b => a.arrivalTick ≤ b.arrivalTick).flatMap
    fun job => List.replicate job.count (job.arrivalTick, job.secondsD)

theorem Trace.queue_eq (t : Trace) (kind : Kind) :
    t.queue kind =
      ((SimulatedFleet.schedule (t.jobs.map (·.arrival))).filter (·.kind = kind)).flatMap
        fun a => List.replicate a.count (a.tick, a.seconds) := by
  rw [SimulatedFleet.filter_schedule, List.filter_map, SimulatedFleet.schedule,
    ← List.map_mergeSort (r := fun a b : JobSpec => decide (a.arrivalTick ≤ b.arrivalTick))
      fun _ _ _ _ => rfl, List.flatMap_map]
  rfl

theorem filter_flatMap_replicate (arrivals : List Arrival) (n : Nat) :
    (arrivals.flatMap fun a => List.replicate a.count (a.tick, a.seconds)).filter (n < ·.1) =
      (arrivals.filter (n < ·.tick)).flatMap
        fun a => List.replicate a.count (a.tick, a.seconds) := by
  induction arrivals with
  | nil => rfl
  | cons a arrivals ih =>
      rw [List.flatMap_cons, List.filter_append, ih, List.filter_replicate]
      by_cases ha : n < a.tick
      · simp [ha]
      · simp [ha]

theorem map_snd_flatMap_replicate (arrivals : List Arrival) :
    (arrivals.flatMap fun a => List.replicate a.count (a.tick, a.seconds)).map (·.2) =
      jobSeconds arrivals := by
  simp [jobSeconds, List.map_flatMap]

/-- After any number of ticks of a simulation, the jobs of a kind in the order of their arrival
are those begun, then those that wait in full, then those that are yet to arrive.  Those
begun are completed or in flight, and what has been worked is what they have lost. -/
theorem served_in_order (c : Config) (t : Trace) (hc : c.validate = .ok ())
    (ht : t.validate = .ok ()) (n : Nat) (hn : 1 ≤ n) :
    ∃ s s', Simulation.new c t = .ok s ∧ s.run n = .ok s' ∧ ∀ kind, ∃ begun,
      let p := s'.fleet.poolD kind
      (t.queue kind).map (·.2) =
        begun ++ p.backlog ++ ((t.queue kind).filter (n < ·.1)).map (·.2) ∧
      p.submitted = begun.length + p.backlog.length ∧
      begun.length = p.completed + p.busyCount ∧
      s.worked kind n + p.inFlight = sumOf id begun := by
  obtain ⟨f, hf, hnew⟩ := Simulation.exists_new_eq hc ht
  let s : Simulation := { scaler := { config := c }, fleet := (f.load t).1 }
  have hs : s.fleet.IsSound := (SimulatedFleet.isSound_ofConfig hf).load t
  have hstart : s.fleet.tick = 0 := by
    rw [(SimulatedFleet.isAbreast_load ht f).tick, (SimulatedFleet.ofConfig_eq_ok hf).2.2]
  obtain ⟨s', received, hrun, hserved, htick, hlater⟩ :=
    s.exists_hasServed_run hs (SimulatedFleet.hasServed_load hf ht) n
  have hreceived : ∀ a ∈ received, a.tick ≤ n := by
    intro a ha
    have hle := hserved.received_le a ha
    omega
  have harrivals : ∀ a ∈ s'.fleet.arrivals, n < a.tick := by
    intro a ha
    have hlt := hlater (Or.inr hn) a ha
    omega
  refine ⟨s, s', hnew, hrun, fun kind => ?_⟩
  obtain ⟨begun, hjobs, hsubmitted, hlength, hburned⟩ := hserved.pool kind
  refine ⟨begun, ?_, hsubmitted, hlength, by rwa [Nat.zero_add] at hburned⟩
  -- The arrivals of the kind are those received, up to the tick, and those still to come.
  have hfuture : ((received ++ s'.fleet.arrivals).filter (·.kind = kind)).filter (n < ·.tick) =
      s'.fleet.arrivals.filter (·.kind = kind) := by
    rw [List.filter_append, List.filter_append, List.filter_eq_nil_iff.2, List.nil_append,
      List.filter_eq_self.2]
    · intro a ha
      simpa using harrivals a (List.mem_of_mem_filter ha)
    · intro a ha
      simpa using hreceived a (List.mem_of_mem_filter ha)
  rw [t.queue_eq, hserved.all_eq, filter_flatMap_replicate, hfuture, map_snd_flatMap_replicate,
    map_snd_flatMap_replicate, List.filter_append, jobSeconds_append, hjobs]

theorem served_in_order_double :
    Config.validate {} = .ok () ∧ pairTrace.validate = .ok () ∧
    ∃ s s', Simulation.new {} pairTrace = .ok s ∧ s.run 2 = .ok s' ∧
      (s'.fleet.poolD "web").backlog = [300] ∧ ∃ begun,
        (pairTrace.queue "web").map (·.2) =
          begun ++ [300] ++ ((pairTrace.queue "web").filter (2 < ·.1)).map (·.2) ∧
        s.worked "web" 2 + 180 = sumOf id begun := by
  have hc : Config.validate {} = .ok () := by decide +kernel
  have ht : pairTrace.validate = .ok () := by decide +kernel
  have hrun : (do
      let s ← (Simulation.new {} pairTrace).toOption
      let s' ← (s.run 2).toOption
      return ((s'.fleet.poolD "web").backlog, (s'.fleet.poolD "web").inFlight)) =
        some ([300], 180) := by
    decide +kernel
  simp only [bind, Option.bind_eq_some_iff] at hrun
  obtain ⟨s, hs, s', hs', heq⟩ := hrun
  obtain ⟨hbacklog, hflight⟩ := Prod.mk.injEq .. ▸ Option.some_inj.1 heq
  obtain ⟨s₁, s₁', h₁, h₁', hall⟩ := served_in_order {} pairTrace hc ht 2 (by decide)
  obtain rfl : s = s₁ := Except.ok.inj ((eq_ok_of_toOption hs).symm.trans h₁)
  obtain rfl : s' = s₁' := Except.ok.inj ((eq_ok_of_toOption hs').symm.trans h₁')
  obtain ⟨begun, hqueue, -, -, hworked⟩ := hall "web"
  rw [hbacklog] at hqueue
  rw [hflight] at hworked
  exact ⟨hc, ht, s, s', h₁, h₁', hbacklog, begun, hqueue, hworked⟩

end FleetSizing
