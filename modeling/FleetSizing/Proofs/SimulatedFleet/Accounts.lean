import FleetSizing.Proofs.SimulatedFleet.Kinds
/-!
# The accounts of a pool

A job that was submitted to a pool is completed, waits or is in flight, and what is left of
it is what has not been worked.  Work moves jobs from the front of the backlog into flight
and on; a removed instance hands its job back.
-/

namespace FleetSizing

theorem completed_add_left_serve (budget : Nat) (jobs : List Nat) :
    (serve budget jobs).1.completed + (serve budget jobs).1.running.toList.length
      + (serve budget jobs).2.length = jobs.length := by
  fun_induction serve budget jobs with
  | case1 budget => rfl
  | case2 job jobs => simp
  | case3 budget job jobs hbudget hjob => simp [Nat.add_comm]
  | case4 budget job jobs hbudget hjob turn left heq ih =>
      rw [heq] at ih
      simp only [List.length_cons] at ih ⊢
      omega

theorem left_serve_suffix (budget : Nat) (jobs : List Nat) : (serve budget jobs).2 <:+ jobs := by
  fun_induction serve budget jobs with
  | case1 budget => exact List.suffix_rfl
  | case2 job jobs => exact List.suffix_rfl
  | case3 budget job jobs hbudget hjob => exact List.suffix_cons ..
  | case4 budget job jobs hbudget hjob turn left heq ih =>
      rw [heq] at ih
      exact ih.trans (List.suffix_cons ..)

theorem left_turn_suffix {seconds : Nat} (hseconds : 0 < seconds) (i : Instance)
    (backlog : List Nat) : (i.turn seconds backlog).2 <:+ backlog := by
  unfold Instance.turn
  cases i.running with
  | none => exact left_serve_suffix ..
  | some job =>
      change (serve seconds (job :: backlog)).2 <:+ backlog
      unfold serve
      rw [if_neg (Nat.pos_iff_ne_zero.1 hseconds)]
      split
      · exact List.suffix_rfl
      · exact left_serve_suffix ..

theorem left_turns_suffix {seconds : Nat} (hseconds : 0 < seconds) (instances : List Instance)
    (backlog : List Nat) : (turns seconds instances backlog).2 <:+ backlog := by
  induction instances generalizing backlog with
  | nil => exact List.suffix_rfl
  | cons i instances ih => exact (ih _).trans (left_turn_suffix hseconds i backlog)

theorem completed_add_left_turns (seconds : Nat) (instances : List Instance)
    (backlog : List Nat) :
    sumOf (·.completed) (turns seconds instances backlog).1
        + sumOf (·.running.toList.length) (turns seconds instances backlog).1
        + (turns seconds instances backlog).2.length
      = sumOf (·.running.toList.length) instances + backlog.length := by
  induction instances generalizing backlog with
  | nil => simp [turns]
  | cons i instances ih =>
      have hturn := completed_add_left_serve seconds (i.running.toList ++ backlog)
      have hrest := ih (i.turn seconds backlog).2
      rw [List.length_append] at hturn
      change (i.turn seconds backlog).1.completed + (i.turn seconds backlog).1.running.toList.length
        + (i.turn seconds backlog).2.length = _ at hturn
      simp only [turns, sumOf_cons]
      omega

theorem sumOf_id_toList (running : Option Nat) : sumOf id running.toList = running.getD 0 := by
  cases running <;> simp

theorem used_add_left_turns (seconds : Nat) (instances : List Instance) (backlog : List Nat) :
    sumOf (·.used) (turns seconds instances backlog).1
        + sumOf (·.running.getD 0) (turns seconds instances backlog).1
        + sumOf id (turns seconds instances backlog).2
      = sumOf (·.running.getD 0) instances + sumOf id backlog := by
  induction instances generalizing backlog with
  | nil => simp [turns]
  | cons i instances ih =>
      have hturn := used_add_left_serve seconds (i.running.toList ++ backlog)
      have hrest := ih (i.turn seconds backlog).2
      rw [sumOf_append, sumOf_id_toList] at hturn
      change (i.turn seconds backlog).1.used + (i.turn seconds backlog).1.running.getD 0
        + sumOf id (i.turn seconds backlog).2 = _ at hturn
      simp only [turns, sumOf_cons]
      omega

namespace Pool

variable {p : Pool}

def inFlight (p : Pool) : Nat := sumOf (·.running.getD 0) p.instances

def remaining (p : Pool) : Nat := p.inFlight + sumOf id p.backlog

def worked (p : Pool) (seconds : Nat) : Nat :=
  sumOf (·.used) (turns seconds p.instances p.backlog).1

/-- Every job that was submitted is completed, waits or is in flight. -/
def IsBalanced (p : Pool) : Prop := p.submitted = p.completed + p.backlog.length + p.busyCount

theorem busyCount_eq_sumOf (p : Pool) :
    p.busyCount = sumOf (·.running.toList.length) p.instances := by
  unfold busyCount
  induction p.instances with
  | nil => rfl
  | cons i instances ih =>
      rw [List.countP_cons, sumOf_cons, ih, Instance.isBusy]
      cases i.running <;> simp [Nat.add_comm]

theorem sumOf_instances_work (p : Pool) (seconds : Nat) (g : Option Nat → Nat) :
    sumOf (fun i => g i.running) (p.work seconds).instances =
      sumOf (fun t => g t.running) (turns seconds p.instances p.backlog).1 := by
  have hsnd : (p.workload seconds).map (·.2) = (turns seconds p.instances p.backlog).1 :=
    List.map_snd_zip (length_turns ..).le
  rw [instances_work, ← hsnd, sumOf_map, sumOf_map]
  rfl

theorem completed_add_left_work (p : Pool) (seconds : Nat) :
    (p.work seconds).completed + (p.work seconds).busyCount + (p.work seconds).backlog.length
      = p.completed + p.busyCount + p.backlog.length := by
  have hjobs := completed_add_left_turns seconds p.instances p.backlog
  have hbusy := p.sumOf_instances_work seconds (·.toList.length)
  simp only [busyCount_eq_sumOf]
  rw [hbusy]
  simp only [work]
  omega

theorem worked_add_remaining (p : Pool) (seconds : Nat) :
    p.worked seconds + (p.work seconds).remaining = p.remaining := by
  have hseconds := used_add_left_turns seconds p.instances p.backlog
  have hflight := p.sumOf_instances_work seconds (·.getD 0)
  unfold remaining inFlight worked
  rw [hflight]
  simp only [work]
  exact (Nat.add_assoc ..).symm.trans hseconds

theorem backlog_work_suffix {seconds : Nat} (hseconds : 0 < seconds) (p : Pool) :
    (p.work seconds).backlog <:+ p.backlog :=
  left_turns_suffix hseconds ..

theorem exists_remove (hp : p.ids.Nodup) {id : InstanceId} {i : Instance}
    (h : p.find? id = some i) :
    ∃ before after, p.instances = before ++ i :: after ∧
      (p.remove id).instances = before ++ after ∧
      (p.remove id).backlog = i.running.toList ++ p.backlog := by
  obtain ⟨hid, before, after, heq, -⟩ := List.find?_eq_some_iff_append.1 h
  obtain rfl : i.id = id := by simpa using hid
  refine ⟨before, after, heq, ?_, by rw [remove, h]⟩
  rw [ids, heq, List.map_append, List.map_cons, List.nodup_append, List.nodup_cons] at hp
  obtain ⟨-, ⟨hafter, -⟩, hbefore⟩ := hp
  rw [instances_remove, heq, List.filter_append, List.filter_cons_of_neg (by simp)]
  congr 1
  · refine List.filter_eq_self.2 fun j hj => ?_
    simpa using hbefore j.id (List.mem_map_of_mem hj) i.id (List.mem_cons_self ..)
  · refine List.filter_eq_self.2 fun j hj => ?_
    have hne : j.id ≠ i.id := fun heq => hafter (heq ▸ List.mem_map_of_mem hj)
    simpa using hne

theorem remove_cases (p : Pool) (id : InstanceId) :
    p.remove id = p ∨ ∃ i, p.find? id = some i := by
  unfold remove
  cases p.find? id with
  | none => exact Or.inl rfl
  | some i => exact Or.inr ⟨i, rfl⟩

theorem submitted_remove (p : Pool) (id : InstanceId) :
    (p.remove id).submitted = p.submitted := by
  unfold remove
  split <;> rfl

theorem completed_remove (p : Pool) (id : InstanceId) :
    (p.remove id).completed = p.completed := by
  unfold remove
  split <;> rfl

theorem created_remove (p : Pool) (id : InstanceId) : (p.remove id).created = p.created := by
  unfold remove
  split <;> rfl

theorem submitted_receive (p : Pool) (arrivals : List Arrival) :
    (p.receive arrivals).submitted = p.submitted + sumOf (·.count) arrivals :=
  sumOf_foldl (fun _ _ => rfl) p arrivals

theorem busyCount_add_backlog_remove (hp : p.ids.Nodup) (id : InstanceId) :
    (p.remove id).busyCount + (p.remove id).backlog.length =
      p.busyCount + p.backlog.length := by
  rcases p.remove_cases id with heq | ⟨i, hi⟩
  · rw [heq]
  · obtain ⟨before, after, hinstances, hremoved, hbacklog⟩ := exists_remove hp hi
    simp only [busyCount_eq_sumOf, hinstances, hremoved, hbacklog, sumOf_append, sumOf_cons,
      List.length_append]
    omega

theorem remaining_remove (hp : p.ids.Nodup) (id : InstanceId) :
    (p.remove id).remaining = p.remaining := by
  rcases p.remove_cases id with heq | ⟨i, hi⟩
  · rw [heq]
  · obtain ⟨before, after, hinstances, hremoved, hbacklog⟩ := exists_remove hp hi
    simp only [remaining, inFlight, hinstances, hremoved, hbacklog, sumOf_append, sumOf_cons,
      sumOf_id_toList]
    omega

theorem remaining_add (p : Pool) (id : InstanceId) (capacity : Nat) :
    (p.add id capacity).remaining = p.remaining := by
  simp [remaining, inFlight, add]

theorem busyCount_add (p : Pool) (id : InstanceId) (capacity : Nat) :
    (p.add id capacity).busyCount = p.busyCount := by
  simp [busyCount, add, Instance.isBusy]

theorem isBalanced_empty : ({} : Pool).IsBalanced := rfl

theorem IsBalanced.add (hp : p.IsBalanced) (id : InstanceId) (capacity : Nat) :
    (p.add id capacity).IsBalanced := by
  unfold IsBalanced at hp ⊢
  rw [busyCount_add]
  exact hp

theorem IsBalanced.remove (hp : p.IsBalanced) (hnodup : p.ids.Nodup) (id : InstanceId) :
    (p.remove id).IsBalanced := by
  have hjobs := busyCount_add_backlog_remove hnodup id
  unfold IsBalanced at hp ⊢
  rw [submitted_remove, completed_remove]
  omega

theorem IsBalanced.submit (hp : p.IsBalanced) (seconds count : Nat) :
    (p.submit seconds count).IsBalanced := by
  unfold IsBalanced at hp ⊢
  change p.submitted + count = p.completed + (p.backlog ++ List.replicate count seconds).length
    + p.busyCount
  rw [List.length_append, List.length_replicate]
  omega

theorem IsBalanced.work (hp : p.IsBalanced) (seconds : Nat) : (p.work seconds).IsBalanced := by
  have hjobs := p.completed_add_left_work seconds
  unfold IsBalanced at hp ⊢
  change p.submitted = _
  omega

end Pool

end FleetSizing
