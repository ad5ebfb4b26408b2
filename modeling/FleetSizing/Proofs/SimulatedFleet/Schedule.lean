import FleetSizing.Proofs.SimulatedFleet.Kinds
import Mathlib.Data.List.Sort
/-!
# The schedule of arrivals

A valid trace gives one arrival for each of its entries.  The schedule sorts arrivals by
their ticks and keeps the order of those of the same tick, so that the schedule of some of
them is what it is in the schedule of all.
-/

namespace FleetSizing

/-- The seconds of a job, zero for a defective one. -/
def JobSpec.secondsD (job : JobSpec) : Nat := job.seconds.toOption.getD 0

def JobSpec.arrival (job : JobSpec) : Arrival where
  kind := job.kind
  tick := job.arrivalTick
  seconds := job.secondsD
  count := job.count

namespace Trace

variable {t : Trace}

theorem secondsFrom_cons (index : Nat) (job : JobSpec) (jobs : List JobSpec) :
    secondsFrom index (job :: jobs) =
      match job.seconds with
      | .error defect => .error (.invalidJob index defect)
      | .ok n => (secondsFrom (index + 1) jobs).map (n :: ·) := by
  rw [secondsFrom]
  cases job.seconds with
  | error defect => rfl
  | ok n => rfl

theorem secondsFrom_eq_ok {jobs : List JobSpec} (h : ∀ job ∈ jobs, job.seconds.isOk = true)
    (index : Nat) : secondsFrom index jobs = .ok (jobs.map (·.secondsD)) := by
  induction jobs generalizing index with
  | nil => rfl
  | cons job jobs ih =>
      obtain ⟨hjob, hjobs⟩ := List.forall_mem_cons.1 h
      rw [secondsFrom_cons]
      cases hn : job.seconds with
      | error defect =>
          rw [hn] at hjob
          cases hjob
      | ok n =>
          have hD : job.secondsD = n := by
            rw [JobSpec.secondsD, hn]
            rfl
          dsimp only
          rw [ih hjobs, List.map_cons, hD]
          rfl

theorem isOk_of_secondsFrom {jobs : List JobSpec} {index : Nat} {seconds : List Nat}
    (h : secondsFrom index jobs = .ok seconds) : ∀ job ∈ jobs, job.seconds.isOk = true := by
  induction jobs generalizing index seconds with
  | nil => exact fun job hjob => nomatch hjob
  | cons job jobs ih =>
      rw [secondsFrom_cons] at h
      cases hn : job.seconds with
      | error defect =>
          rw [hn] at h
          cases h
      | ok n =>
          rw [hn] at h
          cases hrest : secondsFrom (index + 1) jobs with
          | error e =>
              rw [hrest] at h
              cases h
          | ok rest =>
              refine List.forall_mem_cons.2 ⟨?_, ih hrest⟩
              rw [hn]
              rfl

theorem validate_eq_ok_iff : t.validate = .ok () ↔ ∀ job ∈ t.jobs, job.seconds.isOk = true := by
  unfold validate
  cases h : secondsFrom 0 t.jobs with
  | error e =>
      refine iff_of_false nofun fun hall => ?_
      rw [secondsFrom_eq_ok hall] at h
      cases h
  | ok seconds => exact iff_of_true rfl (isOk_of_secondsFrom h)

theorem arrivals_of_validate (h : t.validate = .ok ()) :
    t.arrivals = .ok (t.jobs.map (·.arrival)) := by
  unfold arrivals
  rw [secondsFrom_eq_ok (validate_eq_ok_iff.1 h)]
  refine congrArg Except.ok ?_
  rw [List.zipWith_map_right, List.zipWith_self]
  rfl

theorem arrivals_of_not_validate (h : t.validate ≠ .ok ()) : ∃ e, t.arrivals = .error e := by
  unfold arrivals
  cases hseconds : secondsFrom 0 t.jobs with
  | error e => exact ⟨e, rfl⟩
  | ok seconds => exact absurd (validate_eq_ok_iff.2 (isOk_of_secondsFrom hseconds)) h

end Trace

namespace SimulatedFleet

/-! ## Sorting by ticks -/

theorem pairwise_schedule (arrivals : List Arrival) :
    (schedule arrivals).Pairwise fun a b => a.tick ≤ b.tick := by
  have h : (schedule arrivals).Pairwise fun a b => decide (a.tick ≤ b.tick) = true :=
    List.pairwise_mergeSort (fun a b c => by simpa using Nat.le_trans)
      (fun a b => by simpa using Nat.le_total ..) arrivals
  simpa using h

theorem schedule_perm (arrivals : List Arrival) : (schedule arrivals).Perm arrivals :=
  List.mergeSort_perm ..

theorem exists_schedule_cons (a : Arrival) (arrivals : List Arrival) :
    ∃ before after, schedule (a :: arrivals) = before ++ a :: after ∧
      schedule arrivals = before ++ after ∧ (∀ b ∈ before, b.tick < a.tick) ∧
      ∀ b ∈ after, a.tick ≤ b.tick := by
  obtain ⟨before, after, hcons, hrest, hbefore⟩ :
      ∃ before after, schedule (a :: arrivals) = before ++ a :: after ∧
        schedule arrivals = before ++ after ∧
        ∀ b ∈ before, (!decide (a.tick ≤ b.tick)) = true :=
    List.mergeSort_cons (fun a b c => by simpa using Nat.le_trans)
      (fun a b => by simpa using Nat.le_total ..) a arrivals
  have hsorted := pairwise_schedule (a :: arrivals)
  rw [hcons, List.pairwise_append, List.pairwise_cons] at hsorted
  exact ⟨before, after, hcons, hrest, fun b hb => by simpa using hbefore b hb, hsorted.2.1.1⟩

theorem filter_lt_append {tick : Nat} {before after : List Arrival}
    (hbefore : ∀ b ∈ before, b.tick < tick) (hafter : ∀ b ∈ after, tick ≤ b.tick) :
    (before ++ after).filter (·.tick < tick) = before := by
  rw [List.filter_append, List.filter_eq_self.2 (by simpa using hbefore),
    List.filter_eq_nil_iff.2 (by simpa using hafter), List.append_nil]

theorem filter_schedule (arrivals : List Arrival) (p : Arrival → Bool) :
    (schedule arrivals).filter p = schedule (arrivals.filter p) := by
  induction arrivals with
  | nil => simp [schedule]
  | cons a arrivals ih =>
      obtain ⟨before, after, hcons, hrest, hbefore, hafter⟩ := exists_schedule_cons a arrivals
      rw [hrest, List.filter_append] at ih
      cases hp : p a with
      | false => rw [hcons, List.filter_append, List.filter_cons_of_neg (by simp [hp]), ih,
          List.filter_cons_of_neg (by simp [hp])]
      | true =>
          obtain ⟨before', after', hcons', hrest', hbefore', hafter'⟩ :=
            exists_schedule_cons a (arrivals.filter p)
          rw [hrest'] at ih
          -- Both sides are cut where the arrivals that come earlier end.
          have heq : before.filter p = before' := by
            rw [← filter_lt_append hbefore' hafter', ← ih]
            exact (filter_lt_append (fun b hb => hbefore b (List.mem_of_mem_filter hb))
              fun b hb => hafter b (List.mem_of_mem_filter hb)).symm
          rw [heq, List.append_cancel_left_eq] at ih
          rw [hcons, List.filter_append, List.filter_cons_of_pos hp, heq, ih,
            List.filter_cons_of_pos hp, hcons']

theorem filter_schedule_of_tick {arrivals : List Arrival} {p : Arrival → Bool} {tick : Nat}
    (h : ∀ a, p a = true → a.tick = tick) :
    (schedule arrivals).filter p = arrivals.filter p := by
  rw [filter_schedule]
  apply List.mergeSort_of_pairwise
  apply List.pairwise_of_forall_mem_list
  intro a ha b hb
  have hatick := h a (List.mem_filter.1 ha).2
  have hbtick := h b (List.mem_filter.1 hb).2
  simp [hatick, hbtick]

/-- Sorted arrivals are told by what arrives at each tick. -/
theorem eq_of_filter_tick {arrivals arrivals' : List Arrival}
    (hsorted : arrivals.Pairwise fun a b => a.tick ≤ b.tick)
    (hsorted' : arrivals'.Pairwise fun a b => a.tick ≤ b.tick)
    (h : ∀ tick, arrivals.filter (·.tick = tick) = arrivals'.filter (·.tick = tick)) :
    arrivals = arrivals' := by
  induction arrivals generalizing arrivals' with
  | nil =>
      cases arrivals' with
      | nil => rfl
      | cons b arrivals' => simpa using h b.tick
  | cons a arrivals ih =>
      cases arrivals' with
      | nil => simpa using h a.tick
      | cons b arrivals' =>
          obtain ⟨ha, hrest⟩ := List.pairwise_cons.1 hsorted
          obtain ⟨hb, hrest'⟩ := List.pairwise_cons.1 hsorted'
          -- Each of the first two is among the arrivals of the other side.
          have hmem : a ∈ b :: arrivals' := by
            apply List.mem_of_mem_filter (p := (·.tick = a.tick))
            rw [← h a.tick]
            simp
          have hmem' : b ∈ a :: arrivals := by
            apply List.mem_of_mem_filter (p := (·.tick = b.tick))
            rw [h b.tick]
            simp
          have htick : a.tick = b.tick := by
            apply Nat.le_antisymm
            · rcases List.mem_cons.1 hmem' with heq | hmem'
              · rw [heq]
              · exact ha b hmem'
            · rcases List.mem_cons.1 hmem with heq | hmem
              · rw [heq]
              · exact hb a hmem
          have hfirst := h a.tick
          rw [List.filter_cons_of_pos (by simp),
            List.filter_cons_of_pos (by simp [htick])] at hfirst
          obtain ⟨rfl, -⟩ := List.cons.inj hfirst
          refine congrArg (a :: ·) (ih hrest hrest' fun tick => ?_)
          have hat := h tick
          by_cases hsame : a.tick = tick
          · rw [List.filter_cons_of_pos (by simpa using hsame),
              List.filter_cons_of_pos (by simpa using hsame)] at hat
            exact (List.cons.inj hat).2
          · rwa [List.filter_cons_of_neg (by simpa using hsame),
              List.filter_cons_of_neg (by simpa using hsame)] at hat

theorem schedule_eq_iff {arrivals arrivals' : List Arrival} :
    schedule arrivals = schedule arrivals' ↔
      ∀ tick, arrivals.filter (·.tick = tick) = arrivals'.filter (·.tick = tick) := by
  have hfilter (arrivals : List Arrival) (tick : Nat) :
      (schedule arrivals).filter (·.tick = tick) = arrivals.filter (·.tick = tick) :=
    filter_schedule_of_tick fun a ha => of_decide_eq_true ha
  constructor
  · intro h tick
    rw [← hfilter, h, hfilter]
  · intro h
    apply eq_of_filter_tick (pairwise_schedule _) (pairwise_schedule _)
    intro tick
    rw [hfilter, hfilter, h]

theorem schedule_append_schedule (arrivals arrivals' : List Arrival) :
    schedule (arrivals ++ schedule arrivals') = schedule (arrivals ++ arrivals') := by
  rw [schedule_eq_iff]
  intro tick
  rw [List.filter_append, List.filter_append,
    filter_schedule_of_tick fun a ha => of_decide_eq_true ha]

/-! ## Loading a trace -/

variable {f : SimulatedFleet} {t : Trace}

theorem load_of_validate (h : t.validate = .ok ()) (f : SimulatedFleet) :
    f.load t =
      ({ t.allKinds.foldl register f with
          arrivals := schedule (t.jobs.map (·.arrival) ++ (t.allKinds.foldl register f).arrivals) },
        .ok ()) := by
  rw [load, Trace.arrivals_of_validate h]

theorem load_of_not_validate (h : t.validate ≠ .ok ()) (f : SimulatedFleet) :
    ∃ e, f.load t = (t.allKinds.foldl register f, .error e) := by
  obtain ⟨e, he⟩ := Trace.arrivals_of_not_validate h
  refine ⟨e, ?_⟩
  rw [load, he]

theorem isAbreast_load (h : t.validate = .ok ()) (f : SimulatedFleet) :
    IsAbreast { f with arrivals := schedule (t.jobs.map (·.arrival) ++ f.arrivals) }
      (f.load t).1 := by
  have habreast := isAbreast_foldl_register f t.allKinds
  rw [load_of_validate h, habreast.arrivals]
  exact ⟨habreast.tickSeconds, habreast.windowTicks, rfl, habreast.tick⟩

theorem cut_eq_filter {arrivals : List Arrival}
    (h : arrivals.Pairwise fun a b => a.tick ≤ b.tick) (tick : Nat) :
    (arrivals.takeWhile fun a => a.tick ≤ tick) = arrivals.filter (·.tick ≤ tick) ∧
      (arrivals.dropWhile fun a => a.tick ≤ tick) = arrivals.filter (tick < ·.tick) := by
  induction arrivals with
  | nil => exact ⟨rfl, rfl⟩
  | cons a arrivals ih =>
      obtain ⟨ha, hrest⟩ := List.pairwise_cons.1 h
      obtain ⟨htake, hdrop⟩ := ih hrest
      by_cases htick : a.tick ≤ tick
      · simp [htick, htake, hdrop]
      · have hlater : ∀ b ∈ arrivals, tick < b.tick := by
          intro b hb
          have hab := ha b hb
          omega
        have hnone : arrivals.filter (·.tick ≤ tick) = [] := by simpa using hlater
        have hall : arrivals.filter (tick < ·.tick) = arrivals := by simpa using hlater
        simp [htick, hnone, hall, Nat.lt_of_not_le htick]

theorem due_eq_filter (h : f.arrivals.Pairwise fun a b => a.tick ≤ b.tick) :
    f.due = f.arrivals.filter (·.tick ≤ f.tick + 1) :=
  (cut_eq_filter h _).1

theorem later_eq_filter (h : f.arrivals.Pairwise fun a b => a.tick ≤ b.tick) :
    f.later = f.arrivals.filter (f.tick + 1 < ·.tick) :=
  (cut_eq_filter h _).2

end SimulatedFleet

end FleetSizing
