import FleetSizing.Proofs.SimulatedFleet.Schedule
/-!
# The work that arrives

An entry stands for as many jobs as it counts, so that arrivals come to a list of single jobs.
Of the order of this list the schedule keeps only that of the jobs of one kind that arrive
together.
-/

namespace FleetSizing

def singles (arrivals : List Arrival) : List Arrival :=
  arrivals.flatMap fun a => List.replicate a.count { a with count := 1 }

theorem singles_cons (a : Arrival) (arrivals : List Arrival) :
    singles (a :: arrivals) = List.replicate a.count { a with count := 1 } ++ singles arrivals :=
  List.flatMap_cons

theorem singles_append (arrivals arrivals' : List Arrival) :
    singles (arrivals ++ arrivals') = singles arrivals ++ singles arrivals' :=
  List.flatMap_append

theorem length_singles (arrivals : List Arrival) :
    (singles arrivals).length = sumOf (·.count) arrivals := by
  induction arrivals with
  | nil => rfl
  | cons a arrivals ih =>
      rw [singles_cons, List.length_append, List.length_replicate, ih, sumOf_cons]

theorem singles_filter {p : Arrival → Bool} (hp : ∀ a : Arrival, p { a with count := 1 } = p a)
    (arrivals : List Arrival) : singles (arrivals.filter p) = (singles arrivals).filter p := by
  induction arrivals with
  | nil => rfl
  | cons a arrivals ih =>
      rw [singles_cons, List.filter_append, ← ih]
      cases ha : p a with
      | false =>
          rw [List.filter_cons_of_neg (by simp [ha]), List.filter_replicate,
            if_neg (by simp [hp, ha]), List.nil_append]
      | true =>
          rw [List.filter_cons_of_pos ha, List.filter_replicate, if_pos (by simp [hp, ha]),
            singles_cons]

theorem Pool.receive_eq (p : Pool) (arrivals : List Arrival) :
    p.receive arrivals =
      { p with
        backlog := p.backlog ++ (singles arrivals).map (·.seconds)
        submitted := p.submitted + (singles arrivals).length } := by
  induction arrivals generalizing p with
  | nil => simp [receive, singles]
  | cons a arrivals ih =>
      change (p.submit a.seconds a.count).receive arrivals = _
      rw [ih, singles_cons]
      simp [submit, Nat.add_assoc]

def jobsAt (kind : Kind) (tick : Nat) (arrivals : List Arrival) : List Arrival :=
  singles (arrivals.filter fun a => a.kind = kind ∧ a.tick = tick)

theorem jobsAt_append (kind : Kind) (tick : Nat) (arrivals arrivals' : List Arrival) :
    jobsAt kind tick (arrivals ++ arrivals') =
      jobsAt kind tick arrivals ++ jobsAt kind tick arrivals' := by
  unfold jobsAt
  rw [List.filter_append, singles_append]

theorem jobsAt_singleton (kind : Kind) (tick : Nat) (a : Arrival) :
    jobsAt kind tick [a] =
      if a.kind = kind ∧ a.tick = tick then List.replicate a.count { a with count := 1 }
      else [] := by
  by_cases h : a.kind = kind ∧ a.tick = tick
  · simp [jobsAt, singles, h]
  · simp [jobsAt, singles, h]

theorem jobsAt_schedule (kind : Kind) (tick : Nat) (arrivals : List Arrival) :
    jobsAt kind tick (SimulatedFleet.schedule arrivals) = jobsAt kind tick arrivals := by
  unfold jobsAt
  rw [SimulatedFleet.filter_schedule_of_tick]
  intro a ha
  exact (of_decide_eq_true ha).2

/-- The same jobs of each kind arrive at each tick, in the same order. -/
def SameWork (arrivals arrivals' : List Arrival) : Prop :=
  ∀ kind tick, jobsAt kind tick arrivals = jobsAt kind tick arrivals'

namespace SameWork

theorem swap {a b : Arrival} (h : a.kind ≠ b.kind ∨ a.tick ≠ b.tick) :
    SameWork [a, b] [b, a] := by
  intro kind tick
  show jobsAt kind tick ([a] ++ [b]) = jobsAt kind tick ([b] ++ [a])
  rw [jobsAt_append, jobsAt_append, jobsAt_singleton, jobsAt_singleton]
  by_cases ha : a.kind = kind ∧ a.tick = tick
  · have hb : ¬(b.kind = kind ∧ b.tick = tick) := by
      rintro ⟨hkind, htick⟩
      rcases h with h | h
      · exact h (ha.1.trans hkind.symm)
      · exact h (ha.2.trans htick.symm)
    rw [if_neg hb, List.append_nil, List.nil_append]
  · rw [if_neg ha, List.append_nil, List.nil_append]

theorem split (a : Arrival) (m n : Nat) :
    SameWork [{ a with count := m + n }] [{ a with count := m }, { a with count := n }] := by
  intro kind tick
  show _ = jobsAt kind tick ([{ a with count := m }] ++ [{ a with count := n }])
  rw [jobsAt_append]
  by_cases ha : a.kind = kind ∧ a.tick = tick
  · simp only [jobsAt_singleton, if_pos ha, List.replicate_append_replicate]
  · simp only [jobsAt_singleton, if_neg ha, List.append_nil]

theorem insert {a : Arrival} (h : a.count = 0) : SameWork [] [a] := by
  intro kind tick
  rw [jobsAt_singleton, h, List.replicate_zero, ite_self]
  rfl

variable {arrivals arrivals' : List Arrival}

theorem middle (h : SameWork arrivals arrivals') (before after : List Arrival) :
    SameWork (before ++ (arrivals ++ after)) (before ++ (arrivals' ++ after)) := by
  intro kind tick
  simp only [jobsAt_append, h kind tick]

theorem schedule (h : SameWork arrivals arrivals') :
    SameWork (SimulatedFleet.schedule arrivals) (SimulatedFleet.schedule arrivals') := by
  intro kind tick
  rw [jobsAt_schedule, jobsAt_schedule, h kind tick]

theorem filter_tick (h : SameWork arrivals arrivals') (p : Nat → Bool) :
    SameWork (arrivals.filter (p ·.tick)) (arrivals'.filter (p ·.tick)) := by
  intro kind tick
  have hlocal (arrivals : List Arrival) :
      jobsAt kind tick (arrivals.filter (p ·.tick)) =
        if p tick = true then jobsAt kind tick arrivals else [] := by
    unfold jobsAt
    rw [List.filter_filter]
    by_cases hp : p tick = true
    · rw [if_pos hp]
      congr 1
      apply List.filter_congr
      intro a _
      by_cases ha : a.kind = kind ∧ a.tick = tick
      · simp [ha, hp]
      · simp [ha]
    · rw [if_neg hp, List.filter_eq_nil_iff.2]
      · rfl
      · intro a _ ha
        simp only [Bool.and_eq_true, decide_eq_true_eq] at ha
        exact hp (ha.1.2 ▸ ha.2)
  rw [hlocal, hlocal, h kind tick]

theorem perm (h : SameWork arrivals arrivals') : (singles arrivals).Perm (singles arrivals') := by
  rw [List.perm_iff_count]
  intro x
  have hcount (arrivals : List Arrival) :
      (singles arrivals).count x = (jobsAt x.kind x.tick arrivals).count x := by
    unfold jobsAt
    rw [singles_filter (fun _ => rfl), List.count_filter (by simp)]
  rw [hcount, hcount, h]

theorem sumOf_count (h : SameWork arrivals arrivals') :
    sumOf (·.count) arrivals = sumOf (·.count) arrivals' := by
  rw [← length_singles, ← length_singles]
  exact h.perm.length_eq

end SameWork

def jobsBy (kind : Kind) (tick : Nat) (arrivals : List Arrival) : List Arrival :=
  singles (arrivals.filter fun a => a.kind = kind ∧ a.tick ≤ tick)

theorem jobsBy_succ {arrivals : List Arrival} (h : arrivals.Pairwise fun a b => a.tick ≤ b.tick)
    (kind : Kind) (tick : Nat) :
    jobsBy kind (tick + 1) arrivals =
      jobsBy kind tick arrivals ++ jobsAt kind (tick + 1) arrivals := by
  have hsorted := h.filter fun a => decide (a.kind = kind ∧ a.tick ≤ tick + 1)
  obtain ⟨htake, hdrop⟩ := SimulatedFleet.cut_eq_filter hsorted tick
  have hsplit := List.takeWhile_append_dropWhile (p := fun a : Arrival => a.tick ≤ tick)
    (l := arrivals.filter fun a => a.kind = kind ∧ a.tick ≤ tick + 1)
  unfold jobsBy jobsAt
  rw [← hsplit, singles_append, htake, hdrop, List.filter_filter, List.filter_filter]
  congr 2
  · apply List.filter_congr
    intro a _
    by_cases hkind : a.kind = kind
    · simp only [hkind, true_and, ← Bool.decide_and, decide_eq_decide]
      omega
    · simp [hkind]
  · apply List.filter_congr
    intro a _
    by_cases hkind : a.kind = kind
    · simp only [hkind, true_and, ← Bool.decide_and, decide_eq_decide]
      omega
    · simp [hkind]

theorem SameWork.jobsBy_eq {arrivals arrivals' : List Arrival} (h : SameWork arrivals arrivals')
    (hsorted : arrivals.Pairwise fun a b => a.tick ≤ b.tick)
    (hsorted' : arrivals'.Pairwise fun a b => a.tick ≤ b.tick) (kind : Kind) (tick : Nat) :
    jobsBy kind tick arrivals = jobsBy kind tick arrivals' := by
  induction tick with
  | zero =>
      have hzero (arrivals : List Arrival) : jobsBy kind 0 arrivals = jobsAt kind 0 arrivals := by
        simp only [jobsBy, jobsAt, Nat.le_zero]
      rw [hzero, hzero, h]
  | succ tick ih => rw [jobsBy_succ hsorted, jobsBy_succ hsorted', ih, h]

end FleetSizing
