import FleetSizing.Proofs.SimulatedFleet.Rewording
/-!
# Traces loaded one after the other

Two traces that are loaded one after the other come to a single one, in which the jobs of the
later trace stand in front.  At a tick for which both have jobs, those loaded later arrive
first.
-/

namespace FleetSizing

namespace Trace

instance : Append Trace where
  append t t' := ⟨t.jobs ++ t'.jobs, t.kinds ++ t'.kinds⟩

variable {t t' : Trace}

theorem work_append (t t' : Trace) : (t ++ t').work = t.work ++ t'.work := List.map_append

theorem validate_append (h : t.validate = .ok ()) (h' : t'.validate = .ok ()) :
    (t ++ t').validate = .ok () := by
  rw [validate_eq_ok_iff] at h h' ⊢
  intro job hjob
  rcases List.mem_append.1 hjob with hjob | hjob
  · exact h job hjob
  · exact h' job hjob

theorem mem_allKinds_append {kind : Kind} :
    kind ∈ (t ++ t').allKinds ↔ kind ∈ t.allKinds ∨ kind ∈ t'.allKinds := by
  have hkinds : (t ++ t').kinds = t.kinds ++ t'.kinds := rfl
  have hjobs : (t ++ t').jobs = t.jobs ++ t'.jobs := rfl
  rw [mem_allKinds_iff, mem_allKinds_iff, mem_allKinds_iff, hkinds, hjobs, List.map_append,
    List.mem_append, List.mem_append]
  exact or_or_or_comm

def workAt (t : Trace) (tick : Nat) : List Arrival := t.work.filter (·.tick = tick)

end Trace

namespace SimulatedFleet

variable {f g : SimulatedFleet} {t t' : Trace}

theorem IsAbreast.eq (h : f.IsAbreast g) (hlast : g.lastId = f.lastId)
    (hpools : g.pools = f.pools) : g = f := by
  obtain ⟨htick, hwindow, harrivals, hnow⟩ := h
  cases f
  cases g
  simp_all

theorem arrivals_load (h : t.validate = .ok ()) (f : SimulatedFleet) :
    (f.load t).1.arrivals = schedule (t.work ++ f.arrivals) :=
  (isAbreast_load h f).arrivals

theorem arrivals_load_load (h : t.validate = .ok ()) (h' : t'.validate = .ok ())
    (f : SimulatedFleet) :
    ((f.load t).1.load t').1.arrivals = schedule ((t' ++ t).work ++ f.arrivals) := by
  rw [arrivals_load h', arrivals_load h, schedule_append_schedule, Trace.work_append,
    List.append_assoc]

theorem pools_load_load (f : SimulatedFleet) {u : Trace}
    (hkinds : ∀ kind, kind ∈ u.allKinds ↔ kind ∈ t.allKinds ∨ kind ∈ t'.allKinds) :
    ((f.load t).1.load t').1.pools = (f.load u).1.pools := by
  apply pools_eq
  · intro kind
    rw [mem_keys_load_iff, mem_keys_load_iff, mem_keys_load_iff, hkinds, or_assoc]
  · intro kind
    rw [poolD_load, poolD_load, poolD_load]

/-- Two loads come to the load of another trace of the same kinds if they leave the same
schedule. -/
theorem load_load_eq_iff (h : t.validate = .ok ()) (h' : t'.validate = .ok ())
    (f : SimulatedFleet) {u : Trace} (hu : u.validate = .ok ())
    (hkinds : ∀ kind, kind ∈ u.allKinds ↔ kind ∈ t.allKinds ∨ kind ∈ t'.allKinds) :
    (f.load t).1.load t' = f.load u ↔
      schedule ((t' ++ t).work ++ f.arrivals) = schedule (u.work ++ f.arrivals) := by
  rw [← arrivals_load_load h h' f, ← arrivals_load hu f]
  constructor
  · intro heq
    rw [heq]
  · intro harrivals
    have hfirst := isAbreast_load h f
    have hsecond := isAbreast_load h' (f.load t).1
    have hall := isAbreast_load hu f
    have habreast : (f.load u).1.IsAbreast ((f.load t).1.load t').1 :=
      ⟨(hsecond.tickSeconds.trans hfirst.tickSeconds).trans hall.tickSeconds.symm,
        (hsecond.windowTicks.trans hfirst.windowTicks).trans hall.windowTicks.symm,
        harrivals, (hsecond.tick.trans hfirst.tick).trans hall.tick.symm⟩
    apply Prod.ext
    · apply habreast.eq
      · rw [lastId_load, lastId_load, lastId_load]
      · exact pools_load_load f hkinds
    · rw [load_ok h', load_ok hu]

theorem filter_tick_load_load (h : t.validate = .ok ()) (h' : t'.validate = .ok ())
    (f : SimulatedFleet) (tick : Nat) :
    ((f.load t).1.load t').1.arrivals.filter (·.tick = tick) =
      t'.workAt tick ++ (t.workAt tick ++ f.arrivals.filter (·.tick = tick)) := by
  rw [arrivals_load_load h h', filter_schedule_of_tick fun a ha => of_decide_eq_true ha,
    Trace.work_append, List.filter_append, List.filter_append, List.append_assoc]
  rfl

/-- A trace that is loaded after another one goes in front of it: the two come to a single
trace that begins with the later one.  At each tick its jobs arrive before those that were
loaded earlier.  The other order of the two leaves the same schedule exactly if, tick by
tick, their jobs commute, and the same work for each kind exactly if those of this kind do. -/
theorem later_load_goes_first (f : SimulatedFleet) (t t' : Trace) (h : t.validate = .ok ())
    (h' : t'.validate = .ok ()) :
    let g := ((f.load t).1.load t').1
    (f.load t).2 = .ok () ∧ (f.load (t ++ t')).2 = .ok () ∧
    (f.load t).1.load t' = f.load (t' ++ t) ∧
    (g.arrivals.Pairwise fun a b => a.tick ≤ b.tick) ∧
    (∀ tick, g.arrivals.filter (·.tick = tick) =
      t'.workAt tick ++ (t.workAt tick ++ f.arrivals.filter (·.tick = tick))) ∧
    ((f.load t).1.load t' = f.load (t ++ t') ↔
      ∀ tick, t'.workAt tick ++ t.workAt tick = t.workAt tick ++ t'.workAt tick) ∧
    (SameWork g.arrivals (f.load (t ++ t')).1.arrivals ↔
      ∀ kind tick, jobsAt kind tick t'.work ++ jobsAt kind tick t.work =
        jobsAt kind tick t.work ++ jobsAt kind tick t'.work) := by
  intro g
  have hboth := Trace.validate_append h h'
  refine ⟨load_ok h f, load_ok hboth f, ?_, ?_, filter_tick_load_load h h' f, ?_, ?_⟩
  · rw [load_load_eq_iff h h' f (Trace.validate_append h' h)]
    intro kind
    rw [Trace.mem_allKinds_append, or_comm]
  · rw [arrivals_load_load h h']
    exact pairwise_schedule _
  · rw [load_load_eq_iff h h' f hboth fun kind => Trace.mem_allKinds_append, schedule_eq_iff]
    apply forall_congr'
    intro tick
    simp only [List.filter_append, Trace.work_append, List.append_cancel_right_eq]
    rfl
  · rw [arrivals_load_load h h', arrivals_load hboth]
    apply forall_congr'
    intro kind
    apply forall_congr'
    intro tick
    simp only [jobsAt_schedule, jobsAt_append, Trace.work_append, List.append_cancel_right_eq]

def unloaded : SimulatedFleet where
  tickSeconds := 120
  tickSeconds_pos := by decide
  windowTicks := 30

def minuteTrace : Trace := { jobs := [⟨"web", 1, "1m", 1⟩] }

def twoMinuteTrace : Trace := { jobs := [⟨"web", 1, "2m", 1⟩] }

theorem later_load_goes_first_web :
    minuteTrace.validate = .ok () ∧ twoMinuteTrace.validate = .ok () ∧
    (unloaded.load minuteTrace).1.load twoMinuteTrace =
      unloaded.load (twoMinuteTrace ++ minuteTrace) ∧
    ((unloaded.load minuteTrace).1.load twoMinuteTrace).1.arrivals.filter (·.tick = 1) =
      [⟨"web", 1, 120, 1⟩, ⟨"web", 1, 60, 1⟩] := by
  have h : minuteTrace.validate = .ok () := by decide +kernel
  have h' : twoMinuteTrace.validate = .ok () := by decide +kernel
  obtain ⟨-, -, heq, -, hfilter, -⟩ := later_load_goes_first unloaded _ _ h h'
  refine ⟨h, h', heq, (hfilter 1).trans ?_⟩
  decide +kernel

/-- In a fleet that has loaded two traces, a job of the second one can stand in front of a job
of the first one that arrives together with it. -/
theorem earlier_load_overtaken :
    ¬ ∀ (f : SimulatedFleet) (t t' : Trace), t.validate = .ok () → t'.validate = .ok () →
      (f.load t).1.load t' = f.load (t ++ t') := by
  intro h
  have hfirst : minuteTrace.validate = .ok () := by decide +kernel
  have hsecond : twoMinuteTrace.validate = .ok () := by decide +kernel
  have hsame := h unloaded minuteTrace twoMinuteTrace hfirst hsecond
  rw [load_load_eq_iff hfirst hsecond unloaded (Trace.validate_append hfirst hsecond)
    fun _ => Trace.mem_allKinds_append, schedule_eq_iff] at hsame
  exact absurd (hsame 1) (by decide +kernel)

end SimulatedFleet

end FleetSizing
