import FleetSizing.Metrics.Basic
import FleetSizing.Proofs.Scaler.Likeness
import FleetSizing.Proofs.SimulatedFleet.Requests
import FleetSizing.Proofs.SimulatedFleet.Sessions
import FleetSizing.Proofs.SimulatedFleet.Workload
/-!
# Traces that say the same

A trace can be written in many ways: jobs of another kind or another tick change places with
their neighbours, an entry is split up, entries of no jobs come and go, run times are spelt
otherwise, and kinds are listed again.  A simulation does not see the difference.
-/

namespace FleetSizing

open Scaler SimulatedFleet

theorem JobSpec.arrival_count (job : JobSpec) (n : Nat) :
    JobSpec.arrival { job with count := n } = { job.arrival with count := n } := by
  simp only [arrival, secondsD, seconds]

namespace Trace

/-- One change to the wording of a trace. -/
inductive Rewording : Trace → Trace → Prop
  /-- Two neighbours of different kinds or ticks change places. -/
  | swap (before after : List JobSpec) (a b : JobSpec) (kinds : List Kind)
      (h : a.kind ≠ b.kind ∨ a.arrivalTick ≠ b.arrivalTick) :
      Rewording ⟨before ++ a :: b :: after, kinds⟩ ⟨before ++ b :: a :: after, kinds⟩
  | split (before after : List JobSpec) (job : JobSpec) (m n : Nat) (kinds : List Kind) :
      Rewording ⟨before ++ { job with count := m + n } :: after, kinds⟩
        ⟨before ++ { job with count := m } :: { job with count := n } :: after, kinds⟩
  | insert (before after : List JobSpec) (job : JobSpec) (kinds : List Kind)
      (h : job.count = 0) :
      Rewording ⟨before ++ after, kinds⟩ ⟨before ++ job :: after, kinds⟩
  /-- Another text for the same number of seconds. -/
  | respell (before after : List JobSpec) (job : JobSpec) (duration : String) (n : Nat)
      (kinds : List Kind) (h : Duration.parse job.duration = .ok n)
      (h' : Duration.parse duration = .ok n) :
      Rewording ⟨before ++ job :: after, kinds⟩ ⟨before ++ { job with duration } :: after, kinds⟩
  | permute (jobs : List JobSpec) (kinds kinds' : List Kind) (h : kinds.Perm kinds') :
      Rewording ⟨jobs, kinds⟩ ⟨jobs, kinds'⟩
  /-- A kind that is listed or has jobs is listed once more. -/
  | list (jobs : List JobSpec) (kinds : List Kind) (kind : Kind)
      (h : kind ∈ kinds ∨ kind ∈ jobs.map (·.kind)) :
      Rewording ⟨jobs, kinds⟩ ⟨jobs, kind :: kinds⟩

def work (t : Trace) : List Arrival := t.jobs.map (·.arrival)

theorem Rewording.sameWork {t t' : Trace} (h : Rewording t t') : SameWork t.work t'.work := by
  cases h with
  | swap before after a b kinds h =>
      have hswap : SameWork [a.arrival, b.arrival] [b.arrival, a.arrival] := SameWork.swap h
      simpa [work] using hswap.middle (before.map (·.arrival)) (after.map (·.arrival))
  | split before after job m n kinds =>
      have hsplit := SameWork.split job.arrival m n
      simp only [← JobSpec.arrival_count] at hsplit
      simpa [work] using hsplit.middle (before.map (·.arrival)) (after.map (·.arrival))
  | insert before after job kinds h =>
      have hinsert : SameWork [] [job.arrival] := SameWork.insert h
      simpa [work] using hinsert.middle (before.map (·.arrival)) (after.map (·.arrival))
  | respell before after job duration n kinds h h' =>
      have hsame : JobSpec.arrival { job with duration } = job.arrival := by
        simp [JobSpec.arrival, JobSpec.secondsD, JobSpec.seconds, h, h']
      intro kind tick
      simp [work, hsame]
  | permute jobs kinds kinds' h => exact fun _ _ => rfl
  | list jobs kinds kind h => exact fun _ _ => rfl

theorem sameWork_of_eqvGen {t t' : Trace} (h : Relation.EqvGen Rewording t t') :
    SameWork t.work t'.work := by
  induction h with
  | rel t t' h => exact h.sameWork
  | refl t => exact fun _ _ => rfl
  | symm t t' h ih => exact fun kind tick => (ih kind tick).symm
  | trans t t' t'' h h' ih ih' => exact fun kind tick => (ih kind tick).trans (ih' kind tick)

end Trace

namespace SimulatedFleet

variable {f g : SimulatedFleet}

/-- The fleets show the same, and do so after any request. -/
structure ShowsAlike (f g : SimulatedFleet) : Prop where
  tickSeconds : f.tickSeconds = g.tickSeconds
  windowTicks : f.windowTicks = g.windowTicks
  tick : f.tick = g.tick
  lastId : f.lastId = g.lastId
  pools : f.pools = g.pools

theorem isLikeness_showsAlike : Fleet.IsLikeness ShowsAlike where
  kinds h := congrArg SortedMap.keys h.pools
  pool? {f g} h kind := by
    show (f.pools.get? kind).map (·.ids) = (g.pools.get? kind).map (·.ids)
    rw [h.pools]
  snapshot {f g} h id := by
    have hinstance : f.instance? id = g.instance? id := by
      unfold instance?
      rw [h.pools]
    show Snapshot.mk id (f.isRunning id) (f.utilization id) =
      Snapshot.mk id (g.isRunning id) (g.utilization id)
    simp only [isRunning, utilization, hinstance]
  apply {f g} h a := by
    cases a with
    | create kind =>
        refine ⟨h.tickSeconds, h.windowTicks, h.tick, congrArg (· + 1) h.lastId, ?_⟩
        show f.pools.upsert kind {} (·.add (f.lastId + 1) f.windowTicks) =
          g.pools.upsert kind {} (·.add (g.lastId + 1) g.windowTicks)
        rw [h.pools, h.lastId, h.windowTicks]
    | destroy kind id =>
        refine ⟨h.tickSeconds, h.windowTicks, h.tick, h.lastId, ?_⟩
        show f.pools.map (·.remove id) = g.pools.map (·.remove id)
        rw [h.pools]

theorem pools_eq (hkeys : ∀ kind, kind ∈ f.pools.keys ↔ kind ∈ g.pools.keys)
    (hpool : ∀ kind, f.poolD kind = g.poolD kind) : f.pools = g.pools := by
  apply SortedMap.ext_get?
  intro kind
  have hkey := hkeys kind
  have hpoolD := hpool kind
  rw [SortedMap.mem_keys_iff, SortedMap.mem_keys_iff] at hkey
  unfold poolD at hpoolD
  cases hf : f.pools.get? kind with
  | none =>
      cases hg : g.pools.get? kind with
      | none => rfl
      | some q => simp [hf, hg] at hkey
  | some p =>
      cases hg : g.pools.get? kind with
      | none => simp [hf, hg] at hkey
      | some q => simpa [hf, hg] using hpoolD

/-- The arrivals are in order, and their kinds have pools. -/
structure IsReady (f : SimulatedFleet) : Prop where
  isSound : f.IsSound
  sorted : f.arrivals.Pairwise fun a b => a.tick ≤ b.tick
  listed : ∀ a ∈ f.arrivals, a.kind ∈ f.pools.keys

namespace IsReady

theorem mem_keys_advance_iff (h : f.IsReady) (kind : Kind) :
    kind ∈ f.advance.pools.keys ↔ kind ∈ f.pools.keys := by
  rw [SimulatedFleet.mem_keys_advance_iff, or_iff_left_iff_imp]
  intro hkind
  obtain ⟨a, ha, rfl⟩ := List.mem_map.1 hkind
  exact h.listed a ((List.takeWhile_sublist _).subset ha)

theorem tick_fleet (h : f.IsReady) (s : Scaler) (now : Nat) : (s.tick f now).fleet.IsReady := by
  obtain ⟨-, -, hsound, -⟩ := h.isSound.tick s now
  have harrivals : (s.tick f now).fleet.arrivals = f.later :=
    ((isAbreast_advance f).trans (isAbreast_tick h.isSound s now)).arrivals
  refine ⟨hsound, ?_, ?_⟩
  · rw [harrivals]
    exact h.sorted.sublist (List.dropWhile_sublist _)
  · intro a ha
    rw [harrivals] at ha
    rw [mem_keys_tick_iff h.isSound, h.mem_keys_advance_iff]
    exact h.listed a ((List.dropWhile_sublist _).subset ha)

theorem load {c : Config} (hf : ofConfig c = .ok f) {t : Trace} (ht : t.validate = .ok ()) :
    (f.load t).1.IsReady ∧ (f.load t).1.arrivals = schedule t.work := by
  have hnone : f.arrivals = [] := congrArg SimulatedFleet.arrivals (ofConfig_eq_ok hf).2.2
  have harrivals : (f.load t).1.arrivals = schedule t.work := by
    have habreast := (isAbreast_load ht f).arrivals
    rw [hnone, List.append_nil] at habreast
    exact habreast
  refine ⟨⟨(isSound_ofConfig hf).load t, ?_, ?_⟩, harrivals⟩
  · rw [harrivals]
    exact pairwise_schedule _
  · intro a ha
    rw [harrivals, (schedule_perm _).mem_iff] at ha
    obtain ⟨job, hjob, rfl⟩ := List.mem_map.1 ha
    exact (mem_keys_load_iff ..).2
      (Or.inr (Trace.mem_allKinds_iff.2 (Or.inr (List.mem_map_of_mem hjob))))

end IsReady

/-- Fleets that differ in the wording of what is yet to arrive, and in nothing else. -/
structure WorksAlike (f g : SimulatedFleet) : Prop extends ShowsAlike f g where
  left : f.IsReady
  right : g.IsReady
  sameWork : SameWork f.arrivals g.arrivals

namespace WorksAlike

theorem singles_due (h : WorksAlike f g) (kind : Kind) :
    singles (f.due.filter (·.kind = kind)) = singles (g.due.filter (·.kind = kind)) := by
  have hdue {f : SimulatedFleet} (h : f.IsReady) :
      singles (f.due.filter (·.kind = kind)) = jobsBy kind (f.tick + 1) f.arrivals := by
    rw [due_eq_filter h.sorted, List.filter_filter]
    simp only [jobsBy, Bool.decide_and]
  rw [hdue h.left, hdue h.right, h.tick]
  exact h.sameWork.jobsBy_eq h.left.sorted h.right.sorted kind _

theorem sameWork_later (h : WorksAlike f g) : SameWork f.later g.later := by
  rw [later_eq_filter h.left.sorted, later_eq_filter h.right.sorted, h.tick]
  exact h.sameWork.filter_tick fun tick => g.tick + 1 < tick

theorem poolD_advance (h : WorksAlike f g) (kind : Kind) :
    f.advance.poolD kind = g.advance.poolD kind := by
  have hpool : f.poolD kind = g.poolD kind := by
    unfold SimulatedFleet.poolD
    rw [h.pools]
  rw [SimulatedFleet.poolD_advance, SimulatedFleet.poolD_advance, poolD_atWork, poolD_atWork,
    Pool.receive_eq, Pool.receive_eq, h.singles_due, hpool, h.tickSeconds]

theorem advance (h : WorksAlike f g) : ShowsAlike f.advance g.advance := by
  have hf := isAbreast_advance f
  have hg := isAbreast_advance g
  refine ⟨?_, ?_, ?_, ?_, pools_eq (fun kind => ?_) h.poolD_advance⟩
  · rw [hf.tickSeconds, hg.tickSeconds]
    exact h.tickSeconds
  · rw [hf.windowTicks, hg.windowTicks]
    exact h.windowTicks
  · rw [hf.tick, hg.tick]
    exact congrArg (· + 1) h.tick
  · rw [lastId_advance, lastId_advance]
    exact h.lastId
  · rw [h.left.mem_keys_advance_iff, h.right.mem_keys_advance_iff, h.pools]

theorem tick_fleet (h : WorksAlike f g) (s : Scaler) (now : Nat) :
    WorksAlike (s.tick f now).fleet (s.tick g now).fleet := by
  obtain ⟨-, hshows, -⟩ := tick_alike isLikeness_showsAlike s now now h.advance
  have hf := (isAbreast_advance f).trans (isAbreast_tick h.left.isSound s now)
  have hg := (isAbreast_advance g).trans (isAbreast_tick h.right.isSound s now)
  refine ⟨hshows, h.left.tick_fleet s now, h.right.tick_fleet s now, ?_⟩
  rw [hf.arrivals, hg.arrivals]
  exact h.sameWork_later

theorem summary_eq (h : WorksAlike f g) : f.summary = g.summary := by
  have hpending : f.pendingJobs = g.pendingJobs := h.sameWork.sumOf_count
  simp only [SimulatedFleet.summary, outstandingJobs, hpending, h.pools, h.tick, h.tickSeconds]

theorem load {c : Config} (hf : ofConfig c = .ok f) {t t' : Trace} (ht : t.validate = .ok ())
    (ht' : t'.validate = .ok ()) (hkinds : ∀ kind, kind ∈ t.allKinds ↔ kind ∈ t'.allKinds)
    (hwork : SameWork t.work t'.work) : WorksAlike (f.load t).1 (f.load t').1 := by
  obtain ⟨hready, harrivals⟩ := IsReady.load hf ht
  obtain ⟨hready', harrivals'⟩ := IsReady.load hf ht'
  have habreast := isAbreast_load ht f
  have habreast' := isAbreast_load ht' f
  refine ⟨⟨?_, ?_, ?_, ?_, pools_eq (fun kind => ?_) (fun kind => ?_)⟩, hready, hready', ?_⟩
  · rw [habreast.tickSeconds, habreast'.tickSeconds]
  · rw [habreast.windowTicks, habreast'.windowTicks]
  · rw [habreast.tick, habreast'.tick]
  · rw [lastId_load, lastId_load]
  · rw [mem_keys_load_iff, mem_keys_load_iff, hkinds]
  · rw [poolD_load, poolD_load]
  · rw [harrivals, harrivals']
    exact hwork.schedule

end WorksAlike

end SimulatedFleet

namespace Simulation

/-- Simulations that have come to the same, on fleets that work alike. -/
structure RunsAlike (s s' : Simulation) : Prop where
  fleet : WorksAlike s.fleet s'.fleet
  scaler : s.scaler = s'.scaler
  reports : s.reports = s'.reports

variable {s s' : Simulation}

theorem RunsAlike.exists_step (h : RunsAlike s s') :
    ∃ t t', s.step = .ok t ∧ s'.step = .ok t' ∧ RunsAlike t t' := by
  obtain ⟨r, hr, -⟩ := h.fleet.left.isSound.tick s.scaler s.now
  obtain ⟨r', hr', -⟩ := h.fleet.right.isSound.tick s'.scaler s'.now
  have hnow : s.now = s'.now := by
    unfold Simulation.now
    rw [h.fleet.tick, h.fleet.tickSeconds]
  obtain ⟨hscaler, -, hresult⟩ := tick_alike isLikeness_showsAlike s.scaler s.now s.now
    h.fleet.advance
  refine ⟨_, _, step_eq hr, step_eq hr', ?_, ?_, ?_⟩
  · rw [← h.scaler, ← hnow]
    exact h.fleet.tick_fleet s.scaler s.now
  · rw [← h.scaler, ← hnow]
    exact hscaler
  · rw [← h.scaler, ← hnow] at hr'
    rw [hr, hr'] at hresult
    have hdate : r.now = r'.now := (now_eq_of_ok hr).trans (now_eq_of_ok hr').symm
    show s.reports.push r = s'.reports.push r'
    rw [h.reports, TickReport.eq_of_undated (Except.ok.inj hresult) hdate]

theorem RunsAlike.exists_run (h : RunsAlike s s') (n : Nat) :
    ∃ t t', s.run n = .ok t ∧ s'.run n = .ok t' ∧ RunsAlike t t' := by
  induction n generalizing s s' with
  | zero => exact ⟨s, s', rfl, rfl, h⟩
  | succ n ih =>
      obtain ⟨u, u', hstep, hstep', hnext⟩ := h.exists_step
      obtain ⟨t, t', hrun, hrun', h'⟩ := ih hnext
      exact ⟨t, t', (run_succ hstep n).trans hrun, (run_succ hstep' n).trans hrun', h'⟩

end Simulation

/-- A simulation depends on its trace only up to the wording: traces of the same kinds that
any changes of the wording lead from one to the other give the same reports, summaries and
metrics after any number of ticks. -/
theorem reworded_traces_run_alike (c : Config) (t t' : Trace) (hc : c.validate = .ok ())
    (ht : t.validate = .ok ()) (ht' : t'.validate = .ok ())
    (hkinds : ∀ kind, kind ∈ t.allKinds ↔ kind ∈ t'.allKinds)
    (h : Relation.EqvGen Trace.Rewording t t') (n : Nat) :
    ∃ s s' s₁ s₁', Simulation.new c t = .ok s ∧ Simulation.new c t' = .ok s' ∧
      s.run n = .ok s₁ ∧ s'.run n = .ok s₁' ∧ s₁.reports = s₁'.reports ∧
      s₁.summary = s₁'.summary ∧
      Metrics.ofReports s₁.reports.toList = Metrics.ofReports s₁'.reports.toList ∧
      s₁.scaler = s₁'.scaler ∧ s₁.fleet.pools = s₁'.fleet.pools := by
  obtain ⟨f, hf, hnew⟩ := Simulation.exists_new_eq hc ht
  obtain ⟨f', hf', hnew'⟩ := Simulation.exists_new_eq hc ht'
  obtain rfl : f = f' := Except.ok.inj (hf.symm.trans hf')
  have hstart : Simulation.RunsAlike { scaler := { config := c }, fleet := (f.load t).1 }
      { scaler := { config := c }, fleet := (f.load t').1 } :=
    ⟨WorksAlike.load hf ht ht' hkinds (Trace.sameWork_of_eqvGen h), rfl, rfl⟩
  obtain ⟨s₁, s₁', hrun, hrun', halike⟩ := hstart.exists_run n
  refine ⟨_, _, s₁, s₁', hnew, hnew', hrun, hrun', halike.reports, halike.fleet.summary_eq, ?_,
    halike.scaler, halike.fleet.pools⟩
  rw [halike.reports]

def tersely : Trace where
  jobs := [⟨"web", 1, "4m", 2⟩, ⟨"api", 1, "90s", 1⟩]
  kinds := ["db"]

/-- The trace `tersely` with its entries in another order, one of them split up, a run time in
seconds, and a kind listed that has jobs. -/
def wordily : Trace where
  jobs := [⟨"api", 1, "90s", 1⟩, ⟨"web", 1, "240s", 1⟩, ⟨"web", 1, "4m", 1⟩]
  kinds := ["web", "db"]

theorem eqvGen_tersely_wordily : Relation.EqvGen Trace.Rewording tersely wordily := by
  have hswap := Trace.Rewording.swap [] [] ⟨"web", 1, "4m", 2⟩ ⟨"api", 1, "90s", 1⟩ ["db"]
    (Or.inl (by decide))
  have hsplit := Trace.Rewording.split [⟨"api", 1, "90s", 1⟩] [] ⟨"web", 1, "4m", 2⟩ 1 1 ["db"]
  have hrespell := Trace.Rewording.respell [⟨"api", 1, "90s", 1⟩] [⟨"web", 1, "4m", 1⟩]
    ⟨"web", 1, "4m", 1⟩ "240s" 240 ["db"] (by decide +kernel) (by decide +kernel)
  have hlist := Trace.Rewording.list wordily.jobs ["db"] "web" (Or.inr (by decide))
  exact ((Relation.EqvGen.rel _ _ hswap).trans _ _ _ (.rel _ _ hsplit)).trans _ _ _
    ((Relation.EqvGen.rel _ _ hrespell).trans _ _ _ (.rel _ _ hlist))

theorem reworded_traces_run_alike_wordily :
    Config.validate {} = .ok () ∧ tersely.validate = .ok () ∧ wordily.validate = .ok () ∧
    (∀ kind, kind ∈ tersely.allKinds ↔ kind ∈ wordily.allKinds) ∧
    Relation.EqvGen Trace.Rewording tersely wordily ∧
    ∃ s s' s₁ s₁', Simulation.new {} tersely = .ok s ∧ Simulation.new {} wordily = .ok s' ∧
      s.run 10 = .ok s₁ ∧ s'.run 10 = .ok s₁' ∧ s₁.summary = s₁'.summary := by
  have hc : Config.validate {} = .ok () := by decide +kernel
  have ht : tersely.validate = .ok () := by decide +kernel
  have ht' : wordily.validate = .ok () := by decide +kernel
  have hkinds : tersely.allKinds = wordily.allKinds := by decide +kernel
  have hmem : ∀ kind, kind ∈ tersely.allKinds ↔ kind ∈ wordily.allKinds :=
    fun kind => iff_of_eq (congrArg (kind ∈ ·) hkinds)
  obtain ⟨s, s', s₁, s₁', hnew, hnew', hrun, hrun', -, hsummary, -⟩ :=
    reworded_traces_run_alike {} tersely wordily hc ht ht' hmem eqvGen_tersely_wordily 10
  exact ⟨hc, ht, ht', hmem, eqvGen_tersely_wordily, s, s', s₁, s₁', hnew, hnew', hrun, hrun',
    hsummary⟩

end FleetSizing
