import FleetSizing.Proofs.SimulatedFleet.Retirement
/-!
# Kinds without work

A kind that no job has reached yet goes through cycles.  With a grace period of `g` ticks a
cycle has `g + 1` of them: the first one creates an instance, the next ones spare it, and the
last one gives it up.  Whatever happens to the other kinds, they leave no trace in the cycle
but the id of the instance.
-/

namespace FleetSizing

open Scaler SimulatedFleet

theorem turns_of_idle {seconds : Nat} {instances : List Instance}
    (h : ∀ i ∈ instances, i.running = none) :
    turns seconds instances [] = (instances.map fun _ => ⟨none, 0, 0⟩, []) := by
  induction instances with
  | nil => rfl
  | cons i instances ih =>
      obtain ⟨hi, hrest⟩ := List.forall_mem_cons.1 h
      have hturn : i.turn seconds [] = (⟨none, 0, 0⟩, []) := by
        rw [Instance.turn, hi]
        rfl
      simp only [turns, hturn, ih hrest, List.map_cons]

namespace Pool

variable {p : Pool}

structure IsIdling (p : Pool) : Prop where
  running : ∀ i ∈ p.instances, i.running = none
  backlog : p.backlog = []
  completed : p.completed = 0

theorem isIdling_empty : ({} : Pool).IsIdling := ⟨nofun, rfl, rfl⟩

theorem IsIdling.receive (h : p.IsIdling) {arrivals : List Arrival}
    (hcount : ∀ a ∈ arrivals, a.count = 0) : (p.receive arrivals).IsIdling := by
  induction arrivals generalizing p with
  | nil => exact h
  | cons a arrivals ih =>
      obtain ⟨ha, hrest⟩ := List.forall_mem_cons.1 hcount
      refine ih ⟨h.running, ?_, h.completed⟩ hrest
      simp [submit, ha, h.backlog]

theorem IsIdling.work (h : p.IsIdling) (seconds : Nat) : (p.work seconds).IsIdling := by
  have hturns : turns seconds p.instances p.backlog =
      (p.instances.map fun _ => ⟨none, 0, 0⟩, []) := by
    rw [h.backlog, turns_of_idle h.running]
  refine ⟨fun i hi => ?_, ?_, ?_⟩
  · rw [instances_work] at hi
    obtain ⟨e, he, rfl⟩ := List.mem_map.1 hi
    have hturn := (List.of_mem_zip he).2
    rw [hturns] at hturn
    obtain ⟨-, -, hturn⟩ := List.mem_map.1 hturn
    rw [← hturn]
    rfl
  · simp only [Pool.work, hturns]
  · simp [Pool.work, hturns, h.completed, sumOf_eq_zero]

theorem IsIdling.apply {e : Pool × InstanceId} (h : e.1.IsIdling) (capacity : Nat) (a : Action) :
    (Pool.apply capacity e a).1.IsIdling := by
  cases a with
  | create kind =>
      refine ⟨fun i hi => ?_, h.backlog, h.completed⟩
      rcases List.mem_append.1 hi with hi | hi
      · exact h.running i hi
      · rw [List.mem_singleton.1 hi]
  | destroy kind id =>
      change (e.1.remove id).IsIdling
      unfold remove
      split
      next => exact h
      next i hi =>
        refine ⟨fun j hj => h.running j (List.mem_of_mem_filter hj), ?_, h.completed⟩
        simp [h.running i (List.mem_of_find?_eq_some hi), h.backlog]

theorem IsIdling.applyAll {e : Pool × InstanceId} (h : e.1.IsIdling) (capacity : Nat)
    (actions : List Action) : (Pool.applyAll capacity e actions).1.IsIdling := by
  induction actions generalizing e with
  | nil => exact h
  | cons a actions ih => exact ih (h.apply capacity a)

theorem IsIdling.idleSole?_snapshots (h : p.IsIdling) {x : InstanceId} (hids : p.ids = [x]) :
    idleSole? p.snapshots = some x := by
  obtain ⟨i, hi, rfl⟩ := List.map_eq_singleton_iff.1 hids
  have hrunning := h.running i (hi ▸ List.mem_singleton_self i)
  rw [snapshots, hi]
  simp [idleSole?, Instance.isBusy, hrunning]

end Pool

theorem ceil_div (n g : Nat) : (n + g) / (g + 1) = n / (g + 1) + min (n % (g + 1)) 1 := by
  have hsplit := Nat.div_add_mod' n (g + 1)
  have hlt := Nat.mod_lt n (Nat.succ_pos g)
  generalize n / (g + 1) = q at hsplit ⊢
  generalize n % (g + 1) = r at hsplit hlt ⊢
  have hsucc : (q + 1) * (g + 1) = q * (g + 1) + (g + 1) := Nat.succ_mul ..
  rcases Nat.eq_zero_or_pos r with rfl | hpos
  · have hfloor : (n + g) / (g + 1) = q := Nat.div_eq_of_lt_le (by omega) (by omega)
    rw [hfloor, Nat.zero_min, Nat.add_zero]
  · have hsucc' : (q + 1 + 1) * (g + 1) = (q + 1) * (g + 1) + (g + 1) := Nat.succ_mul ..
    have hceil : (n + g) / (g + 1) = q + 1 := Nat.div_eq_of_lt_le (by omega) (by omega)
    rw [hceil, Nat.min_eq_right hpos]

theorem Config.one_le_grace_of_validate {c : Config} (h : c.validate = .ok ()) :
    1 ≤ c.idleGraceTicks := by
  obtain ⟨tick, window, haccepted⟩ := validate_eq_ok_iff.1 h
  exact haccepted.grace_pos

namespace Simulation

variable {c : Config} {t : Trace} {n q r : Nat} {s : Simulation} {kind : Kind} {x : InstanceId}

/-! ## Cycles -/

/-- In the `q`-th cycle of a kind without work, `r` ticks of the cycle have passed. -/
structure InCycle (s : Simulation) (kind : Kind) (q r : Nat) : Prop where
  idling : (s.fleet.poolD kind).IsIdling
  headcount : (s.fleet.poolD kind).headcount = ⟨min r 1, min (q + r) 1, q + min r 1, q⟩
  counted : ∀ x ∈ (s.fleet.poolD kind).ids, s.scaler.idle.next x = r

theorem InCycle.size (h : s.InCycle kind q r) : (s.fleet.poolD kind).size = min r 1 :=
  congrArg Headcount.size h.headcount

theorem InCycle.length_ids (h : s.InCycle kind q r) :
    (s.fleet.poolD kind).ids.length = min r 1 := by
  rw [Pool.length_ids, h.size]

theorem InCycle.exists_idleSole? (h : s.InCycle kind q r)
    (hidling : (s.fleet.advance.poolD kind).IsIdling) (hr : 1 ≤ r) :
    ∃ x, (s.fleet.poolD kind).ids = [x] ∧ idleSole? (s.poolRead kind) = some x := by
  obtain ⟨x, hx⟩ := List.length_eq_one_iff.1 (h.length_ids.trans (Nat.min_eq_right hr))
  refine ⟨x, hx, hidling.idleSole?_snapshots ?_⟩
  rw [ids_poolD_advance, hx]

theorem IsNew.inCycle (h : s.IsNew c t) (kind : Kind) : s.InCycle kind 0 0 := by
  refine ⟨?_, ?_, fun x hx => ?_⟩
  · rw [h.pool]
    exact Pool.isIdling_empty
  · rw [h.pool]
    rfl
  · rw [h.pool] at hx
    cases hx

section

variable (h : s.HasCome c t n) (hkind : kind ∈ t.allKinds)

include h hkind

theorem HasCome.next_idle_next_eq_one (hx : x ∈ (s.next.fleet.poolD kind).ids)
    (houtcome : ∀ k, (s.nextDecision kind).outcome ≠ .gracePeriod k) :
    s.next.scaler.idle.next x = 1 := by
  cases hcount : s.next.scaler.idle.get? x with
  | none => rw [IdleTracker.next, hcount]; rfl
  | some k => exact absurd ((h.get?_idle_next_iff hkind hx k).1 hcount).2 (houtcome k)

variable (hidling : (s.fleet.advance.poolD kind).IsIdling)

include hidling

theorem HasCome.isIdling_next : (s.next.fleet.poolD kind).IsIdling := by
  obtain ⟨last, -, hpool⟩ := h.exists_poolD_next hkind
  rw [hpool]
  exact hidling.applyAll ..

theorem InCycle.coldStart (hcycle : s.InCycle kind q 0) :
    (s.nextDecision kind).outcome = .coldStart ∧ s.next.InCycle kind q 1 ∧
      ∃ x, (s.next.fleet.poolD kind).ids = [x] ∧ s.fleet.lastId < x := by
  have hnil : (s.fleet.poolD kind).ids = [] := List.length_eq_zero_iff.1 hcycle.length_ids
  have houtcome := (s.outcome_nextDecision_eq_coldStart_iff kind).2 hnil
  have hactions : (s.nextDecision kind).actions = [.create kind] :=
    Config.actions_of_coldStart houtcome
  have hsize : (s.nextDecision kind).poolSize = 0 := by
    rw [poolSize_nextDecision, hcycle.size, Nat.zero_min]
  obtain ⟨last, hlast, hpool⟩ := h.exists_poolD_next hkind
  have hids : (s.next.fleet.poolD kind).ids = [last + 1] := by
    rw [hpool, hactions]
    change ((s.fleet.advance.poolD kind).add (last + 1) _).ids = _
    rw [Pool.ids_add, ids_poolD_advance, hnil, List.nil_append]
  refine ⟨houtcome, ⟨h.isIdling_next hkind hidling, ?_, fun x hx => ?_⟩, last + 1, hids,
    Nat.lt_succ_of_le hlast⟩
  · rw [h.headcount_next hkind, hcycle.headcount, Headcount.after_of_create _ hactions, hsize,
      Headcount.mk.injEq]
    dsimp only
    omega
  · exact h.next_idle_next_eq_one hkind hx (by simp [houtcome])

theorem InCycle.gracePeriod (hcycle : s.InCycle kind q r) (hr : 1 ≤ r)
    (hgrace : r < c.idleGraceTicks) :
    (s.nextDecision kind).outcome = .gracePeriod r ∧ s.next.InCycle kind q (r + 1) ∧
      (s.next.fleet.poolD kind).ids = (s.fleet.poolD kind).ids := by
  obtain ⟨x, hids, hsole⟩ := hcycle.exists_idleSole? hidling hr
  have hcount := hcycle.counted x (hids ▸ List.mem_singleton_self x)
  have houtcome : (s.nextDecision kind).outcome = .gracePeriod r :=
    Config.outcome_eq_gracePeriod_iff.2 ⟨x, hsole, hcount, h.config ▸ hgrace⟩
  have hactions : (s.nextDecision kind).actions = [] := Config.actions_of_gracePeriod houtcome
  have hsize : (s.nextDecision kind).poolSize = 1 := by
    rw [poolSize_nextDecision, hcycle.size, Nat.min_eq_right hr]
  obtain ⟨last, -, hpool⟩ := h.exists_poolD_next hkind
  have hids' : (s.next.fleet.poolD kind).ids = (s.fleet.poolD kind).ids := by
    rw [hpool, hactions, ← ids_poolD_advance]
    rfl
  refine ⟨houtcome, ⟨h.isIdling_next hkind hidling, ?_, fun y hy => ?_⟩, hids'⟩
  · rw [h.headcount_next hkind, hcycle.headcount, Headcount.after_of_nil _ hactions, hsize,
      Headcount.mk.injEq]
    dsimp only
    omega
  · have hy' := hy
    rw [hids', hids, List.mem_singleton] at hy'
    have hget := (h.get?_idle_next_iff hkind hy r).2 ⟨hy' ▸ hsole, houtcome⟩
    rw [IdleTracker.next, hget, Option.getD_some]

theorem InCycle.retired (hcycle : s.InCycle kind q c.idleGraceTicks)
    (hgrace : 1 ≤ c.idleGraceTicks) :
    ∃ x, (s.fleet.poolD kind).ids = [x] ∧ (s.nextDecision kind).outcome = .retired x ∧
      s.next.InCycle kind (q + 1) 0 := by
  obtain ⟨x, hids, hsole⟩ := hcycle.exists_idleSole? hidling hgrace
  have hcount := hcycle.counted x (hids ▸ List.mem_singleton_self x)
  have houtcome : (s.nextDecision kind).outcome = .retired x :=
    Config.outcome_eq_retired_iff.2 ⟨hsole, (h.config ▸ hcount.ge)⟩
  have hactions : (s.nextDecision kind).actions = [.destroy kind x] :=
    Config.actions_of_retired houtcome
  have hsize : (s.nextDecision kind).poolSize = 1 := by
    rw [poolSize_nextDecision, hcycle.size, Nat.min_eq_right hgrace]
  have hheadcount : (s.next.fleet.poolD kind).headcount = ⟨0, 1, q + 1, q + 1⟩ := by
    rw [h.headcount_next hkind, hcycle.headcount, Headcount.after_of_destroy _ hactions, hsize,
      Headcount.mk.injEq]
    dsimp only
    omega
  refine ⟨x, hids, houtcome, h.isIdling_next hkind hidling, ?_, fun y hy => ?_⟩
  · rw [hheadcount, Headcount.mk.injEq]
    omega
  · have hnil : (s.next.fleet.poolD kind).ids = [] := by
      rw [← List.length_eq_zero_iff, Pool.length_ids]
      exact congrArg Headcount.size hheadcount
    rw [hnil] at hy
    cases hy

end

/-! ## Runs -/

/-- The instance of the `q`-th cycle is new, and stays to the end of the cycle or to the
tick `N`. -/
structure IsInstance (s : Simulation) (kind : Kind) (g N q : Nat) (x : InstanceId) : Prop where
  lastId_lt : (s.after (q * (g + 1))).fleet.lastId < x
  ids_eq : ∀ r, 1 ≤ r → r ≤ g → q * (g + 1) + r ≤ N →
    ((s.after (q * (g + 1) + r)).fleet.poolD kind).ids = [x]

theorem HasCome.isIdling_advance (h : s.HasCome c t n)
    (hunused : ∀ job ∈ t.jobs, job.kind = kind → 1 ≤ job.count → n + 1 < job.arrivalTick)
    (hidling : (s.fleet.poolD kind).IsIdling) : (s.fleet.advance.poolD kind).IsIdling := by
  rw [poolD_advance, poolD_atWork]
  refine (hidling.receive fun a ha => ?_).work _
  obtain ⟨hdue, hkind⟩ := List.mem_filter.1 ha
  have htick : a.tick ≤ s.fleet.tick + 1 := by simpa using List.mem_takeWhile_imp hdue
  obtain ⟨job, hjob, rfl⟩ := h.arrivals a ((List.takeWhile_sublist _).subset hdue)
  by_contra hcount
  have hlate := hunused job hjob (of_decide_eq_true hkind) (Nat.one_le_iff_ne_zero.2 hcount)
  rw [h.tick] at htick
  exact absurd hlate (Nat.not_lt.2 htick)

namespace IsNew

variable {N : Nat} (h : s.IsNew c t) (hkind : kind ∈ t.allKinds)
  (hunused : ∀ job ∈ t.jobs, job.kind = kind → 1 ≤ job.count → N < job.arrivalTick)

omit hkind in
include h hunused in
theorem isIdling_advance_after (hn : n < N) (hcycle : (s.after n).InCycle kind q r) :
    ((s.after n).fleet.advance.poolD kind).IsIdling := by
  refine (h.toHasCome.after n).isIdling_advance (fun job hjob hkind hcount => ?_) hcycle.idling
  exact Nat.lt_of_le_of_lt hn (hunused job hjob hkind hcount)

variable (hgrace : 1 ≤ c.idleGraceTicks)

include h hkind hunused hgrace

/-- After `q` cycles and `r` ticks of the next one. -/
theorem inCycle_after (hn : n ≤ N) (hr : r ≤ c.idleGraceTicks)
    (heq : q * (c.idleGraceTicks + 1) + r = n) : (s.after n).InCycle kind q r := by
  induction n generalizing q r with
  | zero =>
      obtain ⟨hq, rfl⟩ := Nat.add_eq_zero_iff.1 heq
      obtain rfl := (Nat.mul_eq_zero.1 hq).resolve_right (Nat.succ_ne_zero _)
      exact h.inCycle kind
  | succ n ih =>
      have hn' := h.toHasCome.after n
      rw [after_succ]
      cases r with
      | zero =>
          -- The last tick of the cycle before has gone by.
          obtain ⟨q, rfl⟩ := Nat.exists_eq_succ_of_ne_zero (n := q) (by rintro rfl; simp at heq)
          rw [Nat.succ_mul] at heq
          have hcycle := ih (Nat.le_of_succ_le hn) (Nat.le_refl _) (q := q) (by omega)
          obtain ⟨-, -, -, hnext⟩ :=
            hcycle.retired hn' hkind (h.isIdling_advance_after hunused hn hcycle) hgrace
          exact hnext
      | succ r =>
          have hcycle := ih (Nat.le_of_succ_le hn) (Nat.le_of_succ_le hr) (q := q) (by omega)
          have hidling := h.isIdling_advance_after hunused hn hcycle
          cases r with
          | zero => exact (hcycle.coldStart hn' hkind hidling).2.1
          | succ r => exact (hcycle.gracePeriod hn' hkind hidling (Nat.succ_pos r) hr).2.1

theorem exists_isInstance (hn : q * (c.idleGraceTicks + 1) < N) :
    ∃ x, s.IsInstance kind c.idleGraceTicks N q x := by
  have hfirst := h.inCycle_after hkind hunused hgrace hn.le (Nat.zero_le _) rfl
  obtain ⟨-, -, x, hids, hnew⟩ := hfirst.coldStart (h.toHasCome.after _) hkind
    (h.isIdling_advance_after hunused hn hfirst)
  refine ⟨x, hnew, fun r hr => ?_⟩
  induction r, hr using Nat.le_induction with
  | base =>
      intro _ _
      rw [after_succ]
      exact hids
  | succ r hr ih =>
      intro hr' hN
      have hcycle := h.inCycle_after hkind hunused hgrace (n := q * (c.idleGraceTicks + 1) + r)
        (Nat.le_of_succ_le hN) (Nat.le_of_succ_le hr') rfl
      have hnext := hcycle.gracePeriod (h.toHasCome.after _) hkind
        (h.isIdling_advance_after hunused hN hcycle) hr hr'
      rw [← Nat.add_assoc, after_succ]
      exact hnext.2.2.trans (ih (Nat.le_of_succ_le hr') (Nat.le_of_succ_le hN))

/-- One choice of the instances serves all cycles. -/
theorem exists_instanceOf : ∃ instanceOf : Nat → InstanceId,
    ∀ q, q * (c.idleGraceTicks + 1) < N →
      s.IsInstance kind c.idleGraceTicks N q (instanceOf q) := by
  have hinstance (q : Nat) : ∃ x, q * (c.idleGraceTicks + 1) < N →
      s.IsInstance kind c.idleGraceTicks N q x := by
    by_cases hq : q * (c.idleGraceTicks + 1) < N
    · obtain ⟨x, hx⟩ := h.exists_isInstance hkind hunused hgrace hq
      exact ⟨x, fun _ => hx⟩
    · exact ⟨0, fun hlt => absurd hlt hq⟩
  exact Classical.skolem.1 hinstance

theorem outcome_nextDecision_eq_retired (hx : s.IsInstance kind c.idleGraceTicks N q x)
    (hn : q * (c.idleGraceTicks + 1) + c.idleGraceTicks < N) :
    ((s.after (q * (c.idleGraceTicks + 1) + c.idleGraceTicks)).nextDecision kind).outcome =
      .retired x := by
  have hcycle := h.inCycle_after hkind hunused hgrace hn.le (Nat.le_refl _) rfl
  obtain ⟨y, hy, houtcome, -⟩ := hcycle.retired (h.toHasCome.after _) hkind
    (h.isIdling_advance_after hunused hn hcycle) hgrace
  have hsole := hx.ids_eq _ hgrace (Nat.le_refl _) hn.le
  rw [hy] at hsole
  exact houtcome.trans (congrArg _ (List.singleton_inj.1 hsole))

theorem figures_after (hn : n ≤ N) (hpos : 1 ≤ n) :
    let p := (s.after n).fleet.poolD kind
    p.created = (n + c.idleGraceTicks) / (c.idleGraceTicks + 1) ∧
      p.destroyed = n / (c.idleGraceTicks + 1) ∧ p.peak = 1 ∧ p.completed = 0 := by
  have hr : n % (c.idleGraceTicks + 1) ≤ c.idleGraceTicks :=
    Nat.le_of_lt_succ (Nat.mod_lt _ (Nat.succ_pos _))
  have hcycle := h.inCycle_after hkind hunused hgrace hn hr (Nat.div_add_mod' ..)
  have hheadcount := hcycle.headcount
  simp only [Pool.headcount, Headcount.mk.injEq] at hheadcount
  obtain ⟨-, hpeak, hcreated, hdestroyed⟩ := hheadcount
  refine ⟨hcreated.trans (ceil_div ..).symm, hdestroyed, hpeak.trans ?_, hcycle.idling.completed⟩
  have hsplit := Nat.div_add_mod' n (c.idleGraceTicks + 1)
  refine Nat.min_eq_right (Nat.one_le_iff_ne_zero.2 fun hzero => ?_)
  obtain ⟨hq, hr⟩ := Nat.add_eq_zero_iff.1 hzero
  rw [hq, hr] at hsplit
  omega

end IsNew

end Simulation

/-- In a simulation, a kind without jobs up to the tick `N` goes through cycles of one tick more
than its grace period, each with an instance that the fleet has not had before. -/
theorem unused_kind_cycles (c : Config) (t : Trace) (hc : c.validate = .ok ())
    (ht : t.validate = .ok ()) (kind : Kind) (hkind : kind ∈ t.allKinds) (N : Nat)
    (hunused : ∀ job ∈ t.jobs, job.kind = kind → 1 ≤ job.count → N < job.arrivalTick) :
    ∃ s, Simulation.new c t = .ok s ∧ (∀ n, s.run n = .ok (s.after n)) ∧
      ∃ instanceOf : Nat → InstanceId, ∀ tick, 1 ≤ tick → tick ≤ N →
        let g := c.idleGraceTicks
        let q := (tick - 1) / (g + 1)
        let r := (tick - 1) % (g + 1)
        (s.after tick).lastOutcome kind = some (if r = 0 then .coldStart
          else if r < g then .gracePeriod r else .retired (instanceOf q)) ∧
        ((s.after tick).fleet.poolD kind).ids = (if r < g then [instanceOf q] else []) ∧
        (∃ k, (s.after tick).summary.kindFor kind = some k ∧
          k.created = (tick + g) / (g + 1) ∧ k.destroyed = tick / (g + 1) ∧ k.peakPool = 1 ∧
          k.completed = 0) ∧
        ∀ m ≤ q * (g + 1), ∀ kind', instanceOf q ∉ ((s.after m).fleet.poolD kind').ids := by
  obtain ⟨s, hnew, hs⟩ := Simulation.exists_new_isNew hc ht
  have hgrace := Config.one_le_grace_of_validate hc
  obtain ⟨instanceOf, hinstanceOf⟩ := hs.exists_instanceOf hkind hunused hgrace
  refine ⟨s, hnew, Simulation.run_eq_after hs.fleet, instanceOf, fun tick htick hN => ?_⟩
  obtain ⟨n, rfl⟩ := Nat.exists_eq_succ_of_ne_zero (Nat.one_le_iff_ne_zero.1 htick)
  intro g q r
  have hsplit : q * (g + 1) + r = n := Nat.div_add_mod' ..
  have hr : r ≤ g := Nat.le_of_lt_succ (Nat.mod_lt _ (Nat.succ_pos _))
  have hn := hs.toHasCome.after n
  have hcycle := hs.inCycle_after hkind hunused hgrace (Nat.le_of_succ_le hN) hr hsplit
  have hidling := hs.isIdling_advance_after hunused hN hcycle
  have hstart : q * (g + 1) ≤ n := hsplit ▸ Nat.le_add_right ..
  have hinstance := hinstanceOf q (hstart.trans_lt hN)
  have hretired (hlast : ¬r < g) :
      ((s.after n).nextDecision kind).outcome = .retired (instanceOf q) := by
    have heq : q * (g + 1) + g = n := Nat.le_antisymm hr (Nat.not_lt.1 hlast) ▸ hsplit
    have hlast := hs.outcome_nextDecision_eq_retired hkind hunused hgrace hinstance (heq ▸ hN)
    rwa [heq] at hlast
  refine ⟨?_, ?_, ?_, fun m hm kind' hmem => ?_⟩
  · rw [Simulation.after_succ, hn.lastOutcome_next hkind, Option.some_inj]
    split
    next hzero => exact ((hzero ▸ hcycle).coldStart hn hkind hidling).1
    next hpos =>
      split
      next hlt =>
        exact (hcycle.gracePeriod hn hkind hidling (Nat.one_le_iff_ne_zero.2 hpos) hlt).1
      next hlast => exact hretired hlast
  · split
    next hlt =>
      have hsole := hinstance.ids_eq (r + 1) (Nat.succ_pos r) hlt
      rw [← Nat.add_assoc, hsplit] at hsole
      exact hsole hN
    next hlast => exact (hs.ids_eq_nil_iff hkind n).2 ⟨_, hretired hlast⟩
  · obtain ⟨hcreated, hdestroyed, hpeak, hcompleted⟩ :=
      hs.figures_after hkind hunused hgrace hN htick
    exact ⟨_, (hs.toHasCome.after (n + 1)).kindFor_summary hkind, hcreated, hdestroyed, hpeak,
      hcompleted⟩
  · have hle := (hs.toHasCome.after m).fleet.le_lastId_of_mem hmem
    exact absurd hinstance.lastId_lt (Nat.not_lt.2 (hle.trans (hs.monotone_lastId hm)))

theorem unused_kind_cycles_mixed :
    Config.validate { idleGraceTicks := 2 } = .ok () ∧ mixedTrace.validate = .ok () ∧
    "api" ∈ mixedTrace.allKinds ∧
    (∀ job ∈ mixedTrace.jobs, job.kind = "api" → 1 ≤ job.count → 6 < job.arrivalTick) ∧
    ∃ s x k, Simulation.new { idleGraceTicks := 2 } mixedTrace = .ok s ∧
      (s.after 6).lastOutcome "api" = some (.retired x) ∧
      ((s.after 6).fleet.poolD "api").ids = [] ∧
      (s.after 6).summary.kindFor "api" = some k ∧
      k.created = 2 ∧ k.destroyed = 2 ∧ k.peakPool = 1 ∧ k.completed = 0 ∧
      ∀ kind, x ∉ ((s.after 3).fleet.poolD kind).ids := by
  have hc : Config.validate { idleGraceTicks := 2 } = .ok () := by decide +kernel
  have ht : mixedTrace.validate = .ok () := by decide +kernel
  have hkind : "api" ∈ mixedTrace.allKinds := by decide +kernel
  have hunused : ∀ job ∈ mixedTrace.jobs,
      job.kind = "api" → 1 ≤ job.count → 6 < job.arrivalTick := by
    decide +kernel
  obtain ⟨s, hs, -, instanceOf, hall⟩ :=
    unused_kind_cycles { idleGraceTicks := 2 } mixedTrace hc ht "api" hkind 6 hunused
  obtain ⟨houtcome, hids, ⟨k, hk, hcreated, hdestroyed, hpeak, hcompleted⟩, hnew⟩ :=
    hall 6 (by decide) (Nat.le_refl 6)
  exact ⟨hc, ht, hkind, hunused, s, instanceOf 1, k, hs, houtcome, hids, hk, hcreated,
    hdestroyed, hpeak, hcompleted, hnew 3 (by decide)⟩

end FleetSizing
