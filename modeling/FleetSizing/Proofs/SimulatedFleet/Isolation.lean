import FleetSizing.Proofs.SimulatedFleet.Renaming
import FleetSizing.Proofs.SimulatedFleet.Schedule
import FleetSizing.Proofs.SimulatedFleet.Sessions
/-!
# Kinds in isolation

What a simulation does for a kind is what it does when there is no other kind, but for the
names of the instances: the ids that the other kinds take are left out.
-/

namespace FleetSizing

open Scaler SimulatedFleet

namespace Trace

/-- The jobs of one kind.  The kind exists even if it has none. -/
def restrict (t : Trace) (kind : Kind) : Trace where
  jobs := t.jobs.filter (·.kind = kind)
  kinds := [kind]

variable {t : Trace} {kind : Kind}

theorem validate_restrict (h : t.validate = .ok ()) (kind : Kind) :
    (t.restrict kind).validate = .ok () := by
  rw [validate_eq_ok_iff] at h ⊢
  exact fun job hjob => h job (List.mem_of_mem_filter hjob)

theorem mem_allKinds_restrict_iff {kind' : Kind} :
    kind' ∈ (t.restrict kind).allKinds ↔ kind' = kind := by
  rw [mem_allKinds_iff, restrict, List.mem_singleton, or_iff_left_iff_imp, List.mem_map]
  rintro ⟨job, hjob, rfl⟩
  simpa using (List.mem_filter.1 hjob).2

theorem arrivals_restrict (t : Trace) (kind : Kind) :
    schedule ((t.restrict kind).jobs.map (·.arrival)) =
      (schedule (t.jobs.map (·.arrival))).filter (·.kind = kind) := by
  rw [filter_schedule, List.filter_map]
  rfl

end Trace

namespace SimulatedFleet

variable {f f' : SimulatedFleet} {kind : Kind}

/-- The second fleet has come as far as the first one and knows one of its kinds only. -/
structure IsPart (kind : Kind) (f f' : SimulatedFleet) : Prop where
  isSound : f.IsSound
  isSound' : f'.IsSound
  tickSeconds : f.tickSeconds = f'.tickSeconds
  windowTicks : f.windowTicks = f'.windowTicks
  tick : f.tick = f'.tick
  sorted : f.arrivals.Pairwise fun a b => a.tick ≤ b.tick
  arrivals : f'.arrivals = f.arrivals.filter (·.kind = kind)
  listed : kind ∈ f.pools.keys
  alone : ∀ kind', kind' ∈ f'.pools.keys ↔ kind' = kind

namespace IsPart

theorem sorted' (h : IsPart kind f f') : f'.arrivals.Pairwise fun a b => a.tick ≤ b.tick := by
  rw [h.arrivals]
  exact h.sorted.filter _

theorem due_eq (h : IsPart kind f f') : f'.due = f.due.filter (·.kind = kind) := by
  rw [due_eq_filter h.sorted', due_eq_filter h.sorted, h.arrivals, h.tick, List.filter_comm]

theorem later_eq (h : IsPart kind f f') : f'.later = f.later.filter (·.kind = kind) := by
  rw [later_eq_filter h.sorted', later_eq_filter h.sorted, h.arrivals, h.tick, List.filter_comm]

theorem listed_advance (h : IsPart kind f f') : kind ∈ f.advance.pools.keys :=
  (mem_keys_advance_iff ..).2 (Or.inl h.listed)

theorem alone_advance (h : IsPart kind f f') (kind' : Kind) :
    kind' ∈ f'.advance.pools.keys ↔ kind' = kind := by
  rw [mem_keys_advance_iff, h.alone, or_iff_left_iff_imp, h.due_eq, List.mem_map]
  rintro ⟨a, ha, rfl⟩
  simpa using (List.mem_filter.1 ha).2

theorem tick_fleet (h : IsPart kind f f') (s s' : Scaler) (now now' : Nat) :
    IsPart kind (s.tick f now).fleet (s'.tick f' now').fleet := by
  obtain ⟨-, -, hsound, -⟩ := h.isSound.tick s now
  obtain ⟨-, -, hsound', -⟩ := h.isSound'.tick s' now'
  have habreast := (isAbreast_advance f).trans (isAbreast_tick h.isSound s now)
  have habreast' := (isAbreast_advance f').trans (isAbreast_tick h.isSound' s' now')
  refine ⟨hsound, hsound', ?_, ?_, ?_, ?_, ?_, ?_, fun kind' => ?_⟩
  · rw [habreast.tickSeconds, habreast'.tickSeconds]
    exact h.tickSeconds
  · rw [habreast.windowTicks, habreast'.windowTicks]
    exact h.windowTicks
  · rw [habreast.tick, habreast'.tick]
    exact congrArg (· + 1) h.tick
  · rw [habreast.arrivals]
    exact h.sorted.sublist (List.dropWhile_sublist _)
  · rw [habreast.arrivals, habreast'.arrivals]
    exact h.later_eq
  · exact (mem_keys_tick_iff h.isSound ..).2 h.listed_advance
  · rw [mem_keys_tick_iff h.isSound', h.alone_advance]

end IsPart

theorem isPart_load {c : Config} (hf : ofConfig c = .ok f) {t : Trace}
    (ht : t.validate = .ok ()) (hkind : kind ∈ t.allKinds) :
    IsPart kind (f.load t).1 (f.load (t.restrict kind)).1 := by
  have hsound := isSound_ofConfig hf
  have heq := (ofConfig_eq_ok hf).2.2
  have hpools : f.pools = ∅ := congrArg pools heq
  have harrivals : f.arrivals = [] := congrArg arrivals heq
  have habreast := isAbreast_load ht f
  have habreast' := isAbreast_load (t.validate_restrict ht kind) f
  rw [harrivals, List.append_nil] at habreast habreast'
  refine ⟨hsound.load t, hsound.load _, ?_, ?_, ?_, ?_, ?_, ?_, fun kind' => ?_⟩
  · rw [habreast.tickSeconds, habreast'.tickSeconds]
  · rw [habreast.windowTicks, habreast'.windowTicks]
  · rw [habreast.tick, habreast'.tick]
  · rw [habreast.arrivals]
    exact pairwise_schedule _
  · rw [habreast.arrivals, habreast'.arrivals]
    exact t.arrivals_restrict kind
  · exact (mem_keys_load_iff ..).2 (Or.inr hkind)
  · rw [mem_keys_load_iff, hpools, Trace.mem_allKinds_restrict_iff]
    exact or_iff_right List.not_mem_nil

end SimulatedFleet

/-- Both reports have the same decision for a kind, the first one under other names. -/
def TickReport.Renames (kind : Kind) (ρ : InstanceId → InstanceId) (r r' : TickReport) : Prop :=
  ∃ d, r'.decisionFor kind = some d ∧ r.decisionFor kind = some (d.rename ρ)

namespace Simulation

variable {kind : Kind} {ρ ρ' : InstanceId → InstanceId} {s s' : Simulation}

/-- The first simulation has for a kind, under other names, what the second one has, which
knows no other kind. -/
structure Mirrors (kind : Kind) (ρ : InstanceId → InstanceId) (s s' : Simulation) : Prop where
  isPart : IsPart kind s.fleet s'.fleet
  config : s.scaler.config = s'.scaler.config
  strictMono : StrictMono ρ
  lastId_le : ρ s'.fleet.lastId ≤ s.fleet.lastId
  pool : s.fleet.poolD kind = (s'.fleet.poolD kind).rename ρ
  idle : ∀ x ∈ (s'.fleet.poolD kind).ids, s.scaler.idle.get? (ρ x) = s'.scaler.idle.get? x

namespace Mirrors

/-- Only the names of the ids given so far matter. -/
theorem congr (h : Mirrors kind ρ s s') (hρ : StrictMono ρ')
    (hsame : ∀ x ≤ s'.fleet.lastId, ρ' x = ρ x) : Mirrors kind ρ' s s' := by
  have hids : ∀ x ∈ (s'.fleet.poolD kind).ids, ρ' x = ρ x :=
    fun x hx => hsame x (h.isPart.isSound'.le_lastId_of_mem hx)
  refine ⟨h.isPart, h.config, hρ, ?_, ?_, fun x hx => ?_⟩
  · rw [hsame _ (Nat.le_refl _)]
    exact h.lastId_le
  · rw [h.pool, Pool.rename_congr hids]
  · rw [hids x hx]
    exact h.idle x hx

theorem poolD_advance (h : Mirrors kind ρ s s') :
    s.fleet.advance.poolD kind = (s'.fleet.advance.poolD kind).rename ρ := by
  rw [SimulatedFleet.poolD_advance, SimulatedFleet.poolD_advance, poolD_atWork, poolD_atWork,
    h.isPart.due_eq, List.filter_filter, h.pool, h.isPart.tickSeconds, Pool.receive_rename,
    Pool.work_rename]
  simp only [Bool.and_self]

theorem evaluate_eq (h : Mirrors kind ρ s s') :
    (s.scaler.config.evaluate s.scaler.idle kind (s.fleet.advance.poolD kind).snapshots).2 =
      ((s'.scaler.config.evaluate s'.scaler.idle kind
        (s'.fleet.advance.poolD kind).snapshots).2).rename ρ := by
  rw [h.poolD_advance, Pool.snapshots_rename, h.config]
  refine Config.evaluate_rename fun x hx => h.idle x ?_
  rwa [Pool.map_id_snapshots, ids_poolD_advance] at hx

theorem requests_eq (h : Mirrors kind ρ s s') :
    s.fleet.requests s.scaler kind = (s'.fleet.requests s'.scaler kind).map (·.rename ρ) :=
  congrArg Decision.actions h.evaluate_eq

theorem renames (h : Mirrors kind ρ s s') {now now' : Nat} {r r' : TickReport}
    (hr : (s.scaler.tick s.fleet now).result = .ok r)
    (hr' : (s'.scaler.tick s'.fleet now').result = .ok r') : r.Renames kind ρ r' := by
  refine ⟨_, h.isPart.isSound'.decisionFor_tick hr' ((h.isPart.alone_advance kind).2 rfl), ?_⟩
  rw [h.isPart.isSound.decisionFor_tick hr h.isPart.listed_advance, h.evaluate_eq]

/-! ## Steps -/

theorem get?_idle_tick (h : Mirrors kind ρ s s') {now now' : Nat} {r r' : TickReport}
    (hr : (s.scaler.tick s.fleet now).result = .ok r)
    (hr' : (s'.scaler.tick s'.fleet now').result = .ok r') {x : InstanceId}
    (hx : x ∈ (s'.fleet.poolD kind).ids) :
    (s.scaler.tick s.fleet now).scaler.idle.get? (ρ x) =
      (s'.scaler.tick s'.fleet now').scaler.idle.get? x := by
  refine get?_tick_congr hr hr' h.config (h.idle x hx) ?_
  have hx' : x ∈ (s'.fleet.advance.poolD kind).ids := by rwa [ids_poolD_advance]
  have hρx : ρ x ∈ (s.fleet.advance.poolD kind).ids := by
    rw [h.poolD_advance, Pool.ids_rename]
    exact List.mem_map_of_mem hx'
  rw [h.isPart.isSound.mem_idleSoles_tick_iff_of_mem hρx,
    h.isPart.isSound'.mem_idleSoles_tick_iff_of_mem hx', h.poolD_advance, Pool.snapshots_rename,
    idleSole?_rename, ← Option.map_some, (Option.map_injective h.strictMono.injective).eq_iff]

theorem exists_tick (h : Mirrors kind ρ s s') {r r' : TickReport}
    (hr : (s.scaler.tick s.fleet s.now).result = .ok r)
    (hr' : (s'.scaler.tick s'.fleet s'.now).result = .ok r') :
    ∃ ρ', (∀ x ≤ s'.fleet.lastId, ρ' x = ρ x) ∧
      Mirrors kind ρ'
        { scaler := (s.scaler.tick s.fleet s.now).scaler
          fleet := (s.scaler.tick s.fleet s.now).fleet, reports := s.reports.push r }
        { scaler := (s'.scaler.tick s'.fleet s'.now).scaler
          fleet := (s'.scaler.tick s'.fleet s'.now).fleet, reports := s'.reports.push r' } := by
  obtain ⟨last, hlast, hpool, hle⟩ :=
    exists_poolD_tick h.isPart.isSound s.scaler s.now h.isPart.listed_advance
  have hpool' := poolD_tick_of_keys h.isPart.isSound' s'.scaler s'.now
    (SortedMap.keys_eq_singleton h.isPart.alone_advance)
  -- New instances are counted on from the latest id at the visit to the kind.
  let ρ' := countOn ρ s'.fleet.lastId last
  have hsame : ∀ x ≤ s'.fleet.lastId, ρ' x = ρ x := fun x hx => countOn_of_le hx
  have h' := h.congr (strictMono_countOn h.strictMono (h.lastId_le.trans hlast)) hsame
  have hrenamed : Pool.IsRenamed ρ' (s.fleet.advance.poolD kind, last)
      (s'.fleet.advance.poolD kind, s'.fleet.lastId) :=
    ⟨h'.poolD_advance, countOn_add ρ s'.fleet.lastId last⟩
  have hafter := hrenamed.applyAll h'.strictMono.injective s.fleet.windowTicks
    (s'.fleet.requests s'.scaler kind)
  rw [← h'.requests_eq, h.isPart.windowTicks, ← hpool', ← h.isPart.windowTicks] at hafter
  refine ⟨ρ', hsame, h.isPart.tick_fleet .., h.config, h'.strictMono, ?_, ?_, fun x hx => ?_⟩
  · have hlt := h'.strictMono (Nat.lt_succ_self (s'.scaler.tick s'.fleet s'.now).fleet.lastId)
    have hnext := hafter.next 0
    exact Nat.le_of_lt_succ (hlt.trans_le (hnext.le.trans (Nat.succ_le_succ hle)))
  · rw [hpool]
    exact hafter.pool
  · have hfst := congrArg Prod.fst hpool'
    dsimp only at hfst hx
    rw [hfst] at hx
    rcases Pool.mem_ids_applyAll hx with hold | hnew
    · rw [ids_poolD_advance] at hold
      exact h'.get?_idle_tick hr hr' hold
    · obtain ⟨n, rfl⟩ := Nat.exists_eq_add_of_le hnew
      have hname : ρ' (s'.fleet.lastId + 1 + n) = last + 1 + n := hrenamed.next n
      have hlt : s.fleet.lastId < ρ' (s'.fleet.lastId + 1 + n) := by
        rw [hname]
        exact (Nat.lt_succ_of_le hlast).trans_le (Nat.le_add_right ..)
      rw [h.isPart.isSound.get?_idle_tick_of_lt hlt, h.isPart.isSound'.get?_idle_tick_of_lt hnew]

/-- After any number of ticks there is one renaming for all that has been decided. -/
theorem exists_run (h : Mirrors kind ρ s s') (n : Nat) :
    ∃ t t' ρ' reports reports', s.run n = .ok t ∧ s'.run n = .ok t' ∧ Mirrors kind ρ' t t' ∧
      (∀ x ≤ s'.fleet.lastId, ρ' x = ρ x) ∧ reports.length = n ∧
      t.reports.toList = s.reports.toList ++ reports ∧
      t'.reports.toList = s'.reports.toList ++ reports' ∧
      List.Forall₂ (TickReport.Renames kind ρ') reports reports' := by
  induction n generalizing ρ s s' with
  | zero => exact ⟨s, s', ρ, [], [], rfl, rfl, h, fun _ _ => rfl, rfl, by simp, by simp, .nil⟩
  | succ n ih =>
      obtain ⟨r, hr, -⟩ := h.isPart.isSound.tick s.scaler s.now
      obtain ⟨r', hr', -⟩ := h.isPart.isSound'.tick s'.scaler s'.now
      obtain ⟨ρ₁, hsame₁, h₁⟩ := h.exists_tick hr hr'
      obtain ⟨t, t', ρ', reports, reports', hrun, hrun', h', hsame', hlength, hreports,
        hreports', hall⟩ := ih h₁
      -- The names given in this tick are those of the rest of the run.
      have hle := lastId_le_tick h.isPart.isSound' s'.scaler s'.now
      have hsame : ∀ x ≤ s'.fleet.lastId, ρ' x = ρ x :=
        fun x hx => (hsame' x (hx.trans hle)).trans (hsame₁ x hx)
      refine ⟨t, t', ρ', r :: reports, r' :: reports', (run_succ (step_eq hr) n).trans hrun,
        (run_succ (step_eq hr') n).trans hrun', h', hsame, congrArg (· + 1) hlength, ?_, ?_,
        .cons ((h.congr h'.strictMono hsame).renames hr hr') hall⟩
      · simp [hreports]
      · simp [hreports']

theorem kindFor_summary (h : Mirrors kind ρ s s') :
    ∃ k, s.summary.kindFor kind = some k ∧ s'.summary.kindFor kind = some k := by
  have hlisted' := (h.isPart.alone kind).2 rfl
  obtain ⟨p, hp⟩ := Option.isSome_iff_exists.1 (SortedMap.mem_keys_iff.1 h.isPart.listed)
  obtain ⟨p', hp'⟩ := Option.isSome_iff_exists.1 (SortedMap.mem_keys_iff.1 hlisted')
  have hpool := h.pool
  rw [poolD_of_get? hp, poolD_of_get? hp'] at hpool
  refine ⟨p'.summary kind, ?_, ?_⟩
  · rw [summary, SimulatedFleet.kindFor_summary, hp, hpool, Option.map_some, Pool.summary_rename]
  · rw [summary, SimulatedFleet.kindFor_summary, hp', Option.map_some]

end Mirrors

theorem mirrors_load {c : Config} {f : SimulatedFleet} (hf : ofConfig c = .ok f) {t : Trace}
    (ht : t.validate = .ok ()) (hkind : kind ∈ t.allKinds) :
    Mirrors kind id { scaler := { config := c }, fleet := (f.load t).1 }
      { scaler := { config := c }, fleet := (f.load (t.restrict kind)).1 } := by
  have hpool : f.poolD kind = {} := by
    rw [(ofConfig_eq_ok hf).2.2]
    rfl
  refine ⟨isPart_load hf ht hkind, rfl, strictMono_id, ?_, ?_, fun _ _ => rfl⟩
  · rw [id_eq, lastId_load, lastId_load]
  · rw [poolD_load, poolD_load, hpool]
    rfl

end Simulation

/-- What a simulation does for a kind of its trace is what the simulation of the jobs of this
kind alone does: the kind ends up with the same figures, and in every tick the decisions for
it are the same but for the names of the instances, which one increasing renaming of the
whole run relates. -/
theorem kinds_do_not_interfere (c : Config) (t : Trace) (hc : c.validate = .ok ())
    (ht : t.validate = .ok ()) (kind : Kind) (hkind : kind ∈ t.allKinds) (n : Nat) :
    ∃ s s' s₁ s₁', Simulation.new c t = .ok s ∧ Simulation.new c (t.restrict kind) = .ok s' ∧
      s.run n = .ok s₁ ∧ s'.run n = .ok s₁' ∧
      (∃ k, s₁.summary.kindFor kind = some k ∧ s₁'.summary.kindFor kind = some k) ∧
      s₁.reports.size = n ∧ ∃ ρ : InstanceId → InstanceId, StrictMono ρ ∧
        List.Forall₂ (TickReport.Renames kind ρ) s₁.reports.toList s₁'.reports.toList := by
  have ht' := t.validate_restrict ht kind
  obtain ⟨f, hf, hnew⟩ := Simulation.exists_new_eq hc ht
  obtain ⟨f', hf', hnew'⟩ := Simulation.exists_new_eq hc ht'
  obtain rfl : f = f' := Except.ok.inj (hf.symm.trans hf')
  obtain ⟨s₁, s₁', ρ, reports, reports', hrun, hrun', hmirrors, -, hlength, hreports, hreports',
    hall⟩ := (Simulation.mirrors_load hf ht hkind).exists_run n
  refine ⟨_, _, s₁, s₁', hnew, hnew', hrun, hrun', hmirrors.kindFor_summary, ?_, ρ,
    hmirrors.strictMono, ?_⟩
  · rw [← Array.length_toList, hreports]
    simpa using hlength
  · rw [hreports, hreports']
    simpa using hall

/-- A job of one kind, beside another kind that has none. -/
def crowdedTrace : Trace := { jobs := [⟨"web", 1, "4m", 1⟩], kinds := ["api"] }

theorem kinds_do_not_interfere_crowded :
    let c : Config := { idleGraceTicks := 1 }
    let requested (s : Simulation) : Option (List Action) :=
      (s.reports[2]?.bind (·.decisionFor "web")).map (·.actions)
    c.validate = .ok () ∧ crowdedTrace.validate = .ok () ∧ "web" ∈ crowdedTrace.allKinds ∧
    ∃ s s' s₁ s₁', Simulation.new c crowdedTrace = .ok s ∧
      Simulation.new c (crowdedTrace.restrict "web") = .ok s' ∧
      s.run 3 = .ok s₁ ∧ s'.run 3 = .ok s₁' ∧
      requested s₁ = some [.destroy "web" 3] ∧ requested s₁' = some [.destroy "web" 2] ∧
      ∃ ρ : InstanceId → InstanceId, StrictMono ρ ∧
        List.Forall₂ (TickReport.Renames "web" ρ) s₁.reports.toList s₁'.reports.toList := by
  intro c requested
  have hc : c.validate = .ok () := by decide +kernel
  have ht : crowdedTrace.validate = .ok () := by decide +kernel
  have hkind : "web" ∈ crowdedTrace.allKinds := by decide +kernel
  obtain ⟨s, s', s₁, s₁', hnew, hnew', hrun, hrun', -, -, ρ, hρ, hall⟩ :=
    kinds_do_not_interfere c crowdedTrace hc ht "web" hkind 3
  refine ⟨hc, ht, hkind, s, s', s₁, s₁', hnew, hnew', hrun, hrun', ?_, ?_, ρ, hρ, hall⟩
  · have hfull : (do
        let s ← (Simulation.new c crowdedTrace).toOption
        let s₁ ← (s.run 3).toOption
        requested s₁) = some [.destroy "web" 3] := by
      decide +kernel
    rw [hnew] at hfull
    simpa [Except.toOption, hrun] using hfull
  · have halone : (do
        let s ← (Simulation.new c (crowdedTrace.restrict "web")).toOption
        let s₁ ← (s.run 3).toOption
        requested s₁) = some [.destroy "web" 2] := by
      decide +kernel
    rw [hnew'] at halone
    simpa [Except.toOption, hrun'] using halone

end FleetSizing
