import FleetSizing.Proofs.SimulatedFleet.Changes
/-!
# Traces that are rejected

A trace is rejected for the first of its jobs that has a defect.  All that a fleet keeps of
it are the kinds that it names: they have empty pools now if they were unknown.  Whatever is
done afterwards, the fleet goes on as if the trace had never been there.
-/

namespace FleetSizing

theorem JobSpec.seconds_eq_error_iff {job : JobSpec} {defect : JobDefect} :
    job.seconds = .error defect ↔
      (∃ e, Duration.parse job.duration = .error e ∧ defect = .duration e) ∨
        Duration.parse job.duration = .ok 0 ∧ defect = .zero := by
  unfold seconds
  cases hparse : Duration.parse job.duration with
  | error e =>
      show Except.error (JobDefect.duration e) = .error defect ↔ _
      simp [eq_comm]
  | ok n =>
      show (if n = 0 then .error .zero else .ok n : Except JobDefect Nat) = .error defect ↔ _
      by_cases hn : n = 0
      · simp [hn, eq_comm]
      · simp [hn]

namespace Trace

variable {t : Trace} {e : TraceError} {jobs : List JobSpec} {index : Nat}

theorem secondsFrom_of_defect {before after : List JobSpec} {job : JobSpec} {defect : JobDefect}
    (hbefore : ∀ job ∈ before, job.seconds.isOk = true) (hjob : job.seconds = .error defect)
    (index : Nat) :
    secondsFrom index (before ++ job :: after) =
      .error (.invalidJob (index + before.length) defect) := by
  induction before generalizing index with
  | nil =>
      rw [List.nil_append, secondsFrom_cons, hjob]
      rfl
  | cons first before ih =>
      obtain ⟨hfirst, hrest⟩ := List.forall_mem_cons.1 hbefore
      rw [List.cons_append, secondsFrom_cons, ih hrest, List.length_cons]
      cases hn : first.seconds with
      | error defect =>
          rw [hn] at hfirst
          cases hfirst
      | ok n =>
          show Except.error (TraceError.invalidJob (index + 1 + before.length) defect) = _
          rw [Nat.add_right_comm, Nat.add_assoc]

theorem exists_defect_of_secondsFrom (h : secondsFrom index jobs = .error e) :
    ∃ before job after defect, jobs = before ++ job :: after ∧
      (∀ job ∈ before, job.seconds.isOk = true) ∧ job.seconds = .error defect := by
  induction jobs generalizing index e with
  | nil => cases h
  | cons job jobs ih =>
      rw [secondsFrom_cons] at h
      cases hn : job.seconds with
      | error defect => exact ⟨[], job, jobs, defect, rfl, nofun, hn⟩
      | ok n =>
          rw [hn] at h
          cases hrest : secondsFrom (index + 1) jobs with
          | ok seconds =>
              rw [hrest] at h
              cases h
          | error e' =>
              obtain ⟨before, job', after, defect, rfl, hbefore, hjob'⟩ := ih hrest
              have hall : ∀ job' ∈ job :: before, job'.seconds.isOk = true := by
                rw [List.forall_mem_cons, hn]
                exact ⟨rfl, hbefore⟩
              exact ⟨job :: before, job', after, defect, rfl, hall, hjob'⟩

theorem validate_eq_error_iff :
    t.validate = .error e ↔
      ∃ before job after defect, t.jobs = before ++ job :: after ∧
        (∀ job ∈ before, job.seconds.isOk = true) ∧ job.seconds = .error defect ∧
        e = .invalidJob before.length defect := by
  have hseconds : t.validate = .error e ↔ secondsFrom 0 t.jobs = .error e := by
    unfold validate
    cases secondsFrom 0 t.jobs <;> simp [bind, Except.bind, pure, Except.pure]
  rw [hseconds]
  constructor
  · intro h
    obtain ⟨before, job, after, defect, hjobs, hbefore, hjob⟩ := exists_defect_of_secondsFrom h
    rw [hjobs, secondsFrom_of_defect hbefore hjob, Nat.zero_add] at h
    exact ⟨before, job, after, defect, hjobs, hbefore, hjob, (Except.error.inj h).symm⟩
  · rintro ⟨before, job, after, defect, hjobs, hbefore, hjob, rfl⟩
    rw [hjobs, secondsFrom_of_defect hbefore hjob, Nat.zero_add]

end Trace

namespace SortedMap

variable {α β γ : Type} [Ord α] [Std.TransOrd α] [Std.LawfulEqOrd α]

theorem findSome?_values_upsert {p : β → Option γ} {v₀ : β} (hv₀ : p v₀ = none)
    (m : SortedMap α β) (k : α) :
    (m.upsert k v₀ id).values.findSome? p = m.values.findSome? p := by
  have hupdate (entries : List (α × β)) :
      ((update k (fun v => some (id (v.getD v₀))) entries).map (·.2)).findSome? p =
        (entries.map (·.2)).findSome? p := by
    induction entries with
    | nil => simp [update, hv₀]
    | cons entry rest ih =>
        obtain ⟨k', v⟩ := entry
        unfold update
        split
        · simp [hv₀]
        · simp
        · simp only [List.map_cons, List.findSome?_cons, ih]
  exact hupdate m.toList

end SortedMap

namespace SimulatedFleet

variable {f g : SimulatedFleet}

/-! ## What is left of a rejected trace -/

/-- The second fleet is the first one, with empty pools for those of some kinds that are
unknown to it. -/
structure AddsKinds (kinds : List Kind) (f g : SimulatedFleet) : Prop extends f.IsAbreast g where
  lastId : g.lastId = f.lastId
  pool : ∀ kind, g.pools.get? kind =
    (f.pools.get? kind).or (if kind ∈ kinds then some {} else none)

theorem get?_register (f : SimulatedFleet) (kind kind' : Kind) :
    (f.register kind').pools.get? kind =
      (f.pools.get? kind).or (if kind = kind' then some {} else none) := by
  rw [register, SortedMap.get?_upsert]
  split
  next heq =>
    rw [heq]
    cases f.pools.get? kind' <;> rfl
  next => rw [Option.or_none]

theorem addsKinds_foldl_register (f : SimulatedFleet) (kinds : List Kind) :
    AddsKinds kinds f (kinds.foldl register f) where
  toIsAbreast := isAbreast_foldl_register f kinds
  lastId := lastId_foldl_register f kinds
  pool := by
    intro kind
    induction kinds generalizing f with
    | nil => exact (Option.or_none ..).symm
    | cons k kinds ih =>
        rw [List.foldl_cons, ih, get?_register, Option.or_assoc]
        by_cases hk : kind = k <;> by_cases hkinds : kind ∈ kinds <;> simp [hk, hkinds]

theorem instance?_foldl_register (f : SimulatedFleet) (kinds : List Kind) (id : InstanceId) :
    (kinds.foldl register f).instance? id = f.instance? id :=
  List.foldlRecOn (motive := fun g => g.instance? id = f.instance? id) kinds register rfl
    fun g hg kind _ => (SortedMap.findSome?_values_upsert rfl g.pools kind).trans hg

theorem outstandingJobs_register (f : SimulatedFleet) (kind : Kind) :
    (f.register kind).outstandingJobs = f.outstandingJobs := by
  have hsum (w : Pool → Nat) (hw : w {} = 0) :
      sumOf w (f.pools.upsert kind {} id).values = sumOf w f.pools.values :=
    SortedMap.sumOf_values_upsert (n := 0) hw (fun _ => rfl) f.pools kind
  show f.pendingJobs + sumOf (·.backlog.length) (f.pools.upsert kind {} id).values +
    sumOf (·.busyCount) (f.pools.upsert kind {} id).values = _
  rw [hsum (·.backlog.length) rfl, hsum (·.busyCount) rfl]
  rfl

theorem outstandingJobs_foldl_register (f : SimulatedFleet) (kinds : List Kind) :
    (kinds.foldl register f).outstandingJobs = f.outstandingJobs :=
  List.foldlRecOn (motive := fun g => g.outstandingJobs = f.outstandingJobs) kinds register rfl
    fun g hg kind _ => (g.outstandingJobs_register kind).trans hg

theorem snd_load (f : SimulatedFleet) (t : Trace) : (f.load t).2 = t.validate := by
  unfold load Trace.arrivals Trace.validate
  cases Trace.secondsFrom 0 t.jobs <;> rfl

theorem fst_load_of_error {t : Trace} {e : TraceError} (h : t.validate = .error e)
    (f : SimulatedFleet) : (f.load t).1 = t.allKinds.foldl register f := by
  have hinvalid : t.validate ≠ .ok () := by simp [h]
  obtain ⟨_, hload⟩ := load_of_not_validate hinvalid f
  rw [hload]

/-! ## What comes afterwards -/

/-- The fleets differ in nothing but kinds whose pools are empty. -/
structure AgreesWith (f g : SimulatedFleet) : Prop extends f.IsAbreast g where
  lastId : g.lastId = f.lastId
  poolD : ∀ kind, g.poolD kind = f.poolD kind

theorem AddsKinds.agreesWith {kinds : List Kind} (h : AddsKinds kinds f g) : f.AgreesWith g where
  toIsAbreast := h.toIsAbreast
  lastId := h.lastId
  poolD := by
    intro kind
    unfold SimulatedFleet.poolD
    rw [h.pool]
    cases f.pools.get? kind with
    | some p => rfl
    | none => by_cases hkind : kind ∈ kinds <;> simp [hkind]

namespace AgreesWith

theorem due_eq (h : f.AgreesWith g) : g.due = f.due := by
  unfold due
  rw [h.arrivals, h.tick]

theorem later_eq (h : f.AgreesWith g) : g.later = f.later := by
  unfold later
  rw [h.arrivals, h.tick]

theorem register (h : f.AgreesWith g) (kind : Kind) :
    (f.register kind).AgreesWith (g.register kind) where
  toIsAbreast := ⟨h.tickSeconds, h.windowTicks, h.arrivals, h.tick⟩
  lastId := h.lastId
  poolD := by
    intro kind'
    rw [poolD_register, poolD_register, h.poolD]

theorem load (h : f.AgreesWith g) (t : Trace) : (f.load t).1.AgreesWith (g.load t).1 where
  toIsAbreast := by
    by_cases ht : t.validate = .ok ()
    · have hscheduled : IsAbreast
          { f with arrivals := schedule (t.jobs.map (·.arrival) ++ f.arrivals) }
          { g with arrivals := schedule (t.jobs.map (·.arrival) ++ g.arrivals) } :=
        ⟨h.tickSeconds, h.windowTicks, by rw [h.arrivals], h.tick⟩
      exact ((isAbreast_load ht f).symm.trans hscheduled).trans (isAbreast_load ht g)
    · obtain ⟨_, hf⟩ := load_of_not_validate ht f
      obtain ⟨_, hg⟩ := load_of_not_validate ht g
      rw [hf, hg]
      exact ((isAbreast_foldl_register f _).symm.trans h.toIsAbreast).trans
        (isAbreast_foldl_register g _)
  lastId := by rw [lastId_load, lastId_load, h.lastId]
  poolD := by
    intro kind
    rw [poolD_load, poolD_load, h.poolD]

theorem create (h : f.AgreesWith g) (kind : Kind) :
    (f.create kind).AgreesWith (g.create kind) where
  toIsAbreast := ⟨h.tickSeconds, h.windowTicks, h.arrivals, h.tick⟩
  lastId := congrArg (· + 1) h.lastId
  poolD := by
    intro kind'
    rw [poolD_create, poolD_create, h.poolD, h.lastId, h.windowTicks]

theorem destroy (h : f.AgreesWith g) (id : InstanceId) :
    (f.destroy id).AgreesWith (g.destroy id) where
  toIsAbreast := ⟨h.tickSeconds, h.windowTicks, h.arrivals, h.tick⟩
  lastId := h.lastId
  poolD := by
    intro kind
    rw [poolD_destroy, poolD_destroy, h.poolD]

theorem advance (h : f.AgreesWith g) : f.advance.AgreesWith g.advance where
  toIsAbreast := by
    have hnext : IsAbreast { f with tick := f.tick + 1, arrivals := f.later }
        { g with tick := g.tick + 1, arrivals := g.later } :=
      ⟨h.tickSeconds, h.windowTicks, h.later_eq, congrArg (· + 1) h.tick⟩
    exact ((isAbreast_advance f).symm.trans hnext).trans (isAbreast_advance g)
  lastId := by rw [lastId_advance, lastId_advance, h.lastId]
  poolD := by
    intro kind
    rw [poolD_advance, poolD_advance, poolD_atWork, poolD_atWork, h.poolD, h.due_eq, h.tickSeconds]

theorem change (h : f.AgreesWith g) (c : Change) : (f.change c).AgreesWith (g.change c) := by
  match c with
  | .register kind => exact h.register kind
  | .load trace => exact h.load trace
  | .request (.create kind) => exact h.create kind
  | .request (.destroy _ id) => exact h.destroy id
  | .sync _ => exact h.advance

theorem changeAll (h : f.AgreesWith g) (cs : List Change) :
    (f.changeAll cs).AgreesWith (g.changeAll cs) := by
  induction cs generalizing f g with
  | nil => exact h
  | cons c cs ih => exact ih (h.change c)

theorem admitted_eq (h : f.AgreesWith g) (cs : List Change) : g.admitted cs = f.admitted cs := by
  induction cs generalizing f g with
  | nil => rfl
  | cons c cs ih =>
      have hstep : g.admittedBy c = f.admittedBy c := by
        cases c with
        | sync now => exact h.due_eq
        | register | load | request => rfl
      unfold admitted
      rw [hstep, ih (h.change c)]

end AgreesWith

/-- Loading fails exactly if the trace is defective, for the first of its defective jobs.  The
fleet then has empty pools for the kinds of the trace that it did not know, and is the same
in all else: whatever is done afterwards, it goes on as if nothing had been loaded, and of
what was loaded earlier each job is admitted at its tick. -/
theorem rejected_load_adds_kinds_only (f : SimulatedFleet) (t : Trace) :
    (f.load t).2 = t.validate ∧
    (∀ e, t.validate = .error e ↔
      ∃ before job after defect, t.jobs = before ++ job :: after ∧
        (∀ job ∈ before, job.seconds.isOk = true) ∧ job.seconds = .error defect ∧
        e = .invalidJob before.length defect) ∧
    (∀ (job : JobSpec) (defect : JobDefect), job.seconds = .error defect ↔
      (∃ e, Duration.parse job.duration = .error e ∧ defect = .duration e) ∨
        Duration.parse job.duration = .ok 0 ∧ defect = .zero) ∧
    ∀ e, t.validate = .error e →
      let g := (f.load t).1
      AddsKinds t.allKinds f g ∧ (∀ id, g.instance? id = f.instance? id) ∧
      g.outstandingJobs = f.outstandingJobs ∧
      (∀ cs, (f.changeAll cs).AgreesWith (g.changeAll cs) ∧ g.admitted cs = f.admitted cs) ∧
      ((f.arrivals.Pairwise fun a b => a.tick ≤ b.tick) → ∀ a ∈ f.arrivals, ∀ cs,
        f.tick < (g.changeAll cs).tick → (a ∈ g.admitted cs ↔ a.tick ≤ (g.changeAll cs).tick)) := by
  refine ⟨f.snd_load t, fun e => Trace.validate_eq_error_iff,
    fun job defect => JobSpec.seconds_eq_error_iff, ?_⟩
  intro e he g
  have hg : g = t.allKinds.foldl register f := fst_load_of_error he f
  have hadds : AddsKinds t.allKinds f g := hg ▸ addsKinds_foldl_register f t.allKinds
  have hagree := hadds.agreesWith
  refine ⟨hadds, ?_, ?_, fun cs => ⟨hagree.changeAll cs, hagree.admitted_eq cs⟩, ?_⟩
  · intro id
    rw [hg, instance?_foldl_register]
  · rw [hg, outstandingJobs_foldl_register]
  · intro hsorted a ha cs hlater
    rw [← hagree.arrivals] at hsorted ha
    rw [← hagree.tick] at hlater
    exact mem_admitted_iff hsorted ha hlater

/-- Its second job takes no time, and no job is of its last kind. -/
def defectiveTrace : Trace where
  jobs := [⟨"db", 1, "1m", 1⟩, ⟨"web", 1, "0 s", 1⟩, ⟨"web", 2, "soon", 1⟩]
  kinds := ["api"]

/-- A trace is rejected for its second job by a fleet that waits for an earlier one. -/
theorem rejected_load_adds_kinds_only_defective :
    ∃ f₀, ofConfig {} = .ok f₀ ∧
      let f := (f₀.load pairTrace).1
      let g := (f.load defectiveTrace).1
      (f.load defectiveTrace).2 = .error (.invalidJob 1 .zero) ∧
      f.pools.get? "api" = none ∧ g.pools.get? "api" = some {} ∧ g.outstandingJobs = 2 ∧
      ⟨"web", 1, 300, 2⟩ ∈ g.admitted [.sync 120] := by
  have hdefective : defectiveTrace.validate = .error (.invalidJob 1 .zero) := by decide +kernel
  have hrun : (do
      let f₀ ← (ofConfig {}).toOption
      let f := (f₀.load pairTrace).1
      return ((f.pools.get? "api").isNone, f.arrivals, f.outstandingJobs, f.tick,
        (f.changeAll [.sync 120]).tick)) = some (true, [⟨"web", 1, 300, 2⟩], 2, 0, 1) := by
    decide +kernel
  simp only [bind, Option.bind_eq_some_iff] at hrun
  obtain ⟨f₀, hf₀, heq⟩ := hrun
  simp only [pure, Option.some.injEq, Prod.mk.injEq, Option.isNone_iff_eq_none] at heq
  obtain ⟨hnone, harrivals, houtstanding, htick, hnext⟩ := heq
  obtain ⟨hresult, -, -, hrejected⟩ :=
    rejected_load_adds_kinds_only (f₀.load pairTrace).1 defectiveTrace
  obtain ⟨hadds, -, hkept, hagree, hadmitted⟩ := hrejected _ hdefective
  refine ⟨f₀, eq_ok_of_toOption hf₀, hresult.trans hdefective, hnone, ?_,
    hkept.trans houtstanding, ?_⟩
  · have hnamed : "api" ∈ defectiveTrace.allKinds := by decide +kernel
    rw [hadds.pool, hnone, if_pos hnamed]
    rfl
  · rw [harrivals] at hadmitted
    have hlater := (hagree [.sync 120]).1.tick.trans hnext
    apply (hadmitted (List.pairwise_singleton ..) _ (List.mem_singleton_self _) _ _).2
    · exact hlater.ge
    · rw [htick, hlater]
      exact Nat.one_pos

end SimulatedFleet

end FleetSizing
