import FleetSizing.Proofs.SimulatedFleet.Conservation
import FleetSizing.Proofs.SimulatedFleet.Headcounts
import Mathlib.Order.Bounds.Basic
/-!
# Whatever is done with a fleet

Kinds are registered, traces are loaded, instances are requested and given up under any name,
and time goes on, in any order.  The counters tell what the pools have been through, and no
arrival is lost between a trace and the backlogs.
-/

namespace FleetSizing

/-- What can be done with a simulated fleet. -/
inductive Change where
  | register (kind : Kind)
  | load (trace : Trace)
  | request (action : Action)
  | sync (now : Nat)

namespace Change

def creates : Change → Nat
  | .request (.create _) => 1
  | .request (.destroy ..) | .register _ | .load _ | .sync _ => 0

/-- The arrivals that a change adds to the schedule, none for a defective trace. -/
def loaded : Change → List Arrival
  | .load trace => trace.arrivals.toOption.getD []
  | .register _ | .request _ | .sync _ => []

end Change

namespace SimulatedFleet

def change (f : SimulatedFleet) : Change → SimulatedFleet
  | .register kind => f.register kind
  | .load trace => (f.load trace).1
  | .request action => Fleet.apply f action
  | .sync now => Fleet.sync f now

def changeAll (f : SimulatedFleet) (cs : List Change) : SimulatedFleet := cs.foldl change f

/-- The arrivals that a change moves from the schedule to the backlogs. -/
def admittedBy (f : SimulatedFleet) : Change → List Arrival
  | .sync _ => f.due
  | .register _ | .load _ | .request _ => []

def admitted (f : SimulatedFleet) : List Change → List Arrival
  | [] => []
  | c :: cs => f.admittedBy c ++ (f.change c).admitted cs

variable {f g : SimulatedFleet} {kind : Kind} {a : Arrival} {loaded admitted : List Arrival}

theorem changeAll_concat (f : SimulatedFleet) (cs : List Change) (c : Change) :
    f.changeAll (cs ++ [c]) = (f.changeAll cs).change c := List.foldl_concat ..

theorem IsSound.change (hf : f.IsSound) (c : Change) : (f.change c).IsSound := by
  cases c with
  | register kind => exact hf.register kind
  | load trace => exact hf.load trace
  | request action => exact hf.apply action
  | sync now => exact hf.advance

theorem IsSound.changeAll (hf : f.IsSound) (cs : List Change) : (f.changeAll cs).IsSound :=
  List.foldlRecOn cs _ hf fun _ hg c _ => hg.change c

theorem IsSound.changes_change (hf : f.IsSound) (c : Change) (kind : Kind) :
    (f.poolD kind).headcount.Changes ((f.change c).poolD kind).headcount := by
  cases c with
  | register kind' =>
      have hkept : (f.change (.register kind')).poolD kind = f.poolD kind :=
        f.poolD_register kind kind'
      rw [hkept]
      exact .keep _
  | load trace =>
      have hkept : (f.change (.load trace)).poolD kind = f.poolD kind := f.poolD_load trace kind
      rw [hkept]
      exact .keep _
  | request action => exact hf.changes_apply action kind
  | sync now =>
      have hkept : ((f.change (.sync now)).poolD kind).headcount = (f.poolD kind).headcount :=
        f.headcount_poolD_advance kind
      rw [hkept]
      exact .keep _

theorem IsSound.isSound_headcount_changeAll (hf : f.IsSound)
    (h : (f.poolD kind).headcount.IsSound) (cs : List Change) :
    ((f.changeAll cs).poolD kind).headcount.IsSound := by
  induction cs generalizing f with
  | nil => exact h
  | cons c cs ih => exact ih (hf.change c) ((hf.changes_change c kind).isSound h)

def sizes (f : SimulatedFleet) (kind : Kind) (cs : List Change) : Set Nat :=
  {n | ∃ past, past <+: cs ∧ ((f.changeAll past).poolD kind).size = n}

theorem sizes_nil (f : SimulatedFleet) (kind : Kind) :
    f.sizes kind [] = {(f.poolD kind).size} := by
  ext n
  simp [sizes, changeAll, eq_comm]

theorem sizes_concat (f : SimulatedFleet) (kind : Kind) (cs : List Change) (c : Change) :
    f.sizes kind (cs ++ [c]) =
      insert ((f.changeAll (cs ++ [c])).poolD kind).size (f.sizes kind cs) := by
  ext n
  simp [sizes, List.prefix_concat_iff, or_and_right, exists_or, eq_comm]

theorem IsSound.isGreatest_peak (hf : f.IsSound) (h : (f.poolD kind).headcount.IsSound)
    (hpeak : (f.poolD kind).peak = (f.poolD kind).size) (cs : List Change) :
    IsGreatest (f.sizes kind cs) ((f.changeAll cs).poolD kind).peak := by
  induction cs using List.reverseRecOn with
  | nil =>
      rw [sizes_nil, ← hpeak]
      exact isGreatest_singleton
  | append_singleton cs c ih =>
      have hstep : ((f.changeAll (cs ++ [c])).poolD kind).peak =
          max ((f.changeAll cs).poolD kind).peak ((f.changeAll (cs ++ [c])).poolD kind).size := by
        rw [changeAll_concat]
        exact ((hf.changeAll cs).changes_change c kind).peak_eq
          (hf.isSound_headcount_changeAll h cs)
      rw [sizes_concat, hstep, max_comm]
      exact ih.insert _

def createdInstances (f : SimulatedFleet) : Nat := sumOf (·.created) f.pools.values

theorem createdInstances_upsert (f : SimulatedFleet) (kind : Kind) (change : Pool → Pool) {n : Nat}
    (h : ∀ p, (change p).created = p.created + n) :
    createdInstances { f with pools := f.pools.upsert kind {} change } =
      f.createdInstances + n := by
  have hempty : ({} : Pool).created = 0 := rfl
  exact SortedMap.sumOf_values_upsert (w := (·.created)) hempty h f.pools kind

theorem createdInstances_map (f : SimulatedFleet) (change : Pool → Pool)
    (h : ∀ p, (change p).created = p.created) :
    createdInstances { f with pools := f.pools.map change } = f.createdInstances := by
  unfold createdInstances
  rw [SortedMap.sumOf_values_map]
  exact sumOf_congr fun p _ => h p

theorem createdInstances_foldl_register (f : SimulatedFleet) (kinds : List Kind) :
    (kinds.foldl register f).createdInstances = f.createdInstances :=
  List.foldlRecOn (motive := fun g => g.createdInstances = f.createdInstances) kinds register rfl
    fun g hg kind _ => (g.createdInstances_upsert (n := 0) kind id fun _ => rfl).trans hg

theorem createdInstances_foldl_submit (f : SimulatedFleet) (arrivals : List Arrival) :
    (arrivals.foldl submit f).createdInstances = f.createdInstances :=
  List.foldlRecOn (motive := fun g => g.createdInstances = f.createdInstances) arrivals submit rfl
    fun g hg a _ =>
      (g.createdInstances_upsert (n := 0) a.kind (·.submit a.seconds a.count) fun _ => rfl).trans hg

theorem createdInstances_load (f : SimulatedFleet) (t : Trace) :
    (f.load t).1.createdInstances = f.createdInstances := by
  have hregistered := f.createdInstances_foldl_register t.allKinds
  unfold load
  split <;> exact hregistered

theorem createdInstances_advance (f : SimulatedFleet) :
    f.advance.createdInstances = f.createdInstances :=
  (f.atWork.createdInstances_map (·.work f.atWork.tickSeconds) fun _ => rfl).trans
    (createdInstances_foldl_submit { f with tick := f.tick + 1, arrivals := f.later } f.due)

theorem createdInstances_change (f : SimulatedFleet) (c : Change) :
    (f.change c).createdInstances = f.createdInstances + c.creates := by
  match c with
  | .register kind => exact f.createdInstances_upsert (n := 0) kind id fun _ => rfl
  | .load trace => exact f.createdInstances_load trace
  | .request (.create kind) =>
      exact f.createdInstances_upsert kind (·.add (f.lastId + 1) f.windowTicks) fun _ => rfl
  | .request (.destroy kind id) =>
      exact f.createdInstances_map (·.remove id) fun p => p.created_remove id
  | .sync now => exact f.createdInstances_advance

theorem lastId_change (f : SimulatedFleet) (c : Change) :
    (f.change c).lastId = f.lastId + c.creates := by
  match c with
  | .register _ | .request (.create _) | .request (.destroy ..) => rfl
  | .load trace => exact f.lastId_load trace
  | .sync now => exact f.lastId_advance

theorem lastId_changeAll (f : SimulatedFleet) (cs : List Change) :
    (f.changeAll cs).lastId = f.lastId + sumOf (·.creates) cs :=
  sumOf_foldl lastId_change f cs

theorem createdInstances_changeAll (f : SimulatedFleet) (cs : List Change) :
    (f.changeAll cs).createdInstances = f.createdInstances + sumOf (·.creates) cs :=
  sumOf_foldl createdInstances_change f cs

/-! ## Arrivals -/

/-- The schedule is sorted, and has what was loaded but not what was admitted, which is over
and was submitted to the pools. -/
structure IsScheduled (f : SimulatedFleet) (loaded admitted : List Arrival) : Prop where
  sorted : f.arrivals.Pairwise fun a b => a.tick ≤ b.tick
  perm : (admitted ++ f.arrivals).Perm loaded
  tick_le : ∀ a ∈ admitted, a.tick ≤ f.tick
  submitted : ∀ kind,
    (f.poolD kind).submitted = sumOf (·.count) (admitted.filter (·.kind = kind))

theorem IsScheduled.of_isAbreast (h : f.IsScheduled loaded admitted) (hg : f.IsAbreast g)
    (hsubmitted : ∀ kind, (g.poolD kind).submitted = (f.poolD kind).submitted) :
    g.IsScheduled loaded admitted where
  sorted := hg.arrivals ▸ h.sorted
  perm := hg.arrivals ▸ h.perm
  tick_le := hg.tick ▸ h.tick_le
  submitted := fun kind => (hsubmitted kind).trans (h.submitted kind)

theorem IsScheduled.register (h : f.IsScheduled loaded admitted) (kind : Kind) :
    (f.register kind).IsScheduled loaded admitted :=
  h.of_isAbreast ⟨rfl, rfl, rfl, rfl⟩ fun kind' => by rw [poolD_register]

theorem IsScheduled.apply (h : f.IsScheduled loaded admitted) (a : Action) :
    (Fleet.apply f a).IsScheduled loaded admitted := by
  cases a with
  | create kind =>
      have hcreate : (f.create kind).IsScheduled loaded admitted := by
        refine h.of_isAbreast ⟨rfl, rfl, rfl, rfl⟩ fun kind' => ?_
        rw [poolD_create]
        split <;> rfl
      exact hcreate
  | destroy kind id =>
      have hdestroy : (f.destroy id).IsScheduled loaded admitted := by
        refine h.of_isAbreast ⟨rfl, rfl, rfl, rfl⟩ fun kind' => ?_
        rw [poolD_destroy, Pool.submitted_remove]
      exact hdestroy

theorem IsScheduled.load (h : f.IsScheduled loaded admitted) (t : Trace) :
    (f.load t).1.IsScheduled (loaded ++ t.arrivals.toOption.getD []) admitted := by
  have hregistered : (t.allKinds.foldl SimulatedFleet.register f).IsScheduled loaded admitted :=
    h.of_isAbreast (isAbreast_foldl_register ..) fun kind => by rw [poolD_foldl_register]
  unfold SimulatedFleet.load
  cases t.arrivals with
  | error e => exact (List.append_nil loaded).symm ▸ hregistered
  | ok new =>
      refine ⟨pairwise_schedule _, ?_, hregistered.tick_le, hregistered.submitted⟩
      have hnew := (schedule_perm (new ++ (t.allKinds.foldl SimulatedFleet.register f).arrivals)).trans
        List.perm_append_comm
      refine (hnew.append_left admitted).trans ?_
      rw [← List.append_assoc]
      exact hregistered.perm.append_right new

theorem IsScheduled.advance (h : f.IsScheduled loaded admitted) :
    f.advance.IsScheduled loaded (admitted ++ f.due) where
  sorted := by
    rw [(isAbreast_advance f).arrivals, later_eq_filter h.sorted]
    exact h.sorted.filter _
  perm := by
    rw [(isAbreast_advance f).arrivals, List.append_assoc, due_append_later]
    exact h.perm
  tick_le := by
    intro a ha
    rw [(isAbreast_advance f).tick]
    rcases List.mem_append.1 ha with ha | ha
    · exact Nat.le_succ_of_le (h.tick_le a ha)
    · rw [due_eq_filter h.sorted] at ha
      simpa using List.of_mem_filter ha
  submitted := by
    intro kind
    rw [poolD_advance, List.filter_append, sumOf_append, ← h.submitted kind]
    change (f.atWork.poolD kind).submitted = _
    rw [poolD_atWork, Pool.submitted_receive]

theorem IsScheduled.change (h : f.IsScheduled loaded admitted) (c : Change) :
    (f.change c).IsScheduled (loaded ++ c.loaded) (admitted ++ f.admittedBy c) := by
  have hloaded : loaded ++ [] = loaded := List.append_nil _
  have hadmitted : admitted ++ [] = admitted := List.append_nil _
  cases c with
  | register kind =>
      change (f.register kind).IsScheduled (loaded ++ []) (admitted ++ [])
      rw [hloaded, hadmitted]
      exact h.register kind
  | load trace =>
      change (f.load trace).1.IsScheduled (loaded ++ _) (admitted ++ [])
      rw [hadmitted]
      exact h.load trace
  | request action =>
      change (Fleet.apply f action).IsScheduled (loaded ++ []) (admitted ++ [])
      rw [hloaded, hadmitted]
      exact h.apply action
  | sync now =>
      change f.advance.IsScheduled (loaded ++ []) _
      rw [hloaded]
      exact h.advance

theorem IsScheduled.changeAll (h : f.IsScheduled loaded admitted) (cs : List Change) :
    (f.changeAll cs).IsScheduled (loaded ++ cs.flatMap (·.loaded)) (admitted ++ f.admitted cs) := by
  induction cs generalizing f loaded admitted with
  | nil =>
      change f.IsScheduled (loaded ++ []) (admitted ++ [])
      rwa [List.append_nil, List.append_nil]
  | cons c cs ih =>
      have hrest := ih (h.change c)
      rw [List.append_assoc, List.append_assoc] at hrest
      exact hrest

theorem IsScheduled.perm_arrivals_advance (h : f.IsScheduled loaded admitted) :
    f.advance.arrivals.Perm (loaded.filter (f.advance.tick < ·.tick)) := by
  obtain ⟨-, hperm, hpast, -⟩ := h.advance
  have hfuture : f.advance.arrivals.filter (f.advance.tick < ·.tick) = f.advance.arrivals := by
    rw [(isAbreast_advance f).arrivals, (isAbreast_advance f).tick, later_eq_filter h.sorted, List.filter_filter]
    simp
  have hnone : (admitted ++ f.due).filter (f.advance.tick < ·.tick) = [] := by
    simpa only [List.filter_eq_nil_iff, decide_eq_true_iff, Nat.not_lt] using hpast
  have hfiltered := hperm.filter (f.advance.tick < ·.tick)
  rwa [List.filter_append, hnone, hfuture, List.nil_append] at hfiltered

/-! ## Punctuality -/

theorem tick_load (f : SimulatedFleet) (t : Trace) : (f.load t).1.tick = f.tick := by
  have hregistered := (isAbreast_foldl_register f t.allKinds).tick
  unfold load
  split <;> exact hregistered

theorem mem_arrivals_load (ha : a ∈ f.arrivals) (t : Trace) : a ∈ (f.load t).1.arrivals := by
  rw [← (isAbreast_foldl_register f t.allKinds).arrivals] at ha
  unfold load
  split
  · exact ha
  · rw [(schedule_perm _).mem_iff]
    exact List.mem_append_right _ ha

theorem tick_le_change (f : SimulatedFleet) (c : Change) : f.tick ≤ (f.change c).tick := by
  match c with
  | .register _ | .request (.create _) | .request (.destroy ..) => exact Nat.le_refl _
  | .load trace => exact (f.tick_load trace).ge
  | .sync now => exact (Nat.le_succ _).trans (isAbreast_advance f).tick.ge

theorem tick_le_changeAll (f : SimulatedFleet) (cs : List Change) :
    f.tick ≤ (f.changeAll cs).tick := by
  induction cs generalizing f with
  | nil => exact Nat.le_refl _
  | cons c cs ih => exact (f.tick_le_change c).trans (ih (f.change c))

theorem pairwise_arrivals_change (h : f.arrivals.Pairwise fun a b => a.tick ≤ b.tick)
    (c : Change) : (f.change c).arrivals.Pairwise fun a b => a.tick ≤ b.tick := by
  match c with
  | .register _ | .request (.create _) | .request (.destroy ..) => exact h
  | .load trace =>
      rw [← (isAbreast_foldl_register f trace.allKinds).arrivals] at h
      show (f.load trace).1.arrivals.Pairwise _
      unfold load
      split
      · exact h
      · exact pairwise_schedule _
  | .sync now =>
      show f.advance.arrivals.Pairwise _
      rw [(isAbreast_advance f).arrivals, later_eq_filter h]
      exact h.filter _

/-- A change admits what is to arrive or leaves it to arrive.  If it takes a tick, it leaves
only what has its own tick still ahead. -/
theorem mem_arrivals_change (h : f.arrivals.Pairwise fun a b => a.tick ≤ b.tick)
    (ha : a ∈ f.arrivals) (c : Change) :
    a ∈ f.admittedBy c ∨ a ∈ (f.change c).arrivals ∧
      ((f.change c).tick = f.tick ∨ (f.change c).tick < a.tick) := by
  match c with
  | .register _ | .request (.create _) | .request (.destroy ..) => exact .inr ⟨ha, .inl rfl⟩
  | .load trace => exact .inr ⟨mem_arrivals_load ha trace, .inl (f.tick_load trace)⟩
  | .sync now =>
      rw [← due_append_later, List.mem_append] at ha
      apply ha.imp id
      intro hlater
      show a ∈ f.advance.arrivals ∧ (f.advance.tick = f.tick ∨ f.advance.tick < a.tick)
      rw [(isAbreast_advance f).arrivals, (isAbreast_advance f).tick]
      refine ⟨hlater, .inr ?_⟩
      rw [later_eq_filter h] at hlater
      simpa using List.of_mem_filter hlater

theorem tick_le_of_mem_admitted {cs : List Change} (ha : a ∈ f.admitted cs) :
    a.tick ≤ (f.changeAll cs).tick := by
  induction cs generalizing f with
  | nil => cases ha
  | cons c cs ih =>
      rcases List.mem_append.1 ha with ha | ha
      · cases c with
        | register | load | request => cases ha
        | sync now =>
            have hdue : a.tick ≤ f.tick + 1 := by simpa using List.mem_takeWhile_imp ha
            have hnext : f.advance.tick = f.tick + 1 := (isAbreast_advance f).tick
            exact (hdue.trans hnext.ge).trans (f.advance.tick_le_changeAll cs)
      · exact ih ha

/-- From the next tick on, what has been admitted of a schedule is what has had its tick. -/
theorem mem_admitted_iff (h : f.arrivals.Pairwise fun a b => a.tick ≤ b.tick)
    (ha : a ∈ f.arrivals) {cs : List Change} (hlater : f.tick < (f.changeAll cs).tick) :
    a ∈ f.admitted cs ↔ a.tick ≤ (f.changeAll cs).tick := by
  constructor
  · exact tick_le_of_mem_admitted
  · intro htick
    induction cs generalizing f with
    | nil => exact absurd hlater (Nat.lt_irrefl _)
    | cons c cs ih =>
        apply List.mem_append.2
        apply (mem_arrivals_change h ha c).imp id
        rintro ⟨hstill, hwhen⟩
        have hlater' : (f.change c).tick < ((f.change c).changeAll cs).tick := by
          rcases hwhen with hsame | hfuture
          · exact hsame.trans_lt hlater
          · exact hfuture.trans_le htick
        exact ih (pairwise_arrivals_change h c) hstill hlater' htick

end SimulatedFleet

end FleetSizing
