import FleetSizing.Proofs.SimulatedFleet.Accounts
import FleetSizing.Proofs.SimulatedFleet.Schedule
import FleetSizing.Proofs.SimulatedFleet.Sessions
/-!
# Conservation of jobs

Whatever is done with a simulated fleet, every job that it was given is yet to arrive, waits,
is in flight or is completed.  Requests move work between instances and backlogs, and leave
the work to be done for each kind as it is.
-/

namespace FleetSizing

namespace SortedMap

variable {α β : Type} [Ord α]

theorem sumOf_values_map (m : SortedMap α β) (w : β → Nat) (f : β → β) :
    sumOf w (m.map f).values = sumOf (fun v => w (f v)) m.values := by
  unfold values map
  rw [List.map_map, sumOf_map, sumOf_map]
  rfl

variable [Std.TransOrd α] [Std.LawfulEqOrd α]

theorem sumOf_values_upsert {w : β → Nat} {f : β → β} {v₀ : β} {n : Nat} (hv₀ : w v₀ = 0)
    (hf : ∀ v, w (f v) = w v + n) (m : SortedMap α β) (k : α) :
    sumOf w (m.upsert k v₀ f).values = sumOf w m.values + n := by
  have hnew : w (f v₀) = n := by rw [hf, hv₀, Nat.zero_add]
  have hupdate (entries : List (α × β)) :
      sumOf w ((update k (fun v => some (f (v.getD v₀))) entries).map (·.2)) =
        sumOf w (entries.map (·.2)) + n := by
    induction entries with
    | nil => simp [update, hnew]
    | cons entry rest ih =>
        obtain ⟨k', v⟩ := entry
        unfold update
        split
        · simp [hnew, Nat.add_comm]
        · simp [hf, Nat.add_right_comm]
        · simp [ih, Nat.add_assoc]
  exact hupdate m.toList

end SortedMap

namespace SimulatedFleet

variable {f : SimulatedFleet} {loaded : Nat}

/-! ## The balance of a fleet -/

def submittedJobs (f : SimulatedFleet) : Nat := sumOf (·.submitted) f.pools.values

def completedJobs (f : SimulatedFleet) : Nat := sumOf (·.completed) f.pools.values

/-- Every pool is balanced, and the jobs loaded have been submitted or are yet to arrive. -/
structure IsBalanced (f : SimulatedFleet) (loaded : Nat) : Prop where
  pool : ∀ kind, (f.poolD kind).IsBalanced
  loaded_eq : loaded = f.submittedJobs + f.pendingJobs

theorem IsBalanced.outstanding (hf : f.IsBalanced loaded) :
    f.outstandingJobs + f.completedJobs = loaded := by
  have hbalanced : ∀ p ∈ f.pools.values,
      p.submitted = p.completed + p.backlog.length + p.busyCount := by
    intro p hp
    obtain ⟨⟨kind, p⟩, hentry, rfl⟩ := List.mem_map.1 hp
    have hpool := hf.pool kind
    rwa [poolD_of_get? (SortedMap.get?_eq_some_iff.2 hentry)] at hpool
  have hsubmitted : f.submittedJobs =
      f.completedJobs + sumOf (·.backlog.length) f.pools.values
        + sumOf (·.busyCount) f.pools.values :=
    calc
      f.submittedJobs = sumOf (fun p => p.completed + p.backlog.length + p.busyCount)
          f.pools.values := sumOf_congr hbalanced
      _ = _ := by rw [sumOf_add, sumOf_add, completedJobs]
  have hloaded := hf.loaded_eq
  unfold outstandingJobs
  omega

theorem IsBalanced.upsert (hf : f.IsBalanced loaded) (kind : Kind) (change : Pool → Pool) {n : Nat}
    (hbalanced : ∀ p, p.IsBalanced → (change p).IsBalanced)
    (hsubmitted : ∀ p, (change p).submitted = p.submitted + n) :
    IsBalanced { f with pools := f.pools.upsert kind {} change } (loaded + n) where
  pool := by
    intro kind'
    rw [poolD_upsert]
    split
    · exact hbalanced _ (hf.pool kind')
    · exact hf.pool kind'
  loaded_eq := by
    have hempty : ({} : Pool).submitted = 0 := rfl
    have hsum := SortedMap.sumOf_values_upsert (w := (·.submitted)) hempty hsubmitted f.pools kind
    change loaded + n = sumOf (·.submitted) (f.pools.upsert kind {} change).values + f.pendingJobs
    rw [hsum, hf.loaded_eq]
    exact Nat.add_right_comm ..

theorem IsBalanced.map (hf : f.IsBalanced loaded) {change : Pool → Pool}
    (hempty : change {} = {}) (hbalanced : ∀ kind, (change (f.poolD kind)).IsBalanced)
    (hsubmitted : ∀ p, (change p).submitted = p.submitted) :
    IsBalanced { f with pools := f.pools.map change } loaded where
  pool := by
    intro kind
    rw [poolD_map f kind hempty]
    exact hbalanced kind
  loaded_eq := by
    have hloaded := hf.loaded_eq
    unfold submittedJobs at hloaded ⊢
    rw [SortedMap.sumOf_values_map, sumOf_congr fun p _ => hsubmitted p]
    exact hloaded

theorem IsBalanced.register (hf : f.IsBalanced loaded) (kind : Kind) :
    (f.register kind).IsBalanced loaded :=
  hf.upsert (n := 0) kind id (fun _ hp => hp) fun _ => rfl

theorem IsBalanced.create (hf : f.IsBalanced loaded) (kind : Kind) :
    (f.create kind).IsBalanced loaded := by
  have hupsert := hf.upsert (n := 0) kind (·.add (f.lastId + 1) f.windowTicks)
    (fun _ hp => hp.add _ _) fun _ => rfl
  exact ⟨hupsert.pool, hupsert.loaded_eq⟩

theorem IsBalanced.destroy (hf : f.IsBalanced loaded) (hsound : f.IsSound) (id : InstanceId) :
    (f.destroy id).IsBalanced loaded :=
  hf.map rfl (fun kind => (hf.pool kind).remove (hsound.poolD kind).nodup id)
    fun p => p.submitted_remove id

theorem IsBalanced.submit (hf : f.IsBalanced loaded) (a : Arrival) :
    (f.submit a).IsBalanced (loaded + a.count) :=
  hf.upsert a.kind (·.submit a.seconds a.count)
    (fun _ hp => hp.submit a.seconds a.count) fun _ => rfl

theorem IsBalanced.foldl_submit (hf : f.IsBalanced loaded) (arrivals : List Arrival) :
    (arrivals.foldl SimulatedFleet.submit f).IsBalanced (loaded + sumOf (·.count) arrivals) := by
  induction arrivals generalizing f loaded with
  | nil => exact hf
  | cons a arrivals ih =>
      rw [sumOf_cons, ← Nat.add_assoc]
      exact ih (hf.submit a)

theorem IsBalanced.advance (hf : f.IsBalanced loaded) : f.advance.IsBalanced loaded := by
  have hpending : f.pendingJobs = sumOf (·.count) f.due + sumOf (·.count) f.later := by
    unfold pendingJobs
    rw [← due_append_later, sumOf_append]
  have hloaded := hf.loaded_eq
  -- What is due is taken off the arrivals before it is submitted.
  have hearlier : IsBalanced { f with tick := f.tick + 1, arrivals := f.later }
      (f.submittedJobs + sumOf (·.count) f.later) := ⟨hf.pool, rfl⟩
  have hatWork : f.atWork.IsBalanced loaded := by
    have hreceived := hearlier.foldl_submit f.due
    have hsum : f.submittedJobs + sumOf (·.count) f.later + sumOf (·.count) f.due = loaded := by
      omega
    rwa [hsum] at hreceived
  exact hatWork.map rfl (fun kind => (hatWork.pool kind).work _) fun _ => rfl

theorem IsBalanced.foldl_register (hf : f.IsBalanced loaded) (kinds : List Kind) :
    (kinds.foldl SimulatedFleet.register f).IsBalanced loaded := by
  induction kinds generalizing f with
  | nil => exact hf
  | cons kind kinds ih => exact ih (hf.register kind)

theorem IsBalanced.load (hf : f.IsBalanced loaded) {t : Trace} (ht : t.validate = .ok ()) :
    (f.load t).1.IsBalanced (loaded + t.jobCount) := by
  have hregistered := hf.foldl_register t.allKinds
  rw [load_of_validate ht]
  refine ⟨hregistered.pool, ?_⟩
  have hpending : sumOf (·.count) (schedule (t.jobs.map (·.arrival) ++
      (t.allKinds.foldl SimulatedFleet.register f).arrivals)) =
        t.jobCount + (t.allKinds.foldl SimulatedFleet.register f).pendingJobs := by
    rw [sumOf_perm (schedule_perm _), sumOf_append, sumOf_map]
    rfl
  have hloaded := hregistered.loaded_eq
  unfold submittedJobs at hloaded ⊢
  unfold pendingJobs at hloaded hpending ⊢
  dsimp only
  omega

theorem IsBalanced.apply (hf : f.IsBalanced loaded) (hsound : f.IsSound) (a : Action) :
    (Fleet.apply f a).IsBalanced loaded := by
  cases a with
  | create kind => exact hf.create kind
  | destroy kind id => exact hf.destroy hsound id

theorem IsBalanced.tick (hf : f.IsBalanced loaded) (hsound : f.IsSound) (s : Scaler) (now : Nat) :
    (s.tick f now).fleet.IsBalanced loaded := by
  have hkept : (s.tick f now).fleet.IsSound ∧ (s.tick f now).fleet.IsBalanced loaded :=
    Scaler.fleet_tick_of_invariant (P := fun g : SimulatedFleet => g.IsSound ∧ g.IsBalanced loaded)
      ⟨hsound.advance, hf.advance⟩ fun g a hg => ⟨hg.1.apply a, hg.2.apply hg.1 a⟩
  exact hkept.2

theorem isBalanced_ofConfig {c : Config} (h : ofConfig c = .ok f) : f.IsBalanced 0 := by
  obtain ⟨-, -, heq⟩ := ofConfig_eq_ok h
  rw [heq]
  exact ⟨fun _ => Pool.isBalanced_empty, rfl⟩

end SimulatedFleet

namespace Session

def loadedBy (s : Session) : Operation → Nat
  | .load trace =>
    match (s.fleet.load trace).2 with
    | .ok () => trace.jobCount
    | .error _ => 0
  | .register _ | .create _ | .destroy .. | .sync _ | .tick _ => 0

def loaded (s : Session) : List Operation → Nat
  | [] => 0
  | op :: ops => s.loadedBy op + (s.apply op).loaded ops

theorem isBalanced_apply {s : Session} {loaded : Nat} (hs : s.IsSound)
    (hbalanced : s.fleet.IsBalanced loaded) (op : Operation) :
    (s.apply op).fleet.IsBalanced (loaded + s.loadedBy op) := by
  cases op with
  | register kind => exact hbalanced.register kind
  | load trace =>
      by_cases ht : trace.validate = .ok ()
      · have hjobs : s.loadedBy (.load trace) = trace.jobCount := by
          simp only [loadedBy, SimulatedFleet.load_ok ht]
        rw [hjobs]
        exact hbalanced.load ht
      · have hregistered := hbalanced.foldl_register trace.allKinds
        obtain ⟨e, he⟩ := SimulatedFleet.load_of_not_validate ht s.fleet
        simp only [apply, loadedBy, he]
        exact hregistered
  | create kind => exact hbalanced.create kind
  | destroy kind id => exact hbalanced.destroy hs.fleet id
  | sync now => exact hbalanced.advance
  | tick now => exact hbalanced.tick hs.fleet s.scaler now

theorem isBalanced_run {s : Session} {loaded : Nat} (hs : s.IsSound)
    (hbalanced : s.fleet.IsBalanced loaded) (ops : List Operation) :
    (s.run ops).fleet.IsBalanced (loaded + s.loaded ops) := by
  induction ops generalizing s loaded with
  | nil => exact hbalanced
  | cons op ops ih =>
      have hrest := ih (hs.apply op) (isBalanced_apply hs hbalanced op)
      rw [Session.loaded, ← Nat.add_assoc]
      exact hrest

end Session

namespace SimulatedFleet

variable {f : SimulatedFleet}

theorem remaining_poolD_register (f : SimulatedFleet) (kind kind' : Kind) :
    ((f.register kind').poolD kind).remaining = (f.poolD kind).remaining := by
  rw [poolD_register]

theorem remaining_poolD_create (f : SimulatedFleet) (kind kind' : Kind) :
    ((f.create kind').poolD kind).remaining = (f.poolD kind).remaining := by
  rw [poolD_create]
  split
  · exact Pool.remaining_add ..
  · rfl

theorem IsSound.remaining_poolD_destroy (hf : f.IsSound) (kind : Kind) (id : InstanceId) :
    ((f.destroy id).poolD kind).remaining = (f.poolD kind).remaining := by
  rw [poolD_destroy]
  exact Pool.remaining_remove (hf.poolD kind).nodup id

end SimulatedFleet

/-- Whatever is done with a new simulated fleet, every job submitted to a kind is completed,
waits or is in flight, and every job loaded has been submitted or is yet to arrive.  Requests
change nothing in the work that remains for any kind. -/
theorem jobs_conserved (c : Config) (f : SimulatedFleet) (hf : SimulatedFleet.ofConfig c = .ok f)
    (scaler : Scaler) (ops : List Operation) :
    let s : Session := { scaler, fleet := f }
    let g := (s.run ops).fleet
    (∀ kind, (g.poolD kind).submitted =
      (g.poolD kind).completed + (g.poolD kind).backlog.length + (g.poolD kind).busyCount) ∧
    s.loaded ops = g.submittedJobs + g.pendingJobs ∧
    g.outstandingJobs + g.completedJobs = s.loaded ops ∧
    ∀ kind kind' id,
      ((Fleet.create g kind').poolD kind).remaining = (g.poolD kind).remaining ∧
      ((Fleet.destroy g kind' id).poolD kind).remaining = (g.poolD kind).remaining ∧
      ((g.register kind').poolD kind).remaining = (g.poolD kind).remaining := by
  intro s g
  have hs : s.IsSound := ⟨SimulatedFleet.isSound_ofConfig hf, nofun⟩
  have hg : g.IsBalanced (s.loaded ops) := by
    have hrun := Session.isBalanced_run hs (SimulatedFleet.isBalanced_ofConfig hf) ops
    rwa [Nat.zero_add] at hrun
  have hsound : g.IsSound := (hs.run ops).fleet
  refine ⟨hg.pool, hg.loaded_eq, hg.outstanding, fun kind kind' id => ⟨?_, ?_, ?_⟩⟩
  · exact g.remaining_poolD_create kind kind'
  · exact hsound.remaining_poolD_destroy kind id
  · exact g.remaining_poolD_register kind kind'

/-- An instance is destroyed under the wrong kind while it works. -/
def handingBack : List Operation :=
  [.create "web", .load pairTrace, .sync 120, .destroy "db" 1, .create "db", .sync 240]

theorem jobs_conserved_handingBack :
    ∃ f, SimulatedFleet.ofConfig {} = .ok f ∧
      let g := (Session.run { scaler := { config := {} }, fleet := f } handingBack).fleet
      g.outstandingJobs + g.completedJobs = 2 ∧ (g.poolD "web").backlog = [180, 300] ∧
        (g.poolD "web").submitted = (g.poolD "web").completed + 2 + (g.poolD "web").busyCount := by
  have hrun : (do
      let f ← (SimulatedFleet.ofConfig {}).toOption
      let s : Session := { scaler := { config := {} }, fleet := f }
      return (s.loaded handingBack, ((s.run handingBack).fleet.poolD "web").backlog)) =
        some (2, [180, 300]) := by
    decide +kernel
  simp only [bind, Option.bind_eq_some_iff] at hrun
  obtain ⟨f, hf, heq⟩ := hrun
  have hf' := eq_ok_of_toOption hf
  obtain ⟨hloaded, hbacklog⟩ := Prod.mk.injEq .. ▸ Option.some_inj.1 heq
  obtain ⟨hpools, -, houtstanding, -⟩ := jobs_conserved {} f hf' { config := {} } handingBack
  refine ⟨f, hf', houtstanding.trans hloaded, hbacklog, ?_⟩
  have hweb := hpools "web"
  rwa [hbacklog] at hweb

end FleetSizing
