import FleetSizing.Proofs.Scaler.Sizes
import Mathlib.Data.List.Nodup
/-!
# Well-formed decisions

The requests of a decision agree with its outcome, name one kind, and give up idle members of
the pool only.
-/

namespace FleetSizing

namespace Action

def kind : Action → Kind
  | .create kind => kind
  | .destroy kind _ => kind

def destroyed? : Action → Option InstanceId
  | .create _ => none
  | .destroy _ id => some id

end Action

namespace Outcome

/-- The number of instances that an outcome says are requested. -/
def created : Outcome → Nat
  | .coldStart => 1
  | .grew _ _ requested => requested
  | .gracePeriod _ | .retired _ | .shrunk _ | .steady _ => 0

/-- The number of instances that an outcome says are given up. -/
def destroyed : Outcome → Nat
  | .retired _ => 1
  | .shrunk destroyed => destroyed
  | .coldStart | .gracePeriod _ | .grew .. | .steady _ => 0

end Outcome

def Decision.destroyedIds (d : Decision) : List InstanceId := d.actions.filterMap Action.destroyed?

/-- What every decision on a pool of distinct instances fulfils. -/
structure Decision.IsWellFormed (c : Config) (kind : Kind) (pool : List Snapshot) (d : Decision) :
    Prop where
  kind_eq : d.kind = kind
  poolSize_eq : d.poolSize = pool.length
  names_kind : ∀ a ∈ d.actions, a.kind = kind
  uniform : (∀ a ∈ d.actions, a.isCreate = true) ∨ ∀ a ∈ d.actions, a.isDestroy = true
  /-- Members of the pool are given up in the order of the pool. -/
  in_order : d.destroyedIds.Sublist (pool.map (·.id))
  distinct : d.destroyedIds.Nodup
  given_up : ∀ s ∈ pool, s.id ∈ d.destroyedIds → s.busy = false ∧
    (pool = [s] ∧ d.outcome = .retired s.id ∨ s.utilization < c.destroyThreshold)
  creates_eq : d.creates = d.outcome.created
  destroys_eq : d.destroys = d.outcome.destroyed
  shrunk_pos : ∀ n, d.outcome = .shrunk n → 1 ≤ n
  actions_of_retired : ∀ x, d.outcome = .retired x → d.actions = [.destroy kind x]
  coldStart_iff : d.outcome = .coldStart ↔ pool = []
  idleSole_iff : ((∃ n, d.outcome = .gracePeriod n) ∨ ∃ x, d.outcome = .retired x) ↔
    ∃ s, pool = [s] ∧ s.busy = false
  /-- No more instances are given up than there are. -/
  size_eq : d.resultingPoolSize + d.destroys = d.poolSize + d.creates
  empties_iff : d.resultingPoolSize = 0 ↔ ∃ x, d.outcome = .retired x

namespace Config

open Scaler

variable {c : Config} {t : IdleTracker} {kind : Kind} {pool : List Snapshot}

namespace Verdict

variable {o : Outcome} {as : List Action}

theorem kind_eq (h : Verdict c kind pool o as) {a : Action} (ha : a ∈ as) : a.kind = kind := by
  cases h with
  | coldStart => rw [List.mem_singleton.1 ha, Action.kind]
  | gracePeriod => cases ha
  | retired => rw [List.mem_singleton.1 ha, Action.kind]
  | shrunk doomed =>
      obtain ⟨s, -, rfl⟩ := List.mem_map.1 ha
      rfl
  | grew => rw [List.eq_of_mem_replicate ha, Action.kind]
  | steady => cases ha

theorem uniform (h : Verdict c kind pool o as) :
    (∀ a ∈ as, a.isCreate = true) ∨ ∀ a ∈ as, a.isDestroy = true := by
  cases h with
  | coldStart => simp [Action.isCreate]
  | gracePeriod => simp
  | retired => simp [Action.isDestroy]
  | shrunk doomed => exact Or.inr (by simp [Action.isDestroy])
  | grew => exact Or.inl fun a ha => by rw [List.eq_of_mem_replicate ha, Action.isCreate]
  | steady => simp

theorem destroyedIds_destroys (kind : Kind) (doomed : List Snapshot) :
    (doomed.map fun s => Action.destroy kind s.id).filterMap Action.destroyed? =
      doomed.map (·.id) := by
  rw [List.filterMap_map]
  exact congrFun List.filterMap_eq_map' _

theorem destroyedIds_creates (kind : Kind) (n : Nat) :
    (List.replicate n (Action.create kind)).filterMap Action.destroyed? = [] := by
  rw [List.filterMap_eq_nil_iff]
  intro a ha
  rw [List.eq_of_mem_replicate ha, Action.destroyed?]

theorem utilization_lt {s : Snapshot} (h : c.isSpare s = true) :
    s.utilization < c.destroyThreshold := by
  unfold isSpare at h
  rw [Bool.and_eq_true, decide_eq_true_iff] at h
  exact h.2

/-- The instances that are given up: idle ones, each of low utilization or the only one. -/
theorem exists_doomed (h : Verdict c kind pool o as) :
    ∃ doomed : List Snapshot, doomed.Sublist pool ∧
      as.filterMap Action.destroyed? = doomed.map (·.id) ∧
      ∀ s ∈ doomed, s.busy = false ∧
        (pool = [s] ∧ o = .retired s.id ∨ s.utilization < c.destroyThreshold) := by
  have hnone : ∃ doomed : List Snapshot, doomed.Sublist pool ∧ [] = doomed.map (·.id) ∧
      ∀ s ∈ doomed, s.busy = false ∧
        (pool = [s] ∧ o = .retired s.id ∨ s.utilization < c.destroyThreshold) :=
    ⟨[], List.nil_sublist _, rfl, fun s hs => nomatch hs⟩
  cases h with
  | coldStart => exact hnone
  | gracePeriod => exact hnone
  | retired s hpool hidle =>
      refine ⟨[s], hpool ▸ List.Sublist.refl _, rfl, fun s' hs' => ?_⟩
      rw [List.mem_singleton.1 hs']
      exact ⟨hidle, Or.inl ⟨hpool, rfl⟩⟩
  | shrunk doomed hdoomed _ _ hspare =>
      refine ⟨doomed, hdoomed, destroyedIds_destroys kind doomed, fun s hs => ?_⟩
      exact ⟨busy_of_isSpare (hspare s hs), Or.inr (utilization_lt (hspare s hs))⟩
  | grew factor =>
      rw [destroyedIds_creates]
      exact hnone
  | steady => exact hnone

theorem countP_isCreate (h : Verdict c kind pool o as) (hfew : as.length < Text.word32) :
    as.countP Action.isCreate = o.created := by
  cases h with
  | coldStart => rfl
  | gracePeriod => rfl
  | retired => rfl
  | shrunk doomed => rw [countP_isCreate_destroys, Outcome.created]
  | grew factor =>
      rw [List.length_replicate] at hfew
      rw [countP_isCreate_replicate, Outcome.created, Nat.mod_eq_of_lt hfew]
  | steady => rfl

theorem countP_isDestroy (h : Verdict c kind pool o as) (hfew : as.length < Text.word32) :
    as.countP Action.isDestroy = o.destroyed := by
  cases h with
  | coldStart => rfl
  | gracePeriod => rfl
  | retired => rfl
  | shrunk doomed =>
      rw [List.length_map] at hfew
      rw [countP_isDestroy_destroys, Outcome.destroyed, Nat.mod_eq_of_lt hfew]
  | grew => rw [countP_isDestroy_replicate, Outcome.destroyed]
  | steady => rfl

theorem countP_isDestroy_le (h : Verdict c kind pool o as) :
    as.countP Action.isDestroy ≤ pool.length := by
  cases h with
  | coldStart => exact Nat.zero_le _
  | gracePeriod => exact Nat.zero_le _
  | retired s hpool =>
      rw [hpool]
      exact Nat.le_refl _
  | shrunk doomed hdoomed =>
      rw [countP_isDestroy_destroys]
      exact hdoomed.length_le
  | grew =>
      rw [countP_isDestroy_replicate]
      exact Nat.zero_le _
  | steady => exact Nat.zero_le _

theorem shrunk_pos {n : Nat} (h : Verdict c kind pool (.shrunk n) as)
    (hfew : as.length < Text.word32) : 1 ≤ n := by
  cases h with
  | shrunk doomed _ hne =>
      rw [List.length_map] at hfew
      rw [Nat.mod_eq_of_lt hfew]
      exact List.length_pos_iff.2 hne

theorem idleSole_iff (h : Verdict c kind pool o as) :
    ((∃ n, o = .gracePeriod n) ∨ ∃ x, o = .retired x) ↔ ∃ s, pool = [s] ∧ s.busy = false := by
  have hnone (hsole : idleSole? pool = none) : ¬ ∃ s, pool = [s] ∧ s.busy = false := by
    rintro ⟨s, rfl, hidle⟩
    simp [idleSole?, hidle] at hsole
  cases h with
  | coldStart hpool => simp [hpool]
  | gracePeriod s n hpool hidle => exact iff_of_true (Or.inl ⟨n, rfl⟩) ⟨s, hpool, hidle⟩
  | retired s hpool hidle => exact iff_of_true (Or.inr ⟨s.id, rfl⟩) ⟨s, hpool, hidle⟩
  | shrunk doomed _ hne hlength =>
      refine iff_of_false (by simp) ?_
      rintro ⟨s, rfl, -⟩
      have := List.length_pos_iff.2 hne
      rw [List.length_singleton] at hlength
      omega
  | grew _ _ hsole => exact iff_of_false (by simp) (hnone hsole)
  | steady _ hsole => exact iff_of_false (by simp) (hnone hsole)

end Verdict

/-- Every decision on a pool of distinct instances is well-formed, and it leaves the idle counts
of all other instances alone. -/
theorem evaluate_isWellFormed (c : Config) (t : IdleTracker) (kind : Kind) {pool : List Snapshot}
    (hpool : (pool.map (·.id)).Nodup)
    (hfew : (c.evaluate t kind pool).2.actions.length < Text.word32) :
    (c.evaluate t kind pool).2.IsWellFormed c kind pool ∧
      ∀ x, x ∉ pool.map (·.id) → (c.evaluate t kind pool).1.get? x = t.get? x := by
  have h := c.verdict_evaluate t kind pool
  obtain ⟨doomed, hsub, hids, hdoomed⟩ := h.exists_doomed
  have hdestroyed : (c.evaluate t kind pool).2.destroyedIds = doomed.map (·.id) := hids
  constructor
  · exact {
      kind_eq := rfl
      poolSize_eq := rfl
      names_kind := fun a ha => h.kind_eq ha
      uniform := h.uniform
      in_order := by
        rw [hdestroyed]
        exact hsub.map _
      distinct := by
        rw [hdestroyed]
        exact (hsub.map _).nodup hpool
      given_up := by
        intro s hs hid
        rw [hdestroyed] at hid
        obtain ⟨s', hs', heq⟩ := List.mem_map.1 hid
        obtain rfl := List.inj_on_of_nodup_map hpool (hsub.subset hs') hs heq
        exact hdoomed s' hs'
      creates_eq := h.countP_isCreate hfew
      destroys_eq := h.countP_isDestroy hfew
      shrunk_pos := by
        intro n hn
        rw [hn] at h
        exact h.shrunk_pos hfew
      actions_of_retired := fun x hx => actions_of_retired hx
      coldStart_iff := outcome_eq_coldStart_iff
      idleSole_iff := h.idleSole_iff
      size_eq := by
        have hle : (c.evaluate t kind pool).2.destroys ≤ (c.evaluate t kind pool).2.poolSize :=
          h.countP_isDestroy_le
        unfold Decision.resultingPoolSize
        omega
      empties_iff := resultingPoolSize_eq_zero_iff }
  · intro x hx
    have hjudge : (c.judge t kind pool).1.get? x = _ := get?_judge x
    rwa [if_neg hx] at hjudge

/-- A busy instance, two idle ones below the default threshold, and one above it. -/
def mixedPool : List Snapshot :=
  [⟨1, false, 0.1⟩, ⟨2, true, 0.9⟩, ⟨3, false, -0.0⟩, ⟨4, false, 0.5⟩]

theorem evaluate_isWellFormed_mixedPool :
    (mixedPool.map (·.id)).Nodup ∧
    (evaluate {} (IdleTracker.observe {} 7) "web" mixedPool).2.actions.length < Text.word32 ∧
    (evaluate {} (IdleTracker.observe {} 7) "web" mixedPool).2.IsWellFormed {} "web" mixedPool ∧
    (evaluate {} (IdleTracker.observe {} 7) "web" mixedPool).2.destroyedIds = [1, 3] ∧
    (evaluate {} (IdleTracker.observe {} 7) "web" mixedPool).1.get? 7 = some 1 := by
  have hdistinct : (mixedPool.map (·.id)).Nodup := by decide
  have hfew : (evaluate {} (IdleTracker.observe {} 7) "web" mixedPool).2.actions.length <
      Text.word32 := by
    decide +kernel
  obtain ⟨hformed, hframe⟩ :=
    evaluate_isWellFormed {} (IdleTracker.observe {} 7) "web" hdistinct hfew
  refine ⟨hdistinct, hfew, hformed, by decide +kernel, ?_⟩
  rw [hframe 7 (by decide)]
  decide

end Config

end FleetSizing
