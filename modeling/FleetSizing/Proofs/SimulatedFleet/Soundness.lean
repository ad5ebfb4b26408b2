import FleetSizing.Proofs.Scaler.Visits
import FleetSizing.Proofs.SimulatedFleet.Pools
import FleetSizing.SimulatedFleet.Basic
import FleetSizing.SortedMap.Lemmas
/-!
# Sound fleets

The pools of a simulated fleet share no instance, no id is above the latest one, and every
pool is sound.  Each operation on a fleet keeps this, and a pool of a sound fleet can
always be read.
-/

namespace FleetSizing

theorem Duration.lt_of_parse {text : String} {n : Nat} (h : parse text = .ok n) :
    n < Text.word64 := by
  unfold parse readTrimmed at h
  simp only [bind, Option.bind] at h
  split at h
  next seconds hread =>
    cases h
    split at hread
    next => cases hread
    next =>
      dsimp only at hread
      split at hread
      next hlt =>
        cases hread
        exact hlt
      next => cases hread
  next => cases h

namespace Config

variable {c : Config} {n : Nat}

theorem tickSeconds_lt (h : c.tickSeconds = .ok n) : n < Text.word64 := by
  unfold tickSeconds at h
  cases hparse : Duration.parse c.tickInterval with
  | error e =>
      rw [hparse] at h
      cases h
  | ok seconds =>
      rw [hparse] at h
      cases h
      exact Duration.lt_of_parse hparse

theorem windowTicks_lt (h : c.windowTicks = .ok n) : n < Text.word32 := by
  unfold windowTicks at h
  simp only [bind, Except.bind, pure, Except.pure] at h
  split at h
  next => cases h
  next =>
    split at h
    next => cases h
    next =>
      split at h
      next => cases h
      next =>
        cases h
        exact Nat.mod_lt _ (by decide)

end Config

namespace SimulatedFleet

open Scaler

structure IsSound (f : SimulatedFleet) : Prop where
  tickSeconds_lt : f.tickSeconds < Text.word64
  windowTicks_lt : f.windowTicks < Text.word32
  pool : ∀ kind p, f.pools.get? kind = some p → p.IsSound
  le_lastId : ∀ kind p, f.pools.get? kind = some p → ∀ id ∈ p.ids, id ≤ f.lastId
  disjoint : ∀ kind p, f.pools.get? kind = some p →
    ∀ kind' p', f.pools.get? kind' = some p' → ∀ id ∈ p.ids, id ∈ p'.ids → kind = kind'

variable {f g : SimulatedFleet} {kind : Kind}

/-- A fleet stays sound when its pools lose instances, but gain none. -/
theorem IsSound.of_subset (hf : f.IsSound) (htick : g.tickSeconds = f.tickSeconds)
    (hwindow : g.windowTicks = f.windowTicks) (hlast : g.lastId = f.lastId)
    (hpools : ∀ kind p', g.pools.get? kind = some p' → p'.IsSound ∧
      ∀ id ∈ p'.ids, ∃ p, f.pools.get? kind = some p ∧ id ∈ p.ids) : g.IsSound where
  tickSeconds_lt := htick ▸ hf.tickSeconds_lt
  windowTicks_lt := hwindow ▸ hf.windowTicks_lt
  pool := fun kind p' hp' => (hpools kind p' hp').1
  le_lastId := by
    intro kind p' hp' id hid
    obtain ⟨p, hp, hmem⟩ := (hpools kind p' hp').2 id hid
    rw [hlast]
    exact hf.le_lastId kind p hp id hmem
  disjoint := by
    intro kind p' hp' kind' q' hq' id hid hid'
    obtain ⟨p, hp, hmem⟩ := (hpools kind p' hp').2 id hid
    obtain ⟨q, hq, hmem'⟩ := (hpools kind' q' hq').2 id hid'
    exact hf.disjoint kind p hp kind' q hq id hmem hmem'

theorem IsSound.reschedule (hf : f.IsSound) (tick : Nat) (arrivals : List Arrival) :
    IsSound { f with tick, arrivals } :=
  ⟨hf.tickSeconds_lt, hf.windowTicks_lt, hf.pool, hf.le_lastId, hf.disjoint⟩

/-- The pool of a kind, an empty one for an unknown kind. -/
def poolD (f : SimulatedFleet) (kind : Kind) : Pool := (f.pools.get? kind).getD {}

theorem poolD_of_get? {p : Pool} (hp : f.pools.get? kind = some p) : f.poolD kind = p := by
  rw [poolD, hp, Option.getD_some]

theorem IsSound.poolD (hf : f.IsSound) (kind : Kind) : (f.poolD kind).IsSound := by
  unfold SimulatedFleet.poolD
  cases hp : f.pools.get? kind with
  | none => exact Pool.isSound_empty
  | some p => exact hf.pool kind p hp

theorem get?_of_mem_poolD {id : InstanceId} (h : id ∈ (f.poolD kind).ids) :
    ∃ p, f.pools.get? kind = some p ∧ id ∈ p.ids := by
  unfold poolD at h
  cases hp : f.pools.get? kind with
  | none =>
      rw [hp] at h
      cases h
  | some p =>
      rw [hp] at h
      exact ⟨p, rfl, h⟩

theorem IsSound.map (hf : f.IsSound) {change : Pool → Pool}
    (hsound : ∀ p, p.IsSound → (change p).IsSound)
    (hids : ∀ p, ∀ id ∈ (change p).ids, id ∈ p.ids) :
    IsSound { f with pools := f.pools.map change } := by
  refine hf.of_subset rfl rfl rfl fun kind p' hp' => ?_
  rw [SortedMap.get?_map, Option.map_eq_some_iff] at hp'
  obtain ⟨p, hp, rfl⟩ := hp'
  exact ⟨hsound p (hf.pool kind p hp), fun id hid => ⟨p, hp, hids p id hid⟩⟩

theorem IsSound.upsert (hf : f.IsSound) (kind : Kind) {change : Pool → Pool}
    (hsound : ∀ p, p.IsSound → (change p).IsSound)
    (hids : ∀ p, ∀ id ∈ (change p).ids, id ∈ p.ids) :
    IsSound { f with pools := f.pools.upsert kind {} change } := by
  refine hf.of_subset rfl rfl rfl fun kind' p' hp' => ?_
  rw [SortedMap.get?_upsert] at hp'
  split at hp'
  next heq =>
    cases hp'
    subst heq
    exact ⟨hsound _ (hf.poolD kind'), fun id hid => get?_of_mem_poolD (hids _ id hid)⟩
  next => exact ⟨hf.pool kind' p' hp', fun id hid => ⟨p', hp', hid⟩⟩

/-! ## Operations -/

theorem IsSound.register (hf : f.IsSound) (kind : Kind) : (f.register kind).IsSound :=
  hf.upsert kind (fun _ hp => hp) fun _ _ hid => hid

theorem IsSound.create (hf : f.IsSound) (kind : Kind) : (f.create kind).IsSound := by
  have hlt : ∀ id ∈ (f.poolD kind).ids, id < f.lastId + 1 := by
    intro id hid
    obtain ⟨p, hp, hmem⟩ := get?_of_mem_poolD hid
    exact Nat.lt_succ_of_le (hf.le_lastId kind p hp id hmem)
  have hget (kind' : Kind) : (f.create kind).pools.get? kind' =
      if kind' = kind then some ((f.poolD kind).add (f.lastId + 1) f.windowTicks)
      else f.pools.get? kind' := SortedMap.get?_upsert
  -- Whatever is in a pool now is the new instance or was there before.
  have hmem (kind' : Kind) (p' : Pool) (hp' : (f.create kind).pools.get? kind' = some p')
      (id : InstanceId) (hid : id ∈ p'.ids) :
      (id = f.lastId + 1 ∧ kind' = kind) ∨ ∃ p, f.pools.get? kind' = some p ∧ id ∈ p.ids := by
    rw [hget] at hp'
    split at hp'
    next heq =>
      cases hp'
      rw [Pool.ids_add] at hid
      rcases List.mem_append.1 hid with hid | hid
      · exact Or.inr (heq ▸ get?_of_mem_poolD hid)
      · exact Or.inl ⟨List.mem_singleton.1 hid, heq⟩
    next => exact Or.inr ⟨p', hp', hid⟩
  have hold (kind' : Kind) (p : Pool) (hp : f.pools.get? kind' = some p) :
      f.lastId + 1 ∉ p.ids := by
    intro hid
    exact absurd (hf.le_lastId kind' p hp _ hid) (Nat.not_succ_le_self _)
  refine ⟨hf.tickSeconds_lt, hf.windowTicks_lt, ?_, ?_, ?_⟩
  · intro kind' p' hp'
    rw [hget] at hp'
    split at hp'
    next =>
      cases hp'
      exact (hf.poolD kind).add hlt hf.windowTicks_lt
    next => exact hf.pool kind' p' hp'
  · intro kind' p' hp' id hid
    rcases hmem kind' p' hp' id hid with ⟨rfl, -⟩ | ⟨p, hp, hid⟩
    · exact Nat.le_refl _
    · exact Nat.le_succ_of_le (hf.le_lastId kind' p hp id hid)
  · intro k p hp k' p' hp' id hid hid'
    rcases hmem k p hp id hid with ⟨rfl, rfl⟩ | ⟨q, hq, hidq⟩
    · rcases hmem k' p' hp' _ hid' with ⟨-, rfl⟩ | ⟨q', hq', hidq'⟩
      · rfl
      · exact absurd hidq' (hold k' q' hq')
    · rcases hmem k' p' hp' _ hid' with ⟨rfl, -⟩ | ⟨q', hq', hidq'⟩
      · exact absurd hidq (hold k q hq)
      · exact hf.disjoint k q hq k' q' hq' id hidq hidq'

theorem IsSound.destroy (hf : f.IsSound) (id : InstanceId) : (f.destroy id).IsSound := by
  refine hf.map (fun p hp => hp.remove id) fun p id' hid' => ?_
  rw [Pool.ids_remove] at hid'
  exact List.mem_of_mem_filter hid'

theorem IsSound.submit (hf : f.IsSound) (a : Arrival) : (f.submit a).IsSound :=
  hf.upsert a.kind (fun _ hp => hp.submit a.seconds a.count) fun _ _ hid => hid

theorem IsSound.receive (hf : f.IsSound) : f.receive.IsSound := by
  have hfold (arrivals : List Arrival) {g : SimulatedFleet} (hg : g.IsSound) :
      (arrivals.foldl SimulatedFleet.submit g).IsSound := by
    induction arrivals generalizing g with
    | nil => exact hg
    | cons a arrivals ih => exact ih (hg.submit a)
  unfold SimulatedFleet.receive
  exact hfold _ (hf.reschedule f.tick _)

theorem IsSound.work (hf : f.IsSound) : f.work.IsSound :=
  hf.map (fun _ hp => hp.work f.tickSeconds_pos hf.tickSeconds_lt) fun p _ hid => by
    rwa [Pool.ids_work] at hid

theorem IsSound.advance (hf : f.IsSound) : f.advance.IsSound :=
  (hf.reschedule (f.tick + 1) f.arrivals).receive.work

theorem IsSound.load (hf : f.IsSound) (t : Trace) : (f.load t).1.IsSound := by
  have hfold (kinds : List Kind) {g : SimulatedFleet} (hg : g.IsSound) :
      (kinds.foldl SimulatedFleet.register g).IsSound := by
    induction kinds generalizing g with
    | nil => exact hg
    | cons kind kinds ih => exact ih (hg.register kind)
  have hregistered := hfold t.allKinds hf
  unfold SimulatedFleet.load
  split
  next => exact hregistered
  next => exact hregistered.reschedule _ _

theorem ofConfig_eq_ok {c : Config} (h : ofConfig c = .ok f) :
    c.tickSeconds = .ok f.tickSeconds ∧ c.windowTicks = .ok f.windowTicks ∧
      f = { tickSeconds := f.tickSeconds, tickSeconds_pos := f.tickSeconds_pos
            windowTicks := f.windowTicks } := by
  unfold ofConfig at h
  cases htick : c.tickSeconds with
  | error e => simp [htick, bind, Except.bind] at h
  | ok tickSeconds =>
      cases hwindow : c.windowTicks with
      | error e => simp [htick, hwindow, bind, Except.bind] at h
      | ok windowTicks =>
          simp only [htick, hwindow, bind, Except.bind, pure, Except.pure] at h
          split at h
          next hpos =>
            cases h
            exact ⟨rfl, rfl, rfl⟩
          next => cases h

theorem isSound_ofConfig {c : Config} (h : ofConfig c = .ok f) : f.IsSound := by
  obtain ⟨htick, hwindow, heq⟩ := ofConfig_eq_ok h
  have hpools : f.pools = ∅ := congrArg pools heq
  refine ⟨Config.tickSeconds_lt htick, Config.windowTicks_lt hwindow, ?_, ?_, ?_⟩ <;>
    rw [hpools] <;> exact nofun

/-! ## Reading pools -/

theorem IsSound.findSome?_values (hf : f.IsSound) {p : Pool} (hp : f.pools.get? kind = some p)
    {id : InstanceId} (hid : id ∈ p.ids) {β : Type} {read : Pool → Option β}
    (hread : ∀ q : Pool, id ∉ q.ids → read q = none) {b : β} (hb : read p = some b) :
    f.pools.values.findSome? read = some b := by
  have hmem := SortedMap.get?_eq_some_iff.1 hp
  obtain ⟨before, after, heq⟩ := List.append_of_mem hmem
  unfold SortedMap.values
  rw [heq, List.map_append, List.map_cons]
  refine List.findSome?_eq_some_iff.2 ⟨before.map (·.2), p, after.map (·.2), rfl, hb, ?_⟩
  intro p' hp'
  obtain ⟨⟨kind', p''⟩, hentry, rfl⟩ := List.mem_map.1 hp'
  refine hread _ fun hid' => ?_
  -- The entries before that of the kind have other keys.
  have hget : f.pools.get? kind' = some p'' := by
    rw [SortedMap.get?_eq_some_iff, heq]
    exact List.mem_append_left _ hentry
  have hlt : compare kind' kind = .lt := by
    have hsorted := f.pools.sorted
    rw [heq, List.pairwise_append] at hsorted
    exact hsorted.2.2 _ hentry _ (List.mem_cons_self ..)
  obtain rfl := hf.disjoint kind p hp kind' p'' hget id hid hid'
  have hself : compare kind kind = .eq := Std.ReflCmp.compare_self
  rw [hself] at hlt
  cases hlt

theorem IsSound.instance?_eq (hf : f.IsSound) {p : Pool} (hp : f.pools.get? kind = some p)
    {i : Instance} (hi : i ∈ p.instances) : f.instance? i.id = some i :=
  hf.findSome?_values hp (List.mem_map_of_mem hi) (fun _ => Pool.find?_eq_none_iff.2)
    ((hf.pool kind p hp).find?_eq hi)

theorem IsSound.snapshot_eq (hf : f.IsSound) {p : Pool} (hp : f.pools.get? kind = some p)
    {i : Instance} (hi : i ∈ p.instances) :
    Fleet.snapshot f i.id =
      { id := i.id, busy := i.isBusy, utilization := i.window.average } := by
  have hbusy : Fleet.isBusy f i.id = i.isBusy := by
    change (f.instance? i.id).any _ = _
    rw [hf.instance?_eq hp hi, Option.any_some]
  have hutilization : Fleet.utilization f i.id = i.window.average := by
    change ((f.instance? i.id).map _).getD _ = _
    rw [hf.instance?_eq hp hi, Option.map_some, Option.getD_some]
  rw [Fleet.snapshot, hbusy, hutilization]

theorem IsSound.readPool_eq (hf : f.IsSound) {p : Pool} (hp : f.pools.get? kind = some p)
    {seen : List InstanceId} (hseen : ∀ id ∈ p.ids, id ∉ seen) :
    readPool f seen kind = .ok p.snapshots := by
  have hpool := hf.pool kind p hp
  refine readPool_eq_ok_iff.2 ⟨p.ids, ?_, ⟨hpool.nodup, hseen, ?_⟩, ?_⟩
  · change (f.pools.get? kind).map _ = _
    rw [hp, Option.map_some]
  · intro id hid
    obtain ⟨i, hi, rfl⟩ := List.mem_map.1 hid
    have hvalue := congrArg Snapshot.utilization (hf.snapshot_eq hp hi)
    change Fleet.utilization f i.id = i.window.average at hvalue
    rw [hvalue]
    exact (hpool.window i hi).isFraction_average
  · rw [Pool.snapshots, Pool.ids, List.map_map]
    exact List.map_congr_left fun i hi => (hf.snapshot_eq hp hi).symm

end SimulatedFleet

end FleetSizing
