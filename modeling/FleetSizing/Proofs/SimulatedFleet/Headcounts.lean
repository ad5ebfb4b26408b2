import FleetSizing.Proofs.Scaler.Sizes
import FleetSizing.Proofs.SimulatedFleet.Accounts
import FleetSizing.Proofs.SimulatedFleet.Requests
/-!
# Headcounts

The size of a pool and its counters of instances.  Arrival and work leave them alone, and
the requests of a tick change them as the decision for the kind says.
-/

namespace FleetSizing

/-- How many instances a pool has, has had at most, was given and has given up. -/
structure Headcount where
  size : Nat := 0
  peak : Nat := 0
  created : Nat := 0
  destroyed : Nat := 0

namespace Headcount

def after (h : Headcount) (d : Decision) : Headcount where
  size := d.resultingPoolSize
  peak := max h.peak d.resultingPoolSize
  created := h.created + d.creates
  destroyed := h.destroyed + d.destroys

section

variable {d : Decision} {kind : Kind} {id : InstanceId}

theorem after_of_nil (h : Headcount) (hd : d.actions = []) :
    h.after d = ⟨d.poolSize, max h.peak d.poolSize, h.created, h.destroyed⟩ := by
  simp [after, Decision.resultingPoolSize, Decision.creates, Decision.destroys, hd]

theorem after_of_create (h : Headcount) (hd : d.actions = [.create kind]) :
    h.after d = ⟨d.poolSize + 1, max h.peak (d.poolSize + 1), h.created + 1, h.destroyed⟩ := by
  simp [after, Decision.resultingPoolSize, Decision.creates, Decision.destroys, hd,
    Action.isCreate, Action.isDestroy]

theorem after_of_destroy (h : Headcount) (hd : d.actions = [.destroy kind id]) :
    h.after d = ⟨d.poolSize - 1, max h.peak (d.poolSize - 1), h.created, h.destroyed + 1⟩ := by
  simp [after, Decision.resultingPoolSize, Decision.creates, Decision.destroys, hd,
    Action.isCreate, Action.isDestroy]

end

/-- No instance is lost or made up, and the peak is no less than the size. -/
structure IsSound (h : Headcount) : Prop where
  size_le_peak : h.size ≤ h.peak
  created_eq : h.created = h.destroyed + h.size

theorem isSound_empty : ({} : Headcount).IsSound := ⟨Nat.le_refl _, rfl⟩

/-- What a single operation can do to a headcount. -/
inductive Changes : Headcount → Headcount → Prop where
  | keep (h : Headcount) : Changes h h
  | add (h : Headcount) :
      Changes h ⟨h.size + 1, max h.peak (h.size + 1), h.created + 1, h.destroyed⟩
  | remove (h : Headcount) (hpos : 0 < h.size) :
      Changes h ⟨h.size - 1, h.peak, h.created, h.destroyed + 1⟩

variable {h h' : Headcount}

theorem Changes.isSound (hchange : Changes h h') (hsound : h.IsSound) : h'.IsSound := by
  obtain ⟨hpeak, hcreated⟩ := hsound
  cases hchange with
  | keep => exact ⟨hpeak, hcreated⟩
  | add => exact ⟨Nat.le_max_right .., congrArg (· + 1) hcreated⟩
  | remove hpos => exact ⟨(Nat.sub_le ..).trans hpeak, by dsimp only; omega⟩

theorem Changes.peak_eq (hchange : Changes h h') (hsound : h.IsSound) :
    h'.peak = max h.peak h'.size := by
  have hpeak := hsound.size_le_peak
  cases hchange with
  | keep => exact (Nat.max_eq_left hpeak).symm
  | add => rfl
  | remove hpos => exact (Nat.max_eq_left ((Nat.sub_le ..).trans hpeak)).symm

end Headcount

namespace Pool

variable {p : Pool} {id : InstanceId}

def headcount (p : Pool) : Headcount := ⟨p.size, p.peak, p.created, p.destroyed⟩

theorem length_ids (p : Pool) : p.ids.length = p.size := List.length_map _

theorem headcount_receive (p : Pool) (arrivals : List Arrival) :
    (p.receive arrivals).headcount = p.headcount := by
  induction arrivals generalizing p with
  | nil => rfl
  | cons a arrivals ih => exact ih (p.submit a.seconds a.count)

theorem size_work (p : Pool) (seconds : Nat) : (p.work seconds).size = p.size := by
  rw [← length_ids, ids_work, length_ids]

theorem headcount_work (p : Pool) (seconds : Nat) :
    (p.work seconds).headcount = p.headcount := by
  unfold headcount
  rw [size_work]
  rfl

theorem headcount_add (p : Pool) (id : InstanceId) (capacity : Nat) :
    (p.add id capacity).headcount =
      ⟨p.size + 1, max p.peak (p.size + 1), p.created + 1, p.destroyed⟩ := by
  unfold headcount size add
  rw [List.length_append, List.length_singleton]
  rfl

theorem headcount_remove (hp : p.ids.Nodup) (hid : id ∈ p.ids) :
    (p.remove id).headcount = ⟨p.size - 1, p.peak, p.created, p.destroyed + 1⟩ := by
  cases hfind : p.find? id with
  | none => exact absurd hid (find?_eq_none_iff.1 hfind)
  | some i =>
      obtain ⟨before, after, hinstances, hremoved, -⟩ := exists_remove hp hfind
      have hsize : (p.remove id).size = p.size - 1 := by
        rw [size, size, hinstances, hremoved, List.length_append, List.length_append,
          List.length_cons]
        rfl
      unfold headcount
      rw [hsize, remove, hfind]

theorem changes_add (p : Pool) (id : InstanceId) (capacity : Nat) :
    p.headcount.Changes (p.add id capacity).headcount := by
  rw [headcount_add]
  exact .add p.headcount

theorem changes_remove (hp : p.ids.Nodup) (id : InstanceId) :
    p.headcount.Changes (p.remove id).headcount := by
  by_cases hid : id ∈ p.ids
  · have hpos : 0 < p.size := p.length_ids ▸ List.length_pos_of_mem hid
    rw [headcount_remove hp hid]
    exact .remove p.headcount hpos
  · rw [remove_of_not_mem hid]
    exact .keep p.headcount

theorem headcount_applyAll_creates (capacity : Nat) (last : InstanceId) (n : Nat) (kind : Kind)
    (h : p.size ≤ p.peak) :
    (applyAll capacity (p, last) (List.replicate n (.create kind))).1.headcount =
      ⟨p.size + n, max p.peak (p.size + n), p.created + n, p.destroyed⟩ := by
  induction n generalizing p last with
  | zero =>
      rw [Nat.add_zero, Nat.max_eq_left h]
      rfl
  | succ n ih =>
      have hadd := p.headcount_add (last + 1) capacity
      simp only [headcount, Headcount.mk.injEq] at hadd
      obtain ⟨hsize, hpeak, hcreated, hdestroyed⟩ := hadd
      have hle : (p.add (last + 1) capacity).size ≤ (p.add (last + 1) capacity).peak := by
        rw [hsize, hpeak]
        exact Nat.le_max_right ..
      refine (ih (last + 1) hle).trans ?_
      rw [hsize, hpeak, hcreated, hdestroyed, Headcount.mk.injEq]
      omega

theorem headcount_applyAll_destroys (capacity : Nat) (last : InstanceId) (kind : Kind)
    (hp : p.ids.Nodup) {doomed : List Snapshot} (h : (doomed.map (·.id)).Nodup)
    (hsub : ∀ s ∈ doomed, s.id ∈ p.ids) :
    (applyAll capacity (p, last) (doomed.map fun s => .destroy kind s.id)).1.headcount =
      ⟨p.size - doomed.length, p.peak, p.created, p.destroyed + doomed.length⟩ := by
  induction doomed generalizing p with
  | nil => rfl
  | cons s doomed ih =>
      obtain ⟨hs, hdoomed⟩ := List.nodup_cons.1 h
      have hremove := headcount_remove hp (hsub s (List.mem_cons_self ..))
      simp only [headcount, Headcount.mk.injEq] at hremove
      obtain ⟨hsize, hpeak, hcreated, hdestroyed⟩ := hremove
      have hnodup : (p.remove s.id).ids.Nodup := by
        rw [ids_remove]
        exact hp.filter _
      -- What is still to be given up is left by the removal.
      have hleft : ∀ s' ∈ doomed, s'.id ∈ (p.remove s.id).ids := by
        intro s' hs'
        have hne : s'.id ≠ s.id := fun heq => hs (List.mem_map.2 ⟨s', hs', heq⟩)
        rw [ids_remove, List.mem_filter]
        exact ⟨hsub s' (List.mem_cons_of_mem _ hs'), by simpa using hne⟩
      refine (ih hnodup hdoomed hleft).trans ?_
      rw [hsize, hpeak, hcreated, hdestroyed, List.length_cons, Headcount.mk.injEq]
      omega

/-- The requests of a decision change the headcount as the decision says. -/
theorem headcount_applyAll_evaluate (hp : p.IsSound) (hpeak : p.size ≤ p.peak) (capacity : Nat)
    (last : InstanceId) (c : Config) (t : IdleTracker) (kind : Kind) :
    let d := (c.evaluate t kind p.snapshots).2
    (applyAll capacity (p, last) d.actions).1.headcount = p.headcount.after d := by
  intro d
  have hlength : p.snapshots.length = p.size := List.length_map _
  unfold Headcount.after Decision.creates Decision.destroys
  rcases (c.verdict_evaluate t kind p.snapshots).actions_cases with
    ⟨n, -, h⟩ | ⟨doomed, hsub, -, h⟩
  · have hsize : d.resultingPoolSize = p.size + n := hlength ▸ Config.resultingPoolSize_eq h
    change d.actions = _ at h
    rw [hsize, h, countP_isCreate_replicate, countP_isDestroy_replicate]
    exact headcount_applyAll_creates capacity last n kind hpeak
  · have hsize : d.resultingPoolSize = p.size - doomed.length :=
      hlength ▸ Config.resultingPoolSize_eq_sub h
    have hids : (doomed.map (·.id)).Sublist p.ids := p.map_id_snapshots ▸ hsub.map _
    have hdestroys := headcount_applyAll_destroys capacity last kind hp.nodup
      (hp.nodup.sublist hids) fun s hs => hids.subset (List.mem_map_of_mem hs)
    change d.actions = _ at h
    rw [hsize, h, countP_isCreate_destroys, countP_isDestroy_destroys, hdestroys]
    change _ = Headcount.mk _ (max p.peak _) _ _
    rw [Nat.max_eq_left ((Nat.sub_le ..).trans hpeak)]
    rfl

end Pool

namespace SimulatedFleet

variable {f : SimulatedFleet} {kind : Kind}

theorem headcount_poolD_advance (f : SimulatedFleet) (kind : Kind) :
    (f.advance.poolD kind).headcount = (f.poolD kind).headcount := by
  rw [poolD_advance, Pool.headcount_work, poolD_atWork, Pool.headcount_receive]

theorem IsSound.changes_apply (hf : f.IsSound) (a : Action) (kind : Kind) :
    (f.poolD kind).headcount.Changes ((Fleet.apply f a).poolD kind).headcount := by
  cases a with
  | create kind' =>
      change Headcount.Changes _ ((f.create kind').poolD kind).headcount
      rw [poolD_create]
      split
      · exact Pool.changes_add ..
      · exact .keep _
  | destroy kind' id =>
      change Headcount.Changes _ ((f.destroy id).poolD kind).headcount
      rw [poolD_destroy]
      exact Pool.changes_remove (hf.poolD kind).nodup id

theorem IsSound.isSound_headcount_tick (hf : f.IsSound)
    (h : ∀ kind, (f.poolD kind).headcount.IsSound) (s : Scaler) (now : Nat) :
    ∀ kind, ((s.tick f now).fleet.poolD kind).headcount.IsSound := by
  let P (g : SimulatedFleet) : Prop := g.IsSound ∧ ∀ kind, (g.poolD kind).headcount.IsSound
  have hsync : P (Fleet.sync f now) := by
    refine ⟨hf.advance, fun kind => ?_⟩
    change (f.advance.poolD kind).headcount.IsSound
    rw [headcount_poolD_advance]
    exact h kind
  have htick : P (s.tick f now).fleet :=
    Scaler.fleet_tick_of_invariant hsync fun g a hg =>
      ⟨hg.1.apply a, fun kind => (hg.1.changes_apply a kind).isSound (hg.2 kind)⟩
  exact htick.2

theorem IsSound.headcount_poolD_tick (hf : f.IsSound) (s : Scaler) (now : Nat)
    (hkind : kind ∈ f.advance.pools.keys) (hpeak : (f.poolD kind).size ≤ (f.poolD kind).peak) :
    ((s.tick f now).fleet.poolD kind).headcount =
      (f.poolD kind).headcount.after
        (s.config.evaluate s.idle kind (f.advance.poolD kind).snapshots).2 := by
  have hadvance := f.headcount_poolD_advance kind
  have hpeak' : (f.advance.poolD kind).size ≤ (f.advance.poolD kind).peak := by
    simp only [Pool.headcount, Headcount.mk.injEq] at hadvance
    rw [hadvance.1, hadvance.2.1]
    exact hpeak
  obtain ⟨last, -, hpool, -⟩ := exists_poolD_tick hf s now hkind
  rw [hpool, ← hadvance]
  exact Pool.headcount_applyAll_evaluate (hf.advance.poolD kind) hpeak' ..

end SimulatedFleet

end FleetSizing
