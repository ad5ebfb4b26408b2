import FleetSizing.Proofs.Scaler.Frames
import FleetSizing.Scaler.Pace
/-!
# Footage

What a control loop is shown over a number of ticks, the part of it that concerns one kind,
and the reports that the paced loop gives on it.
-/

namespace FleetSizing

open Scaler

namespace Frame

variable {f g : Frame} {kind : Kind}

def restrict (f : Frame) (kind : Kind) : Frame := f.filter (·.1 = kind)

theorem restrict_sublist (f : Frame) (kind : Kind) : (f.restrict kind).Sublist f :=
  List.filter_sublist

theorem nodup_kinds_restrict (h : f.kinds.Nodup) (kind : Kind) : (f.restrict kind).kinds.Nodup :=
  h.sublist ((f.restrict_sublist kind).map _)

theorem visits_restrict (f : Frame) (kind : Kind) :
    (f.restrict kind).visits = f.visits.filter (·.1 = kind) := by
  unfold visits restrict
  rw [List.filter_map]
  rfl

theorem restrict_eq_of_perm (hkinds : f.kinds.Nodup) (h : f.Perm g) (kind : Kind) :
    f.restrict kind = g.restrict kind := by
  have hperm : (f.restrict kind).Perm (g.restrict kind) := h.filter _
  have hnodup := nodup_kinds_restrict hkinds kind
  have hkind : ∀ entry ∈ f.restrict kind, entry.1 = kind := fun entry hentry => by
    simpa using (List.mem_filter.1 hentry).2
  rcases hrestrict : f.restrict kind with _ | ⟨entry, _ | ⟨entry', rest⟩⟩
  · rw [hrestrict] at hperm
    exact (List.nil_perm.1 hperm).symm
  · rw [hrestrict] at hperm
    exact List.singleton_perm.1 hperm
  · -- Two entries for one kind contradict the distinctness of the kinds.
    rw [hrestrict] at hnodup hkind
    have hsame : entry.1 = entry'.1 := by
      rw [hkind entry (by simp), hkind entry' (by simp)]
    simp [kinds, hsame] at hnodup

end Frame

theorem exists_of_mem_right {α β : Type} {R : α → β → Prop} {xs : List α} {ys : List β}
    (h : List.Forall₂ R xs ys) {y : β} (hy : y ∈ ys) : ∃ x ∈ xs, R x y := by
  induction h with
  | nil => cases hy
  | @cons x y' xs ys hxy h ih =>
      rcases List.mem_cons.1 hy with rfl | hy
      · exact ⟨x, List.mem_cons_self .., hxy⟩
      · obtain ⟨x', hx', hR⟩ := ih hy
        exact ⟨x', List.mem_cons_of_mem _ hx', hR⟩

/-- What a control loop is shown: a frame for each tick, at a clock value. -/
abbrev Footage := List (Frame × Nat)

namespace Footage

variable {frames : Footage} {kind : Kind} {x : InstanceId}

def restrict (frames : Footage) (kind : Kind) : Footage :=
  frames.map fun e => (e.1.restrict kind, e.2)

def Lists (frames : Footage) (kind : Kind) (x : InstanceId) : Prop :=
  ∃ e ∈ frames, ∃ v ∈ e.1.visits, v.1 = kind ∧ x ∈ v.2.map (·.id)

/-- The kinds of each frame are distinct, and no instance is ever listed under two kinds. -/
structure IsPartitioned (frames : Footage) : Prop where
  nodup : ∀ e ∈ frames, e.1.kinds.Nodup
  kind_eq : ∀ x kind kind', frames.Lists kind x → frames.Lists kind' x → kind = kind'

theorem Lists.cons {e : Frame × Nat} (h : frames.Lists kind x) : Lists (e :: frames) kind x := by
  obtain ⟨e', he', hlists⟩ := h
  exact ⟨e', List.mem_cons_of_mem _ he', hlists⟩

/-- It is enough that each instance has one kind under which it is listed. -/
theorem IsPartitioned.of_owner (hnodup : ∀ e ∈ frames, e.1.kinds.Nodup)
    (owner : InstanceId → Kind)
    (h : ∀ e ∈ frames, ∀ v ∈ e.1.visits, ∀ x ∈ v.2.map (·.id), v.1 = owner x) :
    frames.IsPartitioned where
  nodup := hnodup
  kind_eq := by
    rintro x _ _ ⟨e, he, v, hv, rfl, hx⟩ ⟨e', he', v', hv', rfl, hx'⟩
    rw [h e he v hv x hx, h e' he' v' hv' x hx']

theorem lists_iff : frames.Lists kind x ↔
    ∃ e ∈ frames.restrict kind, x ∈ visitedIds e.1.visits := by
  unfold Lists restrict visitedIds
  simp only [List.mem_map, exists_exists_and_eq_and, Frame.visits_restrict, List.mem_flatMap,
    List.mem_filter, decide_eq_true_eq, and_assoc]

theorem IsPartitioned.tail {e : Frame × Nat} (h : IsPartitioned (e :: frames)) :
    frames.IsPartitioned where
  nodup e' he' := h.nodup e' (List.mem_cons_of_mem _ he')
  kind_eq x kind kind' hx hx' := h.kind_eq x kind kind' hx.cons hx'.cons

/-- The same footage with the kinds of each frame in another order. -/
def Reorders (frames frames' : Footage) : Prop :=
  List.Forall₂ (fun e e' => e.1.Perm e'.1 ∧ e.2 = e'.2) frames frames'

variable {frames' : Footage}

theorem Reorders.restrict_eq (h : frames.Reorders frames') (hkinds : ∀ e ∈ frames, e.1.kinds.Nodup)
    (kind : Kind) : frames.restrict kind = frames'.restrict kind := by
  induction h with
  | nil => rfl
  | @cons e e' frames frames' he h ih =>
      obtain ⟨hhead, hrest⟩ := List.forall_mem_cons.1 hkinds
      have hentry : (e.1.restrict kind, e.2) = (e'.1.restrict kind, e'.2) :=
        Prod.ext (Frame.restrict_eq_of_perm hhead he.1 kind) he.2
      exact congrArg₂ List.cons hentry (ih hrest)

theorem Reorders.isPartitioned (h : frames.Reorders frames') (hframes : frames.IsPartitioned) :
    frames'.IsPartitioned := by
  have hrestrict := h.restrict_eq hframes.nodup
  refine ⟨fun e' he' => ?_, fun x kind kind' hx hx' => hframes.kind_eq x kind kind' ?_ ?_⟩
  · obtain ⟨e, he, hperm, -⟩ := exists_of_mem_right h he'
    exact (hperm.map _).nodup_iff.1 (hframes.nodup e he)
  · rwa [lists_iff, hrestrict, ← lists_iff]
  · rwa [lists_iff, hrestrict, ← lists_iff]

end Footage

/-! ## Watching footage -/

namespace Scaler

theorem Pace.reports_run {φ : Type} [Fleet φ] (p : Pace φ) (wakes : List Wake) :
    (p.run wakes).reports = p.reports ++ (p.scaler.run p.fleet wakes).reports := by
  induction wakes generalizing p with
  | nil => exact (List.append_nil _).symm
  | cons wake wakes ih =>
      cases wake with
      | shutdown => exact (List.append_nil _).symm
      | timer now =>
          have hpace := ih (p.tick now)
          have hrun := ih (Pace.tick { scaler := p.scaler, fleet := p.fleet } now)
          change (p.run (.timer now :: wakes)).reports = _ at hpace
          change (p.scaler.run p.fleet (.timer now :: wakes)).reports = _ at hrun
          rw [hpace, hrun]
          exact List.append_assoc ..

/-- The reports of the ticks that succeed on footage. -/
def watch (s : Scaler) (frames : Footage) : List TickReport :=
  (s.run ({ ahead := frames.map (·.1) } : Script) (frames.map fun e => .timer e.2)).reports

variable {s s' : Scaler} {f : Frame} {now : Nat} {frames : Footage} {kind : Kind}

def firstTick (s : Scaler) (f : Frame) (now : Nat) (frames : Footage) : Tick Script :=
  s.tick { ahead := f :: frames.map (·.1) } now

theorem watch_cons (s : Scaler) (f : Frame) (now : Nat) (frames : Footage) :
    s.watch ((f, now) :: frames) =
      (s.firstTick f now frames).result.toOption.toList ++
        (s.firstTick f now frames).scaler.watch frames := by
  have hfleet : (s.firstTick f now frames).fleet = ⟨f, frames.map (·.1)⟩ :=
    Script.fleet_tick ..
  have hrun := Pace.reports_run
    (Pace.tick { scaler := s, fleet := ({ ahead := f :: frames.map (·.1) } : Script) } now)
    (frames.map fun e => .timer e.2)
  have hrest : ((s.firstTick f now frames).scaler.run (s.firstTick f now frames).fleet
      (frames.map fun e => .timer e.2)).reports =
        (s.firstTick f now frames).scaler.watch frames := by
    rw [hfleet]
    -- What is shown at the start is not seen, as each tick begins with the next frame.
    cases frames with
    | nil => rfl
    | cons e frames => rfl
  exact hrun.trans (congrArg _ hrest)

theorem watch_cons_of_isReadable (hf : f.IsReadable) (hkinds : f.kinds.Nodup) (s : Scaler)
    (now : Nat) (frames : Footage) :
    ∃ r, (s.firstTick f now frames).result = .ok r ∧
      (s.firstTick f now frames).pools = f.visits.map (·.2) ∧
      r.decisions = f.visits.map (fun v => (s.config.evaluate s.idle v.1 v.2).2) ∧
      s.watch ((f, now) :: frames) = r :: (s.firstTick f now frames).scaler.watch frames := by
  obtain ⟨r, hr, hpools, hdecisions⟩ :=
    Script.tick_of_isReadable hf hkinds s [] (frames.map (·.1)) now
  refine ⟨r, hr, hpools, hdecisions, ?_⟩
  have hresult : (s.firstTick f now frames).result = .ok r := hr
  rw [watch_cons, hresult]
  rfl

theorem length_watch_le (s : Scaler) (frames : Footage) :
    (s.watch frames).length ≤ frames.length := by
  induction frames generalizing s with
  | nil => exact Nat.le_refl _
  | cons e frames ih =>
      have hrest := ih (s.firstTick e.1 e.2 frames).scaler
      rw [watch_cons, List.length_append, List.length_cons, Nat.add_comm]
      refine Nat.add_le_add hrest ?_
      cases (s.firstTick e.1 e.2 frames).result with
      | error e => exact Nat.zero_le _
      | ok r => exact Nat.le_refl _

theorem length_watch_eq_iff (hkinds : ∀ e ∈ frames, e.1.kinds.Nodup) (s : Scaler) :
    (s.watch frames).length = frames.length ↔ ∀ e ∈ frames, e.1.IsReadable := by
  induction frames generalizing s with
  | nil => exact iff_of_true rfl nofun
  | cons e frames ih =>
      obtain ⟨f, now⟩ := e
      obtain ⟨hf, hrest⟩ := List.forall_mem_cons.1 hkinds
      have hiff := ih hrest (s.firstTick f now frames).scaler
      rw [List.forall_mem_cons, ← hiff, watch_cons]
      cases hresult : (s.firstTick f now frames).result with
      | error e =>
          have hle := length_watch_le (s.firstTick f now frames).scaler frames
          refine iff_of_false ?_ fun ⟨hreadable, _⟩ => ?_
          · intro hlength
            change ((s.firstTick f now frames).scaler.watch frames).length = _ + 1 at hlength
            omega
          · obtain ⟨r, hr, -⟩ := watch_cons_of_isReadable hreadable hf s now frames
            rw [hresult] at hr
            cases hr
      | ok r =>
          rw [and_iff_right (Script.isReadable_of_ok hf hresult)]
          exact Nat.succ_inj

theorem exists_tick_of_mem_watch {r : TickReport} (hr : r ∈ s.watch frames) :
    ∃ e ∈ frames, ∃ (s' : Scaler) (rest : Footage),
      (s'.firstTick e.1 e.2 rest).result = .ok r := by
  induction frames generalizing s with
  | nil => cases hr
  | cons e frames ih =>
      rw [watch_cons, List.mem_append] at hr
      rcases hr with hr | hr
      · refine ⟨e, List.mem_cons_self .., s, frames, ?_⟩
        cases hresult : (s.firstTick e.1 e.2 frames).result with
        | error e =>
            rw [hresult] at hr
            cases hr
        | ok r' =>
            rw [hresult] at hr
            rw [List.mem_singleton.1 hr]
      · obtain ⟨e', he', s', rest, hresult⟩ := ih hr
        exact ⟨e', List.mem_cons_of_mem _ he', s', rest, hresult⟩

end Scaler

end FleetSizing
