import FleetSizing.Proofs.Scaler.Footage
import FleetSizing.Sums
import Mathlib.Data.List.Forall2
/-!
# The product of kinds

A control loop over several kinds is a control loop for each of them: where no instance is
ever listed under two kinds, what is decided for a kind does not depend on the others, nor
on the order in which they are visited.
-/

namespace FleetSizing.Scaler

variable {s s' : Scaler} {f : Frame} {now : Nat} {frames : Footage} {kind : Kind}

theorem get?_idle_firstTick (hframes : Footage.IsPartitioned ((f, now) :: frames))
    (hreadable : f.IsReadable) (hconfig : s.config = s'.config) {x : InstanceId}
    (hlisted : Footage.Lists ((f, now) :: frames) kind x)
    (hidle : s.idle.get? x = s'.idle.get? x) :
    (s.firstTick f now frames).scaler.idle.get? x =
      (s'.firstTick (f.restrict kind) now (frames.restrict kind)).scaler.idle.get? x := by
  have hkinds := hframes.nodup _ (List.mem_cons_self ..)
  obtain ⟨r, hr, hpools, -⟩ := watch_cons_of_isReadable hreadable hkinds s now frames
  obtain ⟨r', hr', hpools', -⟩ := watch_cons_of_isReadable
    (hreadable.sublist (f.restrict_sublist kind)) (Frame.nodup_kinds_restrict hkinds kind) s' now
    (frames.restrict kind)
  refine get?_tick_congr hr hr' hconfig hidle ?_
  change x ∈ (s.firstTick f now frames).pools.filterMap idleSole? ↔
    x ∈ (s'.firstTick _ now _).pools.filterMap idleSole?
  rw [hpools, hpools', f.visits_restrict]
  simp only [List.mem_filterMap, List.mem_map, List.mem_filter, decide_eq_true_eq]
  constructor
  · rintro ⟨pool, ⟨v, hv, rfl⟩, hsole⟩
    have hlists : Footage.Lists ((f, now) :: frames) v.1 x :=
      ⟨_, List.mem_cons_self .., v, hv, rfl, mem_of_idleSole? hsole⟩
    exact ⟨v.2, ⟨v, ⟨hv, hframes.kind_eq x v.1 kind hlists hlisted⟩, rfl⟩, hsole⟩
  · rintro ⟨pool, ⟨v, ⟨hv, -⟩, rfl⟩, hsole⟩
    exact ⟨v.2, ⟨v, hv, rfl⟩, hsole⟩

/-- The decisions for a kind are those of a scaler that is shown this kind only. -/
theorem watch_restrict (hframes : frames.IsPartitioned) (hreadable : ∀ e ∈ frames, e.1.IsReadable)
    (hconfig : s.config = s'.config)
    (hidle : ∀ x, frames.Lists kind x → s.idle.get? x = s'.idle.get? x) :
    (s'.watch (frames.restrict kind)).map (·.decisions) =
      (s.watch frames).map fun r => r.decisions.filter (·.kind = kind) := by
  induction frames generalizing s s' with
  | nil => rfl
  | cons e frames ih =>
      obtain ⟨f, now⟩ := e
      obtain ⟨hf, hrest⟩ := List.forall_mem_cons.1 hreadable
      have hkinds := hframes.nodup _ (List.mem_cons_self ..)
      obtain ⟨r, -, -, hdecisions, hwatch⟩ := watch_cons_of_isReadable hf hkinds s now frames
      obtain ⟨r', -, -, hdecisions', hwatch'⟩ := watch_cons_of_isReadable
        (hf.sublist (f.restrict_sublist kind)) (Frame.nodup_kinds_restrict hkinds kind) s' now
        (Footage.restrict frames kind)
      change s'.watch (Footage.restrict ((f, now) :: frames) kind) = _ at hwatch'
      have hconfig' : (s.firstTick f now frames).scaler.config =
          (s'.firstTick (f.restrict kind) now (Footage.restrict frames kind)).scaler.config :=
        hconfig
      have hlater := ih hframes.tail hrest hconfig' fun x hx =>
        get?_idle_firstTick hframes hf hconfig hx.cons (hidle x hx.cons)
      rw [hwatch, hwatch', List.map_cons, List.map_cons, hlater, hdecisions, hdecisions',
        f.visits_restrict, List.filter_map]
      refine congrArg (· :: _) ?_
      change (f.visits.filter (·.1 = kind)).map _ = (f.visits.filter (·.1 = kind)).map _
      refine List.map_congr_left fun v hv => ?_
      obtain ⟨hv, hkind⟩ := List.mem_filter.1 hv
      rw [hconfig]
      refine (Config.evaluate_congr fun x hx => ?_).symm
      exact hidle x ⟨_, List.mem_cons_self .., v, hv, by simpa using hkind, hx⟩

def trackedIdleAt (i : Nat) (reports : List TickReport) : Nat :=
  (reports[i]?.map (·.trackedIdle)).getD 0

theorem trackedIdleAt_watch (s : Scaler) (frames : Footage) (i : Nat) :
    trackedIdleAt i (s.watch frames) =
      ((((s.watch frames).map (·.decisions))[i]?).map
        (·.countP fun d => d.outcome.isGracePeriod)).getD 0 := by
  unfold trackedIdleAt
  rw [List.getElem?_map, Option.map_map]
  cases hr : (s.watch frames)[i]? with
  | none => rfl
  | some r =>
      obtain ⟨e, -, s', rest, hresult⟩ := exists_tick_of_mem_watch (List.mem_of_getElem? hr)
      exact trackedIdle_of_ok hresult

theorem countP_eq_sumOf_filter (p : Decision → Bool) {kinds : List Kind} (hkinds : kinds.Nodup)
    {ds : List Decision} (hds : ∀ d ∈ ds, d.kind ∈ kinds) :
    ds.countP p = sumOf (fun kind => (ds.filter (·.kind = kind)).countP p) kinds := by
  induction kinds generalizing ds with
  | nil =>
      rw [List.eq_nil_iff_forall_not_mem.2 fun d hd => List.not_mem_nil (hds d hd)]
      rfl
  | cons kind kinds ih =>
      obtain ⟨hkind, hkinds⟩ := List.nodup_cons.1 hkinds
      have hrest : ∀ d ∈ ds.filter (fun d => !decide (d.kind = kind)), d.kind ∈ kinds := by
        intro d hd
        obtain ⟨hd, hne⟩ := List.mem_filter.1 hd
        exact (List.mem_cons.1 (hds d hd)).resolve_left (by simpa using hne)
      rw [List.countP_eq_countP_filter_add ds p (·.kind = kind), sumOf_cons, ih hkinds hrest]
      refine congrArg (_ + ·) (sumOf_congr fun kind' hkind' => ?_)
      rw [List.filter_filter]
      refine congrArg (List.countP p) (List.filter_congr fun d _ => ?_)
      have hne : kind' ≠ kind := fun heq => hkind (heq ▸ hkind')
      by_cases h : d.kind = kind' <;> simp [h, hne]

theorem perm_of_filter_eq {ds ds' : List Decision}
    (h : ∀ kind, ds.filter (·.kind = kind) = ds'.filter (·.kind = kind)) : ds.Perm ds' := by
  rw [List.perm_iff_count]
  intro d
  rw [← List.count_filter (p := (·.kind = d.kind)) (by simp), h,
    List.count_filter (by simp)]

theorem decisionFor_eq_of_filter_eq {r r' : TickReport} {kind : Kind}
    (h : r.decisions.filter (·.kind = kind) = r'.decisions.filter (·.kind = kind)) :
    r.decisionFor kind = r'.decisionFor kind := by
  rw [TickReport.decisionFor, ← List.head?_filter, h, List.head?_filter]
  rfl

theorem forall₂_of_map_eq {α β γ : Type} [Inhabited α] {f : α → β → γ} {xs ys : List β}
    (h : ∀ a, xs.map (f a) = ys.map (f a)) :
    List.Forall₂ (fun x y => ∀ a, f a x = f a y) xs ys := by
  induction xs generalizing ys with
  | nil =>
      rw [List.map_eq_nil_iff.1 (h default).symm]
      exact .nil
  | cons x xs ih =>
      cases ys with
      | nil => cases h default
      | cons y ys =>
          exact .cons (fun a => (List.cons.inj (h a)).1) (ih fun a => (List.cons.inj (h a)).2)

/-- Where no instance is ever listed under two kinds and every tick succeeds, a scaler decides
for each kind as one that is shown this kind only, it tracks the instances that these track,
and the order of the kinds in the frames does not change any decision. -/
theorem product_of_kinds (c : Config) (frames : Footage) (hframes : frames.IsPartitioned)
    (hok : (watch { config := c } frames).length = frames.length) :
    (∀ kind, (watch { config := c } (frames.restrict kind)).map (·.decisions) =
      (watch { config := c } frames).map fun r => r.decisions.filter (·.kind = kind)) ∧
    (∀ kinds : List Kind, kinds.Nodup → (∀ e ∈ frames, ∀ kind ∈ e.1.kinds, kind ∈ kinds) →
      ∀ i, trackedIdleAt i (watch { config := c } frames) =
        sumOf (fun kind => trackedIdleAt i (watch { config := c } (frames.restrict kind))) kinds) ∧
    ∀ frames', frames.Reorders frames' →
      List.Forall₂ (fun r r' => r.decisions.Perm r'.decisions ∧
        ∀ kind, r.decisionFor kind = r'.decisionFor kind)
          (watch { config := c } frames) (watch { config := c } frames') := by
  have hreadable := (length_watch_eq_iff hframes.nodup { config := c }).1 hok
  have hparts (kind : Kind) : (watch { config := c } (frames.restrict kind)).map (·.decisions) =
      (watch { config := c } frames).map fun r => r.decisions.filter (·.kind = kind) :=
    watch_restrict hframes hreadable rfl fun _ _ => rfl
  refine ⟨hparts, fun kinds hkinds hcover i => ?_, fun frames' hreorders => ?_⟩
  · simp only [trackedIdleAt_watch, hparts, List.getElem?_map]
    cases hr : (watch { config := c } frames)[i]? with
    | none => exact (sumOf_eq_zero fun _ _ => rfl).symm
    | some r =>
        obtain ⟨e, he, s', rest, hresult⟩ := exists_tick_of_mem_watch (List.mem_of_getElem? hr)
        refine countP_eq_sumOf_filter _ hkinds fun d hd => hcover e he _ ?_
        have hmem := List.mem_map_of_mem (f := (·.kind)) hd
        rwa [map_kind_decisions hresult] at hmem
  · have hframes' := hreorders.isPartitioned hframes
    have hreadable' : ∀ e' ∈ frames', e'.1.IsReadable := by
      intro e' he'
      obtain ⟨e, he, hperm, -⟩ := exists_of_mem_right hreorders he'
      exact (hreadable e he).perm hperm
    have hall : List.Forall₂ (fun r r' => ∀ kind, r.decisions.filter (·.kind = kind) =
        r'.decisions.filter (·.kind = kind))
          (watch { config := c } frames) (watch { config := c } frames') := by
      refine forall₂_of_map_eq fun kind => ?_
      rw [← hparts, hreorders.restrict_eq hframes.nodup kind]
      exact watch_restrict hframes' hreadable' rfl fun _ _ => rfl
    exact hall.imp fun r r' h =>
      ⟨perm_of_filter_eq h, fun kind => decisionFor_eq_of_filter_eq (h kind)⟩

/-- Two kinds with a sole idle instance each, of which the first one is not listed for a tick. -/
def pausingFootage : Footage :=
  [([("web", some [⟨1, false, 0.0⟩]), ("db", some [⟨2, false, 0.0⟩])], 60),
    ([("db", some [⟨2, false, 0.0⟩])], 120),
    ([("web", some [⟨1, false, 0.0⟩]), ("db", some [⟨2, false, 0.0⟩])], 180)]

theorem isPartitioned_pausingFootage : pausingFootage.IsPartitioned :=
  .of_owner (by decide +kernel) (fun x => if x = 1 then "web" else "db") (by decide +kernel)

theorem product_of_kinds_pausing :
    let full := watch { config := {} } pausingFootage
    let part kind := watch { config := {} } (pausingFootage.restrict kind)
    let reversed : Footage := pausingFootage.map fun e => (e.1.reverse, e.2)
    pausingFootage.IsPartitioned ∧ full.length = pausingFootage.length ∧
    (part "web").map (·.trackedIdle) = [1, 0, 1] ∧
    (part "web").map (·.decisions) = full.map (fun r => r.decisions.filter (·.kind = "web")) ∧
    (∀ i, trackedIdleAt i full = sumOf (fun kind => trackedIdleAt i (part kind)) ["web", "db"]) ∧
    List.Forall₂ (fun r r' => r.decisions.Perm r'.decisions ∧
      ∀ kind, r.decisionFor kind = r'.decisionFor kind) full (watch { config := {} } reversed) := by
  intro full part reversed
  have hok : full.length = pausingFootage.length := by decide +kernel
  obtain ⟨hparts, htracked, horder⟩ :=
    product_of_kinds {} pausingFootage isPartitioned_pausingFootage hok
  refine ⟨isPartitioned_pausingFootage, hok, by decide +kernel, hparts "web", ?_, ?_⟩
  · exact htracked ["web", "db"] (by decide) (by decide +kernel)
  · refine horder reversed (List.forall₂_map_right_iff.2 (List.forall₂_same.2 fun e _ => ?_))
    exact ⟨(List.reverse_perm e.1).symm, rfl⟩

end FleetSizing.Scaler
