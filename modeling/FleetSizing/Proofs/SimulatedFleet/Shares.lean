import FleetSizing.Proofs.SimulatedFleet.Instances
/-!
# The history of an instance

The utilization of an instance is the mean of the shares that it has worked in the latest
ticks since it was created.  Nothing but a tick adds to this history, and an instance that is
gone has none.
-/

namespace FleetSizing

namespace Change

def isSync : Change → Bool
  | .sync _ => true
  | .register _ | .load _ | .request _ => false

/-- No time passes, and the instance is not destroyed. -/
def Spares (id : InstanceId) : Change → Prop
  | .sync _ => False
  | .request (.destroy _ id') => id' ≠ id
  | .request (.create _) | .register _ | .load _ => True

end Change

namespace SimulatedFleet

variable {f : SimulatedFleet} {id : InstanceId} {i : Instance}

def sharesBy (f : SimulatedFleet) (id : InstanceId) : Change → List Float
  | .sync _ => [f.share id]
  | .register _ | .load _ | .request _ => []

/-- The shares that an instance works in the course of some changes, tick by tick. -/
def shares (f : SimulatedFleet) (id : InstanceId) : List Change → List Float
  | [] => []
  | c :: cs => f.sharesBy id c ++ (f.change c).shares id cs

theorem shares_concat (f : SimulatedFleet) (id : InstanceId) (cs : List Change) (c : Change) :
    f.shares id (cs ++ [c]) = f.shares id cs ++ (f.changeAll cs).sharesBy id c := by
  induction cs generalizing f with
  | nil => exact List.append_nil _
  | cons c' cs ih =>
      rw [List.cons_append, shares, shares, ih, List.append_assoc]
      rfl

theorem length_shares (f : SimulatedFleet) (id : InstanceId) (cs : List Change) :
    (f.shares id cs).length = cs.countP Change.isSync := by
  induction cs generalizing f with
  | nil => rfl
  | cons c cs ih =>
      rw [shares, List.length_append, ih, List.countP_cons, Nat.add_comm]
      cases c <;> rfl

theorem IsSound.isFraction_of_mem_shares (hf : f.IsSound) {cs : List Change} {x : Float}
    (hx : x ∈ f.shares id cs) : isFraction x = true := by
  induction cs generalizing f with
  | nil => cases hx
  | cons c cs ih =>
      rcases List.mem_append.1 hx with hx | hx
      · cases c with
        | sync now => exact List.mem_singleton.1 hx ▸ hf.isFraction_share id
        | register kind => cases hx
        | load trace => cases hx
        | request action => cases hx
      · exact ih (hf.change c) hx

theorem windowTicks_change (f : SimulatedFleet) (c : Change) :
    (f.change c).windowTicks = f.windowTicks := by
  cases c with
  | register kind => rfl
  | load trace =>
      have hregistered := (isAbreast_foldl_register f trace.allKinds).windowTicks
      change (f.load trace).1.windowTicks = _
      unfold load
      split <;> exact hregistered
  | request action => cases action <;> rfl
  | sync now => exact (isAbreast_advance f).windowTicks

theorem windowTicks_changeAll (f : SimulatedFleet) (cs : List Change) :
    (f.changeAll cs).windowTicks = f.windowTicks := by
  induction cs generalizing f with
  | nil => rfl
  | cons c cs ih => exact (ih (f.change c)).trans (f.windowTicks_change c)

theorem IsSound.instance?_apply_cases (hf : f.IsSound) {a : Action}
    (h : (Fleet.apply f a).instance? id = some i) :
    f.instance? id = some i ∨
      (∃ kind, a = .create kind) ∧ id = f.lastId + 1 ∧
        i = { id, window := .ofCapacity f.windowTicks } := by
  cases a with
  | create kind =>
      replace h := (hf.instance?_create kind id).symm.trans h
      split at h
      next hid => exact Or.inr ⟨⟨kind, rfl⟩, hid, (Option.some.inj h).symm⟩
      next => exact Or.inl h
  | destroy kind id' =>
      replace h := (hf.instance?_destroy id id').symm.trans h
      split at h
      next => cases h
      next => exact Or.inl h

/-- An instance that is there after a change was there before, and has recorded what it has
worked in between; or it is new. -/
theorem IsSound.instance?_change_cases (hf : f.IsSound) {c : Change}
    (h : (f.change c).instance? id = some i) :
    (∃ j, f.instance? id = some j ∧
      i.window = (f.sharesBy id c).foldl Window.record j.window) ∨
    (∃ kind, c = .request (.create kind)) ∧ id = f.lastId + 1 ∧
      i.window = .ofCapacity f.windowTicks := by
  cases c with
  | register kind => exact Or.inl ⟨i, (hf.instance?_register kind id).symm.trans h, rfl⟩
  | load trace => exact Or.inl ⟨i, (hf.instance?_load trace id).symm.trans h, rfl⟩
  | request action =>
      rcases hf.instance?_apply_cases h with h | ⟨⟨kind, rfl⟩, hid, rfl⟩
      · exact Or.inl ⟨i, h, rfl⟩
      · exact Or.inr ⟨⟨kind, rfl⟩, hid, rfl⟩
  | sync now =>
      replace h := (hf.instance?_advance id).symm.trans h
      obtain ⟨j, hj, rfl⟩ := Option.map_eq_some_iff.1 h
      exact Or.inl ⟨j, hj, rfl⟩

theorem IsSound.instance?_change_of_spares (hf : f.IsSound) (h : f.instance? id = some i)
    {c : Change} (hc : c.Spares id) : (f.change c).instance? id = some i := by
  match c, hc with
  | .register kind, _ => exact (hf.instance?_register kind id).trans h
  | .load trace, _ => exact (hf.instance?_load trace id).trans h
  | .request (.create kind), _ =>
      have hlt := Nat.lt_succ_of_le (hf.le_lastId_of_instance? h)
      refine (hf.instance?_create kind id).trans ?_
      rw [if_neg (Nat.ne_of_lt hlt), h]
  | .request (.destroy kind id'), hne =>
      refine (hf.instance?_destroy id id').trans ?_
      rw [if_neg (Ne.symm hne), h]

theorem IsSound.instance?_change_of_none (hf : f.IsSound) (hid : id ≤ f.lastId)
    (h : f.instance? id = none) (c : Change) : (f.change c).instance? id = none := by
  rw [Option.eq_none_iff_forall_ne_some]
  intro i hi
  rcases hf.instance?_change_cases hi with ⟨j, hj, -⟩ | ⟨-, hnew, -⟩
  · rw [h] at hj
    cases hj
  · exact absurd hid (hnew ▸ Nat.not_succ_le_self _)

theorem IsSound.instance?_changeAll_of_none (hf : f.IsSound) (hid : id ≤ f.lastId)
    (h : f.instance? id = none) (cs : List Change) : (f.changeAll cs).instance? id = none := by
  induction cs generalizing f with
  | nil => exact h
  | cons c cs ih =>
      have hlast : id ≤ (f.change c).lastId := by
        rw [lastId_change]
        exact Nat.le_add_right_of_le hid
      exact ih (hf.change c) hlast (hf.instance?_change_of_none hid h c)

theorem IsSound.instance?_tick (hf : f.IsSound) (hid : id ≤ f.lastId) {s : Scaler} {now : Nat}
    (h : (s.tick f now).fleet.instance? id = some i) : f.advance.instance? id = some i := by
  let P (g : SimulatedFleet) : Prop :=
    g.IsSound ∧ id ≤ g.lastId ∧ ∀ i, g.instance? id = some i → f.advance.instance? id = some i
  have hsync : P (Fleet.sync f now) := ⟨hf.advance, f.lastId_advance ▸ hid, fun _ hi => hi⟩
  have hkept : P (s.tick f now).fleet := by
    refine Scaler.fleet_tick_of_invariant hsync fun g a ⟨hg, hle, hi⟩ => ⟨hg.apply a, ?_, ?_⟩
    · have hlast : (Fleet.apply g a).lastId = _ := g.lastId_change (.request a)
      rw [hlast]
      exact Nat.le_add_right_of_le hle
    · intro i h
      rcases hg.instance?_apply_cases h with h | ⟨-, hnew, -⟩
      · exact hi i h
      · exact absurd hle (hnew ▸ Nat.not_succ_le_self _)
  exact hkept.2.2 i h

/-! ## Since the creation -/

theorem instance?_ofConfig {c : Config} (h : ofConfig c = .ok f) (id : InstanceId) :
    f.instance? id = none := by
  obtain ⟨-, -, heq⟩ := ofConfig_eq_ok h
  rw [heq]
  rfl

theorem exists_create {c : Config} (hf : ofConfig c = .ok f) {cs : List Change}
    (h : (f.changeAll cs).instance? id = some i) :
    ∃ before kind after, cs = before ++ .request (.create kind) :: after ∧
      (f.changeAll before).lastId + 1 = id ∧
      i.window = ((f.changeAll (before ++ [.request (.create kind)])).shares id after).foldl
        Window.record (.ofCapacity f.windowTicks) := by
  induction cs using List.reverseRecOn generalizing i with
  | nil => cases (instance?_ofConfig hf id).symm.trans h
  | append_singleton cs c ih =>
      rw [changeAll_concat] at h
      have hsound := (isSound_ofConfig hf).changeAll cs
      rcases hsound.instance?_change_cases h with ⟨j, hj, hwindow⟩ | ⟨⟨kind, rfl⟩, hnew, hwindow⟩
      · obtain ⟨before, kind, after, rfl, hlast, hj'⟩ := ih hj
        refine ⟨before, kind, after ++ [c], by simp, hlast, ?_⟩
        have hchanged : (f.changeAll (before ++ [.request (.create kind)])).changeAll after =
            f.changeAll (before ++ .request (.create kind) :: after) := by
          simp only [changeAll, ← List.foldl_append, List.append_assoc, List.singleton_append]
        rw [shares_concat, List.foldl_append, ← hj', hchanged, hwindow]
      · refine ⟨cs, kind, [], rfl, hnew.symm, ?_⟩
        rw [hwindow, windowTicks_changeAll]
        rfl

theorem utilization_eq (h : f.instance? id = some i) : f.utilization id = i.window.average := by
  rw [utilization, h, Option.map_some, Option.getD_some]

/-- The window of an instance holds the shares of the latest ticks since its creation, and its
utilization is their mean. -/
theorem exists_history {c : Config} (hf : ofConfig c = .ok f) {cs : List Change}
    (h : (f.changeAll cs).instance? id = some i) :
    ∃ before kind after, cs = before ++ .request (.create kind) :: after ∧
      (f.changeAll before).lastId + 1 = id ∧
      let shares := (f.changeAll (before ++ [.request (.create kind)])).shares id after
      let capacity := max f.windowTicks 1
      i.window.capacity = capacity ∧ i.window.samples = shares.rtake capacity ∧
        (f.changeAll cs).utilization id =
          if shares.length = 0 then 0.0
          else total (shares.rtake capacity) / Float.ofNat (min shares.length capacity) := by
  obtain ⟨before, kind, after, hcs, hlast, hwindow⟩ := exists_create hf h
  refine ⟨before, kind, after, hcs, hlast, ?_⟩
  intro shares capacity
  have hempty : (Window.ofCapacity f.windowTicks).IsSound :=
    Window.isSound_ofCapacity (isSound_ofConfig hf).windowTicks_lt
  have hcreated := (isSound_ofConfig hf).changeAll (before ++ [.request (.create kind)])
  have hsamples : i.window.samples = shares.rtake capacity := by
    rw [hwindow]
    exact hempty.samples_foldl_record fun _ => hcreated.isFraction_of_mem_shares
  refine ⟨?_, hsamples, ?_⟩
  · rw [hwindow, Window.capacity_foldl_record]
    rfl
  · rw [utilization_eq h, Window.average_eq hsamples (Nat.le_max_right ..)]

end SimulatedFleet

open SimulatedFleet

/-- Whatever has been done with a new fleet, the window of an instance holds the shares of the
latest ticks since its creation, and its utilization is their mean, or zero before the first
tick.  Nothing but a tick changes it, and an instance that is gone has no utilization. -/
theorem utilization_eq_trailing_mean (c : Config) (f₀ : SimulatedFleet)
    (hf₀ : ofConfig c = .ok f₀) (cs : List Change) :
    ∃ w, c.windowTicks = .ok w ∧
    let f := f₀.changeAll cs
    (∀ id i, f.instance? id = some i →
      ∃ before kind after, cs = before ++ .request (.create kind) :: after ∧
        (f₀.changeAll before).lastId + 1 = id ∧
        let shares := (f₀.changeAll (before ++ [.request (.create kind)])).shares id after
        shares.length = after.countP Change.isSync ∧
        i.window.samples = shares.rtake (max w 1) ∧
        f.utilization id =
          if shares.length = 0 then 0.0
          else total (shares.rtake (max w 1)) / Float.ofNat (min shares.length (max w 1))) ∧
    (∀ id c, (f.instance? id).isSome → c.Spares id →
      (f.change c).utilization id = f.utilization id) ∧
    (∀ (s : Scaler) now id, id ≤ f.lastId → ((s.tick f now).fleet.instance? id).isSome →
      (s.tick f now).fleet.utilization id = f.advance.utilization id) ∧
    ∀ id, (∀ kind, (f.change (.request (.destroy kind id))).instance? id = none) ∧
      (f.instance? id = none →
        f.utilization id = 0.0 ∧ f.isRunning id = false ∧
          (id ≤ f.lastId → ∀ cs', (f.changeAll cs').instance? id = none)) := by
  obtain ⟨-, hwindow, -⟩ := ofConfig_eq_ok hf₀
  refine ⟨f₀.windowTicks, hwindow, ?_⟩
  intro f
  have hsound : f.IsSound := (isSound_ofConfig hf₀).changeAll cs
  refine ⟨fun id i hi => ?_, fun id c hlive hc => ?_, fun s now id hid hlive => ?_, fun id => ?_⟩
  · obtain ⟨before, kind, after, hcs, hlast, -, hsamples, haverage⟩ := exists_history hf₀ hi
    exact ⟨before, kind, after, hcs, hlast, length_shares _ id after, hsamples, haverage⟩
  · obtain ⟨i, hi⟩ := Option.isSome_iff_exists.1 hlive
    rw [utilization_eq hi, utilization_eq (hsound.instance?_change_of_spares hi hc)]
  · obtain ⟨i, hi⟩ := Option.isSome_iff_exists.1 hlive
    rw [utilization_eq hi, utilization_eq (hsound.instance?_tick hid hi)]
  · refine ⟨fun kind => ?_, fun hnone => ⟨?_, ?_, fun hid cs' => ?_⟩⟩
    · exact (hsound.instance?_destroy id id).trans (if_pos rfl)
    · rw [utilization, hnone]
      rfl
    · rw [isRunning, hnone]
      rfl
    · exact hsound.instance?_changeAll_of_none hid hnone cs'

/-- A window of two ticks. -/
def shortWindow : Config := { utilizationWindow := "4m" }

/-- An instance works for two ticks and is idle in the third. -/
def workedOff : List Change :=
  [.request (.create "web"), .load steadyTrace, .sync 120, .sync 240, .request (.create "web"),
    .request (.destroy "web" 2), .sync 360]

theorem utilization_eq_trailing_mean_workedOff : ∃ f₀ i, ofConfig shortWindow = .ok f₀ ∧
    (f₀.changeAll workedOff).instance? 1 = some i ∧ i.window.samples = [1.0, 0.0] ∧
    ∃ before kind after, workedOff = before ++ .request (.create kind) :: after ∧
      (f₀.changeAll before).lastId = 0 ∧
      i.window.samples =
        ((f₀.changeAll (before ++ [.request (.create kind)])).shares 1 after).rtake 2 ∧
      ((f₀.changeAll workedOff).change (.request (.create "db"))).utilization 1 =
        (f₀.changeAll workedOff).utilization 1 := by
  have hwindow : shortWindow.windowTicks = .ok 2 := by decide +kernel
  have hrun : (do
      let f₀ ← (ofConfig shortWindow).toOption
      let i ← (f₀.changeAll workedOff).instance? 1
      return i.window.samples) = some [1.0, 0.0] := by
    decide +kernel
  simp only [bind, Option.bind_eq_some_iff] at hrun
  obtain ⟨f₀, hf₀, i, hi, hsamples⟩ := hrun
  have hf₀' := eq_ok_of_toOption hf₀
  obtain ⟨w, hw, hhistory, hspared, -⟩ :=
    utilization_eq_trailing_mean shortWindow f₀ hf₀' workedOff
  obtain rfl : 2 = w := Except.ok.inj (hwindow.symm.trans hw)
  obtain ⟨before, kind, after, hcs, hlast, -, hrecorded, -⟩ := hhistory 1 i hi
  exact ⟨f₀, i, hf₀', hi, Option.some.inj hsamples, before, kind, after, hcs,
    Nat.succ.inj hlast, hrecorded, hspared 1 _ (hi ▸ rfl) trivial⟩

end FleetSizing
