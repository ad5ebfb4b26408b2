import FleetSizing.Config.Check
import FleetSizing.Proofs.Binary64.WholeNumbers
import FleetSizing.Window
/-!
# Utilizations are fractions

A window holds shares of a tick, so its mean is a share as well: the sum of `n` doubles
in the unit interval rounds to at most `n`, and the quotient by `n` to at most one.
-/

namespace FleetSizing

open Binary64

theorem isFraction_iff_value {x : Float} {q : ℚ} (hx : value? x = some q) :
    isFraction x = true ↔ 0 ≤ q ∧ q ≤ 1 := by
  unfold isFraction
  rw [Bool.and_eq_true, decide_eq_true_iff, decide_eq_true_iff, le_iff_value value?_zero hx,
    le_iff_value hx value?_one]

theorem isFraction_zero : isFraction 0.0 = true :=
  (isFraction_iff_value value?_zero).2 ⟨le_rfl, zero_le_one⟩

theorem value_of_isFraction {x : Float} (hx : isFraction x = true) :
    ∃ q, value? x = some q ∧ 0 ≤ q ∧ q ≤ 1 := by
  suffices h : ∃ q, value? x = some q by
    obtain ⟨q, hq⟩ := h
    exact ⟨q, hq, (isFraction_iff_value hq).1 hx⟩
  unfold isFraction at hx
  rw [Bool.and_eq_true, decide_eq_true_iff, decide_eq_true_iff] at hx
  obtain ⟨hzero, hone⟩ := hx
  change decide ((Float.toModel 0.0).unpack.le x.toModel.unpack = true) = true at hzero
  change decide (x.toModel.unpack.le (Float.toModel 1.0).unpack = true) = true at hone
  have hzero' : (0.0 : Float).toModel.unpack = .zero .positive := by rfl
  have hone' : (1.0 : Float).toModel.unpack = .finite .positive (2 ^ 52) (-52) (by decide) := by
    rfl
  rw [hzero', decide_eq_true_iff] at hzero
  rw [hone', decide_eq_true_iff] at hone
  unfold value?
  cases hu : x.toModel.unpack with
  | zero s => exact ⟨_, rfl⟩
  | finite s m e hm => exact ⟨_, rfl⟩
  | notANumber =>
      rw [hu] at hzero
      exact absurd hzero Bool.false_ne_true
  | infinity s =>
      rw [hu] at hzero hone
      cases s with
      | negative => exact absurd hzero Bool.false_ne_true
      | positive => exact absurd hone Bool.false_ne_true

theorem clampToUnit_of_isFraction {x : Float} (hx : isFraction x = true) : clampToUnit x = x := by
  obtain ⟨q, hq, hq0, hq1⟩ := value_of_isFraction hx
  unfold clampToUnit
  rw [if_neg, if_neg]
  · rw [lt_iff_value value?_one hq]
    exact not_lt.2 hq1
  · rw [lt_iff_value hq value?_zero]
    exact not_lt.2 hq0

theorem word64_le_limit {n : Nat} (hn : n < Text.word64) : (n : ℚ) ≤ limit := by
  have h : (n : ℚ) ≤ 2 ^ (64 : Int) := by
    have : n ≤ 2 ^ 64 := hn.le
    exact_mod_cast this
  exact h.trans (two_zpow_le_limit (by decide))

theorem isFraction_share {used seconds : Nat} (hpos : 0 < seconds) (hle : used ≤ seconds)
    (hseconds : seconds < Text.word64) :
    isFraction (Float.ofNat used / Float.ofNat seconds) = true := by
  have hused := word64_le_limit (hle.trans_lt hseconds)
  obtain ⟨a, ha, hra⟩ := value?_ofNat hused
  obtain ⟨b, hb, hrb⟩ := value?_ofNat (word64_le_limit hseconds)
  have ha0 : 0 ≤ a := hra.le_of_ge 0 isRepresentable_zero (Nat.cast_nonneg used)
  have hb1 : 1 ≤ b := hrb.le_of_ge 1 isRepresentable_one (by exact_mod_cast hpos)
  have hab : a ≤ b := (le_iff_value ha hb).1 (ofNat_le_ofNat hle (word64_le_limit hseconds))
  have hquot0 : 0 ≤ a / b := by positivity
  have hquot1 : a / b ≤ 1 := (div_le_one (by linarith)).2 hab
  have hbound : |a / b| ≤ limit := by
    rw [abs_of_nonneg hquot0]
    exact hquot1.trans ((two_zpow_le_limit (e := 0) (by decide)).trans' (by rw [zpow_zero]))
  obtain ⟨r, hr, hround⟩ := value?_div ha hb (by linarith) hbound
  exact (isFraction_iff_value hr).2
    ⟨hround.le_of_ge 0 isRepresentable_zero hquot0, hround.le_of_le 1 isRepresentable_one hquot1⟩

theorem value?_size {n : Nat} (hn : n ≤ 2 ^ 53) : value? (Float.ofNat n) = some (n : ℚ) := by
  have hsmall : (n : ℚ) ≤ 2 ^ (53 : Int) := by exact_mod_cast hn
  obtain ⟨r, hr, hround⟩ := value?_ofNat (hsmall.trans (two_zpow_le_limit (by decide)))
  rwa [hround.eq (isRepresentable_natCast hn)] at hr

theorem value?_neg_zero : value? (-0.0) = some 0 := by
  have h : (-0.0 : Float).toModel.unpack = .zero .negative := by rfl
  rw [value?, h, unpackedValue?]

theorem value_add_fraction {a x : Float} {q p : ℚ} {k : Nat} (ha : value? a = some q)
    (hx : value? x = some p) (hq0 : 0 ≤ q) (hqk : q ≤ k) (hp0 : 0 ≤ p) (hp1 : p ≤ 1)
    (hk : k + 1 ≤ 2 ^ 53) :
    ∃ r, value? (a + x) = some r ∧ IsRounding (q + p) r ∧ 0 ≤ r ∧ r ≤ (k + 1 : Nat) := by
  have hsum : q + p ≤ (k + 1 : Nat) := by
    push_cast
    linarith
  have hsmall : ((k + 1 : Nat) : ℚ) ≤ 2 ^ (53 : Int) := by exact_mod_cast hk
  have hbound : |q + p| ≤ limit := by
    rw [abs_of_nonneg (by linarith)]
    exact (hsum.trans hsmall).trans (two_zpow_le_limit (by decide))
  obtain ⟨r, hr, hround⟩ := value?_add ha hx hbound
  -- The bound is a whole number, which rounding does not cross.
  exact ⟨r, hr, hround, hround.le_of_ge 0 isRepresentable_zero (by linarith),
    hround.le_of_le _ (isRepresentable_natCast hk) hsum⟩

theorem value_foldl_add {xs : List Float} (hxs : ∀ x ∈ xs, isFraction x = true) {a : Float}
    {q : ℚ} {k : Nat} (ha : value? a = some q) (hq : 0 ≤ q) (hqk : q ≤ k)
    (hk : k + xs.length ≤ 2 ^ 53) :
    ∃ r, value? (xs.foldl (· + ·) a) = some r ∧ 0 ≤ r ∧ r ≤ (k + xs.length : Nat) := by
  induction xs generalizing a q k with
  | nil => exact ⟨q, ha, hq, by simpa using hqk⟩
  | cons x xs ih =>
      rw [List.length_cons] at hk ⊢
      obtain ⟨p, hp, hp0, hp1⟩ := value_of_isFraction (hxs x (List.mem_cons_self ..))
      obtain ⟨r, hr, -, hr0, hrk⟩ := value_add_fraction ha hp hq hqk hp0 hp1 (by omega)
      have hcount : k + (xs.length + 1) = k + 1 + xs.length := by omega
      rw [List.foldl_cons, hcount]
      exact ih (fun y hy => hxs y (List.mem_cons_of_mem _ hy)) hr hr0 hrk (by omega)

theorem value_mean {xs : List Float} (hpos : 0 < xs.length) (hlength : xs.length ≤ 2 ^ 53)
    {r : ℚ} (hr : value? (total xs) = some r) (hr0 : 0 ≤ r) (hrn : r ≤ xs.length) :
    0 ≤ r / xs.length ∧ r / xs.length ≤ 1 ∧
      ∃ p, value? (mean xs) = some p ∧ IsRounding (r / xs.length) p := by
  have hpos' : (0 : ℚ) < xs.length := Nat.cast_pos.2 hpos
  have hle : r / xs.length ≤ 1 := (div_le_one hpos').2 hrn
  have hge : 0 ≤ r / xs.length := div_nonneg hr0 hpos'.le
  have hbound : |r / xs.length| ≤ limit := by
    rw [abs_of_nonneg hge]
    exact hle.trans ((two_zpow_le_limit (e := 0) (by decide)).trans' (by rw [zpow_zero]))
  exact ⟨hge, hle, value?_div hr (value?_size hlength) hpos'.ne' hbound⟩

theorem isFraction_mean {xs : List Float} (hne : xs ≠ []) (hxs : ∀ x ∈ xs, isFraction x = true)
    (hlength : xs.length ≤ 2 ^ 53) : isFraction (mean xs) = true := by
  obtain ⟨r, hr, hr0, hrn⟩ := value_foldl_add hxs (k := 0) value?_neg_zero le_rfl (by simp)
    (by omega)
  rw [Nat.zero_add] at hrn
  obtain ⟨hge, hle, p, hp, hround⟩ := value_mean (List.length_pos_iff.2 hne) hlength hr hr0 hrn
  exact (isFraction_iff_value hp).2
    ⟨hround.le_of_ge 0 isRepresentable_zero hge, hround.le_of_le 1 isRepresentable_one hle⟩

/-! ## Windows -/

theorem rtake_rtake {α : Type} (m n : Nat) (xs : List α) :
    (xs.rtake n).rtake m = xs.rtake (min m n) := by
  simp only [List.rtake_eq_reverse_take_reverse, List.reverse_reverse, List.take_take]

theorem length_rtake {α : Type} (n : Nat) (xs : List α) :
    (xs.rtake n).length = min xs.length n := by
  rw [List.rtake, List.length_drop]
  omega

/-- A window of fractions that is not overfull. -/
structure Window.IsSound (w : Window) : Prop where
  capacity_pos : 0 < w.capacity
  capacity_lt : w.capacity < Text.word32
  length_le : w.samples.length ≤ w.capacity
  isFraction : ∀ x ∈ w.samples, FleetSizing.isFraction x = true

namespace Window

theorem isSound_ofCapacity {capacity : Nat} (h : capacity < Text.word32) :
    (ofCapacity capacity).IsSound where
  capacity_pos := by
    change 0 < max capacity 1
    omega
  capacity_lt := by
    change max capacity 1 < 4294967296
    change capacity < 4294967296 at h
    omega
  length_le := Nat.zero_le _
  isFraction := by
    intro x hx
    cases hx

theorem record_of_isFraction (w : Window) {x : Float} (hx : FleetSizing.isFraction x = true) :
    w.record x = { w with samples :=
      (if w.samples.length = w.capacity then w.samples.tail else w.samples) ++ [x] } := by
  rw [record, clampToUnit_of_isFraction hx]

theorem IsSound.record {w : Window} (hw : w.IsSound) {x : Float}
    (hx : FleetSizing.isFraction x = true) : (w.record x).IsSound where
  capacity_pos := hw.capacity_pos
  capacity_lt := hw.capacity_lt
  length_le := by
    have := hw.length_le
    have := hw.capacity_pos
    unfold Window.record
    split <;> simp only [List.length_append, List.length_tail, List.length_singleton] <;> omega
  isFraction := by
    intro y hy
    rw [record_of_isFraction w hx] at hy
    rcases List.mem_append.1 hy with hy | hy
    · refine hw.isFraction y ?_
      split at hy
      · exact List.mem_of_mem_tail hy
      · exact hy
    · rwa [List.mem_singleton.1 hy]

theorem IsSound.isFraction_average {w : Window} (hw : w.IsSound) :
    FleetSizing.isFraction w.average = true := by
  unfold average
  split
  next => exact isFraction_zero
  next hne =>
    refine isFraction_mean (by simpa using hne) hw.isFraction ?_
    have := hw.length_le
    have := hw.capacity_lt
    unfold Text.word32 at this
    omega

theorem IsSound.foldl_record {w : Window} (hw : w.IsSound) {xs : List Float}
    (hxs : ∀ x ∈ xs, FleetSizing.isFraction x = true) : (xs.foldl Window.record w).IsSound :=
  List.foldlRecOn xs Window.record hw fun _ hv x hx => hv.record (hxs x hx)

theorem capacity_foldl_record (w : Window) (xs : List Float) :
    (xs.foldl Window.record w).capacity = w.capacity := by
  induction xs generalizing w with
  | nil => rfl
  | cons x xs ih => exact ih (w.record x)

theorem IsSound.samples_record {w : Window} (hw : w.IsSound) {x : Float}
    (hx : FleetSizing.isFraction x = true) :
    (w.record x).samples = (w.samples ++ [x]).rtake w.capacity := by
  obtain ⟨n, hn⟩ := Nat.exists_eq_add_one.2 hw.capacity_pos
  have hlength := hw.length_le
  rw [record_of_isFraction w hx, hn, List.rtake_concat_succ]
  dsimp only
  congr 1
  unfold List.rtake
  split
  next hfull => rw [hfull, Nat.add_sub_cancel_left, List.drop_one]
  next hroom => rw [Nat.sub_eq_zero_of_le (by omega), List.drop_zero]

/-- A window holds the latest of all samples ever recorded. -/
theorem IsSound.samples_foldl_record {w : Window} (hw : w.IsSound) {xs : List Float}
    (hxs : ∀ x ∈ xs, FleetSizing.isFraction x = true) :
    (xs.foldl Window.record w).samples = (w.samples ++ xs).rtake w.capacity := by
  induction xs using List.reverseRecOn with
  | nil =>
      rw [List.foldl_nil, List.append_nil, List.rtake, Nat.sub_eq_zero_of_le hw.length_le,
        List.drop_zero]
  | append_singleton xs x ih =>
      have hxs' : ∀ y ∈ xs, FleetSizing.isFraction y = true :=
        fun y hy => hxs y (List.mem_append_left _ hy)
      obtain ⟨n, hn⟩ := Nat.exists_eq_add_one.2 hw.capacity_pos
      rw [List.foldl_concat, (hw.foldl_record hxs').samples_record (hxs x (by simp)),
        capacity_foldl_record, ih hxs', ← List.append_assoc, hn, List.rtake_concat_succ,
        List.rtake_concat_succ, rtake_rtake, Nat.min_eq_left (Nat.le_succ n)]

theorem average_eq {w : Window} {xs : List Float} {n : Nat} (h : w.samples = xs.rtake n)
    (hn : 0 < n) : w.average =
      if xs.length = 0 then 0.0 else total (xs.rtake n) / Float.ofNat (min xs.length n) := by
  have hlength := length_rtake n xs
  rw [average, mean, h, hlength]
  by_cases hxs : xs.length = 0
  · rw [if_pos hxs, List.length_eq_zero_iff.1 hxs, List.rtake_nil]
    rfl
  · have hne : (xs.rtake n).isEmpty = false := by
      rw [← Bool.not_eq_true, List.isEmpty_iff, ← List.length_eq_zero_iff]
      omega
    rw [if_neg hxs, hne, if_neg Bool.false_ne_true]

end Window

end FleetSizing
