import FleetSizing.Proofs.Means
import FleetSizing.Proofs.Scaler.Surplus
import Mathlib.Data.List.Find
/-!
# Pools of equal utilization

A pool of busy instances that all have the same utilization has an average next to it.  Its
growth band is that of the utilization, unless a bound of a band lies in between.
-/

namespace FleetSizing

open Binary64

namespace Binary64

open Float.Model.UnpackedFloat

variable {b x y : Float} {v w ε : ℚ}

theorem compare_of_value?_eq_none (hb : value? b = none) (hx : value? x = some v)
    (hy : value? y = some w) :
    b.toModel.unpack.compare x.toModel.unpack = b.toModel.unpack.compare y.toModel.unpack ∧
      x.toModel.unpack.compare b.toModel.unpack = y.toModel.unpack.compare b.toModel.unpack := by
  unfold value? at hb hx hy
  generalize x.toModel.unpack = ux at *
  generalize y.toModel.unpack = uy at *
  cases hub : b.toModel.unpack with
  | zero s => rw [hub] at hb; cases hb
  | finite s m e hm => rw [hub] at hb; cases hb
  | notANumber => cases ux <;> cases uy <;> exact ⟨rfl, rfl⟩
  | infinity s => cases ux <;> cases hx <;> cases uy <;> cases hy <;> cases s <;> exact ⟨rfl, rfl⟩

theorem lt_congr (hx : value? x = some v) (hy : value? y = some w)
    (hb : ∀ q, value? b = some q → (q < v ↔ q < w) ∧ (v < q ↔ w < q)) :
    (b < x ↔ b < y) ∧ (x < b ↔ y < b) := by
  cases hvalue : value? b with
  | some q =>
      rw [lt_iff_value hvalue hx, lt_iff_value hvalue hy, lt_iff_value hx hvalue,
        lt_iff_value hy hvalue]
      exact hb q hvalue
  | none =>
      obtain ⟨hleft, hright⟩ := compare_of_value?_eq_none hvalue hx hy
      constructor
      · change decide ((b.toModel.unpack.compare x.toModel.unpack == some .lt) = true) = true ↔
          decide ((b.toModel.unpack.compare y.toModel.unpack == some .lt) = true) = true
        rw [hleft]
      · change decide ((x.toModel.unpack.compare b.toModel.unpack == some .lt) = true) = true ↔
          decide ((y.toModel.unpack.compare b.toModel.unpack == some .lt) = true) = true
        rw [hright]

theorem same_side (hclose : |w - v| ≤ ε) {q : ℚ} (hq : ε < |q - v|) :
    (q < v ↔ q < w) ∧ (v < q ↔ w < q) := by
  obtain ⟨hlow, hhigh⟩ := abs_le.1 hclose
  rcases lt_abs.1 hq with h | h
  · constructor <;> constructor <;> intro <;> linarith
  · constructor <;> constructor <;> intro <;> linarith

end Binary64

def GrowthBand.bounds (band : GrowthBand) : List Float := band.lower :: band.upper.toList

theorem GrowthBand.contains_congr {band : GrowthBand} {x y : Float} {v w : ℚ}
    (hx : value? x = some v) (hy : value? y = some w)
    (h : ∀ b ∈ band.bounds, ∀ q, value? b = some q → (q < v ↔ q < w) ∧ (v < q ↔ w < q)) :
    band.contains x = band.contains y := by
  have hlower := (lt_congr hx hy (h band.lower (List.mem_cons_self ..))).1
  unfold contains
  rw [decide_eq_decide.2 hlower]
  congr 1
  cases hupper : band.upper with
  | none => rfl
  | some upper =>
      have hmem : upper ∈ band.bounds := by simp [bounds, hupper]
      exact decide_eq_decide.2 (lt_congr hx hy (h upper hmem)).2

/-- Averages that no bound of a band separates have the same growth factor. -/
theorem Config.growthFactor_congr {c : Config} {x y : Float} {v w : ℚ} (hx : value? x = some v)
    (hy : value? y = some w) (h : ∀ band ∈ c.growthBands, ∀ b ∈ band.bounds, ∀ q,
      value? b = some q → (q < v ↔ q < w) ∧ (v < q ↔ w < q)) :
    c.growthFactor x = c.growthFactor y := by
  unfold growthFactor
  rw [List.find?_congr fun band hband => GrowthBand.contains_congr hx hy (h band hband)]

/-- The pool grows by this factor, or stays as it is without one. -/
def Outcome.Follows (factor? : Option Float) (o : Outcome) : Prop :=
  match factor? with
  | some factor => ∃ average requested, o = .grew average factor requested
  | none => ∃ average, o = .steady average

namespace Config

variable {c : Config} {kind : Kind} {pool : List Snapshot} {u : Float}

theorem growth_follows_iff {factor? : Option Float} :
    (c.growth kind pool).1.Follows factor? ↔
      c.growthFactor (mean (pool.map (·.utilization))) = factor? := by
  unfold growth
  dsimp only
  cases c.growthFactor (mean (pool.map (·.utilization))) with
  | none => cases factor? <;> simp [Outcome.Follows]
  | some factor => cases factor? <;> simp [Outcome.Follows]

theorem judge_of_busy (t : IdleTracker) (kind : Kind) (hpool : pool ≠ [])
    (hbusy : ∀ s ∈ pool, s.busy = true) : (c.judge t kind pool).2 = c.growth kind pool := by
  have hspare : pool.filter c.isSpare = [] := by
    rw [List.filter_eq_nil_iff]
    intro s hs hspare
    have hidle := busy_of_isSpare hspare
    rw [hbusy s hs] at hidle
    cases hidle
  match pool, hpool with
  | [sole], _ => simp [judge, hbusy sole (List.mem_singleton_self _)]
  | s :: s' :: rest, _ => exact shrinkage_of_none hspare

/-- A pool of busy instances that all have the utilization `u` follows the band of their mean,
which is next to `u`.  That is the band of `u` where no partial sum is rounded, in particular
for one instance and for two, and where no bound of a band is as near to `u` as the mean. -/
theorem uniform_pool_follows (c : Config) (t : IdleTracker) (kind : Kind) {pool : List Snapshot}
    {u : Float} (hpool : pool ≠ []) (hbusy : ∀ s ∈ pool, s.busy = true ∧ s.utilization = u)
    (hu : isFraction u = true) :
    let n := pool.length
    let o := (c.evaluate t kind pool).2.outcome
    (∀ factor?, o.Follows factor? ↔ c.growthFactor (mean (List.replicate n u)) = factor?) ∧
    ∃ v, value? u = some v ∧ 0 ≤ v ∧ v ≤ 1 ∧
      (n ≤ 2 → o.Follows (c.growthFactor u)) ∧
      (n ≤ 2 ^ 53 → (∀ m ≤ n, IsRepresentable (m * v)) → o.Follows (c.growthFactor u)) ∧
      (n ≤ 2 ^ 53 → ∃ w, value? (mean (List.replicate n u)) = some w ∧
        |w - v| ≤ n * 2 ^ (-52 : Int)) ∧
      (n ≤ 2 ^ 53 → (∀ band ∈ c.growthBands, ∀ b ∈ band.bounds, ∀ q, value? b = some q →
        n * 2 ^ (-52 : Int) < |q - v|) → o.Follows (c.growthFactor u)) := by
  intro n o
  obtain ⟨v, hv, hv0, hv1⟩ := value_of_isFraction hu
  have hn : 1 ≤ n := List.length_pos_iff.2 hpool
  have hutilizations : pool.map (·.utilization) = List.replicate n u := by
    rw [List.map_congr_left fun s hs => (hbusy s hs).2, List.map_const']
  have hiff (factor? : Option Float) :
      o.Follows factor? ↔ c.growthFactor (mean (List.replicate n u)) = factor? := by
    have ho : o = (c.growth kind pool).1 :=
      congrArg Prod.fst (judge_of_busy t kind hpool fun s hs => (hbusy s hs).1)
    rw [ho, growth_follows_iff, hutilizations]
  have hexact (hn' : n ≤ 2 ^ 53) (h : ∀ m ≤ n, IsRepresentable (m * v)) :
      o.Follows (c.growthFactor u) :=
    (hiff _).2 (growthFactor_congr (value_mean_replicate hv hv0 hv1 hn hn' h) hv
      fun _ _ _ _ _ _ => ⟨Iff.rfl, Iff.rfl⟩)
  refine ⟨hiff, v, hv, hv0, hv1, fun hn2 => ?_, hexact,
    fun hn' => abs_mean_replicate_sub_le hv hv0 hv1 hn hn', fun hn' hclear => ?_⟩
  · refine hexact (by omega) fun m hm => ?_
    have hrepresentable := isRepresentable_of_value? hv
    match m, hm.trans hn2 with
    | 0, _ => simpa using isRepresentable_zero
    | 1, _ => simpa using hrepresentable
    | 2, _ => exact_mod_cast hrepresentable.two_mul
  · obtain ⟨w, hw, hclose⟩ := abs_mean_replicate_sub_le hv hv0 hv1 hn hn'
    refine (hiff _).2 (growthFactor_congr hv hw fun band hband b hb q hq => ?_).symm
    exact same_side hclose (hclear band hband b hb q hq)

/-- Busy instances at the upper bound of the first band. -/
def atEdge (n : Nat) : List Snapshot := (List.range n).map fun i => ⟨i + 1, true, 0.8⟩

/-- Three instances at a bound have a mean above it and grow, two do not. -/
theorem uniform_pool_follows_at_edge :
    growthFactor {} 0.8 = none ∧
    ((evaluate {} {} "web" (atEdge 3)).2.outcome.Follows (some 1.6)) ∧
    ((evaluate {} {} "web" (atEdge 2)).2.outcome.Follows none) := by
  have hbusy (n : Nat) : ∀ s ∈ atEdge n, s.busy = true ∧ s.utilization = 0.8 := by
    intro s hs
    obtain ⟨i, -, rfl⟩ := List.mem_map.1 hs
    exact ⟨rfl, rfl⟩
  have hu : isFraction 0.8 = true := by decide +kernel
  have hedge : growthFactor {} 0.8 = none := by decide +kernel
  obtain ⟨hthree, -⟩ := uniform_pool_follows {} {} "web" (by decide) (hbusy 3) hu
  obtain ⟨-, -, -, -, -, htwo, -⟩ := uniform_pool_follows {} {} "web" (by decide) (hbusy 2) hu
  refine ⟨hedge, (hthree _).2 (by decide +kernel), ?_⟩
  rw [← hedge]
  exact htwo le_rfl

/-- The mean of equal utilizations can be in another band than the utilizations. -/
theorem uniform_pool_departs : ¬ ∀ (c : Config) (t : IdleTracker) (kind : Kind)
    (pool : List Snapshot) (u : Float), pool ≠ [] →
    (∀ s ∈ pool, s.busy = true ∧ s.utilization = u) → isFraction u = true →
    (c.evaluate t kind pool).2.outcome.Follows (c.growthFactor u) := by
  intro h
  have hfollows := h {} {} "web" (atEdge 3) 0.8 (by decide) (by decide +kernel) (by decide +kernel)
  have hedge : growthFactor {} 0.8 = none := by decide +kernel
  rw [hedge] at hfollows
  obtain ⟨average, hsteady⟩ := hfollows
  have hgrew : (evaluate {} {} "web" (atEdge 3)).2.outcome = .grew 0.8000000000000002 1.6 2 := by
    decide +kernel
  rw [hgrew] at hsteady
  cases hsteady

end Config

end FleetSizing
