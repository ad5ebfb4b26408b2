import FleetSizing.Proofs.Config.Acceptance
import FleetSizing.Proofs.Scaler.Targets
import FleetSizing.Proofs.Scaler.Verdicts
/-!
# Growth

A growth band enlarges a pool by its factor.  An accepted factor exceeds one, which does not
make every pool grow: what the factor adds to a small pool can be lost in the tolerance of the
target.  Factors of six decimal places enlarge a pool exactly.
-/

namespace FleetSizing

open Binary64

namespace Config

variable {c : Config} {kind : Kind} {pool : List Snapshot}
variable {average factor : Float} {requested : Nat}

theorem growth_of_factor
    (hfactor : c.growthFactor (mean (pool.map (·.utilization))) = some factor) :
    c.growth kind pool = (.grew (mean (pool.map (·.utilization))) factor
        ((targetSize pool.length factor - pool.length) % Text.word32),
      List.replicate (targetSize pool.length factor - pool.length) (.create kind)) := by
  unfold growth
  dsimp only
  rw [hfactor]

theorem Verdict.of_grew {as : List Action}
    (h : Verdict c kind pool (.grew average factor requested) as) :
    pool ≠ [] ∧ c.growthFactor (mean (pool.map (·.utilization))) = some factor ∧
      requested = (targetSize pool.length factor - pool.length) % Text.word32 ∧
      as = List.replicate (targetSize pool.length factor - pool.length) (.create kind) := by
  cases h with
  | grew _ hpool _ hfactor => exact ⟨hpool, hfactor, rfl, rfl⟩

/-- A pool grows when the product of its size and the factor exceeds the size by more than the
tolerance.  Every accepted factor exceeds one, but one next to it does not enlarge a small pool. -/
theorem growth_enlarges (c : Config) (t : IdleTracker) (kind : Kind) {pool : List Snapshot}
    {average factor : Float} {requested : Nat} (hvalid : c.validate = .ok ())
    (hgrew : (c.evaluate t kind pool).2.outcome = .grew average factor requested) :
    let n := pool.length
    let d := (c.evaluate t kind pool).2
    Exceeds factor 1 ∧
    (n < d.resultingPoolSize ↔
      n < Text.word64 - 1 ∧ Exceeds (Float.ofNat n * factor - targetTolerance) n) ∧
    (1 ≤ requested ↔ n < d.resultingPoolSize ∧ ¬ Text.word32 ∣ d.creates) ∧
    (n < Text.word64 - 1 → Exceeds factor (1 + 1001 / 10 ^ 12) → n < d.resultingPoolSize) ∧
    (n < 2 ^ 23 → ∀ v, value? factor = some v → n * (v - 1) ≤ 2 ^ (-30 : Int) →
      d.actions = []) := by
  intro n d
  have hverdict := c.verdict_evaluate t kind pool
  rw [hgrew] at hverdict
  obtain ⟨hpool, hfactor, hrequested, hactions⟩ := hverdict.of_grew
  change requested = (targetSize n factor - n) % Text.word32 at hrequested
  obtain ⟨tick, window, haccepted⟩ := validate_eq_ok_iff.1 hvalid
  have hexceeds := haccepted.exceeds_one hfactor
  have hn : 1 ≤ n := List.length_pos_iff.2 hpool
  have hcreates : d.creates = targetSize n factor - n := by
    change d.actions.countP Action.isCreate = _
    rw [hactions, countP_isCreate_replicate]
  have hsize : d.resultingPoolSize = n + (targetSize n factor - n) := resultingPoolSize_eq hactions
  have henlarged : n < d.resultingPoolSize ↔ n < targetSize n factor := by omega
  refine ⟨hexceeds, henlarged.trans lt_targetSize_iff, ?_, ?_, ?_⟩
  · rw [henlarged, hcreates, hrequested, Nat.dvd_iff_mod_eq_zero]
    have hzero : targetSize n factor - n = 0 → (targetSize n factor - n) % Text.word32 = 0 := by
      intro h
      rw [h, Nat.zero_mod]
    omega
  · intro hword hlarge
    exact henlarged.2 (lt_targetSize_of_exceeds hn hword hlarge)
  · intro hsmall v hv hclose
    have hv0 : 0 ≤ v := by
      rcases hexceeds with hinf | ⟨w, hw, hlt⟩
      · rw [value?, hinf] at hv
        cases hv
      · obtain rfl := Option.some.inj (hv.symm.trans hw)
        linarith
    rw [hactions, Nat.sub_eq_zero_of_le (targetSize_le hsmall hv hv0 hclose), List.replicate_zero]

/-- A factor that exceeds one by less than the tolerance. -/
def scarce : Config := { growthBands := [⟨0.5, none, 1.0000000001⟩] }

def busyPool : List Snapshot := [⟨1, true, 1.0⟩]

theorem growth_enlarges_scarce :
    scarce.validate = .ok () ∧
    (scarce.evaluate {} "web" busyPool).2.outcome = .grew 1.0 1.0000000001 0 ∧
    Exceeds 1.0000000001 1 ∧ (scarce.evaluate {} "web" busyPool).2.actions = [] ∧
    (evaluate {} {} "web" busyPool).2.outcome = .grew 1.0 1.8 1 ∧
    busyPool.length < (evaluate {} {} "web" busyPool).2.resultingPoolSize := by
  have hvalid : scarce.validate = .ok () := by decide +kernel
  have hgrew : (scarce.evaluate {} "web" busyPool).2.outcome = .grew 1.0 1.0000000001 0 := by
    decide +kernel
  have hvalid' : validate {} = .ok () := by decide +kernel
  have hgrew' : (evaluate {} {} "web" busyPool).2.outcome = .grew 1.0 1.8 1 := by decide +kernel
  obtain ⟨hexceeds, -, -, -, hsmall⟩ := growth_enlarges scarce {} "web" hvalid hgrew
  obtain ⟨-, -, hrequested, -⟩ := growth_enlarges {} {} "web" hvalid' hgrew'
  have hvalue := value?_of_unpack (x := 1.0000000001) 4503599627820856 (-52) (by decide) (by rfl)
  have hclose : busyPool.length * (magnitude 4503599627820856 (-52) - 1) ≤ 2 ^ (-30 : Int) := by
    norm_num [magnitude, busyPool]
  exact ⟨hvalid, hgrew, hexceeds, hsmall (by decide) _ hvalue hclose, hgrew',
    (hrequested.1 (by decide)).1⟩

/-- A pool that grows by an accepted factor can be asked for nothing. -/
theorem grew_by_nothing :
    ¬ ∀ (c : Config) (t : IdleTracker) (kind : Kind) (pool : List Snapshot)
        (average factor : Float) (requested : Nat), c.validate = .ok () →
      (c.evaluate t kind pool).2.outcome = .grew average factor requested →
      1 ≤ requested ∧ pool.length < (c.evaluate t kind pool).2.resultingPoolSize := by
  intro h
  have hgrown := h scarce {} "web" busyPool 1.0 1.0000000001 0 (by decide +kernel)
    (by decide +kernel)
  exact absurd hgrown.1 (by decide)

/-! ## Exact growth -/

/-- A factor of six decimal places enlarges a pool to the exact product rounded up. -/
theorem growth_is_exact {n m : Nat} {factor : Float} (hn : 1 ≤ n) (hm : 10 ^ 6 < m)
    (hsize : n * m ≤ 10 ^ 12) (hfactor : IsNearest (m / 10 ^ 6) factor) :
    targetSize n factor = ⌈(n * (m / 10 ^ 6) : ℚ)⌉₊ ∧
    ∀ (c : Config) (kind : Kind) (pool : List Snapshot), pool.length = n →
      c.growthFactor (mean (pool.map (·.utilization))) = some factor →
      c.growth kind pool = (.grew (mean (pool.map (·.utilization))) factor
          (⌈(n * (m / 10 ^ 6) : ℚ)⌉₊ - n),
        List.replicate (⌈(n * (m / 10 ^ 6) : ℚ)⌉₊ - n) (.create kind)) := by
  have hsmall : |(m / 10 ^ 6 : ℚ)| ≤ limit := by
    have hm' : m ≤ 2 ^ 40 := by
      have := Nat.le_mul_of_pos_left m hn
      omega
    rw [abs_of_nonneg (by positivity)]
    calc
      (m / 10 ^ 6 : ℚ) ≤ m := div_le_self (Nat.cast_nonneg m) (by norm_num)
      _ ≤ 2 ^ (40 : Int) := by exact_mod_cast hm'
      _ ≤ limit := two_zpow_le_limit (by decide)
  obtain ⟨v, hv, hround⟩ := hfactor.exists_isRounding hsmall
  have htarget := targetSize_of_isRounding hn hm hsize hround hv
  refine ⟨htarget, fun c kind pool hpool hband => ?_⟩
  have hfits : ⌈(n * (m / 10 ^ 6) : ℚ)⌉₊ - n < Text.word32 := by
    have hle : ⌈(n * (m / 10 ^ 6) : ℚ)⌉₊ ≤ 10 ^ 6 := by
      rw [Nat.ceil_le, ← mul_div_assoc, div_le_iff₀ (by norm_num)]
      exact_mod_cast hsize
    unfold Text.word32
    omega
  rw [growth_of_factor hband, hpool, htarget, Nat.mod_eq_of_lt hfits]

theorem isNearest_noisyFactor : IsNearest ((1120000 : Nat) / 10 ^ 6) 1.12 := by
  have hvalue := value?_of_unpack (x := 1.12) 5044031582654956 (-52) (by decide) (by rfl)
  refine isNearest_of_abs_sub_le hvalue (by decide) ?_
  norm_num [magnitude, abs_le]

/-- A factor whose product with a size can come out too large. -/
def noisy : Config := { growthBands := [⟨0.5, none, 1.12⟩] }

def manyBusy : List Snapshot := (List.range 25).map fun i => ⟨i + 1, true, 1.0⟩

/-- The product of the doubles `25` and `1.12` exceeds `28`, and the target does not. -/
theorem growth_is_exact_twentyFive :
    25 * 1120000 ≤ 10 ^ 12 ∧ IsNearest ((1120000 : Nat) / 10 ^ 6) 1.12 ∧
    28.0 < Float.ofNat 25 * 1.12 ∧ targetSize 25 1.12 = 28 ∧
    noisy.growth "web" manyBusy = (.grew 1.0 1.12 3, List.replicate 3 (.create "web")) := by
  have hceil : ⌈((25 : Nat) * ((1120000 : Nat) / 10 ^ 6) : ℚ)⌉₊ = 28 := by
    rw [Nat.ceil_eq_iff (by decide)]
    norm_num
  have hmean : mean (manyBusy.map (·.utilization)) = 1.0 := by decide +kernel
  have hband : noisy.growthFactor (mean (manyBusy.map (·.utilization))) = some 1.12 := by
    rw [hmean]
    decide +kernel
  obtain ⟨htarget, hgrowth⟩ := growth_is_exact (n := 25) (m := 1120000) (by decide) (by decide)
    (by decide) isNearest_noisyFactor
  rw [hceil] at htarget hgrowth
  have hgrown := hgrowth noisy "web" manyBusy rfl hband
  rw [hmean] at hgrown
  exact ⟨by decide, isNearest_noisyFactor, by decide +kernel, htarget, hgrown⟩

end Config

end FleetSizing
