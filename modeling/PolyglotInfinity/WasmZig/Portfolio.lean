import PolyglotInfinity.WasmZig.Finance

/-!
# The two-asset portfolio

The variance is a parabola in the weight. The weight of least variance is its vertex, or
the end of the interval that is nearest to the vertex.
-/

namespace PolyglotInfinity.WasmZig

variable {F : Type} [Field F] [LinearOrder F] [IsStrictOrderedRing F] {vol1 vol2 corr w u x : F}

theorem portVar_eq (w vol1 vol2 corr : F) : portVar w vol1 vol2 corr =
    (vol1 * vol1 + vol2 * vol2 - 2.0 * (corr * vol1 * vol2)) * w ^ 2 -
      2.0 * (vol2 * vol2 - corr * vol1 * vol2) * w + vol2 * vol2 := by
  unfold portVar
  norm_num
  ring

/-- With a correlation in its range the variance is no less than a square. -/
theorem portVar_nonneg (corr_low : -1 ≤ corr) (corr_high : corr ≤ 1) (w : F) : 0 ≤ portVar w vol1 vol2 corr := by
  have squares : portVar w vol1 vol2 corr =
      (w * vol1 + corr * ((1 - w) * vol2)) ^ 2 + (1 - corr ^ 2) * ((1 - w) * vol2) ^ 2 := by
    unfold portVar
    norm_num
    ring
  have range : 0 ≤ 1 - corr ^ 2 := by nlinarith
  rw [squares]
  positivity

/-- Clamping goes to the nearest weight. -/
theorem clamp_nearest (u_nonneg : 0 ≤ u) (u_le : u ≤ 1) (x : F) : (max 0 (min 1 x) - x) ^ 2 ≤ (u - x) ^ 2 := by
  rcases le_total x 0 with below | above
  · rw [min_eq_right (below.trans zero_le_one), max_eq_left below]
    nlinarith
  · rcases le_total x 1 with inside | beyond
    · rw [min_eq_right inside, max_eq_right above, sub_self, zero_pow two_ne_zero]
      exact sq_nonneg _
    · rw [min_eq_left beyond, max_eq_right zero_le_one]
      nlinarith

theorem minVarWeight_eq (apart : 1e-12 ≤ vol1 * vol1 + vol2 * vol2 - 2.0 * (corr * vol1 * vol2)) :
    minVarWeight vol1 vol2 corr = max 0 (min 1 ((vol2 * vol2 - corr * vol1 * vol2) /
      (vol1 * vol1 + vol2 * vol2 - 2.0 * (corr * vol1 * vol2)))) := by
  have large : ¬ |vol1 * vol1 + vol2 * vol2 - 2.0 * (corr * vol1 * vol2)| < 1e-12 :=
    not_lt.mpr (apart.trans (le_abs_self _))
  unfold minVarWeight
  dsimp only
  rw [if_neg large]
  norm_num

/-- The weight is in its range and no other weight there has less variance; at any weight the
Sharpe ratio takes the root of no negative number. -/
theorem minVarWeight_least (corr_low : -1 ≤ corr) (corr_high : corr ≤ 1) :
    (1e-12 ≤ vol1 ^ 2 + vol2 ^ 2 - 2 * corr * vol1 * vol2 →
      0 ≤ minVarWeight vol1 vol2 corr ∧ minVarWeight vol1 vol2 corr ≤ 1 ∧
        ∀ u, 0 ≤ u → u ≤ 1 → portVar (minVarWeight vol1 vol2 corr) vol1 vol2 corr ≤ portVar u vol1 vol2 corr) ∧
    ∀ u, 0 ≤ portVar u vol1 vol2 corr := by
  refine ⟨fun apart => ?_, portVar_nonneg corr_low corr_high⟩
  have denom : vol1 ^ 2 + vol2 ^ 2 - 2 * corr * vol1 * vol2 =
      vol1 * vol1 + vol2 * vol2 - 2.0 * (corr * vol1 * vol2) := by
    norm_num
    ring
  rw [denom] at apart
  rw [minVarWeight_eq apart]
  have denom_pos : 0 < vol1 * vol1 + vol2 * vol2 - 2.0 * (corr * vol1 * vol2) := lt_of_lt_of_le (by norm_num) apart
  simp only [portVar_eq]
  generalize vol1 * vol1 + vol2 * vol2 - 2.0 * (corr * vol1 * vol2) = d at denom_pos ⊢
  generalize vol2 * vol2 - corr * vol1 * vol2 = a
  have vertex (y : F) : d * y ^ 2 - 2.0 * a * y + vol2 * vol2 = d * (y - a / d) ^ 2 + (vol2 * vol2 - a ^ 2 / d) := by
    field_simp
    norm_num
    ring
  refine ⟨le_max_left _ _, max_le zero_le_one (min_le_left _ _), fun u u_nonneg u_le => ?_⟩
  rw [vertex, vertex]
  gcongr ?_ + _
  exact mul_le_mul_of_nonneg_left (clamp_nearest u_nonneg u_le _) denom_pos.le

theorem minVarWeight_least_pair : IsStrictOrderedRing ℚ ∧
    (0 ≤ minVarWeight (0.2 : ℚ) 0.15 0.3 ∧ minVarWeight (0.2 : ℚ) 0.15 0.3 ≤ 1 ∧
      ∀ u : ℚ, 0 ≤ u → u ≤ 1 → portVar (minVarWeight 0.2 0.15 0.3) 0.2 0.15 0.3 ≤ portVar u 0.2 0.15 0.3) ∧
    ∀ u : ℚ, 0 ≤ portVar u 0.2 0.15 0.3 := by
  have least := @minVarWeight_least ℚ _ _ _ 0.2 0.15 0.3 (by norm_num) (by norm_num)
  exact ⟨inferInstance, least.1 (by norm_num), least.2⟩

end PolyglotInfinity.WasmZig
