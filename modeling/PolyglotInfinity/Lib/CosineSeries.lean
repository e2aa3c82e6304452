import Mathlib

/-!
# Partial sums of the cosine

The sums of the first terms of the series of sine and cosine lie on alternating sides
of the functions, for every argument that is not negative and not only near zero.
-/

namespace CosineSeries

open Finset (range sum_range_succ sum_range_succ')

section

variable {F : Type*} [Field F]

def cosSum (n : ℕ) (x : F) : F := ∑ k ∈ range n, (-1) ^ k * x ^ (2 * k) / (2 * k).factorial

def sinSum (n : ℕ) (x : F) : F := ∑ k ∈ range n, (-1) ^ k * x ^ (2 * k + 1) / (2 * k + 1).factorial

end

variable {n : ℕ} {x : ℝ}

theorem cosSum_cast (n : ℕ) (q : ℚ) : ((cosSum n q : ℚ) : ℝ) = cosSum n (q : ℝ) := by
  simp [cosSum]

/-! ### Derivatives -/

/-- The power of one more, over the factorial of one more. -/
theorem hasDerivAt_term (c : ℝ) (m : ℕ) (x : ℝ) :
    HasDerivAt (fun y => c * y ^ (m + 1) / (m + 1).factorial) (c * x ^ m / m.factorial) x := by
  have power := ((hasDerivAt_pow (m + 1) x).const_mul c).div_const ((m + 1).factorial : ℝ)
  refine power.congr_deriv ?_
  rw [Nat.factorial_succ, Nat.add_sub_cancel]
  push_cast
  field_simp

theorem hasDerivAt_sinSum (n : ℕ) (x : ℝ) : HasDerivAt (sinSum n) (cosSum n x) x := by
  unfold sinSum cosSum
  exact HasDerivAt.fun_sum fun k _ => hasDerivAt_term _ (2 * k) x

theorem hasDerivAt_cosSum (n : ℕ) (x : ℝ) : HasDerivAt (cosSum (n + 1)) (-sinSum n x) x := by
  have tail : HasDerivAt (fun y : ℝ => ∑ k ∈ range n, (-1) ^ (k + 1) * y ^ (2 * k + 2) / (2 * k + 2).factorial)
      (∑ k ∈ range n, (-1) ^ (k + 1) * x ^ (2 * k + 1) / (2 * k + 1).factorial) x :=
    HasDerivAt.fun_sum fun k _ => hasDerivAt_term _ (2 * k + 1) x
  have first : cosSum (n + 1) = fun y : ℝ =>
      (∑ k ∈ range n, (-1) ^ (k + 1) * y ^ (2 * k + 2) / (2 * k + 2).factorial) + 1 := by
    funext y
    simp [cosSum, sum_range_succ', Nat.mul_add]
  rw [first]
  refine (tail.add_const (1 : ℝ)).congr_deriv ?_
  rw [sinSum, ← Finset.sum_neg_distrib]
  refine Finset.sum_congr rfl fun k _ => ?_
  rw [pow_succ]
  ring

/-- What starts at zero and does not fall is not negative. -/
theorem nonneg_of_deriv {f f' : ℝ → ℝ} (zero : f 0 = 0) (derivative : ∀ y, HasDerivAt f (f' y) y)
    (grows : ∀ y, 0 ≤ y → 0 ≤ f' y) (nonneg : 0 ≤ x) : 0 ≤ f x := by
  have monotone : MonotoneOn f (Set.Ici 0) := by
    apply monotoneOn_of_deriv_nonneg (convex_Ici 0)
    · exact fun y _ => (derivative y).continuousAt.continuousWithinAt
    · exact fun y _ => (derivative y).differentiableAt.differentiableWithinAt
    · intro y inside
      rw [interior_Ici] at inside
      rw [(derivative y).deriv]
      exact grows y (le_of_lt inside)
  rw [← zero]
  exact monotone Set.self_mem_Ici nonneg nonneg

/-! ### The alternation -/

theorem sin_of_cos (above : ∀ y : ℝ, 0 ≤ y → 0 ≤ (-1) ^ (n + 1) * (Real.cos y - cosSum (n + 1) y)) (nonneg : 0 ≤ x) :
    0 ≤ (-1) ^ (n + 1) * (Real.sin x - sinSum (n + 1) x) := by
  refine nonneg_of_deriv (f := fun y => (-1) ^ (n + 1) * (Real.sin y - sinSum (n + 1) y)) ?_ (fun y => ?_) above nonneg
  · simp [sinSum]
  · exact ((Real.hasDerivAt_sin y).sub (hasDerivAt_sinSum (n + 1) y)).const_mul _

theorem cos_of_sin (above : ∀ y : ℝ, 0 ≤ y → 0 ≤ (-1) ^ n * (Real.sin y - sinSum n y)) (nonneg : 0 ≤ x) :
    0 ≤ (-1) ^ (n + 1) * (Real.cos x - cosSum (n + 1) x) := by
  refine nonneg_of_deriv (f := fun y => (-1) ^ (n + 1) * (Real.cos y - cosSum (n + 1) y)) ?_ (fun y => ?_) above nonneg
  · simp [cosSum, sum_range_succ']
  · refine (((Real.hasDerivAt_cos y).sub (hasDerivAt_cosSum n y)).const_mul ((-1) ^ (n + 1))).congr_deriv ?_
    rw [pow_succ]
    ring

theorem cos_alternates (n : ℕ) (nonneg : 0 ≤ x) : 0 ≤ (-1) ^ (n + 1) * (Real.cos x - cosSum (n + 1) x) := by
  induction n generalizing x with
  | zero =>
    have below := Real.cos_le_one x
    simp [cosSum]
    linarith
  | succ n ih => exact cos_of_sin (fun y zero => sin_of_cos (fun z => ih) zero) nonneg

/-- An odd number of terms is no less than the cosine. -/
theorem cos_le_cosSum (n : ℕ) (nonneg : 0 ≤ x) : Real.cos x ≤ cosSum (2 * n + 1) x := by
  have alternates := cos_alternates (2 * n) nonneg
  rw [pow_succ, pow_mul] at alternates
  norm_num at alternates
  exact alternates

end CosineSeries
