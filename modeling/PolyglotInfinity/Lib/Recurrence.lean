import Mathlib.Analysis.Complex.Polynomial.Basic

/-!
# Linear recurrences of order two

Inside the closed triangle of its coefficients both roots of the characteristic polynomial
are in the closed unit disc, and then a solution grows at most linearly.
-/

namespace Recurrence

variable {F : Type*}

/-- The last two terms, the later one first. -/
def next [Mul F] [Add F] (phi1 phi2 : F) (s : F × F) : F × F := (phi1 * s.1 + phi2 * s.2, s.1)

/-- The closed stationarity region. -/
structure Triangle (phi1 phi2 : ℝ) : Prop where
  product : |phi2| ≤ 1
  at_one : phi1 + phi2 ≤ 1
  at_neg_one : phi2 - phi1 ≤ 1

variable {phi1 phi2 : ℝ}

theorem Triangle.real_root {x : ℝ} (inside : Triangle phi1 phi2) (root : x ^ 2 = phi1 * x + phi2) : |x| ≤ 1 := by
  obtain ⟨product, at_one, at_neg_one⟩ := inside
  obtain ⟨low, high⟩ := abs_le.mp product
  -- the values of the polynomial at 1 and at -1, by its roots
  have one : 1 - phi1 - phi2 = (1 - x) * (1 - (phi1 - x)) := by linarith
  have neg_one : 1 + phi1 - phi2 = (1 + x) * (1 + (phi1 - x)) := by linarith
  have roots : phi2 = -(x * (phi1 - x)) := by linarith
  by_contra outside
  rcases lt_abs.mp (not_le.mp outside) with above | below
  · have small : phi1 - x < 1 := by
      by_contra large
      nlinarith
    nlinarith
  · have large : -1 < phi1 - x := by
      by_contra small
      nlinarith
    nlinarith

theorem Triangle.norm_root {z : ℂ} (inside : Triangle phi1 phi2) (root : z ^ 2 = phi1 * z + phi2) : ‖z‖ ≤ 1 := by
  have re := congrArg Complex.re root
  have im := congrArg Complex.im root
  simp only [sq, Complex.mul_re, Complex.mul_im, Complex.add_re, Complex.add_im, Complex.ofReal_re, Complex.ofReal_im,
    zero_mul, sub_zero, add_zero] at re im
  by_cases real : z.im = 0
  · have on_line : z = (z.re : ℂ) := Complex.ext rfl real
    rw [on_line, Complex.norm_real]
    exact inside.real_root (by rw [real] at re; linarith)
  · -- its conjugate is the other root
    have sum : phi1 = 2 * z.re := mul_right_cancel₀ real (by linarith)
    have square : ‖z‖ ^ 2 = -phi2 := by
      rw [← Complex.normSq_eq_norm_sq, Complex.normSq_apply]
      rw [sum] at re
      linarith
    have bound := (abs_le.mp inside.product).1
    exact (sq_le_one_iff₀ (norm_nonneg z)).mp (by linarith)

theorem exists_roots (phi1 phi2 : ℝ) : ∃ z w : ℂ, z + w = phi1 ∧ z * w = -phi2 ∧
    z ^ 2 = phi1 * z + phi2 ∧ w ^ 2 = phi1 * w + phi2 := by
  obtain ⟨r, square⟩ := IsAlgClosed.exists_pow_nat_eq ((phi1 : ℂ) ^ 2 + 4 * phi2) (Nat.succ_pos 1)
  refine ⟨(phi1 + r) / 2, (phi1 - r) / 2, ?_, ?_, ?_, ?_⟩
  · ring
  · linear_combination -square / 4
  · linear_combination square / 4
  · linear_combination square / 4

/-- What the first root leaves of a term is multiplied by the second root. -/
theorem iterate_remainder {z w : ℂ} (sum : z + w = phi1) (product : z * w = -phi2) (s : ℝ × ℝ) (k : ℕ) :
    (((next phi1 phi2)^[k] s).1 - z * ((next phi1 phi2)^[k] s).2 : ℂ) = w ^ k * (s.1 - z * s.2) := by
  induction k with
  | zero => simp
  | succ k ih =>
    rw [Function.iterate_succ_apply', pow_succ', mul_assoc, ← ih]
    generalize (next phi1 phi2)^[k] s = t
    unfold next
    push_cast
    rw [← sum, ← neg_eq_iff_eq_neg.mpr product]
    ring

theorem Triangle.linear (inside : Triangle phi1 phi2) (s : ℝ × ℝ) :
    ∃ c, ∀ k, |((next phi1 phi2)^[k] s).1| ≤ |s.1| + k * c := by
  obtain ⟨z, w, sum, product, z_root, w_root⟩ := exists_roots phi1 phi2
  have z_le := inside.norm_root z_root
  have w_le := inside.norm_root w_root
  refine ⟨‖(s.1 - z * s.2 : ℂ)‖, fun k => ?_⟩
  induction k with
  | zero => simp
  | succ k ih =>
    have remainder := iterate_remainder sum product s (k + 1)
    have earlier : ((next phi1 phi2)^[k + 1] s).2 = ((next phi1 phi2)^[k] s).1 := by
      rw [Function.iterate_succ_apply']
      rfl
    rw [earlier] at remainder
    set a := ((next phi1 phi2)^[k + 1] s).1
    set b := ((next phi1 phi2)^[k] s).1
    have split : (a : ℂ) = w ^ (k + 1) * (s.1 - z * s.2) + z * b := by rw [← remainder, sub_add_cancel]
    calc |a| = ‖(a : ℂ)‖ := (Complex.norm_real a).symm
      _ ≤ ‖w ^ (k + 1) * (s.1 - z * s.2 : ℂ)‖ + ‖z * (b : ℂ)‖ := by
        rw [split]
        exact norm_add_le _ _
      _ ≤ ‖(s.1 - z * s.2 : ℂ)‖ + |b| := by
        rw [norm_mul, norm_mul, norm_pow, Complex.norm_real]
        exact add_le_add (mul_le_of_le_one_left (norm_nonneg _) (pow_le_one₀ (norm_nonneg w) w_le))
          (mul_le_of_le_one_left (abs_nonneg b) z_le)
      _ ≤ |s.1| + (k + 1 : ℕ) * ‖(s.1 - z * s.2 : ℂ)‖ := by
        push_cast
        linarith

end Recurrence
