import Mathlib

/-!
# Discounted payments

Payments of the periods `0` to `n`, each divided by a power of the growth of a period.
-/

open Finset

namespace Discount

/-- What the payments `a` are worth. -/
def value {F : Type*} [Field F] (a : ℕ → F) (n : ℕ) (x : F) : F := ∑ t ∈ range (n + 1), a t / x ^ t

/-- A divisor that all weights share. -/
theorem value_div {F : Type*} [Field F] (weight a : ℕ → F) (n : ℕ) (x k : F) :
    value (fun t => weight t / k * a t) n x = value (fun t => weight t * a t) n x / k := by
  unfold value
  rw [div_eq_inv_mul, mul_sum]
  apply sum_congr rfl
  intro t _
  ring

variable {a : ℕ → ℝ} {n : ℕ} {x : ℝ}

/-! ### Derivatives -/

theorem hasDerivAt_payment (k : ℝ) (t : ℕ) (x_ne : x ≠ 0) :
    HasDerivAt (fun x => k / x ^ t) (-(t * k / x ^ t) / x) x := by
  have power : HasDerivAt (fun x => x ^ t) (t * x ^ (t - 1)) x := hasDerivAt_pow t x
  have quotient := (hasDerivAt_const x k).div power (pow_ne_zero t x_ne)
  apply quotient.congr_deriv
  cases t with
  | zero => simp
  | succ t =>
    rw [Nat.add_sub_cancel, pow_succ]
    field_simp
    ring

theorem hasDerivAt_value (a : ℕ → ℝ) (n : ℕ) (x_ne : x ≠ 0) :
    HasDerivAt (value a n) (-value (fun t => t * a t) n x / x) x := by
  have payments := HasDerivAt.fun_sum fun t (_ : t ∈ range (n + 1)) => hasDerivAt_payment (a t) t x_ne
  apply payments.congr_deriv
  unfold value
  rw [← sum_neg_distrib, sum_div]

theorem hasDerivAt_value_second (a : ℕ → ℝ) (n : ℕ) (x_ne : x ≠ 0) :
    HasDerivAt (fun x => -value (fun t => t * a t) n x / x) (value (fun t => t * (t + 1) * a t) n x / x ^ 2) x := by
  have first := hasDerivAt_value (fun t => t * a t) n x_ne
  apply (first.neg.div (hasDerivAt_id x) x_ne).congr_deriv
  have both : value (fun t => t * (t + 1) * a t) n x =
      value (fun t => t * (t * a t)) n x + value (fun t => t * a t) n x := by
    unfold value
    rw [← sum_add_distrib]
    apply sum_congr rfl
    intro t _
    ring
  rw [both]
  simp only [id_eq, Pi.neg_apply]
  field_simp
  ring

/-! ### Monotonicity -/

theorem payment_le {k y : ℝ} (k_nonneg : 0 ≤ k) (t : ℕ) (x_pos : 0 < x) (lt : x < y) : k / y ^ t ≤ k / x ^ t :=
  div_le_div_of_nonneg_left k_nonneg (pow_pos x_pos t) (pow_le_pow_left₀ x_pos.le lt.le t)

/-- With no negative payment, and a positive one some time later, growth costs value. -/
theorem value_strictAntiOn (nonneg : ∀ t, 0 ≤ a t) {later : ℕ} (later_pos : later ≠ 0) (later_le : later ≤ n)
    (paid : 0 < a later) : StrictAntiOn (value a n) (Set.Ioi 0) := by
  intro x x_pos y _ lt
  refine sum_lt_sum (fun t _ => payment_le (nonneg t) t x_pos lt) ⟨later, ?_, ?_⟩
  · exact mem_range.mpr (Nat.lt_succ_of_le later_le)
  · exact div_lt_div_of_pos_left paid (pow_pos x_pos later) (pow_lt_pow_left₀ lt x_pos.le later_pos)

end Discount
