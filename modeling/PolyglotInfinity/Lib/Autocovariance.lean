import Mathlib.Algebra.BigOperators.Intervals
import Mathlib.Algebra.Order.BigOperators.Ring.Finset
import Mathlib.Data.Nat.Dist
import Mathlib.Tactic.Linarith
import Mathlib.Tactic.Ring

/-!
# Autocovariances

The sums of the products of a finite series with its own later elements. They form a
positive semidefinite sequence, since each of its quadratic forms is a sum of squares over
the shifted series.
-/

open Finset

namespace Autocovariance

variable {F : Type*} [CommRing F] {d : ℕ → F} {n : ℕ}

/-- The sum for a lag, of a series that is zero from `n` on. -/
def lagged (d : ℕ → F) (n l : ℕ) : F := ∑ i ∈ range n, d i * d (i + l)

theorem lagged_eq (beyond : ∀ i, n ≤ i → d i = 0) (l : ℕ) : lagged d n l = ∑ i ∈ range (n - l), d i * d (i + l) := by
  rw [lagged]
  refine (sum_subset (range_subset_range.mpr (Nat.sub_le n l)) fun i _ past => ?_).symm
  have out : n ≤ i + l := by
    rw [mem_range] at past
    omega
  rw [beyond (i + l) out, mul_zero]

theorem lagged_mul (c : F) (d : ℕ → F) (n l : ℕ) : lagged (fun i => c * d i) n l = c ^ 2 * lagged d n l := by
  rw [lagged, lagged, mul_sum]
  exact sum_congr rfl fun i _ => by ring

/-- The series, `j` places later. -/
def shift (d : ℕ → F) (j t : ℕ) : F := if j ≤ t then d (t - j) else 0

theorem shift_add (d : ℕ → F) (j i : ℕ) : shift d j (j + i) = d i := by
  rw [shift, if_pos (Nat.le_add_right j i), Nat.add_sub_cancel_left]

theorem sum_shift (beyond : ∀ i, n ≤ i → d i = 0) (j l : ℕ) {N : ℕ} (long : n + j + l ≤ N) :
    ∑ t ∈ range N, shift d j t * shift d (j + l) t = lagged d n l := by
  obtain ⟨m, rfl⟩ : ∃ m, N = j + l + (n + m) := ⟨N - (n + j + l), by omega⟩
  have before : ∑ t ∈ range (j + l), shift d j t * shift d (j + l) t = 0 := by
    apply sum_eq_zero
    intro t member
    have short : ¬ j + l ≤ t := not_le.mpr (mem_range.mp member)
    unfold shift
    rw [if_neg short, mul_zero]
  have product (i : ℕ) : shift d j (j + l + i) * shift d (j + l) (j + l + i) = d i * d (i + l) := by
    rw [shift_add, add_assoc, shift_add, add_comm l, mul_comm]
  have behind : ∑ i ∈ range m, d (n + i) * d (n + i + l) = 0 := by
    apply sum_eq_zero
    intro i _
    rw [beyond (n + i) (Nat.le_add_right n i), zero_mul]
  rw [sum_range_add, before, zero_add]
  simp only [product]
  rw [sum_range_add, behind, add_zero, lagged]

theorem sum_shift_dist (beyond : ∀ i, n ≤ i → d i = 0) {j k N : ℕ} (long : n + max j k ≤ N) :
    ∑ t ∈ range N, shift d j t * shift d k t = lagged d n (Nat.dist j k) := by
  rcases le_total j k with le | le
  · obtain ⟨l, rfl⟩ := Nat.exists_eq_add_of_le le
    rw [sum_shift beyond j l (by omega), Nat.dist_eq_sub_of_le le, Nat.add_sub_cancel_left]
  · obtain ⟨l, rfl⟩ := Nat.exists_eq_add_of_le le
    rw [Nat.dist_eq_sub_of_le_right le, Nat.add_sub_cancel_left, ← sum_shift beyond k l (by omega : n + k + l ≤ N)]
    exact sum_congr rfl fun t _ => mul_comm _ _

variable [LinearOrder F] [IsStrictOrderedRing F]

/-- Each quadratic form of the autocovariances. -/
theorem form_nonneg (beyond : ∀ i, n ≤ i → d i = 0) (a : ℕ → F) (m : ℕ) :
    0 ≤ ∑ j ∈ range m, ∑ k ∈ range m, a j * a k * lagged d n (Nat.dist j k) := by
  have square : ∑ t ∈ range (n + m), (∑ j ∈ range m, a j * shift d j t) ^ 2 =
      ∑ j ∈ range m, ∑ k ∈ range m, a j * a k * lagged d n (Nat.dist j k) := by
    simp only [sq, sum_mul_sum]
    rw [sum_comm]
    apply sum_congr rfl
    intro j j_mem
    rw [sum_comm]
    apply sum_congr rfl
    intro k k_mem
    have long : n + max j k ≤ n + m := by
      have j_lt := mem_range.mp j_mem
      have k_lt := mem_range.mp k_mem
      omega
    rw [← sum_shift_dist beyond long, mul_sum]
    exact sum_congr rfl fun t _ => mul_mul_mul_comm _ _ _ _
  rw [← square]
  exact sum_nonneg fun t _ => sq_nonneg _

theorem lagged_zero_nonneg (d : ℕ → F) (n : ℕ) : 0 ≤ lagged d n 0 := sum_nonneg fun i _ => mul_self_nonneg (d i)

theorem abs_lagged_le (beyond : ∀ i, n ≤ i → d i = 0) (l : ℕ) : |lagged d n l| ≤ lagged d n 0 := by
  have expand (c : F) : ∑ t ∈ range (n + l), (shift d 0 t + c * shift d l t) ^ 2 =
      lagged d n 0 + 2 * c * lagged d n l + c ^ 2 * lagged d n 0 := by
    have low := sum_shift_dist beyond (by omega : n + max 0 0 ≤ n + l)
    have cross := sum_shift_dist beyond (by omega : n + max 0 l ≤ n + l)
    have high := sum_shift_dist beyond (by omega : n + max l l ≤ n + l)
    rw [Nat.dist_self] at low high
    rw [Nat.dist_comm, Nat.dist_zero_right] at cross
    rw [← cross]
    nth_rewrite 1 [← low]
    rw [← high, mul_sum, mul_sum, ← sum_add_distrib, ← sum_add_distrib]
    exact sum_congr rfl fun t _ => by ring
  have plus : 0 ≤ ∑ t ∈ range (n + l), (shift d 0 t + 1 * shift d l t) ^ 2 := sum_nonneg fun t _ => sq_nonneg _
  have minus : 0 ≤ ∑ t ∈ range (n + l), (shift d 0 t + -1 * shift d l t) ^ 2 := sum_nonneg fun t _ => sq_nonneg _
  rw [expand] at plus minus
  rw [abs_le]
  constructor <;> linarith

/-- The determinant of three lags. -/
theorem two_mul_sq_le (beyond : ∀ i, n ≤ i → d i = 0) :
    2 * lagged d n 1 ^ 2 ≤ lagged d n 0 * (lagged d n 0 + lagged d n 2) := by
  have first := abs_lagged_le beyond 1
  have second := neg_le_of_abs_le (abs_lagged_le beyond 2)
  -- the quadratic form of the weights `x`, `y` and `x` again
  have form (x y : F) : 0 ≤ 2 * x ^ 2 * (lagged d n 0 + lagged d n 2) + 4 * x * y * lagged d n 1 +
      y ^ 2 * lagged d n 0 := by
    have nonneg := form_nonneg beyond (fun j => if j = 1 then y else x) 3
    simp only [sum_range_succ, sum_range_zero, Nat.dist] at nonneg
    norm_num at nonneg
    linarith
  rcases (lagged_zero_nonneg d n).eq_or_lt with zero | pos
  · rw [← zero, abs_nonpos_iff] at first
    rw [← zero, first]
    norm_num
  · have at_vertex := form (lagged d n 0) (-(2 * lagged d n 1))
    have scaled : 0 ≤ 2 * lagged d n 0 *
        (lagged d n 0 * (lagged d n 0 + lagged d n 2) - 2 * lagged d n 1 ^ 2) := by linarith
    exact sub_nonneg.mp (nonneg_of_mul_nonneg_right scaled (by linarith))

end Autocovariance
