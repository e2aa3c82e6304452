import Mathlib.LinearAlgebra.Matrix.Block
import Mathlib.LinearAlgebra.Matrix.PosDef

/-!
# Cholesky factors

Symmetric matrices by their entries, of which those with `j ≤ i` count. A factor grows row
by row, and its next pivot is positive exactly if the next leading block is positive
definite.
-/

namespace Cholesky

open Finset Matrix

variable {K : Type*} {k n : ℕ}

/-- The symmetric matrix that continues the lower triangle of `A`. -/
def block (A : ℕ → ℕ → K) (k : ℕ) : Matrix (Fin k) (Fin k) K := fun i j => A (max i j) (min i j)

section

variable {A : ℕ → ℕ → K}

theorem block_lower {i j : Fin k} (below : j ≤ i) : block A k i j = A i j := by
  have le : (j : ℕ) ≤ i := below
  unfold block
  rw [max_eq_left le, min_eq_right le]

theorem symm_ext {M N : Matrix (Fin k) (Fin k) K} (symm : Mᵀ = M) (symm' : Nᵀ = N)
    (same : ∀ i j, j ≤ i → M i j = N i j) : M = N := by
  ext i j
  rcases le_total j i with below | above
  · exact same i j below
  · have mirrored := same j i above
    rw [← symm, ← symm'] at mirrored
    exact mirrored

theorem block_symm : (block A k)ᵀ = block A k := by
  ext i j
  show A (max j i) (min j i) = A (max i j) (min i j)
  rw [max_comm, min_comm]

end

section

variable [Field K] {A L : ℕ → ℕ → K}

def lower (L : ℕ → ℕ → K) (k : ℕ) : Matrix (Fin k) (Fin k) K := fun i j => if j ≤ i then L i j else 0

/-- The product of a lower triangle, weights and its transpose. -/
def gram (L : ℕ → ℕ → K) (w : ℕ → K) (k : ℕ) : Matrix (Fin k) (Fin k) K :=
  lower L k * diagonal (fun t : Fin k => w t) * (lower L k)ᵀ

theorem gram_symm (w : ℕ → K) : (gram L w k)ᵀ = gram L w k := by
  unfold gram
  rw [transpose_mul, transpose_mul, transpose_transpose, diagonal_transpose, Matrix.mul_assoc]

theorem gram_apply (w : ℕ → K) {i j : Fin k} (below : j ≤ i) :
    gram L w k i j = ∑ t ∈ range (j + 1), L i t * w t * L j t := by
  have entry : ∀ t : Fin k, lower L k i t * w t * (lower L k)ᵀ t j =
      (fun t : ℕ => if t ≤ j then L i t * w t * L j t else 0) t := by
    intro t
    show (if t ≤ i then L i t else 0) * w t * (if t ≤ j then L j t else 0) = if (t : ℕ) ≤ j then _ else 0
    by_cases inside : t ≤ j
    · rw [if_pos (inside.trans below), if_pos inside, if_pos (by exact inside)]
    · rw [if_neg (c := t ≤ j) inside, if_neg (c := (t : ℕ) ≤ j) inside, mul_zero]
  unfold gram
  rw [mul_apply]
  simp only [mul_diagonal, entry]
  rw [Fin.sum_univ_eq_sum_range (fun t : ℕ => if t ≤ j then L i t * w t * L j t else 0) k, ← sum_filter]
  congr 1
  ext t
  have j_lt := j.isLt
  simp only [mem_filter, mem_range]
  omega

theorem gram_eq (w : ℕ → K) (product : ∀ i < k, ∀ j ≤ i, ∑ t ∈ range (j + 1), L i t * w t * L j t = A i j) :
    gram L w k = block A k := by
  refine symm_ext (gram_symm w) block_symm fun i j below => ?_
  rw [gram_apply w below, block_lower below]
  exact product i i.isLt j below

variable [LinearOrder K]

structure Factor [LinearOrder K] (A L : ℕ → ℕ → K) (k : ℕ) : Prop where
  pivot : ∀ i < k, 0 < L i i
  product : ∀ i < k, ∀ j ≤ i, ∑ t ∈ range (j + 1), L i t * L j t = A i j

theorem Factor.gram (factor : Factor A L k) : Cholesky.gram L (fun _ => 1) k = block A k := by
  refine gram_eq _ fun i i_lt j below => ?_
  simp only [mul_one]
  exact factor.product i i_lt j below

theorem Factor.mul_transpose (factor : Factor A L k) : lower L k * (lower L k)ᵀ = block A k := by
  have product := factor.gram
  unfold Cholesky.gram at product
  rwa [diagonal_one, Matrix.mul_one] at product

theorem Factor.congr {M : ℕ → ℕ → K} (factor : Factor A L k) (same : ∀ i < k, ∀ j ≤ i, M i j = L i j) :
    Factor A M k := by
  constructor
  · intro i i_lt
    rw [same i i_lt i le_rfl]
    exact factor.pivot i i_lt
  · intro i i_lt j below
    rw [← factor.product i i_lt j below]
    refine sum_congr rfl fun t t_mem => ?_
    have t_le := Nat.lt_succ_iff.mp (mem_range.mp t_mem)
    rw [same i i_lt t (t_le.trans below), same j (below.trans_lt i_lt) t t_le]

theorem Factor.succ (factor : Factor A L k) (pivot : 0 < L k k)
    (row : ∀ j ≤ k, ∑ t ∈ range (j + 1), L k t * L j t = A k j) : Factor A L (k + 1) := by
  constructor
  · intro i i_lt
    rcases Nat.lt_succ_iff_lt_or_eq.mp i_lt with old | rfl
    · exact factor.pivot i old
    · exact pivot
  · intro i i_lt
    rcases Nat.lt_succ_iff_lt_or_eq.mp i_lt with old | rfl
    · exact factor.product i old
    · exact row

variable [StarRing K]

theorem posDef_leading (le : k ≤ n) (definite : (block A n).PosDef) : (block A k).PosDef :=
  definite.submatrix (Fin.castLE_injective le)

variable [TrivialStar K] [StarOrderedRing K]

/-- With positive pivots the product is positive definite exactly if the weights are positive. -/
theorem gram_posDef (w : ℕ → K) (pivot : ∀ i < k, 0 < L i i) : (gram L w k).PosDef ↔ ∀ t < k, 0 < w t := by
  have triangle : (lower L k).IsLowerTriangular := fun i j above => if_neg (not_le.mpr above)
  have det : (lower L k).det = ∏ i : Fin k, L i i := by
    rw [det_of_isLowerTriangular _ triangle]
    exact prod_congr rfl fun i _ => if_pos le_rfl
  have unit : IsUnit (lower L k) := by
    rw [isUnit_iff_isUnit_det, det]
    exact (prod_ne_zero_iff.mpr fun (i : Fin k) _ => (pivot i i.isLt).ne').isUnit
  have conjugate : gram L w k = lower L k * diagonal (fun t : Fin k => w t) * star (lower L k) := by
    rw [star_eq_conjTranspose, conjTranspose_eq_transpose_of_trivial]
    rfl
  rw [conjugate, unit.posDef_star_right_conjugate_iff, posDef_diagonal_iff]
  exact Fin.forall_iff

theorem Factor.posDef (factor : Factor A L k) : (block A k).PosDef := by
  rw [← factor.gram, gram_posDef _ factor.pivot]
  exact fun _ _ => one_pos

/-- Below a factor stands a row that fits it; what is left of the diagonal decides. -/
theorem Factor.posDef_succ (factor : Factor A L k) (row : ∀ j < k, ∑ t ∈ range (j + 1), L k t * L j t = A k j) :
    (block A (k + 1)).PosDef ↔ 0 < A k k - ∑ t ∈ range k, L k t * L k t := by
  let d := A k k - ∑ t ∈ range k, L k t * L k t
  let w : ℕ → K := fun t => if t = k then d else 1
  let M : ℕ → ℕ → K := fun i j => if i = k ∧ j = k then 1 else L i j
  have old : ∀ i j t, j < k → t ∈ range (j + 1) → M i t * w t * M j t = L i t * L j t := by
    intro i j t j_lt t_mem
    have t_lt : t < k := by
      have := mem_range.mp t_mem
      omega
    simp only [M, w, t_lt.ne, and_false, if_false, mul_one]
  have product : ∀ i < k + 1, ∀ j ≤ i, ∑ t ∈ range (j + 1), M i t * w t * M j t = A i j := by
    intro i i_lt j below
    by_cases last : j = k
    · obtain rfl : i = k := by omega
      subst j
      have before : ∀ t ∈ range i, M i t * w t * M i t = L i t * L i t := by
        intro t t_mem
        have other := (mem_range.mp t_mem).ne
        simp only [M, w, other, and_false, if_false, mul_one]
      rw [sum_range_succ, sum_congr rfl before]
      simp only [M, w, d, and_self, if_true, one_mul, mul_one]
      ring
    · rw [sum_congr rfl fun t t_mem => old i j t (by omega) t_mem]
      by_cases new : i = k
      · subst i
        exact row j (by omega)
      · exact factor.product i (by omega) j below
  have pivot : ∀ i < k + 1, 0 < M i i := by
    intro i i_lt
    by_cases new : i = k
    · simp [M, new]
    · simp only [M, new, and_self, if_false]
      exact factor.pivot i (by omega)
  rw [← gram_eq w product, gram_posDef w pivot]
  constructor
  · intro positive
    have here := positive k (Nat.lt_succ_self k)
    simpa only [w, if_true] using here
  · intro here t _
    by_cases new : t = k
    · simpa only [w, new, if_true] using here
    · simp only [w, new, if_false, one_pos]

end

end Cholesky
