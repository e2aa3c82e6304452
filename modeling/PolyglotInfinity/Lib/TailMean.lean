import Mathlib.Algebra.Order.BigOperators.Group.List
import Mathlib.Algebra.Order.Field.Basic
import Mathlib.Data.List.MinMax
import Mathlib.Data.Nat.Cast.Order.Ring

/-!
# Means of a tail

A threshold among some numbers, and the mean of those that are no larger.
-/

namespace TailMean

theorem exists_least {α : Type*} [LinearOrder α] {l : List α} (nonempty : l ≠ []) : ∃ m, IsLeast {x | x ∈ l} m := by
  have size := List.length_pos_iff.mpr nonempty
  exact ⟨List.minimum_of_length_pos size, List.minimum_of_length_pos_mem size,
    fun x x_mem => List.minimum_of_length_pos_le_of_mem x_mem size⟩

variable {F : Type*} [Field F]

def mean (l : List F) : F := l.sum / l.length

variable [LinearOrder F] {l tail : List F} {lo hi threshold : F}

/-- The mean of a part of `l`, which has elements, lies between the least element and the threshold. -/
structure Bounded (l : List F) (threshold : F) (tail : List F) : Prop where
  mem : threshold ∈ l
  nonempty : tail ≠ []
  least : ∃ m, IsLeast {x | x ∈ l} m ∧ m ≤ mean tail
  le : mean tail ≤ threshold

variable [IsStrictOrderedRing F]

theorem length_pos_cast (nonempty : l ≠ []) : (0 : F) < l.length := by
  exact_mod_cast List.length_pos_iff.mpr nonempty

theorem mean_le (nonempty : l ≠ []) (below : ∀ x ∈ l, x ≤ hi) : mean l ≤ hi := by
  rw [mean, div_le_iff₀ (length_pos_cast nonempty), mul_comm, ← nsmul_eq_mul]
  exact List.sum_le_card_nsmul l hi below

theorem le_mean (nonempty : l ≠ []) (above : ∀ x ∈ l, lo ≤ x) : lo ≤ mean l := by
  rw [mean, le_div_iff₀ (length_pos_cast nonempty), mul_comm, ← nsmul_eq_mul]
  exact List.card_nsmul_le_sum l lo above

theorem bounded (mem : threshold ∈ l) (nonempty : tail ≠ []) (part : ∀ x ∈ tail, x ∈ l)
    (below : ∀ x ∈ tail, x ≤ threshold) : Bounded l threshold tail := by
  obtain ⟨m, least⟩ := exists_least (List.ne_nil_of_mem mem)
  exact ⟨mem, nonempty, ⟨m, least, le_mean nonempty fun x x_mem => least.2 (part x x_mem)⟩, mean_le nonempty below⟩

theorem bounded_filter (mem : threshold ∈ l) : Bounded l threshold (l.filter (· ≤ threshold)) := by
  have self : threshold ∈ l.filter (· ≤ threshold) := List.mem_filter.mpr ⟨mem, decide_eq_true le_rfl⟩
  refine bounded mem (List.ne_nil_of_mem self) (fun x x_mem => (List.mem_filter.mp x_mem).1) fun x x_mem => ?_
  exact of_decide_eq_true (List.mem_filter.mp x_mem).2

theorem bounded_take {sorted : List F} {i : ℕ} (perm : sorted.Perm l) (ordered : sorted.Pairwise (· ≤ ·))
    (inside : i < sorted.length) : Bounded l sorted[i] (sorted.take (i + 1)) := by
  have size : 0 < (sorted.take (i + 1)).length := by
    rw [List.length_take]
    omega
  refine bounded (perm.mem_iff.mp (List.getElem_mem inside)) (List.ne_nil_of_length_pos size)
    (fun x x_mem => perm.mem_iff.mp (List.mem_of_mem_take x_mem)) fun x x_mem => ?_
  obtain ⟨k, k_lt, rfl⟩ := List.mem_take_iff_getElem.mp x_mem
  rcases Nat.lt_or_eq_of_le (show k ≤ i by omega) with before | rfl
  · exact List.pairwise_iff_getElem.mp ordered k i (by omega) inside before
  · exact le_rfl

end TailMean
