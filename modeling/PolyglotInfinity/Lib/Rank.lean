import Mathlib.Order.Lattice

/-!
# Percentiles by nearest rank

An element of a list is a percentile if enough of the list lies at or below it, and too
little strictly below it.
-/

namespace Rank

variable {α : Type*} [LinearOrder α] {l l' : List α} {k p : ℕ} {v : α}

structure IsPercentile (p : ℕ) (l : List α) (v : α) : Prop where
  mem : v ∈ l
  reaches : p * l.length ≤ 100 * l.countP (· ≤ v)
  short : 100 * l.countP (· < v) < p * l.length

theorem lt_countP_le (sorted : l.Pairwise (· ≤ ·)) (k_lt : k < l.length) : k < l.countP (· ≤ l[k]) := by
  have upTo : (l.take (k + 1)).countP (· ≤ l[k]) = k + 1 := by
    have size : (l.take (k + 1)).length = k + 1 := by rw [List.length_take, Nat.min_eq_left k_lt]
    refine (List.countP_eq_length.mpr fun x x_mem => ?_).trans size
    obtain ⟨i, i_lt, rfl⟩ := List.mem_take_iff_getElem.mp x_mem
    have below : i ≤ k := by omega
    rcases Nat.lt_or_eq_of_le below with before | rfl
    · exact decide_eq_true (List.pairwise_iff_getElem.mp sorted i k (by omega) k_lt before)
    · exact decide_eq_true le_rfl
  have part : (l.take (k + 1)).countP (· ≤ l[k]) ≤ l.countP (· ≤ l[k]) := (List.take_sublist (k + 1) l).countP_le
  omega

theorem countP_lt_le (sorted : l.Pairwise (· ≤ ·)) (k_lt : k < l.length) : l.countP (· < l[k]) ≤ k := by
  have beyond : (l.drop k).countP (· < l[k]) = 0 := by
    rw [List.countP_eq_zero]
    intro x x_mem
    obtain ⟨i, i_lt, rfl⟩ := List.mem_drop_iff_getElem.mp x_mem
    rw [decide_eq_true_eq, not_lt]
    rcases Nat.eq_zero_or_pos i with rfl | later
    · exact le_rfl
    · exact List.pairwise_iff_getElem.mp sorted k (k + i) k_lt (by omega) (by omega)
  have before : (l.take k).countP (· < l[k]) ≤ (l.take k).length := List.countP_le_length
  rw [List.length_take] at before
  have whole : (l.take k ++ l.drop k).countP (· < l[k]) = (l.take k).countP (· < l[k]) + (l.drop k).countP (· < l[k]) :=
    List.countP_append
  rw [List.take_append_drop] at whole
  omega

theorem isPercentile_getElem (sorted : l.Pairwise (· ≤ ·)) (k_lt : k < l.length)
    (reaches : p * l.length ≤ 100 * (k + 1)) (short : 100 * k < p * l.length) : IsPercentile p l l[k] := by
  have atMost := lt_countP_le sorted k_lt
  have below := countP_lt_le sorted k_lt
  exact ⟨List.getElem_mem k_lt, by omega, by omega⟩

theorem IsPercentile.perm (percentile : IsPercentile p l v) (perm : l.Perm l') : IsPercentile p l' v := by
  obtain ⟨mem, reaches, short⟩ := percentile
  rw [perm.countP_eq, perm.length_eq] at reaches short
  exact ⟨perm.mem_iff.mp mem, reaches, short⟩

end Rank
