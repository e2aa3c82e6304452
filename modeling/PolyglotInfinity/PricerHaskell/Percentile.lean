import Mathlib.Data.List.Sort
import PolyglotInfinity.Lib.TailMean
import PolyglotInfinity.PricerHaskell.Server

/-!
# The percentile of the Monte Carlo report
-/

namespace PolyglotInfinity.PricerHaskell

variable {F : Type} [LinearOrder F]

theorem insertSorted_eq (y : F) (zs : List F) : insertSorted y zs = zs.orderedInsert (· ≤ ·) y := by
  induction zs with
  | nil => rfl
  | cons z zs ih => rw [insertSorted, List.orderedInsert_cons, ih]

theorem foldr_insertSorted (xs : List F) : xs.foldr insertSorted [] = xs.insertionSort (· ≤ ·) := by
  induction xs with
  | nil => rfl
  | cons x xs ih => rw [List.foldr_cons, ih, insertSorted_eq, List.insertionSort_cons]

variable [Field F] [FloorRing F] [IsStrictOrderedRing F] {xs : List F}

theorem percentile_some (nonempty : xs ≠ []) {p : F} (p_nonneg : 0 ≤ p) : ∃ v ∈ xs, percentile xs p = some v := by
  have size : (xs.insertionSort (· ≤ ·)).length = xs.length := List.length_insertionSort _ _
  have length_pos := List.length_pos_iff.mpr nonempty
  have low : 0 ≤ ⌊p / 100.0 * (xs.length : F)⌋ := Int.floor_nonneg.mpr (by positivity)
  unfold percentile
  dsimp only
  rw [foldr_insertSorted, size]
  generalize ⌊p / 100.0 * (xs.length : F)⌋ = i at low ⊢
  have inside : (min i ((xs.length : ℤ) - 1)).toNat < (xs.insertionSort (· ≤ ·)).length := by omega
  refine ⟨(xs.insertionSort (· ≤ ·))[(min i ((xs.length : ℤ) - 1)).toNat], ?_, ?_⟩
  · exact (List.mem_insertionSort _).mp (List.getElem_mem inside)
  · rw [index, if_neg (by omega), List.getElem?_eq_getElem inside]

theorem mcResult_bounded (lib : Libm F) (n days : ℤ) (finals : List F) (nonempty : xs ≠ []) :
    ∃ r, mcResult lib n days finals xs = some r ∧ r.cvar95 = TailMean.mean (xs.filter (· ≤ r.var95)) ∧
      TailMean.Bounded xs r.var95 (xs.filter (· ≤ r.var95)) := by
  obtain ⟨v, v_mem, found⟩ := percentile_some nonempty (p := (5.0 : F)) (by norm_num)
  unfold mcResult
  simp only [found, Option.bind_eq_bind, Option.bind_some]
  exact ⟨_, rfl, rfl, TailMean.bounded_filter v_mem⟩

end PolyglotInfinity.PricerHaskell
