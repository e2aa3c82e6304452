import Mathlib.Data.List.Sort
import PolyglotInfinity.HubGleam.Cosine
import PolyglotInfinity.Lib.TailMean

/-!
# The percentile of the risk report
-/

namespace PolyglotInfinity.HubGleam

variable {F : Type} [Field F] [LinearOrder F] {sqrt : F → F} {xs : List F}

theorem exactly_sum (xs : List F) : sum (.exactly sqrt) xs = .ok xs.sum := by
  show xs.foldlM (fun a x => (pure (a + x) : Run F)) 0 = _
  rw [List.foldlM_pure, List.sum_eq_foldl]
  rfl

theorem exactly_listMean (nonempty : xs ≠ []) : listMean (.exactly sqrt) xs = .ok (TailMean.mean xs) := by
  cases xs with
  | nil => contradiction
  | cons x xs =>
    show (do (Beam.exactly sqrt).div (← sum (.exactly sqrt) (x :: xs)) (((x :: xs).length : ℤ) : F)) = _
    rw [exactly_sum, Int.cast_natCast]
    exact exactly_div _ _

variable [FloorRing F]

/-- The index that `percentile_p` reads among `n` numbers. -/
def percentileIdx (n : ℤ) (p : F) : ℤ :=
  let rawIdx := roundAway (p / 100.0 * (n : F))
  if rawIdx < 0 then 0 else if n ≤ rawIdx then n - 1 else rawIdx

theorem percentileIdx_inside {n : ℤ} (n_pos : 0 < n) (p : F) : 0 ≤ percentileIdx n p ∧ percentileIdx n p < n := by
  unfold percentileIdx
  dsimp only
  split
  · omega
  · split <;> omega

theorem exactly_percentileP [IsStrictOrderedRing F] (nonempty : xs ≠ []) (p : F) :
    percentileP (.exactly sqrt) xs p = .ok ((xs.mergeSort.drop (percentileIdx xs.length p).toNat).head?.getD 0) := by
  have hundred : p / 100 = p / 100.0 := by norm_num
  cases xs with
  | nil => contradiction
  | cons x xs =>
    rw [percentileP.eq_def]
    dsimp only
    rw [exactly_div, hundred, List.length_mergeSort]
    rfl

theorem percentileP_bounded [IsStrictOrderedRing F] (sqrt : F → F) (nonempty : xs ≠ []) (p : F) :
    ∃ var, percentileP (.exactly sqrt) xs p = .ok var ∧
      xs.mergeSort[(percentileIdx xs.length p).toNat]? = some var ∧
      listMean (.exactly sqrt) (xs.filter (· ≤ var)) = .ok (TailMean.mean (xs.filter (· ≤ var))) ∧
      TailMean.Bounded xs var (xs.filter (· ≤ var)) := by
  have size : xs.mergeSort.length = xs.length := List.length_mergeSort xs
  have inside := percentileIdx_inside (Int.natCast_pos.mpr (List.length_pos_iff.mpr nonempty)) p
  have inside' : (percentileIdx xs.length p).toNat < xs.mergeSort.length := by omega
  have mem : xs.mergeSort[(percentileIdx xs.length p).toNat] ∈ xs := List.mem_mergeSort.mp (List.getElem_mem inside')
  have tail := TailMean.bounded_filter mem
  refine ⟨_, ?_, List.getElem?_eq_getElem inside', exactly_listMean tail.nonempty, tail⟩
  rw [exactly_percentileP nonempty, List.head?_drop, List.getElem?_eq_getElem inside']
  rfl

end PolyglotInfinity.HubGleam
