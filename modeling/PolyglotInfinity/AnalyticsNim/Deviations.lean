import Mathlib.Data.List.GetD
import PolyglotInfinity.AnalyticsNim.Server
import PolyglotInfinity.Lib.Autocovariance
import PolyglotInfinity.Lib.Moments

/-!
# Deviations from the mean

What the loops of the engine add up, as autocovariances of the deviations.
-/

namespace PolyglotInfinity.AnalyticsNim

open Finset Autocovariance

variable {F : Type}

theorem item_natCast (arr : List F) (k : ℕ) : item arr k = arr[k]? := by
  rw [item, if_pos (Int.natCast_nonneg k), Int.toNat_natCast]

theorem item_nonneg {arr : List F} {i : ℤ} {x : F} (found : item arr i = some x) : 0 ≤ i := by
  by_contra negative
  rw [item, if_neg negative] at found
  cases found

theorem item_mem (arr : List F) (i : ℤ) (nonneg : 0 ≤ i) (inside : i < arr.length) :
    ∃ x ∈ arr, item arr i = some x := by
  have below : i.toNat < arr.length := by omega
  exact ⟨arr[i.toNat], List.getElem_mem below, by rw [item, if_pos nonneg, List.getElem?_eq_getElem below]⟩

variable [Field F] {arr : List F} {m : F}

/-- From the end of the list on it is 0. -/
def deviation (arr : List F) (m : F) (i : ℕ) : F := (arr.map (· - m)).getD i 0

theorem deviation_beyond (arr : List F) (m : F) (i : ℕ) (beyond : arr.length ≤ i) : deviation arr m i = 0 :=
  List.getD_eq_default _ _ (by rwa [List.length_map])

theorem item_eq {k : ℕ} (inside : k < arr.length) (m : F) : item arr k = some (m + deviation arr m k) := by
  rw [item_natCast, List.getElem?_eq_getElem inside, deviation, List.getD_eq_getElem _ _ (by rwa [List.length_map]),
    List.getElem_map, add_sub_cancel]

theorem deviation_scale (series : List F) (m c : F) (i : ℕ) :
    deviation (series.map (c * ·)) (c * m) i = c * deviation series m i := by
  have scaled : (series.map (c * ·)).map (· - c * m) = (series.map (· - m)).map (c * ·) := by
    rw [List.map_map, List.map_map]
    exact List.map_congr_left fun x _ => (mul_sub c x m).symm
  rw [deviation, deviation, scaled, ← List.getD_map (f := (c * ·)), mul_zero]

theorem lagged_zero (arr : List F) (m : F) :
    lagged (deviation arr m) arr.length 0 = (arr.map fun x => (x - m) ^ 2).sum := by
  induction arr with
  | nil => rfl
  | cons x arr ih =>
    rw [List.map_cons, List.sum_cons, ← ih, lagged, List.length_cons, sum_range_succ', add_comm, sq]
    rfl

/-- The sum over the pairs of elements with a lag, from any number. -/
theorem forRange_lagged (arr : List F) (m : F) (l : ℕ) (lo hi : ℤ) (body : ℤ → F → Option F)
    (count : (hi - lo).toNat = arr.length - l)
    (each : ∀ k, k + l < arr.length → ∀ t, body (lo + k) t =
      some (t + deviation arr m k * deviation arr m (k + l))) :
    forRange lo hi body 0 = some (lagged (deviation arr m) arr.length l) := by
  rw [forRange_sum (fun k => deviation arr m k * deviation arr m (k + l)) 0, zero_add, count,
    lagged_eq (deviation_beyond arr m)]
  intro k below t
  exact each k (by omega) t

section

variable [LinearOrder F]

theorem divide_of_ne {x y : F} (ne : y ≠ 0) : divide x y = some (x / y) := if_neg ne

variable [IsStrictOrderedRing F]

theorem length_pos (some_element : arr ≠ []) : (0 : F) < arr.length := by
  exact_mod_cast List.length_pos_of_ne_nil some_element

theorem mean_eq (some_element : arr ≠ []) : mean arr = some (arr.sum / arr.length) := by
  have length := List.length_pos_of_ne_nil some_element
  rw [mean, if_neg length.ne', divide_of_ne (length_pos some_element).ne', List.sum_eq_foldl]

end

end PolyglotInfinity.AnalyticsNim
