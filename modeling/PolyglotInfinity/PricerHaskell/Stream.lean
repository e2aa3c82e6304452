import Mathlib.Data.Stream.Init
import PolyglotInfinity.Lib.Drawdown
import PolyglotInfinity.PricerHaskell.Server

/-!
# The drawdown of a stream

The scan of the drawdowns begins with a zero of its own, and `take` cuts the last day off.
-/

namespace PolyglotInfinity.PricerHaskell

open Drawdown (drops levels Grows foldl_keeps levels_zero levels_succ drops_zero drops_succ)
open Drawdown (relative relative_self relative_grows)

/-! ### Peaks -/

section

variable {F : Type} [LinearOrder F] {stream : Stream' F} {n : ℕ}

theorem peaks_length (n : ℕ) : (scanl1 max (stream.take (n + 1))).length = n + 1 := by
  show ((stream.tail.take n).scanl max stream.head).length = n + 1
  rw [List.length_scanl, Stream'.length_take]

theorem peaks_zero (inside : 0 < (scanl1 max (stream.take (n + 1))).length) :
    (scanl1 max (stream.take (n + 1)))[0] = stream.get 0 := by
  simp only [Stream'.take_succ, scanl1, List.getElem_scanl_zero]

theorem peaks_getElem {k : ℕ} (inside : k < (scanl1 max (stream.take (n + 1))).length) :
    IsGreatest (levels stream.get k) (scanl1 max (stream.take (n + 1)))[k] := by
  induction k with
  | zero =>
    rw [peaks_zero]
    exact levels_zero
  | succ k ih =>
    have highest := levels_succ (ih (Nat.lt_of_succ_lt inside))
    have next : (scanl1 max (stream.take (n + 1)))[k + 1] =
        max (scanl1 max (stream.take (n + 1)))[k] (stream.get (k + 1)) := by
      simp only [Stream'.take_succ, scanl1, List.getElem_succ_scanl, Stream'.take_get]
      rfl
    rwa [next]

end

/-! ### Drawdowns -/

variable {F : Type} [Field F] [LinearOrder F] {stream : Stream' F} {n : ℕ}

theorem dds_relative (positive : ∀ i, 0 < stream.get i) {pk : F} {k : ℕ} (highest : IsGreatest (levels stream.get k) pk)
    (p : F) : (if 0 < pk then (pk - p) / pk else 0.0) = relative pk p := by
  obtain ⟨⟨i, -, rfl⟩, -⟩ := highest
  exact if_pos (positive i)

/-- The scan before the first day, and after each. -/
def Scanned (stream : Stream' F) : ℕ → F → Prop
  | 0, mdd => mdd = 0
  | k + 1, mdd => IsGreatest (drops relative stream.get k) mdd

variable [IsStrictOrderedRing F]

/-- After its first zero, and one element for each day, the scan ends with the worst drop so far. -/
theorem runningDrawdown_last (positive : ∀ i, 0 < stream.get i) (n : ℕ) :
    ∃ mdd, ((runningDrawdown (stream.take (n + 2))).take (n + 2)).getLast? = some mdd ∧
      IsGreatest (drops relative stream.get n) mdd := by
  let dds := (scanl1 max (stream.take (n + 2))).zipWith (fun pk p => if 0 < pk then (pk - p) / pk else 0.0)
    (stream.take (n + 2))
  have size : (dds.take (n + 1)).length = n + 1 := by
    rw [List.length_take, List.length_zipWith, peaks_length, Stream'.length_take]
    omega
  have cut : (runningDrawdown (stream.take (n + 2))).take (n + 2) = (dds.take (n + 1)).scanl max 0 :=
    List.take_scanl 0 dds (n + 1)
  rw [cut, List.getLast?_scanl]
  refine ⟨_, rfl, ?_⟩
  have fold : Scanned stream (dds.take (n + 1)).length ((dds.take (n + 1)).foldl max 0) := by
    refine foldl_keeps (I := Scanned stream) rfl fun k mdd inside good => ?_
    have inside' : k < (scanl1 max (stream.take (n + 2))).length := by
      rw [peaks_length]
      omega
    have peak := peaks_getElem inside'
    have day : (dds.take (n + 1))[k] = relative (scanl1 max (stream.take (n + 2)))[k] (stream.get k) := by
      simp only [dds, List.getElem_take, List.getElem_zipWith, Stream'.take_get, dds_relative positive peak]
    rw [day]
    cases k with
    | zero =>
      rw [peaks_zero, show mdd = 0 from good, relative_self, max_self, ← relative_self]
      exact drops_zero
    | succ k => exact drops_succ (relative_grows positive _) peak good
  rwa [size] at fold

theorem streamResult_days (lib : Libm F) (positive : ∀ i, 0 < stream.get i) (n : ℕ) :
    ∃ r, streamResult lib (n + 1 : ℕ) stream = some r ∧ r.finalPrice = stream.get (n + 1) ∧
      IsGreatest (drops relative stream.get n) r.maxDrawdown := by
  obtain ⟨mdd, last, greatest⟩ := runningDrawdown_last positive n
  have length : (((n + 1 : ℕ) : ℤ) + 1).toNat = n + 2 := by omega
  have final : (stream.take (n + 2)).getLast? = some (stream.get (n + 1)) := by
    rw [Stream'.take_succ', List.getLast?_concat]
  unfold streamResult
  simp only [length, last, final]
  exact ⟨_, rfl, rfl, greatest⟩

/-- The drawdown of the report is the worst relative drop between any two days exactly if some
drop that ends before the last day is as bad as every drop to the last day. -/
theorem streamResult_maxDrawdown_iff (lib : Libm F) {requested : ℤ} (some_day : 1 ≤ requested) {stream : Stream' F}
    (positive : ∀ i, 0 < stream.get i) :
    ∃ r, streamResult lib (min 500 requested) stream = some r ∧
      r.finalPrice = stream.get (min 500 requested).toNat ∧
      (IsGreatest {d | ∃ i j, i ≤ j ∧ j ≤ (min 500 requested).toNat ∧
          (stream.get i - stream.get j) / stream.get i = d} r.maxDrawdown ↔
        ∃ i j, i ≤ j ∧ j < (min 500 requested).toNat ∧ ∀ k ≤ (min 500 requested).toNat,
          (stream.get k - stream.get (min 500 requested).toNat) / stream.get k ≤
            (stream.get i - stream.get j) / stream.get i) := by
  obtain ⟨n, days⟩ : ∃ n : ℕ, min 500 requested = (n + 1 : ℕ) := ⟨(min 500 requested).toNat - 1, by omega⟩
  rw [days, Int.toNat_natCast]
  obtain ⟨r, result, final, greatest⟩ := streamResult_days lib positive n
  exact ⟨r, result, final, Drawdown.drops_last greatest⟩

/-- A rise, a fall, and a rise to below the first one. -/
def hilly : Stream' ℝ := fun i => ([100, 120, 90].getD i 110 : ℕ)

theorem hilly_pos (i : ℕ) : 0 < hilly.get i := by
  show (0 : ℝ) < ([100, 120, 90].getD i 110 : ℕ)
  rcases i with - | - | - | i <;> simp

theorem streamResult_maxDrawdown_iff_hilly : ∃ r, streamResult Libm.real (min 500 3) hilly = some r ∧
    r.finalPrice = 110 ∧
      IsGreatest {d | ∃ i j, i ≤ j ∧ j ≤ (min 500 (3 : ℤ)).toNat ∧ (hilly.get i - hilly.get j) / hilly.get i = d}
        r.maxDrawdown := by
  obtain ⟨r, result, final, exact_when⟩ :=
    streamResult_maxDrawdown_iff Libm.real (by decide : (1 : ℤ) ≤ 3) hilly_pos
  -- From the second day to the third is the worst drop, and it ends before the last day.
  refine ⟨r, result, final, exact_when.mpr ⟨1, 2, by decide, by decide, fun k within => ?_⟩⟩
  show (hilly.get k - 110) / hilly.get k ≤ (120 - 90) / 120
  have days : k ≤ 3 := within
  obtain rfl | rfl | rfl | rfl : k = 0 ∨ k = 1 ∨ k = 2 ∨ k = 3 := by omega
  all_goals norm_num [hilly, Stream'.get]

/-! ### A request -/

theorem gbmStream_pos {lib : Libm F} (exp_pos : ∀ x, 0 < lib.exp x) {s0 : F} (s0_pos : 0 < s0) (mu sigma : F) (seed : ℤ)
    (i : ℕ) : 0 < (gbmStream lib s0 mu sigma seed).get i := by
  induction i with
  | zero => exact s0_pos
  | succ i ih => exact mul_pos ih (exp_pos _)

/-- For `/stream?s=100&mu=-1&sigma=0&n=1`. -/
noncomputable def falling : Stream' ℝ := gbmStream Libm.real 100.0 (-1) 0 42

theorem falling_pos (i : ℕ) : 0 < falling.get i := gbmStream_pos Real.exp_pos (by norm_num) _ _ _ i

/-- The one day of the stream is a loss, and the reported drawdown is none. -/
theorem last_day_unseen : ∃ r, streamHandler Libm.real (some 100.0) (some (-1)) (some 0) (some 1) none = some r ∧
    ¬ IsGreatest {d | ∃ i j, i ≤ j ∧ j ≤ 1 ∧ (falling.get i - falling.get j) / falling.get i = d} r.maxDrawdown := by
  obtain ⟨r, result, -, greatest⟩ := streamResult_days Libm.real falling_pos 0
  refine ⟨r, result, ?_⟩
  intro whole
  obtain ⟨i, j, i_le, j_lt, bound⟩ := (Drawdown.drops_last greatest).mp whole
  obtain rfl := Nat.lt_one_iff.mp j_lt
  obtain rfl := Nat.le_zero.mp i_le
  have none_lost := bound 0 (Nat.zero_le 1)
  rw [relative_self] at none_lost
  have loss : falling.get 1 < falling.get 0 := by
    show falling.get 0 * Real.exp ((-1 - 0.5 * 0 * 0) * (1.0 / 252.0) + 0 * _ * _) < _
    refine mul_lt_of_lt_one_right (falling_pos 0) (Real.exp_lt_one_iff.mpr ?_)
    norm_num
  exact absurd none_lost (not_le.mpr (div_pos (sub_pos.mpr loss) (falling_pos 0)))

end PolyglotInfinity.PricerHaskell
