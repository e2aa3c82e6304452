import Mathlib.Algebra.Order.Floor.Ring
import Mathlib.Data.List.Sort
import PolyglotInfinity.Lib.Libm
import PolyglotInfinity.Lib.TailMean

/-!
# The risk metrics of the Julia engine

`compute_risk_metrics` over the numbers of an ordered field. `none` is a `BoundsError`, or
the error for the extremum of nothing. Where a program divides by zero the field's value
stands for an infinity or a NaN.
-/

namespace PolyglotInfinity.EngineJulia

variable {F : Type} [Field F]

/-- `xs[i]`. -/
def element (xs : List F) (i : ℤ) : Option F := if 1 ≤ i then xs[(i - 1).toNat]? else none

/-- `xs[1:i]`. -/
def upTo (xs : List F) (i : ℤ) : Option (List F) := if i ≤ xs.length then some (xs.take i.toNat) else none

def mean (xs : List F) : F := xs.sum / (xs.length : F)

def std (lib : Libm F) (xs : List F) : F :=
  lib.sqrt ((xs.map fun x => (x - mean xs) ^ 2).sum / ((xs.length : F) - 1))

structure RiskMetrics (F : Type) where
  var95 : F
  cvar95 : F
  mean : F
  std : F
  minR : F
  maxR : F
  sharpe : F

variable [LinearOrder F] [FloorRing F]

def varIdx (confidence : F) (n : ℕ) : ℤ := max ⌊(1 - confidence) * (n : F)⌋ 1

def computeRiskMetrics (lib : Libm F) (returns : List F) (confidence : F) : Option (RiskMetrics F) := do
  let sorted := returns.mergeSort
  let n := sorted.length
  let varIdx := varIdx confidence n
  let varVal ← element sorted varIdx
  let cvarVal := mean (← upTo sorted varIdx)
  return {
    var95 := varVal
    cvar95 := cvarVal
    mean := mean returns
    std := std lib returns
    minR := ← returns.min?
    maxR := ← returns.max?
    sharpe := (mean returns - 0) / std lib returns }

/-! ### The tail -/

variable {returns : List F}

theorem varIdx_eq [IsStrictOrderedRing F] (n : ℕ) : varIdx (0.95 : F) n = (max 1 (n / 20) : ℕ) := by
  have share : ⌊(1 - 0.95 : F) * (n : F)⌋ = (n / 20 : ℕ) := by
    have twentieth : (1 - 0.95 : F) * (n : F) = (n : F) / (20 : ℕ) := by
      norm_num
      ring
    rw [twentieth, Int.floor_div_natCast, Int.floor_natCast]
    rfl
  unfold varIdx
  rw [share]
  omega

theorem computeRiskMetrics_some (lib : Libm F) (confidence : F) {i : ℕ} (idx : varIdx confidence returns.length = i + 1)
    (inside : i < returns.mergeSort.length) : ∃ m, computeRiskMetrics lib returns confidence = some m ∧
      m.var95 = returns.mergeSort[i] ∧ m.cvar95 = mean (returns.mergeSort.take (i + 1)) := by
  have size : returns.mergeSort.length = returns.length := List.length_mergeSort returns
  have var : element returns.mergeSort (i + 1) = some returns.mergeSort[i] := by
    rw [element, if_pos (by omega), add_sub_cancel_right, Int.toNat_natCast, List.getElem?_eq_getElem inside]
  have tail : upTo returns.mergeSort (i + 1) = some (returns.mergeSort.take (i + 1)) := by
    rw [upTo, if_pos (by omega)]
    rfl
  have some_return : returns ≠ [] := List.ne_nil_of_length_pos (by omega)
  obtain ⟨least, minimum⟩ := Option.ne_none_iff_exists'.mp (List.min?_eq_none_iff.not.mpr some_return)
  obtain ⟨most, maximum⟩ := Option.ne_none_iff_exists'.mp (List.max?_eq_none_iff.not.mpr some_return)
  unfold computeRiskMetrics
  simp only [size, idx, var, tail, minimum, maximum, Option.bind_eq_bind, Option.bind_some]
  exact ⟨_, rfl, rfl, rfl⟩

theorem computeRiskMetrics_bounded [IsStrictOrderedRing F] (lib : Libm F) (nonempty : returns ≠ []) :
    ∃ m tail, computeRiskMetrics lib returns 0.95 = some m ∧
      upTo returns.mergeSort (varIdx (0.95 : F) returns.length) = some tail ∧ m.cvar95 = TailMean.mean tail ∧
      TailMean.Bounded returns m.var95 tail := by
  have size : returns.mergeSort.length = returns.length := List.length_mergeSort returns
  have length_pos := List.length_pos_iff.mpr nonempty
  obtain ⟨i, at_most⟩ : ∃ i, max 1 (returns.length / 20) = i + 1 := ⟨max 1 (returns.length / 20) - 1, by omega⟩
  have idx : varIdx (0.95 : F) returns.length = i + 1 := by
    rw [varIdx_eq, at_most]
    push_cast
    rfl
  have inside : i < returns.mergeSort.length := by omega
  obtain ⟨m, metrics, var, cvar⟩ := computeRiskMetrics_some lib 0.95 idx inside
  have tail : upTo returns.mergeSort (varIdx (0.95 : F) returns.length) = some (returns.mergeSort.take (i + 1)) := by
    rw [idx, upTo, if_pos (by omega)]
    rfl
  refine ⟨m, _, metrics, tail, cvar, ?_⟩
  rw [var]
  exact TailMean.bounded_take (List.mergeSort_perm _ _) (List.pairwise_mergeSort' (· ≤ ·) returns) inside

end PolyglotInfinity.EngineJulia
