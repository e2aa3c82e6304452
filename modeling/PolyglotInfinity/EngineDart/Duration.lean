import PolyglotInfinity.EngineDart.Server
import PolyglotInfinity.Lib.Discount

/-!
# Duration and convexity

The bond as a stream of payments. Its price is their value, and the two weighted sums are
derivatives of the price.
-/

namespace PolyglotInfinity.EngineDart

open Finset
open Discount (value value_div hasDerivAt_value hasDerivAt_value_second)

/-- The coupons, and the face value at the end. -/
noncomputable def payment (faceValue couponRate : ℝ) (n t : ℕ) : ℝ :=
  (if t = 0 then 0 else faceValue * couponRate / 2.0) + if t = n then faceValue else 0

theorem addUp_eq (n : ℕ) (term : ℕ → ℝ) : addUp n term = ∑ t ∈ range n, term (t + 1) := by
  unfold addUp
  rw [Int.toNat_natCast]
  induction n with
  | zero => norm_num
  | succ n ih => rw [List.range'_1_concat, List.foldl_concat, ih, sum_range_succ, add_comm 1 n]

/-- What each of the loops adds up, with a weight for each period. -/
theorem addUp_payments (faceValue couponRate x : ℝ) (weight : ℕ → ℝ) (n : ℕ) :
    addUp n (fun t => weight t * (faceValue * couponRate / 2.0 / x ^ t)) + weight n * (faceValue / x ^ (n : ℤ)) =
      value (fun t => weight t * payment faceValue couponRate n t) n x := by
  have coupons : ∑ t ∈ range (n + 1), weight t * (if t = 0 then 0 else faceValue * couponRate / 2.0) / x ^ t =
      addUp n fun t => weight t * (faceValue * couponRate / 2.0 / x ^ t) := by
    rw [sum_range_succ', addUp_eq, if_pos rfl, mul_zero, zero_div, add_zero]
    apply sum_congr rfl
    intro t _
    rw [if_neg (Nat.succ_ne_zero t), mul_div_assoc]
  have last : ∑ t ∈ range (n + 1), weight t * (if t = n then faceValue else 0) / x ^ t =
      weight n * (faceValue / x ^ (n : ℤ)) := by
    rw [sum_eq_single n, if_pos rfl, zpow_natCast, mul_div_assoc]
    · intro t _ other
      rw [if_neg other, mul_zero, zero_div]
    · exact fun outside => absurd (self_mem_range_succ n) outside
  rw [← coupons, ← last, ← sum_add_distrib]
  apply sum_congr rfl
  intro t _
  show _ = weight t * payment faceValue couponRate n t / x ^ t
  rw [payment, mul_add, add_div]

theorem bondPrice_eq (faceValue couponRate ytm : ℝ) (n : ℕ) :
    bondPrice faceValue couponRate ytm n = value (payment faceValue couponRate n) n (1 + ytm / 2.0) := by
  have flat := addUp_payments faceValue couponRate (1 + ytm / 2.0) (fun _ => 1) n
  simp only [one_mul] at flat
  exact flat

variable {faceValue couponRate ytm : ℝ} {n : ℕ}

theorem macaulayDuration_eq : macaulayDuration faceValue couponRate ytm n =
    value (fun t => t * payment faceValue couponRate n t) n (1 + ytm / 2.0) /
      (2 * bondPrice faceValue couponRate ytm n) := by
  have weighted := addUp_payments faceValue couponRate (1 + ytm / 2.0)
    (fun t => (t : ℝ) / (2 * bondPrice faceValue couponRate ytm n)) n
  rw [value_div] at weighted
  rw [← weighted]
  have term (t pv price : ℝ) : t / 2.0 * pv / price = t / (2 * price) * pv := by
    norm_num
    field_simp
  unfold macaulayDuration
  simp only [Int.cast_natCast, term]

theorem convexity_eq : convexity faceValue couponRate ytm n =
    value (fun t => t * (t + 1) * payment faceValue couponRate n t) n (1 + ytm / 2.0) /
      (bondPrice faceValue couponRate ytm n * (1 + ytm / 2.0) ^ 2) / 4 := by
  have weighted := addUp_payments faceValue couponRate (1 + ytm / 2.0)
    (fun t => (t : ℝ) * (t + 1) / (bondPrice faceValue couponRate ytm n * (1 + ytm / 2.0) ^ 2)) n
  rw [value_div] at weighted
  rw [← weighted]
  have four : (4.0 : ℝ) = 4 := by norm_num
  unfold convexity
  push_cast
  simp only [four, div_mul_eq_mul_div]

/-! ### The derivatives of the price -/

/-- A period is half a year. -/
theorem hasDerivAt_growth (y : ℝ) : HasDerivAt (fun y : ℝ => 1 + y / 2.0) (1 / 2) y := by
  have two : (2.0 : ℝ) = 2 := by norm_num
  rw [two]
  exact ((hasDerivAt_id y).div_const 2).const_add 1

theorem hasDerivAt_bondPrice (faceValue couponRate : ℝ) (n : ℕ) {y : ℝ} (positive : 0 < 1 + y / 2.0) :
    HasDerivAt (fun y => bondPrice faceValue couponRate y n)
      (-value (fun t => t * payment faceValue couponRate n t) n (1 + y / 2.0) / (1 + y / 2.0) * (1 / 2)) y := by
  simp only [bondPrice_eq]
  exact (hasDerivAt_value (payment faceValue couponRate n) n positive.ne').comp y (hasDerivAt_growth y)

theorem hasDerivAt_deriv_bondPrice (faceValue couponRate : ℝ) (n : ℕ) {y : ℝ} (positive : 0 < 1 + y / 2.0) :
    HasDerivAt (deriv fun y => bondPrice faceValue couponRate y n)
      (value (fun t => t * (t + 1) * payment faceValue couponRate n t) n (1 + y / 2.0) / (1 + y / 2.0) ^ 2 / 4) y := by
  have near : deriv (fun y => bondPrice faceValue couponRate y n) =ᶠ[nhds y] fun y =>
      -value (fun t => t * payment faceValue couponRate n t) n (1 + y / 2.0) / (1 + y / 2.0) * (1 / 2) := by
    have still : ∀ᶠ z in nhds y, 0 < 1 + z / 2.0 :=
      (hasDerivAt_growth y).continuousAt.eventually (lt_mem_nhds positive)
    exact still.mono fun z z_positive => (hasDerivAt_bondPrice faceValue couponRate n z_positive).deriv
  have second := ((hasDerivAt_value_second (payment faceValue couponRate n) n positive.ne').comp y
    (hasDerivAt_growth y)).mul_const (1 / 2)
  apply (second.congr_of_eventuallyEq near).congr_deriv
  generalize 1 + y / 2.0 = x
  ring

/-- The two sums are derivatives with respect to the annual yield, as shares of the price. -/
theorem duration_convexity (faceValue couponRate : ℝ) {ytm : ℝ} (positive : 0 < 1 + ytm / 2) {periods : ℤ}
    (nonneg : 0 ≤ periods) (priced : bondPrice faceValue couponRate ytm periods ≠ 0) :
    let P := fun y => bondPrice faceValue couponRate y periods
    DifferentiableAt ℝ P ytm ∧ DifferentiableAt ℝ (deriv P) ytm ∧
      modifiedDuration faceValue couponRate ytm periods = -deriv P ytm / P ytm ∧
      convexity faceValue couponRate ytm periods = deriv (deriv P) ytm / P ytm := by
  intro P
  lift periods to ℕ using nonneg
  have two : (2 : ℝ) = 2.0 := by norm_num
  rw [two] at positive
  have first := hasDerivAt_bondPrice faceValue couponRate periods positive
  have second := hasDerivAt_deriv_bondPrice faceValue couponRate periods positive
  refine ⟨first.differentiableAt, second.differentiableAt, ?_, ?_⟩
  · rw [first.deriv, modifiedDuration, macaulayDuration_eq]
    show _ = _ / bondPrice faceValue couponRate ytm periods
    field_simp
  · rw [second.deriv, convexity_eq]
    show _ = _ / bondPrice faceValue couponRate ytm periods
    field_simp

theorem duration_convexity_year : bondPrice (1000 : ℝ) 0.05 0.06 2 ≠ 0 ∧
    modifiedDuration (1000 : ℝ) 0.05 0.06 2 =
      -deriv (fun y => bondPrice 1000 0.05 y 2) 0.06 / bondPrice 1000 0.05 0.06 2 ∧
    convexity (1000 : ℝ) 0.05 0.06 2 =
      deriv (deriv fun y => bondPrice 1000 0.05 y 2) 0.06 / bondPrice 1000 0.05 0.06 2 := by
  have priced : bondPrice (1000 : ℝ) 0.05 0.06 2 ≠ 0 := by
    norm_num [bondPrice, addUp, show Int.toNat 2 = 2 from rfl, List.range'_succ]
  exact ⟨priced, (duration_convexity 1000 0.05 (by norm_num) (by norm_num) priced).2.2⟩

end PolyglotInfinity.EngineDart
