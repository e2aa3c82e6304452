import Mathlib.Topology.Order.IntermediateValue
import PolyglotInfinity.EngineDart.Duration

/-!
# The credit spread

The yield that explains a price, and how near the bisection comes to it.
-/

namespace PolyglotInfinity.EngineDart

open Bisection (Brackets halve)

variable {faceValue corpCoupon corpPrice : ℝ} {n : ℕ}

theorem growth_pos {y : ℝ} (nonneg : 0 ≤ y) : 0 < 1 + y / 2.0 := by
  have two : (2.0 : ℝ) = 2 := by norm_num
  rw [two]
  linarith

theorem payment_nonneg (face_pos : 0 < faceValue) (coupon_nonneg : 0 ≤ corpCoupon) (n t : ℕ) :
    0 ≤ payment faceValue corpCoupon n t := by
  unfold payment
  have coupon : 0 ≤ faceValue * corpCoupon / 2.0 := by positivity
  split <;> split <;> linarith

theorem payment_last (face_pos : 0 < faceValue) (coupon_nonneg : 0 ≤ corpCoupon) (n : ℕ) :
    0 < payment faceValue corpCoupon n n := by
  unfold payment
  have coupon : 0 ≤ faceValue * corpCoupon / 2.0 := by positivity
  split <;> simp <;> linarith

theorem bondPrice_strictAntiOn (face_pos : 0 < faceValue) (coupon_nonneg : 0 ≤ corpCoupon) (n_pos : 1 ≤ n) :
    StrictAntiOn (fun y => bondPrice faceValue corpCoupon y n) (Set.Ici 0) := by
  intro y y_nonneg z z_nonneg lt
  have two : (2.0 : ℝ) = 2 := by norm_num
  have grows : 1 + y / 2.0 < 1 + z / 2.0 := by
    rw [two]
    linarith
  simp only [bondPrice_eq]
  exact Discount.value_strictAntiOn (payment_nonneg face_pos coupon_nonneg n) (Nat.ne_of_gt n_pos) le_rfl
    (payment_last face_pos coupon_nonneg n) (growth_pos y_nonneg) (growth_pos z_nonneg) grows

theorem bondPrice_continuousOn (faceValue corpCoupon : ℝ) (n : ℕ) :
    ContinuousOn (fun y => bondPrice faceValue corpCoupon y n) (Set.Ici 0) := fun _ y_nonneg =>
  (hasDerivAt_bondPrice faceValue corpCoupon n (growth_pos y_nonneg)).continuousAt.continuousWithinAt

/-- The price decides on which side of the yield a guess is. -/
theorem bondPrice_brackets (face_pos : 0 < faceValue) (coupon_nonneg : 0 ≤ corpCoupon) (n_pos : 1 ≤ n) {lo hi y : ℝ}
    (lo_nonneg : 0 ≤ lo) (low : lo ≤ y) (high : y ≤ hi) :
    Brackets (fun mid => bondPrice faceValue corpCoupon y n < bondPrice faceValue corpCoupon mid n) y (lo, hi) :=
  ⟨low, high, fun _ m_low _ =>
    (bondPrice_strictAntiOn face_pos coupon_nonneg n_pos).lt_iff_gt (lo_nonneg.trans low) (lo_nonneg.trans m_low)⟩

/-- There is one yield for the price, and the result is next to its spread. -/
theorem creditSpread_near (govtYtm : ℝ) (face_pos : 0 < faceValue) (coupon_nonneg : 0 ≤ corpCoupon) {periods : ℤ}
    (some_period : 1 ≤ periods) (low : bondPrice faceValue corpCoupon 0.5 periods ≤ corpPrice)
    (high : corpPrice < bondPrice faceValue corpCoupon 0.0001 periods) :
    StrictAntiOn (fun y => bondPrice faceValue corpCoupon y periods) (Set.Icc 0.0001 0.5) ∧
      ∃ y, (y ∈ Set.Icc 0.0001 0.5 ∧ bondPrice faceValue corpCoupon y periods = corpPrice) ∧
        (∀ z ∈ Set.Icc 0.0001 0.5, bondPrice faceValue corpCoupon z periods = corpPrice → z = y) ∧
        |creditSpread govtYtm corpCoupon faceValue corpPrice periods - (y - govtYtm)| ≤ 0.4999 / 2 ^ 65 := by
  lift periods to ℕ using by omega
  have n_pos : 1 ≤ periods := by exact_mod_cast some_period
  have start : (0 : ℝ) ≤ 0.0001 := by norm_num
  have inside : Set.Icc (0.0001 : ℝ) 0.5 ⊆ Set.Ici 0 := fun y member => start.trans member.1
  have anti := (bondPrice_strictAntiOn face_pos coupon_nonneg n_pos).mono inside
  obtain ⟨y, member, priced⟩ := intermediate_value_Icc' (by norm_num)
    ((bondPrice_continuousOn faceValue corpCoupon periods).mono inside) ⟨low, high.le⟩
  dsimp only at priced
  refine ⟨anti, y, ⟨member, priced⟩, fun z z_member z_priced => ?_, ?_⟩
  · exact anti.injOn z_member member (z_priced.trans priced.symm)
  · subst priced
    have brackets := bondPrice_brackets face_pos coupon_nonneg n_pos start member.1 member.2
    have near := brackets.middle 64
    unfold creditSpread
    dsimp only
    rw [sub_sub_sub_cancel_right]
    refine near.trans (le_of_eq ?_)
    norm_num

theorem creditSpread_near_year :
    bondPrice (1000 : ℝ) 0.05 0.5 2 ≤ 1000 ∧ 1000 < bondPrice (1000 : ℝ) 0.05 0.0001 2 ∧
      ∃ y, (y ∈ Set.Icc (0.0001 : ℝ) 0.5 ∧ bondPrice 1000 0.05 y 2 = 1000) ∧
        |creditSpread 0.04 0.05 1000 1000 2 - (y - 0.04)| ≤ 0.4999 / 2 ^ 65 := by
  have low : bondPrice (1000 : ℝ) 0.05 0.5 2 ≤ 1000 := by
    norm_num [bondPrice, addUp, show Int.toNat 2 = 2 from rfl, List.range'_succ]
  have high : 1000 < bondPrice (1000 : ℝ) 0.05 0.0001 2 := by
    norm_num [bondPrice, addUp, show Int.toNat 2 = 2 from rfl, List.range'_succ]
  obtain ⟨-, y, found, -, near⟩ := creditSpread_near 0.04 (by norm_num) (by norm_num) (by norm_num) low high
  exact ⟨low, high, y, found, near⟩

end PolyglotInfinity.EngineDart
