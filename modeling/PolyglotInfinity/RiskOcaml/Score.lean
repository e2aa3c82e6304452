import Mathlib.Analysis.Complex.ExponentialBounds
import Mathlib.Tactic.Positivity
import PolyglotInfinity.RiskOcaml.Server

/-!
# The credit score

The score follows its predictor. The predictor follows each of its numbers, but for an income
of 0, whose ratio to the debt counts as 1.
-/

namespace PolyglotInfinity.RiskOcaml

section

variable {F : Type} [Field F] [LinearOrder F] [IsStrictOrderedRing F]

/-! ### The predictor -/

theorem dti_anti_income {income income' debt : F} (income_nonneg : 0 ≤ income) (debt_nonneg : 0 ≤ debt)
    (le : income ≤ income') (from_zero : income = 0 → income' = 0 ∨ debt ≤ income') :
    dti income' debt ≤ dti income debt := by
  have zero : (0.0 : F) = 0 := by norm_num
  have one : (1.0 : F) = 1 := by norm_num
  unfold dti
  rw [zero, one]
  rcases income_nonneg.eq_or_lt with none | pos
  · rw [← none, if_neg (lt_irrefl 0)]
    rcases from_zero none.symm with none' | covered
    · rw [none', if_neg (lt_irrefl 0)]
    · split
      · rename_i pos'
        exact (div_le_one pos').mpr covered
      · exact le_rfl
  · rw [if_pos pos, if_pos (pos.trans_le le)]
    exact div_le_div_of_nonneg_left debt_nonneg pos le

theorem dti_mono_debt {income debt debt' : F} (le : debt ≤ debt') : dti income debt ≤ dti income debt' := by
  have zero : (0.0 : F) = 0 := by norm_num
  unfold dti
  rw [zero]
  split
  · rename_i pos
    exact div_le_div_of_nonneg_right le pos.le
  · exact le_rfl

theorem predictor_mono {income income' debt debt' history history' missed missed' : F}
    (ratio : dti income' debt' ≤ dti income debt) (history_le : history ≤ history') (missed_le : missed' ≤ missed) :
    predictor income debt history missed ≤ predictor income' debt' history' missed' := by
  unfold predictor
  generalize dti income debt = ratio at *
  generalize dti income' debt' = ratio' at *
  norm_num
  linarith

/-! ### The logistic curve -/

variable {lib : Libm F} (exp_pos : ∀ x, 0 < lib.exp x) (exp_mono : StrictMono lib.exp)

section

include exp_pos

theorem logistic_mem (x : F) : logistic lib x ∈ Set.Ioo 0 1 := by
  have one : (1.0 : F) = 1 := by norm_num
  have pos := exp_pos (-x)
  unfold logistic
  rw [one]
  refine ⟨by positivity, ?_⟩
  rw [div_lt_one (by positivity)]
  linarith

include exp_mono

theorem logistic_mono {x y : F} (le : x ≤ y) : logistic lib x ≤ logistic lib y := by
  have one : (1.0 : F) = 1 := by norm_num
  have pos := exp_pos (-y)
  unfold logistic
  rw [one]
  exact one_div_le_one_div_of_le (by positivity) (add_le_add_right (exp_mono.monotone (neg_le_neg le)) 1)

end

/-! ### The score -/

variable [FloorRing F]

/-- The score of a predictor. -/
def scored (lib : Libm F) (z : F) : ℤ := ⌊300 + 550 * logistic lib z⌋

theorem creditScore_eq (exp_pos : ∀ x, 0 < lib.exp x) (income debt history missed : ℤ) :
    (creditScore lib income debt history missed).1 = scored lib (predictor (income : F) debt history missed) := by
  have base : (300.0 : F) = 300 := by norm_num
  have range : (550.0 : F) = 550 := by norm_num
  have pos := (logistic_mem exp_pos (predictor (income : F) debt history missed)).1
  unfold creditScore intOfFloat
  dsimp only
  rw [base, range, if_pos (by positivity), scored]

include exp_pos

theorem scored_mem (z : F) : 300 ≤ scored lib z ∧ scored lib z ≤ 850 := by
  obtain ⟨pos, lt⟩ := logistic_mem exp_pos z
  constructor
  · rw [scored, Int.le_floor]
    push_cast
    linarith
  · rw [scored, Int.floor_le_iff]
    push_cast
    linarith

include exp_mono

theorem scored_mono {z z' : F} (le : z ≤ z') : scored lib z ≤ scored lib z' := by
  have curve := logistic_mono exp_pos exp_mono le
  exact Int.floor_mono (by linarith)

theorem creditScore_mono {income debt : ℤ} (income_nonneg : 0 ≤ income) (debt_nonneg : 0 ≤ debt) (history missed : ℤ) :
    (∀ income', income ≤ income' → (income = 0 → income' = 0 ∨ debt ≤ income') →
      (creditScore lib income debt history missed).1 ≤ (creditScore lib income' debt history missed).1) ∧
    (∀ history', history ≤ history' →
      (creditScore lib income debt history missed).1 ≤ (creditScore lib income debt history' missed).1) ∧
    (∀ debt', debt ≤ debt' →
      (creditScore lib income debt' history missed).1 ≤ (creditScore lib income debt history missed).1) ∧
    (∀ missed', missed ≤ missed' →
      (creditScore lib income debt history missed').1 ≤ (creditScore lib income debt history missed).1) ∧
    300 ≤ (creditScore lib income debt history missed).1 ∧ (creditScore lib income debt history missed).1 ≤ 850 := by
  simp only [creditScore_eq exp_pos]
  refine ⟨fun income' le from_zero => ?_, fun history' le => ?_, fun debt' le => ?_, fun missed' le => ?_,
    scored_mem exp_pos _⟩
  · refine scored_mono exp_pos exp_mono (predictor_mono (dti_anti_income ?_ ?_ ?_ ?_) le_rfl le_rfl)
    · exact_mod_cast income_nonneg
    · exact_mod_cast debt_nonneg
    · exact_mod_cast le
    · exact_mod_cast from_zero
  · exact scored_mono exp_pos exp_mono (predictor_mono le_rfl (Int.cast_le.mpr le) le_rfl)
  · exact scored_mono exp_pos exp_mono (predictor_mono (dti_mono_debt (Int.cast_le.mpr le)) le_rfl le_rfl)
  · exact scored_mono exp_pos exp_mono (predictor_mono le_rfl le_rfl (Int.cast_le.mpr le))

end

theorem creditScore_mono_default :
    (∀ income', 5000000 ≤ income' → ((5000000 : ℤ) = 0 → income' = 0 ∨ 1500000 ≤ income') →
      (creditScore Libm.real 5000000 1500000 5 0).1 ≤ (creditScore Libm.real income' 1500000 5 0).1) ∧
    (∀ history', 5 ≤ history' →
      (creditScore Libm.real 5000000 1500000 5 0).1 ≤ (creditScore Libm.real 5000000 1500000 history' 0).1) ∧
    (∀ debt', 1500000 ≤ debt' →
      (creditScore Libm.real 5000000 debt' 5 0).1 ≤ (creditScore Libm.real 5000000 1500000 5 0).1) ∧
    (∀ missed', 0 ≤ missed' →
      (creditScore Libm.real 5000000 1500000 5 missed').1 ≤ (creditScore Libm.real 5000000 1500000 5 0).1) ∧
    300 ≤ (creditScore Libm.real 5000000 1500000 5 0).1 ∧ (creditScore Libm.real 5000000 1500000 5 0).1 ≤ 850 :=
  creditScore_mono Real.exp_pos Real.exp_strictMono (by decide) (by decide) 5 0

/-- From no income to an income far below the debt. -/
theorem first_income_lowers : ¬ (creditScore Libm.real 0 1000 0 0).1 ≤ (creditScore Libm.real 1 1000 0 0).1 := by
  rw [creditScore_eq Real.exp_pos, creditScore_eq Real.exp_pos, not_le]
  have none : predictor ((0 : ℤ) : ℝ) (1000 : ℤ) (0 : ℤ) (0 : ℤ) = -1 := by norm_num [predictor, dti]
  have one : predictor ((1 : ℤ) : ℝ) (1000 : ℤ) (0 : ℤ) (0 : ℤ) = -3497.5 := by norm_num [predictor, dti]
  have unit : (1.0 : ℝ) = 1 := by norm_num
  have high : 301 ≤ scored Libm.real (-1) := by
    have below := Real.exp_one_lt_d9
    have share : 1 / 550 ≤ 1 / (1 + Real.exp 1) := by
      apply one_div_le_one_div_of_le
      · linarith [Real.exp_pos 1]
      · linarith
    rw [scored, Int.le_floor]
    show ((301 : ℤ) : ℝ) ≤ 300 + 550 * (1.0 / (1.0 + Real.exp (- -1)))
    rw [unit, neg_neg]
    push_cast
    linarith
  have low : scored Libm.real (-3497.5) < 301 := by
    have above := Real.add_one_le_exp 3497.5
    have share : 1 / (1 + Real.exp 3497.5) < 1 / 550 := by
      apply one_div_lt_one_div_of_lt
      · norm_num
      · norm_num at above ⊢
        linarith
    rw [scored, Int.floor_lt]
    show 300 + 550 * (1.0 / (1.0 + Real.exp (- -3497.5))) < ((301 : ℤ) : ℝ)
    rw [unit, neg_neg]
    push_cast
    linarith
  rw [none, one]
  exact low.trans_le high

end PolyglotInfinity.RiskOcaml
