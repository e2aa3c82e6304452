import Mathlib.Tactic.SplitIfs
import PolyglotInfinity.RiskOcaml.Server

/-!
# Better inputs

No rule turns against an input that is better in one field and no worse in the others.
-/

namespace PolyglotInfinity.RiskOcaml

open Extended

variable {fmt : Doubles}

/-! ### Risk -/

/-- A rule whose guards hold more often gives no fewer points. -/
theorem points_mono {worst worst' middle middle' mild mild' : Prop} [Decidable worst] [Decidable worst']
    [Decidable middle] [Decidable middle'] [Decidable mild] [Decidable mild'] {p q r score score' : ℤ}
    (first : worst → worst') (second : middle → middle') (third : mild → mild') (r_nonneg : 0 ≤ r) (r_le : r ≤ q)
    (q_le : q ≤ p) (le : score ≤ score') :
    points worst middle mild p q r score ≤ points worst' middle' mild' p q r score' := by
  unfold points
  by_cases here : worst
  · rw [if_pos here, if_pos (first here)]
    omega
  · rw [if_neg here]
    by_cases here : middle
    · rw [if_pos here, if_pos (second here)]
      split_ifs <;> omega
    · rw [if_neg here]
      by_cases here : mild
      · rw [if_pos here, if_pos (third here)]
        split_ifs <;> omega
      · rw [if_neg here]
        split_ifs <;> omega

theorem riskLevel_mono {score score' : ℤ} (le : score ≤ score') : (riskLevel score).rank ≤ (riskLevel score').rank := by
  unfold riskLevel
  split_ifs <;> first | omega | decide

theorem evaluateRisk_mono (fmt : Doubles) {d d' v v' l l' : Extended} {c c' : ℤ} (debt : d' ≤ d) (volatility : v' ≤ v)
    (leverage : l' ≤ l) (credit : c ≤ c') : (evaluateRisk fmt d' v' l' c').1 ≤ (evaluateRisk fmt d v l c).1 := by
  unfold evaluateRisk
  have exceeds {x x' : Extended} (le : x' ≤ x) (bound : ℚ) : x' > fmt.double bound → x > fmt.double bound :=
    fun above => lt_le above le
  apply points_mono (by omega) (by omega) (by omega) (by decide) (by decide) (by decide)
  apply points_mono (exceeds leverage _) (exceeds leverage _) (exceeds leverage _) (by decide) (by decide) (by decide)
  apply points_mono (exceeds volatility _) (exceeds volatility _) (exceeds volatility _) (by decide) (by decide)
    (by decide)
  exact points_mono (exceeds debt _) (exceeds debt _) (exceeds debt _) (by decide) (by decide) (by decide) le_rfl

/-! ### Applicants -/

/-- The second applicant is no worse. -/
structure NoWorse (a b : Applicant) : Prop where
  score : a.creditScoreI ≤ b.creditScoreI
  debt : b.debtRatio ≤ a.debtRatio
  collateral : a.collateralRatio ≤ b.collateralRatio
  leverage : b.leverage ≤ a.leverage
  missed : b.missedPayments ≤ a.missedPayments

variable {a b : Applicant}

theorem evaluateLoan_mono (better : NoWorse a b) (missed_nonneg : 0 ≤ b.missedPayments) :
    (evaluateLoan fmt a).rank ≤ (evaluateLoan fmt b).rank := by
  obtain ⟨score, debt, collateral, -, missed⟩ := better
  have debt_below (bound : ℚ) : a.debtRatio < fmt.double bound → b.debtRatio < fmt.double bound := le_lt debt
  have covered (bound : ℚ) : a.collateralRatio ≥ fmt.double bound → b.collateralRatio ≥ fmt.double bound :=
    fun enough => le_le enough collateral
  unfold evaluateLoan
  by_cases approved : 750 ≤ a.creditScoreI ∧ a.debtRatio < fmt.double 0.40 ∧ a.missedPayments = 0
  · obtain ⟨high, low, none⟩ := approved
    rw [if_pos ⟨high, low, none⟩, if_pos ⟨by omega, debt_below _ low, by omega⟩]
  · rw [if_neg approved]
    by_cases surcharge : 700 ≤ a.creditScoreI ∧ a.debtRatio < fmt.double 0.60 ∧ a.missedPayments ≤ 1 ∧
        a.collateralRatio ≥ fmt.double 0.30
    · obtain ⟨high, low, few, enough⟩ := surcharge
      rw [if_pos ⟨high, low, few, enough⟩]
      have kept : 700 ≤ b.creditScoreI ∧ b.debtRatio < fmt.double 0.60 ∧ b.missedPayments ≤ 1 ∧
          b.collateralRatio ≥ fmt.double 0.30 := ⟨by omega, debt_below _ low, by omega, covered _ enough⟩
      rw [if_pos kept]
      split_ifs <;> decide
    · rw [if_neg surcharge]
      by_cases guarantor : 650 ≤ a.creditScoreI ∧ a.debtRatio < fmt.double 0.70 ∧ a.collateralRatio ≥ fmt.double 0.50
      · obtain ⟨high, low, enough⟩ := guarantor
        have kept : 650 ≤ b.creditScoreI ∧ b.debtRatio < fmt.double 0.70 ∧ b.collateralRatio ≥ fmt.double 0.50 :=
          ⟨by omega, debt_below _ low, covered _ enough⟩
        rw [if_pos ⟨high, low, enough⟩, if_pos kept]
        split_ifs <;> decide
      · rw [if_neg guarantor]
        split_ifs <;> exact Nat.zero_le _

theorem evaluateMargin_mono (better : NoWorse a b) : (evaluateMargin fmt b).rank ≤ (evaluateMargin fmt a).rank := by
  have guard (high low : ℚ) (here : b.leverage > fmt.double high ∨ b.collateralRatio < fmt.double low) :
      a.leverage > fmt.double high ∨ a.collateralRatio < fmt.double low :=
    here.imp (fun above => lt_le above better.leverage) (le_lt better.collateral)
  unfold evaluateMargin
  by_cases liquidation : b.leverage > fmt.double 8.0 ∨ b.collateralRatio < fmt.double 0.10
  · rw [if_pos liquidation, if_pos (guard _ _ liquidation)]
  · rw [if_neg liquidation]
    by_cases call : b.leverage > fmt.double 5.0 ∨ b.collateralRatio < fmt.double 0.20
    · rw [if_pos call, if_pos (guard _ _ call)]
      split_ifs <;> decide
    · rw [if_neg call]
      by_cases warning : b.leverage > fmt.double 3.0 ∨ b.collateralRatio < fmt.double 0.30
      · rw [if_pos warning, if_pos (guard _ _ warning)]
        split_ifs <;> decide
      · rw [if_neg warning]
        exact Nat.zero_le _

theorem better_inputs (fmt : Doubles) :
    (∀ a b, NoWorse a b → 0 ≤ b.missedPayments → (evaluateLoan fmt a).rank ≤ (evaluateLoan fmt b).rank) ∧
    (∀ {d d' v v' l l' : Extended} {c c' : ℤ}, d' ≤ d → v' ≤ v → l' ≤ l → c ≤ c' →
      (evaluateRisk fmt d' v' l' c').1 ≤ (evaluateRisk fmt d v l c).1 ∧
      (evaluateRisk fmt d' v' l' c').2.rank ≤ (evaluateRisk fmt d v l c).2.rank) ∧
    ∀ a b, NoWorse a b → (evaluateMargin fmt b).rank ≤ (evaluateMargin fmt a).rank := by
  refine ⟨fun a b => evaluateLoan_mono, fun debt volatility leverage credit => ?_, fun a b => evaluateMargin_mono⟩
  have score := evaluateRisk_mono fmt debt volatility leverage credit
  exact ⟨score, riskLevel_mono score⟩

theorem better_inputs_loan :
    (evaluateLoan .exactly ⟨700, .fin 0.5, .fin 0.4, .fin 2, 5000000, 1⟩).rank ≤
      (evaluateLoan .exactly ⟨760, .fin 0.3, .fin 0.4, .fin 2, 5000000, 0⟩).rank := by
  have better : NoWorse ⟨700, .fin 0.5, .fin 0.4, .fin 2, 5000000, 1⟩ ⟨760, .fin 0.3, .fin 0.4, .fin 2, 5000000, 0⟩ :=
    ⟨by decide, fin_le_fin.mpr (by norm_num), fin_le_fin.mpr le_rfl, fin_le_fin.mpr le_rfl, by decide⟩
  exact (better_inputs .exactly).1 _ _ better le_rfl

end PolyglotInfinity.RiskOcaml
