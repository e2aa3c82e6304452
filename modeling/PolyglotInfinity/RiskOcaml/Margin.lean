import PolyglotInfinity.RiskOcaml.Server

/-!
# The margin call endpoint

Which inputs reach the last clause of the ladder.
-/

namespace PolyglotInfinity.RiskOcaml

open Extended

variable {fmt : Doubles} {ap : Applicant}

/-- The last clause takes what the third one does not catch. -/
theorem evaluateMargin_safe_iff : evaluateMargin fmt ap = .Safe ↔
    ¬ ap.leverage > fmt.double 3.0 ∧ ¬ ap.collateralRatio < fmt.double 0.30 := by
  have caught {high low : ℚ} (high_le : 3.0 ≤ high) (low_le : low ≤ 0.30)
      (here : ap.leverage > fmt.double high ∨ ap.collateralRatio < fmt.double low) :
      ap.leverage > fmt.double 3.0 ∨ ap.collateralRatio < fmt.double 0.30 :=
    here.imp (le_lt (fmt.mono high_le)) fun below => lt_le below (fmt.mono low_le)
  rw [← not_or]
  unfold evaluateMargin
  by_cases warning : ap.leverage > fmt.double 3.0 ∨ ap.collateralRatio < fmt.double 0.30
  · refine iff_of_false ?_ (not_not.mpr warning)
    rw [if_pos warning]
    split_ifs <;> decide
  · rw [if_neg (mt (caught (by norm_num) (by norm_num)) warning),
      if_neg (mt (caught (by norm_num) (by norm_num)) warning), if_neg warning]
    exact iff_of_true rfl warning

/-- The start of the body. -/
def front (status : MarginStatus) : String := "\x7b" ++ jsonKvS "status" (stringOfMargin status)

theorem marginCall_front (fl : Floats) (query : String) : ∃ rest, marginCall fl query =
    front (evaluateMargin fl.toDoubles (marginApplicant fl (parseQuery query))) ++ "," ++ rest := by
  unfold marginCall front
  dsimp only
  rw [String.intercalate_cons_cons, ← String.append_assoc, ← String.append_assoc, String.append_assoc]
  exact ⟨_, rfl⟩

/-- The letter behind the fixed text is another one for each status. -/
theorem front_letter (status : MarginStatus) : (front status).toList[11]? = some 'S' ↔ status = .Safe := by
  cases status <;> decide +kernel

theorem marginCall_safe_iff (fl : Floats) (query : String) :
    (∃ rest, marginCall fl query = "\x7b\"status\":\"SAFE\"," ++ rest) ↔
      evaluateMargin fl.toDoubles (marginApplicant fl (parseQuery query)) = .Safe := by
  obtain ⟨rest, body⟩ := marginCall_front fl query
  set status := evaluateMargin fl.toDoubles (marginApplicant fl (parseQuery query))
  have safe_front : front .Safe ++ "," = "\x7b\"status\":\"SAFE\"," := by decide +kernel
  rw [body]
  constructor
  · intro ⟨other, same⟩
    have length : 11 < (front status).toList.length := by cases status <;> decide +kernel
    have letters := congrArg (fun text : String => text.toList[11]?) same
    simp only [String.toList_append] at letters
    rw [List.append_assoc, List.getElem?_append_left length, List.getElem?_append_left (by decide +kernel)] at letters
    exact (front_letter status).mp letters
  · intro safe
    exact ⟨rest, by rw [safe, safe_front]⟩

/-- Only a NaN that no bound of the other number catches is called safe. -/
theorem marginCall_safe (fl : Floats) (query : String) :
    let ap := marginApplicant fl (parseQuery query)
    ((∃ rest, marginCall fl query = "\x7b\"status\":\"SAFE\"," ++ rest) →
        ap.leverage ≤ fl.double 3.0 ∧ fl.double 0.30 ≤ ap.collateralRatio) ↔
      (ap.leverage = .nan → ap.collateralRatio < fl.double 0.30) ∧
      (ap.collateralRatio = .nan → ap.leverage > fl.double 3.0) := by
  intro ap
  rw [marginCall_safe_iff, evaluateMargin_safe_iff]
  show (¬ fl.double 3.0 < ap.leverage ∧ ¬ ap.collateralRatio < fl.double 0.30 → _) ↔
    (_ → _) ∧ (_ → fl.double 3.0 < ap.leverage)
  generalize ap.leverage = leverage
  generalize ap.collateralRatio = collateral
  by_cases no_leverage : leverage = .nan
  · subst no_leverage
    constructor
    · intro safe
      have caught : collateral < fl.double 0.30 := by
        by_contra not_caught
        exact not_nan_le (safe ⟨not_lt_nan, not_caught⟩).1
      refine ⟨fun _ => caught, fun no_collateral => ?_⟩
      rw [no_collateral] at caught
      exact absurd caught not_nan_lt
    · exact fun ⟨caught, _⟩ ⟨_, not_caught⟩ => absurd (caught rfl) not_caught
  · by_cases no_collateral : collateral = .nan
    · subst no_collateral
      constructor
      · intro safe
        refine ⟨fun absent => absurd absent no_leverage, fun _ => ?_⟩
        by_contra not_caught
        exact not_le_nan (safe ⟨not_caught, not_nan_lt⟩).2
      · exact fun ⟨_, caught⟩ ⟨not_caught, _⟩ => absurd (caught rfl) not_caught
    · rw [not_lt_iff (fl.double_ne_nan _) no_leverage, not_lt_iff no_collateral (fl.double_ne_nan _)]
      exact iff_of_true id ⟨fun absent => absurd absent no_leverage, fun absent => absurd absent no_collateral⟩

/-- The texts of the endpoint's defaults and of NaN, over exact numbers. -/
def defaultTexts : Floats where
  toDoubles := .exactly
  stringOfFloat := fun x => if x = .fin 3.5 then "3.5" else if x = .fin 0.25 then "0.25" else "0.45"
  fixed4 := fun _ => "nan"

/-- No clause of the ladder compares NaN to its bounds successfully. -/
theorem nan_answered_safe :
    let ap := marginApplicant defaultTexts (parseQuery "leverage=nan&collateral_ratio=nan")
    ¬ ((∃ rest, marginCall defaultTexts "leverage=nan&collateral_ratio=nan" = "\x7b\"status\":\"SAFE\"," ++ rest) →
      ap.leverage ≤ defaultTexts.double 3.0 ∧ defaultTexts.double 0.30 ≤ ap.collateralRatio) := by
  intro ap safe
  have leverage : ap.leverage = .nan := by decide +kernel
  have collateral : ap.collateralRatio = .nan := by decide +kernel
  have answered : evaluateMargin defaultTexts.toDoubles ap = .Safe := by
    rw [evaluateMargin_safe_iff, leverage, collateral]
    exact ⟨not_lt_nan, not_nan_lt⟩
  have numbers := (safe ((marginCall_safe_iff _ _).mpr answered)).1
  rw [leverage] at numbers
  exact not_nan_le numbers

end PolyglotInfinity.RiskOcaml
