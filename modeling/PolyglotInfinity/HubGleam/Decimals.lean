import Mathlib.Algebra.Order.Round
import Mathlib.Analysis.Real.Sqrt
import PolyglotInfinity.HubGleam.Scores

/-!
# The numerals of the reports

Every number of a report is written with six digits behind its point. In exact
arithmetic the numeral is as close as six digits allow, but for the numbers whose
sign is lost with their integer part.
-/

namespace PolyglotInfinity.HubGleam

/-! ### Digits -/

/-- At least six digits, with zeros in front. -/
def sixDigits (n : ℕ) : List Char := List.replicate (6 - (Nat.toDigits 10 n).length) '0' ++ Nat.toDigits 10 n

theorem padStart_digits (n : ℕ) : (padStart (toString n) 6 '0').toList = sixDigits n := by
  have text : (toString n).toList = Nat.toDigits 10 n := Nat.toList_repr
  rw [padStart, String.toList_append, toList_pushn, text, ← String.length_toList, text, sixDigits]

theorem digits_append (ds es : List Char) :
    ParseDouble.digits 10 (ds ++ es) = ParseDouble.digits 10 ds * 10 ^ es.length + ParseDouble.digits 10 es := by
  induction es using List.reverseRecOn with
  | nil => simp [ParseDouble.digits]
  | append_singleton es c ih =>
    have last (ds : List Char) : ParseDouble.digits 10 (ds ++ [c]) =
        ParseDouble.digits 10 ds * 10 + ParseDouble.digitVal c := by
      simp [ParseDouble.digits]
    rw [← List.append_assoc, last, last, ih, List.length_append, List.length_singleton, pow_succ]
    ring

theorem sixDigits_length {n : ℕ} (small : n < 1000000) : (sixDigits n).length = 6 := by
  have short : (Nat.toDigits 10 n).length ≤ 6 := (Nat.length_toDigits_le_iff (by decide) (by decide)).mpr small
  rw [sixDigits, List.length_append, List.length_replicate]
  omega

theorem digits_sixDigits (n : ℕ) : ParseDouble.digits 10 (sixDigits n) = n := by
  have zeros (k : ℕ) : ParseDouble.digits 10 (List.replicate k '0') = 0 := by
    induction k with
    | zero => rfl
    | succ k ih =>
      rw [List.replicate_succ', digits_append, ih]
      rfl
  rw [sixDigits, digits_append, zeros, Json.digits_toDigits, Nat.zero_mul, Nat.zero_add]

/-! ### What is written -/

def numeral (r : ℤ) : Numeral where
  sign := if 0 ≤ r.tdiv 1000000 then .none else .minus
  whole := Nat.toDigits 10 (r.tdiv 1000000).natAbs
  fraction := some (sixDigits (r.tmod 1000000).natAbs)
  some_whole := Nat.toDigits_ne_nil
  whole_digits := fun _ => Nat.isDigit_of_mem_toDigits (by decide) (by decide)
  some_fraction := by simp [sixDigits]
  fraction_digits := by
    intro ds same c member
    obtain rfl := Option.some.inj same
    rcases List.mem_append.mp member with zero | digit
    · rw [List.eq_of_mem_replicate zero]
      decide
    · exact Nat.isDigit_of_mem_toDigits (by decide) (by decide) digit

/-- Both parts are those of the absolute value, and the sign is that of the integer part. -/
theorem parts (r : ℤ) :
    (r.tdiv 1000000).natAbs = r.natAbs / 1000000 ∧ (r.tmod 1000000).natAbs = r.natAbs % 1000000 ∧
      (0 ≤ r.tdiv 1000000 ↔ -1000000 < r) := by
  refine ⟨Int.natAbs_tdiv r 1000000, Int.natAbs_tmod r 1000000, ?_⟩
  obtain ⟨k, rfl | rfl⟩ := r.eq_nat_or_neg
  · have quotient : (k : ℤ).tdiv 1000000 = (k / 1000000 : ℕ) := (Int.ofNat_tdiv k 1000000).symm
    omega
  · have quotient : (-(k : ℤ)).tdiv 1000000 = -((k / 1000000 : ℕ) : ℤ) := by
      rw [Int.neg_tdiv]
      exact congrArg (- ·) (Int.ofNat_tdiv k 1000000).symm
    omega

/-- The millionths that are read back. -/
def shown (r : ℤ) : ℤ := if -1000000 < r then |r| else r

theorem numeral_value (r : ℤ) : (numeral r).value = (shown r : ℚ) / 1000000 := by
  obtain ⟨quotient, remainder, sign⟩ := parts r
  have small : (r.tmod 1000000).natAbs < 1000000 := by omega
  have magnitude : (numeral r).magnitude = (r.natAbs : ℚ) / 1000000 := by
    have whole : (r.tdiv 1000000).natAbs * 10 ^ 6 + (r.tmod 1000000).natAbs = r.natAbs := by omega
    simp only [Numeral.magnitude, numeral, Option.getD_some, digits_append, Json.digits_toDigits, digits_sixDigits,
      sixDigits_length small, whole, ParseDouble.scale]
    rfl
  have absolute : ((r.natAbs : ℤ) : ℚ) = ((|r| : ℤ) : ℚ) := by rw [Int.natCast_natAbs]
  rw [Int.cast_natCast] at absolute
  unfold Numeral.value shown
  rw [magnitude, absolute]
  by_cases large : -1000000 < r
  · have sign : (numeral r).sign = .none := if_pos (sign.mpr large)
    rw [sign, if_pos large]
  · have sign : (numeral r).sign = .minus := if_neg (mt sign.mp large)
    rw [sign, if_neg large, abs_of_nonpos (by omega)]
    push_cast
    ring

variable {F : Type} [Field F] [LinearOrder F] [FloorRing F]

theorem text_numeral (r : ℤ) :
    toString (r.tdiv 1000000) ++ "." ++ padStart (toString (r.tmod 1000000).natAbs) 6 '0' = (numeral r).text := by
  apply String.toList_inj.mp
  rw [String.toList_append, String.toList_append, padStart_digits, Json.toString_int]
  simp only [Numeral.text, numeral, Option.elim_some, String.toList_ofList]
  split
  · rename_i nonneg
    have same : (r.tdiv 1000000).toNat = (r.tdiv 1000000).natAbs := by omega
    rw [same, List.append_assoc]
    rfl
  · rename_i negative
    have same : (-r.tdiv 1000000).toNat = (r.tdiv 1000000).natAbs := by omega
    rw [same, List.append_assoc]
    rfl

theorem fmtF_exactly (sqrt : F → F) (x : F) :
    fmtF (.exactly sqrt) x = .ok (numeral (roundAway (x * 1000000))).text :=
  congrArg Except.ok (text_numeral _)

theorem decimal_numeral (r : ℤ) : decimal (numeral r).text = some ((shown r : ℚ) / 1000000) := by
  rw [Numeral.decimal_fraction rfl, numeral_value]

variable [IsStrictOrderedRing F]

theorem roundAway_near (x : F) : |(roundAway x : F) - x| ≤ 1 / 2 := by
  unfold roundAway
  rw [← round_eq, ← round_eq]
  split
  · have near := abs_sub_round (-x)
    rw [Int.cast_neg, ← neg_add', abs_neg, ← sub_neg_eq_add, abs_sub_comm]
    exact near
  · rw [abs_sub_comm]
    exact abs_sub_round x

theorem roundAway_le {k : ℤ} (positive : 0 < k) (x : F) : roundAway x ≤ -k ↔ x ≤ -k + 1 / 2 := by
  have above : (1 : F) ≤ k := by exact_mod_cast positive
  unfold roundAway
  split
  · rw [neg_le_neg_iff, Int.le_floor]
    constructor <;> intro h <;> linarith
  · rename_i nonneg
    have zero : 0 ≤ ⌊x + 1 / 2⌋ := Int.floor_nonneg.mpr (by linarith)
    exact iff_of_false (by omega) (by linarith)

/-- Where the sign is shown, or there is none, the numeral is as close as the rounding. -/
theorem shown_near {r : ℤ} {y : F} (near : |(r : F) - y| ≤ 1 / 2) :
    |(shown r : F) - y| ≤ 1 / 2 ↔ 0 ≤ r ∨ r ≤ -1000000 := by
  unfold shown
  by_cases large : -1000000 < r
  · rw [if_pos large]
    by_cases nonneg : 0 ≤ r
    · rw [abs_of_nonneg nonneg]
      exact iff_of_true near (.inl nonneg)
    · rw [abs_of_neg (not_le.mp nonneg)]
      refine iff_of_false (fun close => ?_) (by omega)
      have below : (r : F) ≤ -1 := by exact_mod_cast Int.le_sub_one_of_lt (not_le.mp nonneg)
      rw [abs_le] at near close
      push_cast at close
      linarith
  · rw [if_neg large]
    exact iff_of_true near (.inr (not_lt.mp large))

theorem fmtF_close (sqrt : F → F) (x : F) :
    (∃ text q, fmtF (.exactly sqrt) x = .ok text ∧ decimal text = some q ∧ |(q : F) - x| ≤ 0.0000005) ↔
      -0.0000005 < x ∨ x ≤ -0.9999995 := by
  have only : (∃ text q, fmtF (.exactly sqrt) x = .ok text ∧ decimal text = some q ∧ |(q : F) - x| ≤ 0.0000005) ↔
      |((shown (roundAway (x * 1000000)) / 1000000 : ℚ) : F) - x| ≤ 0.0000005 := by
    rw [fmtF_exactly]
    constructor
    · rintro ⟨text, q, written, read, close⟩
      obtain rfl := Except.ok.inj written
      rw [decimal_numeral] at read
      obtain rfl := Option.some.inj read
      exact close
    · exact fun close => ⟨_, _, rfl, decimal_numeral _, close⟩
  have millions (s : ℤ) : |((s / 1000000 : ℚ) : F) - x| ≤ 0.0000005 ↔ |(s : F) - x * 1000000| ≤ 1 / 2 := by
    push_cast
    rw [abs_le, abs_le]
    constructor <;> rintro ⟨low, high⟩ <;> constructor <;> linarith
  have nonneg : 0 ≤ roundAway (x * 1000000) ↔ ¬ roundAway (x * 1000000) ≤ -1 := by omega
  rw [only, millions, shown_near (roundAway_near _), nonneg, roundAway_le (by decide), roundAway_le (by decide), not_le]
  push_cast
  constructor <;> rintro (small | large)
  · left; linarith
  · right; linarith
  · left; linarith
  · right; linarith

/-- A numeral is within half a millionth of its number exactly if the number keeps its sign: a
negative one has to round to zero, or have an integer part. -/
theorem fmtF_close_iff (sqrt : ℝ → ℝ) (x : ℝ) :
    (∃ text q, fmtF (.exactly sqrt) x = .ok text ∧ decimal text = some q ∧ |(q : ℝ) - x| ≤ 0.0000005) ↔
      -0.0000005 < x ∨ x ≤ -0.9999995 := fmtF_close sqrt x

theorem fmtF_minus_half :
    fmtF (.exactly Real.sqrt) (-0.5) = .ok "0.500000" ∧ decimal "0.500000" = some 0.5 ∧
      ¬ |((0.5 : ℚ) : ℝ) - (-0.5)| ≤ 0.0000005 := by
  have millionths : (-0.5 * 1000000 : ℝ) = ((-500000 : ℤ) : ℝ) := by norm_num
  refine ⟨?_, by decide +kernel, by norm_num⟩
  rw [fmtF_exactly, millionths, roundAway_int]
  exact congrArg Except.ok (by decide +kernel)

end PolyglotInfinity.HubGleam
