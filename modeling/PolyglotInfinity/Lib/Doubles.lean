import Mathlib.Data.Int.Log
import Mathlib.Data.Rat.Floor
import PolyglotInfinity.Lib.Extended

/-!
# Doubles

Decimal numbers as a program reads them: rounded to a format. Of the rounding in general only
this is used, that it keeps the order and never gives NaN; the 64 bits of IEEE 754 follow.
-/

namespace Extended

variable {a b c : Extended}

theorem le_le (first : a ≤ b) (second : b ≤ c) : a ≤ c := by
  cases a <;> cases b <;> cases c <;>
    first | exact first.elim | exact second.elim | trivial | exact @le_trans ℚ _ _ _ _ first second

theorem le_lt (first : a ≤ b) (second : b < c) : a < c := by
  cases a <;> cases b <;> cases c <;>
    first | exact first.elim | exact second.elim | trivial | exact @lt_of_le_of_lt ℚ _ _ _ _ first second

theorem lt_le (first : a < b) (second : b ≤ c) : a < c := by
  cases a <;> cases b <;> cases c <;>
    first | exact first.elim | exact second.elim | trivial | exact @lt_of_lt_of_le ℚ _ _ _ _ first second

theorem not_lt_nan : ¬ a < nan := by
  cases a <;> exact id

theorem not_le_nan : ¬ a ≤ nan := by
  cases a <;> exact id

/-- Without NaN the order is total. -/
theorem not_lt_iff (left : a ≠ nan) (right : b ≠ nan) : ¬ a < b ↔ b ≤ a := by
  cases a <;> cases b <;>
    first
    | exact absurd rfl left
    | exact absurd rfl right
    | exact @not_lt ℚ _ _ _
    | exact iff_of_true id trivial
    | exact iff_of_false (fun not_lt => not_lt trivial) id

end Extended

structure Doubles where
  double : ℚ → Extended
  mono : ∀ {q r}, q ≤ r → double q ≤ double r

namespace Doubles

/-- A format that has every number. -/
def exactly : Doubles := ⟨.fin, id⟩

/-- The result of an operation on doubles, of which `Extended` has the exact one. -/
def round (fmt : Doubles) : Extended → Extended
  | .fin q => fmt.double q
  | x => x

theorem double_ne_nan (fmt : Doubles) (q : ℚ) : fmt.double q ≠ .nan := by
  intro eq
  have reflexive := fmt.mono (le_refl q)
  rw [eq] at reflexive
  exact Extended.not_nan_le reflexive

end Doubles

/-! ### 64 bits -/

/-- To the nearest integer, and of two as near to the even one. -/
def roundEven (q : ℚ) : ℤ :=
  let n := ⌊q⌋
  if q - n < 1 / 2 ∨ (q - n = 1 / 2 ∧ n % 2 = 0) then n else n + 1

/-- A mantissa of 53 bits, with an exponent from -1074; half a unit past the largest double
and beyond becomes infinite. -/
def binary64 (q : ℚ) : Extended :=
  let unit : ℚ := 2 ^ max (Int.log 2 |q| - 52) (-1074)
  let r := roundEven (q / unit) * unit
  if 2 ^ 1024 ≤ r then .posInf else if r ≤ -2 ^ 1024 then .negInf else .fin r

/-- A mantissa with its exponent, or a special value. -/
inductive IsDouble : Extended → Prop where
  | fin (m e : ℤ) (mantissa : |m| < 2 ^ 53) (above : -1074 ≤ e) (below : e ≤ 971) : IsDouble (.fin (m * 2 ^ e))
  | posInf : IsDouble .posInf
  | negInf : IsDouble .negInf
  | nan : IsDouble .nan

theorem IsDouble.neg {x : Extended} (double : IsDouble x) : IsDouble (-x) := by
  cases double with
  | fin m e mantissa above below =>
    rw [Extended.neg_fin, ← neg_mul, ← Int.cast_neg]
    exact .fin (-m) e (by rwa [abs_neg]) above below
  | posInf => exact .negInf
  | negInf => exact .posInf
  | nan => exact .nan

/-- Rounding goes past no integer. -/
theorem roundEven_le {q : ℚ} {n : ℤ} (le : q ≤ n) : roundEven q ≤ n := by
  have below := Int.floor_le q
  simp only [roundEven]
  split
  · exact Int.cast_le.mp (below.trans le)
  · rename_i up
    have less : ⌊q⌋ ≠ n := by
      intro same
      rw [same] at below up
      exact up (.inl (by linarith))
    have floor := Int.floor_le_floor le
    rw [Int.floor_intCast] at floor
    omega

theorem le_roundEven {q : ℚ} {n : ℤ} (le : n ≤ q) : n ≤ roundEven q := by
  have floor := Int.le_floor.mpr le
  simp only [roundEven]
  split
  · exact floor
  · omega

theorem abs_roundEven_le {q : ℚ} {n : ℤ} (le : |q| ≤ n) : |roundEven q| ≤ n := by
  obtain ⟨least, most⟩ := abs_le.mp le
  exact abs_le.mpr ⟨le_roundEven (by exact_mod_cast least), roundEven_le most⟩

theorem le_abs_roundEven {q : ℚ} {n : ℤ} (le : n ≤ |q|) : n ≤ |roundEven q| := by
  rcases le_abs.mp le with above | below
  · exact le_abs.mpr (.inl (le_roundEven above))
  · have least : roundEven q ≤ -n := roundEven_le (by rw [Int.cast_neg]; linarith)
    exact le_abs.mpr (.inr (by omega))

/-- What is rounded to a multiple of its unit and stays below the infinities has a mantissa of 53 bits. -/
theorem isDouble_unit {m e : ℤ} (mantissa : |m| ≤ 2 ^ 53) (above : -1074 ≤ e) (normal : 971 < e → 2 ^ 52 ≤ |m|)
    (finite : |(m * 2 ^ e : ℚ)| < 2 ^ 1024) : IsDouble (.fin (m * 2 ^ e)) := by
  have unit_pos : (0 : ℚ) < 2 ^ e := zpow_pos (by norm_num) e
  have reaches {k : ℤ} {d : ℕ} (le : 2 ^ d ≤ |m|) (exponent : k = d + e) : (2 : ℚ) ^ k ≤ |(m * 2 ^ e : ℚ)| := by
    rw [exponent, zpow_add₀ (by norm_num), abs_mul, abs_of_pos unit_pos, zpow_natCast]
    exact mul_le_mul_of_nonneg_right (by exact_mod_cast le) unit_pos.le
  have small {k : ℤ} (le : (2 : ℚ) ^ k ≤ |(m * 2 ^ e : ℚ)|) : k < 1024 := by
    have less := le.trans_lt finite
    rw [← zpow_natCast] at less
    exact (zpow_lt_zpow_iff_right₀ (by norm_num)).mp less
  have below : e ≤ 971 := by
    by_contra large
    have := small (reaches (normal (not_le.mp large)) rfl)
    omega
  rcases mantissa.lt_or_eq with fits | carry
  · exact .fin m e fits above below
  · have next : e + 1 ≤ 971 := by
      have := small (reaches carry.ge rfl)
      omega
    obtain ⟨half, rfl, least⟩ : ∃ half, m = half * 2 ∧ |half| < 2 ^ 53 := by
      rcases (abs_eq (by norm_num)).mp carry with rfl | rfl
      · exact ⟨2 ^ 52, by norm_num⟩
      · exact ⟨-2 ^ 52, by norm_num⟩
    have shifted : ((half * 2 : ℤ) * 2 ^ e : ℚ) = half * 2 ^ (e + 1) := by
      rw [zpow_add_one₀ (by norm_num), Int.cast_mul, mul_assoc, mul_comm (2 ^ e)]
      norm_num
    rw [shifted]
    exact .fin half (e + 1) least (by omega) next

theorem binary64_isDouble (q : ℚ) : IsDouble (binary64 q) := by
  simp only [binary64]
  generalize exponent : max (Int.log 2 |q| - 52) (-1074) = e
  have unit_pos : (0 : ℚ) < 2 ^ e := zpow_pos (by norm_num) e
  have scaled : |q / 2 ^ e| = |q| / 2 ^ e := by rw [abs_div, abs_of_pos unit_pos]
  have mantissa : |roundEven (q / 2 ^ e)| ≤ 2 ^ 53 := by
    apply abs_roundEven_le
    rw [scaled, div_le_iff₀ unit_pos]
    calc |q| ≤ (2 : ℕ) ^ (Int.log 2 |q| + 1) := (Int.lt_zpow_succ_log_self (by norm_num) _).le
      _ ≤ 2 ^ (53 + e) := zpow_le_zpow_right₀ (by norm_num) (by omega)
      _ = ((2 ^ 53 : ℤ) : ℚ) * 2 ^ e := by rw [zpow_add₀ (by norm_num)]; norm_num
  have normal : 971 < e → 2 ^ 52 ≤ |roundEven (q / 2 ^ e)| := by
    intro large
    have given : Int.log 2 |q| = 52 + e := by omega
    have nonzero : 0 < |q| := by
      by_contra none
      rw [le_antisymm (not_lt.mp none) (abs_nonneg q), Int.log_zero_right] at given
      omega
    apply le_abs_roundEven
    rw [scaled, le_div_iff₀ unit_pos]
    calc ((2 ^ 52 : ℤ) : ℚ) * 2 ^ e = 2 ^ (52 + e) := by rw [zpow_add₀ (by norm_num)]; norm_num
      _ = (2 : ℕ) ^ Int.log 2 |q| := by rw [given]; norm_num
      _ ≤ |q| := Int.zpow_log_le_self (by norm_num) nonzero
  split
  · exact .posInf
  · split
    · exact .negInf
    · rename_i below above
      exact isDouble_unit mantissa (by omega) normal (abs_lt.mpr ⟨not_le.mp above, not_le.mp below⟩)

example : binary64 0.1 = .fin (3602879701896397 / 2 ^ 55) := by decide +kernel
