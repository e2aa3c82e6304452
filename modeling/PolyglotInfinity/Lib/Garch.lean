import Mathlib.Analysis.Real.Sqrt
import Mathlib.Tactic.Linarith
import Mathlib.Tactic.LinearCombination
import Mathlib.Tactic.Positivity

/-!
# GARCH(1,1)

Variances that follow the last shock, and shocks that take their size from the variance. A
simulation that takes it from the variance of the round before is the process only as long
as no shock meets a variance that moves.
-/

namespace Garch

variable {omega alpha beta : ℝ} {z h eps : ℕ → ℝ} {n i : ℕ}

/-- The process on the first `n` rounds. -/
structure Process (omega alpha beta : ℝ) (z : ℕ → ℝ) (n : ℕ) (h eps : ℕ → ℝ) : Prop where
  variance : ∀ i, i + 1 < n → h (i + 1) = omega + alpha * eps i ^ 2 + beta * h i
  shock : ∀ i, i + 1 < n → eps (i + 1) = z (i + 1) * √(h (i + 1))

/-- The simulation whose shocks are a round late. -/
structure Late (omega alpha beta : ℝ) (z h eps : ℕ → ℝ) : Prop where
  start_pos : 0 < h 0
  no_shock : eps 0 = 0
  variance : ∀ i, h (i + 1) = omega + alpha * eps i ^ 2 + beta * h i
  shock : ∀ i, eps (i + 1) = z (i + 1) * √(h i)

/-- Variance and shock of each round, where `size` picks the variance of the shock from the
last one and the new one. -/
noncomputable def path (omega alpha beta : ℝ) (z : ℕ → ℝ) (size : ℝ → ℝ → ℝ) (start : ℝ) : ℕ → ℝ × ℝ
  | 0 => (start, 0)
  | i + 1 =>
    let (h, eps) := path omega alpha beta z size start i
    let h' := omega + alpha * eps ^ 2 + beta * h
    (h', z (i + 1) * √(size h h'))

theorem process_path (omega alpha beta : ℝ) (z : ℕ → ℝ) (start : ℝ) (n : ℕ) : Process omega alpha beta z n
    (fun i => (path omega alpha beta z (fun _ h' => h') start i).1)
    (fun i => (path omega alpha beta z (fun _ h' => h') start i).2) :=
  ⟨fun _ _ => rfl, fun _ _ => rfl⟩

theorem late_path (omega alpha beta : ℝ) (z : ℕ → ℝ) {start : ℝ} (start_pos : 0 < start) :
    Late omega alpha beta z (fun i => (path omega alpha beta z (fun h _ => h) start i).1)
      (fun i => (path omega alpha beta z (fun h _ => h) start i).2) :=
  ⟨start_pos, rfl, fun _ => rfl, fun _ => rfl⟩

/-- How far a variance is above the level that stays, which is `omega / (1 - beta)`. -/
def gap (omega beta : ℝ) (h : ℕ → ℝ) (i : ℕ) : ℝ := (1 - beta) * h i - omega

section

variable (late : Late omega alpha beta z h eps)
include late

theorem Late.gap_succ (i : ℕ) :
    gap omega beta h (i + 1) = beta * gap omega beta h i + (1 - beta) * (alpha * eps i ^ 2) := by
  unfold gap
  rw [late.variance]
  ring

theorem Late.no_shock_of (quiet : ∀ j, j + 1 = i → z (j + 1) = 0) : eps i = 0 := by
  cases i with
  | zero => exact late.no_shock
  | succ i => rw [late.shock, quiet i rfl, zero_mul]

/-- Without shocks the gap shrinks. -/
theorem Late.gap_quiet (quiet : ∀ j, j + 1 < i → z (j + 1) = 0) :
    gap omega beta h i = beta ^ i * gap omega beta h 0 := by
  induction i with
  | zero => rw [pow_zero, one_mul]
  | succ i ih =>
    have no_shock := late.no_shock_of (i := i) fun j same => quiet j (by omega)
    rw [late.gap_succ, ih fun j lt => quiet j (lt.trans (Nat.lt_succ_self i)), no_shock, pow_succ']
    ring

/-- After a shock the variance stays above the level. -/
theorem Late.gap_pos (alpha_nonneg : 0 ≤ alpha) (beta_pos : 0 < beta) (beta_lt : beta < 1)
    (start : 0 ≤ gap omega beta h i) (shock : 0 < alpha * eps i ^ 2) (k : ℕ) :
    0 < gap omega beta h (i + 1 + k) := by
  have share : 0 < 1 - beta := sub_pos.mpr beta_lt
  induction k with
  | zero =>
    rw [add_zero, late.gap_succ]
    exact add_pos_of_nonneg_of_pos (mul_nonneg beta_pos.le start) (mul_pos share shock)
  | succ k ih =>
    rw [← add_assoc, late.gap_succ]
    exact add_pos_of_pos_of_nonneg (mul_pos beta_pos ih) (by positivity)

variable (omega_pos : 0 < omega) (alpha_nonneg : 0 ≤ alpha) (beta_nonneg : 0 ≤ beta)
include omega_pos alpha_nonneg beta_nonneg

theorem Late.pos (i : ℕ) : 0 < h i := by
  induction i with
  | zero => exact late.start_pos
  | succ i ih =>
    rw [late.variance]
    positivity

theorem Late.shock_eq_zero (i : ℕ) : eps (i + 1) = 0 ↔ z (i + 1) = 0 := by
  have size := Real.sqrt_ne_zero'.mpr (late.pos omega_pos alpha_nonneg beta_nonneg i)
  rw [late.shock, mul_eq_zero, or_iff_left size]

/-- A shock is right if it is zero or the variance stays. -/
theorem Late.process_iff : Process omega alpha beta z n h eps ↔
    ∀ i, i + 1 < n → z (i + 1) = 0 ∨ gap omega beta h i = alpha * eps i ^ 2 := by
  have pos := late.pos omega_pos alpha_nonneg beta_nonneg
  have right_iff (i : ℕ) : eps (i + 1) = z (i + 1) * √(h (i + 1)) ↔
      z (i + 1) = 0 ∨ gap omega beta h i = alpha * eps i ^ 2 := by
    have stays : h i = h (i + 1) ↔ gap omega beta h i = alpha * eps i ^ 2 := by
      rw [late.variance, gap]
      constructor <;> intro eq <;> linarith
    rw [late.shock, mul_eq_mul_left_iff, Real.sqrt_inj (pos i).le (pos (i + 1)).le, stays, or_comm]
  constructor
  · intro process i inside
    exact (right_iff i).mp (process.shock i inside)
  · intro right
    exact ⟨fun i _ => late.variance i, fun i inside => (right_iff i).mpr (right i inside)⟩

/-- Without an effect of the shocks and from the level that stays. -/
theorem Late.process_of_level (level : gap omega beta h 0 = 0) (alpha_zero : alpha = 0) :
    Process omega alpha beta z n h eps := by
  refine (late.process_iff omega_pos alpha_nonneg beta_nonneg).mpr fun i inside => Or.inr ?_
  clear inside
  induction i with
  | zero => rw [level, alpha_zero, zero_mul]
  | succ i ih =>
    rw [late.gap_succ, ih, alpha_zero]
    ring

theorem Late.process_iff_none (moves : gap omega beta h 0 ≠ 0) (beta_pos : 0 < beta) :
    Process omega alpha beta z n h eps ↔ ∀ i, i + 1 < n → z (i + 1) = 0 := by
  rw [late.process_iff omega_pos alpha_nonneg beta_nonneg]
  constructor
  · intro right i inside
    induction i using Nat.strong_induction_on with
    | h i ih =>
      have quiet (j : ℕ) (lt : j + 1 < i + 1) : z (j + 1) = 0 := ih j (by omega) (by omega)
      apply (right i inside).resolve_right
      have no_shock := late.no_shock_of (i := i) fun j same => quiet j (by omega)
      rw [late.gap_quiet fun j lt => quiet j (by omega), no_shock, sq, mul_zero, mul_zero]
      exact mul_ne_zero (pow_ne_zero i beta_pos.ne') moves
  · intro none i inside
    exact Or.inl (none i inside)

/-- From the level that stays a single shock is right, and no later one. -/
theorem Late.process_iff_single (level : gap omega beta h 0 = 0) (alpha_pos : 0 < alpha) (beta_pos : 0 < beta)
    (beta_lt : beta < 1) : Process omega alpha beta z n h eps ↔
      ∀ i j, i < j → j + 1 < n → z (i + 1) = 0 ∨ z (j + 1) = 0 := by
  have shock_eq_zero := late.shock_eq_zero omega_pos alpha_nonneg beta_nonneg
  have gap_quiet (i : ℕ) (quiet : ∀ j, j + 1 < i → z (j + 1) = 0) : gap omega beta h i = 0 := by
    rw [late.gap_quiet quiet, level, mul_zero]
  rw [late.process_iff omega_pos alpha_nonneg beta_nonneg]
  constructor
  · intro right i j lt inside
    by_contra both
    obtain ⟨first, second⟩ := not_or.mp both
    induction j using Nat.strong_induction_on generalizing i with
    | h j ih =>
      -- the first shock is alone before the second one
      have before (k : ℕ) (k_lt : k < i) : z (k + 1) = 0 := by
        by_contra other
        exact ih i lt k k_lt (by omega) (by simp [other, first]) other first
      have between (k : ℕ) (after : i < k) (k_lt : k < j) : z (k + 1) = 0 := by
        by_contra other
        exact ih k k_lt i after (by omega) (by simp [other, first]) first other
      have start : gap omega beta h (i + 1) = 0 := gap_quiet _ fun k k_lt => before k (by omega)
      have positive : 0 < alpha * eps (i + 1) ^ 2 :=
        mul_pos alpha_pos (sq_pos_of_ne_zero (mt (shock_eq_zero i).mp first))
      have equal := (right j inside).resolve_left second
      rcases (Nat.succ_le_of_lt lt).eq_or_lt with next | later
      · rw [← next, start] at equal
        exact positive.ne equal
      · obtain ⟨k, rfl⟩ := Nat.exists_eq_add_of_le later
        have no_shock := late.no_shock_of (i := i + 2 + k) fun m same => between m (by omega) (by omega)
        have above := late.gap_pos alpha_nonneg beta_pos beta_lt start.ge positive k
        rw [equal, no_shock] at above
        norm_num at above
  · intro single i inside
    by_cases shock : z (i + 1) = 0
    · exact Or.inl shock
    · have before (j : ℕ) (lt : j < i) : z (j + 1) = 0 := (single j i lt inside).resolve_right shock
      have no_shock := late.no_shock_of (i := i) fun j same => before j (by omega)
      rw [gap_quiet i fun j lt => before j (by omega), no_shock]
      norm_num

/-- Where a variance follows the last shock alone. -/
theorem Late.process_iff_spaced (moves : gap omega beta h 0 ≠ 0) (alpha_pos : 0 < alpha) (beta_zero : beta = 0) :
    Process omega alpha beta z n h eps ↔
      ∀ i, i + 1 < n → z (i + 1) = 0 ∨ 0 < i ∧ ∀ j < i, i ≤ j + 2 → z (j + 1) = 0 := by
  have shock_eq_zero := late.shock_eq_zero omega_pos alpha_nonneg beta_nonneg
  have equal_iff (i : ℕ) : gap omega beta h (i + 1) = alpha * eps (i + 1) ^ 2 ↔ eps i ^ 2 = eps (i + 1) ^ 2 := by
    rw [late.gap_succ, beta_zero, zero_mul, zero_add, sub_zero, one_mul, mul_right_inj' alpha_pos.ne']
  rw [late.process_iff omega_pos alpha_nonneg beta_nonneg]
  constructor
  · intro right i inside
    induction i using Nat.strong_induction_on with
    | h i ih =>
      apply or_iff_not_imp_left.mpr
      intro shock
      have equal := (right i inside).resolve_left shock
      cases i with
      | zero =>
        rw [late.no_shock, sq, mul_zero, mul_zero] at equal
        exact absurd equal moves
      | succ k =>
        rw [equal_iff] at equal
        have last : z (k + 1) = 0 := by
          by_contra last
          obtain ⟨k_pos, quiet⟩ := (ih k (Nat.lt_succ_self k) (by omega)).resolve_left last
          have no_shock := late.no_shock_of (i := k) fun j same => quiet j (by omega) (by omega)
          rw [no_shock] at equal
          exact last ((shock_eq_zero k).mp (by simpa using equal.symm))
        rw [(shock_eq_zero k).mpr last] at equal
        refine ⟨Nat.succ_pos k, fun j lt near => ?_⟩
        rcases Nat.lt_succ_iff_lt_or_eq.mp lt with earlier | rfl
        · obtain rfl : j + 1 = k := by omega
          exact (shock_eq_zero j).mp (by simpa using equal)
        · exact last
  · intro spaced i inside
    refine (spaced i inside).imp_right fun ⟨pos, quiet⟩ => ?_
    obtain ⟨k, rfl⟩ := Nat.exists_eq_succ_of_ne_zero pos.ne'
    have last := late.no_shock_of (i := k + 1) fun j same => quiet j (by omega) (by omega)
    have before := late.no_shock_of (i := k) fun j same => quiet j (by omega) (by omega)
    rw [Nat.succ_eq_add_one, equal_iff, last, before]

end

end Garch
