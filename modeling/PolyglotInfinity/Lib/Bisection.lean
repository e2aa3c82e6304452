import Mathlib.Algebra.Order.Field.Basic
import Mathlib.Logic.Function.Iterate
import Mathlib.Tactic.Linarith
import Mathlib.Tactic.Ring

/-!
# Bisection

An interval is halved again and again, each time towards the point that is looked for.
-/

namespace Bisection

section

variable {F : Type*} [Field F] (right : F → Prop) [DecidablePred right]

/-- `right mid` says that the point lies to the right of the middle. -/
def halve (s : F × F) : F × F :=
  let mid := (s.1 + s.2) / 2.0
  if right mid then (mid, s.2) else (s.1, mid)

end

variable {F : Type*} [Field F] [LinearOrder F] [IsStrictOrderedRing F] {right : F → Prop} [DecidablePred right]
variable {s : F × F} {y : F}

/-- The point is in the interval, and the questions asked there are answered for it. -/
structure Brackets (right : F → Prop) (y : F) (s : F × F) : Prop where
  low : s.1 ≤ y
  high : y ≤ s.2
  answers : ∀ m, s.1 ≤ m → m ≤ s.2 → (right m ↔ m < y)

theorem Brackets.halve (brackets : Brackets right y s) : Brackets right y (halve right s) := by
  obtain ⟨low, high, answers⟩ := brackets
  have two : (2.0 : F) = 2 := by norm_num
  have mid_low : s.1 ≤ (s.1 + s.2) / 2.0 := by
    rw [two]
    linarith
  have mid_high : (s.1 + s.2) / 2.0 ≤ s.2 := by
    rw [two]
    linarith
  have answer := answers _ mid_low mid_high
  unfold Bisection.halve
  dsimp only
  split
  · rename_i here
    exact ⟨(answer.mp here).le, high, fun m low high => answers m (mid_low.trans low) high⟩
  · rename_i here
    exact ⟨low, not_lt.mp (answer.not.mp here), fun m low high => answers m low (high.trans mid_high)⟩

theorem halve_width (s : F × F) : (halve right s).2 - (halve right s).1 = (s.2 - s.1) / 2 := by
  have two : (2.0 : F) = 2 := by norm_num
  unfold halve
  dsimp only
  rw [two]
  split
  · show s.2 - (s.1 + s.2) / 2 = _
    ring
  · show (s.1 + s.2) / 2 - s.1 = _
    ring

variable {n : ℕ}

theorem iterate_width (n : ℕ) (s : F × F) :
    ((halve right)^[n] s).2 - ((halve right)^[n] s).1 = (s.2 - s.1) / 2 ^ n := by
  induction n with
  | zero => simp
  | succ n ih => rw [Function.iterate_succ_apply', halve_width, ih, div_div, pow_succ]

theorem Brackets.iterate (brackets : Brackets right y s) (n : ℕ) : Brackets right y ((Bisection.halve right)^[n] s) := by
  induction n with
  | zero => exact brackets
  | succ n ih =>
    rw [Function.iterate_succ_apply']
    exact ih.halve

/-- The middle of what is left is at most half of it away. -/
theorem Brackets.middle (brackets : Brackets right y s) (n : ℕ) :
    |(((Bisection.halve right)^[n] s).1 + ((Bisection.halve right)^[n] s).2) / 2.0 - y| ≤ (s.2 - s.1) / 2 ^ (n + 1) := by
  have two : (2.0 : F) = 2 := by norm_num
  have left := brackets.iterate n
  have width : (((Bisection.halve right)^[n] s).2 - ((Bisection.halve right)^[n] s).1) / 2 =
      (s.2 - s.1) / 2 ^ (n + 1) := by
    rw [iterate_width, div_div, pow_succ]
  rw [two, ← width, abs_le]
  constructor
  · linarith [left.low, left.high]
  · linarith [left.low, left.high]

end Bisection
