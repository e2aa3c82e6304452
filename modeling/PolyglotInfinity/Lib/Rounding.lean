import Mathlib.Algebra.Order.Ring.Abs

/-!
# Rounding

Arithmetic in a format of numbers is exact arithmetic whose results are rounded. Of the
rounding only this is used: it keeps the order, its range has no gaps, and it keeps the
integers up to a bound.
-/

/-- Rounding to the numbers of a format; `none` where the format has no number. -/
structure Rounding (F : Type*) [Ring F] [LinearOrder F] where
  round : F → Option F
  /-- Up to here every integer is a number of the format. -/
  bound : ℤ
  int : ∀ n : ℤ, |n| ≤ bound → round n = some (n : F)
  mono : ∀ {x y a b}, x ≤ y → round x = some a → round y = some b → a ≤ b
  inside : ∀ {x y z}, x ≤ y → y ≤ z → (round x).isSome → (round z).isSome → (round y).isSome

namespace Rounding

variable {F : Type*} [Ring F] [LinearOrder F]

/-- Exact arithmetic. -/
def exactly (F : Type*) [Ring F] [LinearOrder F] (bound : ℤ) : Rounding F where
  round := some
  bound := bound
  int := fun _ _ => rfl
  mono := fun le left right => by
    obtain rfl := Option.some.inj left
    obtain rfl := Option.some.inj right
    exact le
  inside := fun _ _ _ _ => rfl

variable {r : Rounding F} {x : F} {m n : ℤ}

/-- Between two integers of the format a result stays between them. -/
theorem between (m_small : |m| ≤ r.bound) (n_small : |n| ≤ r.bound) (low : (m : F) ≤ x) (high : x ≤ (n : F)) :
    ∃ y, r.round x = some y ∧ (m : F) ≤ y ∧ y ≤ (n : F) := by
  have bottom := r.int m m_small
  have top := r.int n n_small
  obtain ⟨y, rounded⟩ := Option.isSome_iff_exists.mp
    (r.inside low high (by rw [bottom]; rfl) (by rw [top]; rfl))
  exact ⟨y, rounded, r.mono low bottom rounded, r.mono high rounded top⟩

end Rounding
