import Mathlib.Analysis.SpecialFunctions.Pow.Real
import Mathlib.Analysis.SpecialFunctions.Trigonometric.Basic

/-!
# Mathematical libraries

The functions that a program takes from a mathematical library, over the numbers of a
field. They may be any functions, except that a power with a whole exponent is a product.
-/

structure Libm (F : Type) [Field F] where
  exp : F → F
  log : F → F
  sqrt : F → F
  cos : F → F
  pow : F → F → F
  pow_natCast : ∀ x (n : ℕ), pow x n = x ^ n

namespace Libm

noncomputable def real : Libm ℝ where
  exp := Real.exp
  log := Real.log
  sqrt := Real.sqrt
  cos := Real.cos
  pow := (· ^ ·)
  pow_natCast := Real.rpow_natCast

/-- On the rational numbers the identity for each, with the powers of whole exponents. -/
def rational : Libm ℚ where
  exp := id
  log := id
  sqrt := id
  cos := id
  pow := fun x y => x ^ y.num.toNat
  pow_natCast := fun x n => by rw [Rat.num_natCast, Int.toNat_natCast]

end Libm
