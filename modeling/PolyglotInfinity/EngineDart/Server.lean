import Mathlib.Algebra.Order.Field.Basic
import PolyglotInfinity.Lib.Bisection

/-!
# The bond engine

Bond prices with their duration and convexity, and the credit spread, over the numbers of
an ordered field. Where a program divides by zero the field's value stands for an infinity
or a NaN. The integers are exact.
-/

namespace PolyglotInfinity.EngineDart

variable {F : Type} [Field F]

/-! ### Bond pricing -/

/-- `for (var t = 1; t <= periods; t++) sum += term(t)`. -/
def addUp (periods : ℤ) (term : ℕ → F) : F := (List.range' 1 periods.toNat).foldl (fun sum t => sum + term t) 0.0

def bondPrice (faceValue couponRate ytm : F) (periods : ℤ) : F :=
  let c := faceValue * couponRate / 2.0
  let r := ytm / 2.0
  let pv := addUp periods fun t => c / (1 + r) ^ t
  pv + faceValue / (1 + r) ^ periods

def macaulayDuration (faceValue couponRate ytm : F) (periods : ℤ) : F :=
  let c := faceValue * couponRate / 2.0
  let r := ytm / 2.0
  let price := bondPrice faceValue couponRate ytm periods
  let weightedTime := addUp periods fun t =>
    let pv := c / (1 + r) ^ t
    ((t : F) / 2.0) * pv / price
  weightedTime + ((periods : F) / 2.0) * (faceValue / (1 + r) ^ periods) / price

def modifiedDuration (faceValue couponRate ytm : F) (periods : ℤ) : F :=
  let mac := macaulayDuration faceValue couponRate ytm periods
  mac / (1 + ytm / 2.0)

def convexity (faceValue couponRate ytm : F) (periods : ℤ) : F :=
  let c := faceValue * couponRate / 2.0
  let r := ytm / 2.0
  let price := bondPrice faceValue couponRate ytm periods
  let conv := addUp periods fun t =>
    let pv := c / (1 + r) ^ t
    ((t * (t + 1) : ℕ) : F) * pv / (price * (1 + r) ^ 2)
  let pvFace := faceValue / (1 + r) ^ periods
  let conv := conv + ((periods * (periods + 1) : ℤ) : F) * pvFace / (price * (1 + r) ^ 2)
  conv / 4.0

/-! ### Spread analysis -/

variable [LinearOrder F]

def creditSpread (govtYtm corpCoupon faceValue corpPrice : F) (periods : ℤ) : F :=
  let (lo, hi) := (Bisection.halve fun mid => corpPrice < bondPrice faceValue corpCoupon mid periods)^[64] (0.0001, 0.5)
  let corpYtm := (lo + hi) / 2.0
  corpYtm - govtYtm

end PolyglotInfinity.EngineDart
