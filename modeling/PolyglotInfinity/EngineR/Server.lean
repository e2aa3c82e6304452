import PolyglotInfinity.Lib.ForRange
import PolyglotInfinity.Lib.Libm

/-!
# The R statistics engine

The GARCH simulation, over the numbers of a field. `none` is an element outside of its
vector, where R would make the vector longer or stop.
-/

namespace PolyglotInfinity.EngineR

variable {F : Type} [Field F]

/-- `x[i]`, where the first index is 1. -/
def element (x : List F) (i : ℤ) : Option F := if 1 ≤ i then x[(i - 1).toNat]? else none

/-- `x[i] <- value`. -/
def replace (x : List F) (i : ℤ) (value : F) : Option (List F) :=
  if 1 ≤ i ∧ i ≤ x.length then some (x.set (i - 1).toNat value) else none

def numeric (n : ℕ) : List F := List.replicate n 0

/-- `rnorm(1, mean, sd)`, from a standard shock. -/
def rnorm (shock mean sd : F) : F := mean + sd * shock

/-- A round of the simulation, on `h` and `eps`. -/
def garchRound (lib : Libm F) (z : ℕ → F) (omega alpha1 beta1 : F) (i : ℤ) (s : List F × List F) :
    Option (List F × List F) := do
  let h ← replace s.1 i (omega + alpha1 * (← element s.2 (i - 1)) ^ 2 + beta1 * (← element s.1 (i - 1)))
  let eps ← replace s.2 i (rnorm (z (i - 1).toNat) 0 (lib.sqrt (← element h i)))
  return (h, eps)

/-- The simulation of `/api/r/garch`, with the shocks that its rounds draw. -/
def garch (lib : Libm F) (z : ℕ → F) (n : ℕ) (omega alpha1 beta1 : F) : Option (List F × List F) :=
  -- `2:n` counts down to 1, where `eps[0]` is empty
  if n < 2 then none
  else do
    let h ← replace (numeric n) 1 (omega / (1 - alpha1 - beta1 + 1e-10))
    forRange 2 (n + 1) (garchRound lib z omega alpha1 beta1) (h, numeric n)

end PolyglotInfinity.EngineR
