import Mathlib.Algebra.Order.Floor.Ring
import PolyglotInfinity.Lib.Libm
import PolyglotInfinity.Lib.WhileLoop

/-!
# The panel of the browser module

`runDcf` of the Svelte panel: the value of the Zig module, and next to it the sums that the
panel computes by hand. `none` is a loop whose fuel does not suffice.
-/

namespace PolyglotInfinity.PortalSvelte

variable {F : Type} [Field F] [LinearOrder F] [FloorRing F]

/-- `Math.round`. -/
def mathRound (x : F) : ℤ := ⌊x + 0.5⌋

structure Step (F : Type) where
  year : F
  cf : ℤ
  pv : ℤ

/-- The variables of the loop. -/
structure Sums (F : Type) where
  y : F
  cf : F
  cumPv : F
  steps : List (Step F)

def Sums.year (lib : Libm F) (dcfGrowth dcfWacc : F) (s : Sums F) : Sums F :=
  let cf := s.cf * (1 + dcfGrowth)
  let pv := cf / lib.pow (1 + dcfWacc) s.y
  { cf, cumPv := s.cumPv + pv, steps := s.steps ++ [⟨s.y, mathRound cf, mathRound pv⟩], y := s.y + 1 }

def sums (lib : Libm F) (fuel : ℕ) (dcfFcf dcfGrowth dcfWacc dcfYears : F) : Option (Sums F) :=
  whileLoop (fun s : Sums F => s.y ≤ dcfYears) (Sums.year lib dcfGrowth dcfWacc) fuel
    { y := 1, cf := dcfFcf, cumPv := 0, steps := [] }

def tvPv (lib : Libm F) (dcfFcf dcfGrowth dcfTerminal dcfWacc dcfYears : F) : F :=
  let lastCf := dcfFcf * lib.pow (1 + dcfGrowth) dcfYears
  let tv := (lastCf * (1 + dcfTerminal)) / (dcfWacc - dcfTerminal)
  tv / lib.pow (1 + dcfWacc) dcfYears

structure DcfResult (F : Type) where
  intrinsicValue : ℤ
  terminalValuePv : ℤ
  operatingPv : ℤ
  steps : List (Step F)
  tvPct : String

/-- `value` is that of the Zig module. -/
def runDcf (lib : Libm F) (toFixed : F → ℕ → String) (fuel : ℕ)
    (value dcfFcf dcfGrowth dcfTerminal dcfWacc dcfYears : F) : Option (DcfResult F) := do
  let s ← sums lib fuel dcfFcf dcfGrowth dcfWacc dcfYears
  let tvPv := tvPv lib dcfFcf dcfGrowth dcfTerminal dcfWacc dcfYears
  return {
    intrinsicValue := mathRound value
    terminalValuePv := mathRound tvPv
    operatingPv := mathRound s.cumPv
    steps := s.steps
    tvPct := toFixed (tvPv / value * 100.0) 1 }

end PolyglotInfinity.PortalSvelte
