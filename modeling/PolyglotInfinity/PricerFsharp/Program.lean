import Mathlib.Algebra.Order.Floor.Ring
import PolyglotInfinity.Lib.Libm
import PolyglotInfinity.Lib.WhileLoop

/-!
# The F# pricer

Option prices, discounted cash flows and implied volatilities, over the numbers of an
ordered field. Where a program divides by zero the field's value stands for an infinity or
a NaN. `none` is an exception, or a loop whose fuel does not suffice.
-/

namespace PolyglotInfinity.PricerFsharp

variable {F : Type} [Field F] [LinearOrder F]

section

variable [FloorRing F]

/-- Halves go to the even neighbour. -/
def roundEven (x : F) : ℤ :=
  if x - ⌊x⌋ < 0.5 then ⌊x⌋
  else if 0.5 < x - ⌊x⌋ then ⌊x⌋ + 1
  else if ⌊x⌋ % 2 = 0 then ⌊x⌋
  else ⌊x⌋ + 1

/-- `Math.Round`. -/
def mathRound (x : F) (digits : ℕ) : F := (roundEven (x * 10.0 ^ digits) : F) / 10.0 ^ digits

theorem mathRound_sub (x y : F) (digits : ℕ) :
    ∃ n : ℤ, mathRound x digits - mathRound y digits = n / 10.0 ^ digits := by
  refine ⟨roundEven (x * 10.0 ^ digits) - roundEven (y * 10.0 ^ digits), ?_⟩
  rw [Int.cast_sub, sub_div]
  rfl

variable [IsStrictOrderedRing F]

theorem roundEven_near (x : F) : |(roundEven x : F) - x| ≤ 0.5 := by
  have below := Int.floor_le x
  have above := Int.lt_floor_add_one x
  have half : (0.5 : F) + 0.5 = 1 := by norm_num
  rw [abs_le]
  unfold roundEven
  split_ifs with down up
  · constructor <;> linarith
  · push_cast
    constructor <;> linarith
  · constructor <;> linarith
  · push_cast
    constructor <;> linarith

theorem mathRound_near (x : F) (digits : ℕ) : |mathRound x digits - x| ≤ 0.5 / 10.0 ^ digits := by
  have scale_pos : (0 : F) < 10.0 ^ digits := by positivity
  have scaled : mathRound x digits - x = (roundEven (x * 10.0 ^ digits) - x * 10.0 ^ digits) / 10.0 ^ digits := by
    rw [sub_div, mul_div_cancel_right₀ _ scale_pos.ne']
    rfl
  rw [scaled, abs_div, abs_of_pos scale_pos]
  exact div_le_div_of_nonneg_right (roundEven_near _) scale_pos.le

end

/-! ### Black-Scholes -/

namespace MathHelper

/-- `Math.PI`. -/
def pi : F := 3.141592653589793

def normCdf (lib : Libm F) (x : F) : F :=
  let t := 1.0 / (1.0 + 0.2316419 * |x|)
  let poly := t * (0.319381530 + t * (-0.356563782 + t * (1.781477937 + t * (-1.821255978 + t * 1.330274429))))
  let pdf := lib.exp (-x * x / 2.0) / lib.sqrt (2.0 * pi)
  if 0 ≤ x then 1.0 - pdf * poly else pdf * poly

def normPdf (lib : Libm F) (x : F) : F := lib.exp (-x * x / 2.0) / lib.sqrt (2.0 * pi)

end MathHelper

namespace BlackScholes

open MathHelper

structure Price (F : Type) where
  callPrice : F
  putPrice : F
  deltaCall : F
  deltaPut : F
  gamma : F
  vega : F
  thetaCall : F
  rhoCall : F
  engine : String

/-- The prices of an option that has not expired, before they are rounded. -/
def unrounded (lib : Libm F) (s k r sigma t : F) : Price F :=
  let d1 := (lib.log (s / k) + (r + sigma * sigma / 2.0) * t) / (sigma * lib.sqrt t)
  let d2 := d1 - sigma * lib.sqrt t
  let callP := s * normCdf lib d1 - k * lib.exp (-r * t) * normCdf lib d2
  let putP := k * lib.exp (-r * t) * normCdf lib (-d2) - s * normCdf lib (-d1)
  { callPrice := callP
    putPrice := putP
    deltaCall := normCdf lib d1
    deltaPut := normCdf lib d1 - 1.0
    gamma := normPdf lib d1 / (s * sigma * lib.sqrt t)
    vega := s * normPdf lib d1 * lib.sqrt t / 100.0
    thetaCall := (-(s * normPdf lib d1 * sigma) / (2.0 * lib.sqrt t) -
      r * k * lib.exp (-r * t) * normCdf lib d2) / 365.0
    rhoCall := k * t * lib.exp (-r * t) * normCdf lib d2 / 100.0
    engine := "F#-Pricer-v2" }

variable [FloorRing F]

def Price.rounded (p : Price F) : Price F where
  callPrice := mathRound p.callPrice 6
  putPrice := mathRound p.putPrice 6
  deltaCall := mathRound p.deltaCall 6
  deltaPut := mathRound p.deltaPut 6
  gamma := mathRound p.gamma 6
  vega := mathRound p.vega 6
  thetaCall := mathRound p.thetaCall 6
  rhoCall := mathRound p.rhoCall 6
  engine := p.engine

def price (lib : Libm F) (s k r sigma t : F) : Price F :=
  if t ≤ 0 then
    { callPrice := max (s - k) 0.0
      putPrice := max (k - s) 0.0
      deltaCall := if k < s then 1.0 else 0.0
      deltaPut := if s < k then -1.0 else 0.0
      gamma := 0.0
      vega := 0.0
      thetaCall := 0.0
      rhoCall := 0.0
      engine := "F#-Pricer-v2" }
  else (unrounded lib s k r sigma t).rounded

end BlackScholes

/-! ### Discounted cash flows -/

namespace Dcf

structure Valuation (F : Type) where
  intrinsicValue : F
  marginOfSafety : F
  npv : F
  cashFlows : List F
  engine : String

def flows (lib : Libm F) (fcf growthRate : F) (years : ℤ) : List F :=
  (List.range' 1 years.toNat).map fun y : ℕ => fcf * lib.pow (1.0 + growthRate) (y : F)

/-- `npv`, before it is rounded. -/
def netPresentValue (lib : Libm F) (fcf growthRate terminalGrowth wacc : F) (years : ℤ) : Option F := do
  let flows := flows lib fcf growthRate years
  let pvFlows := flows.mapIdx fun i cf => cf / lib.pow (1.0 + wacc) ((i + 1 : ℕ) : F)
  let tv := (← flows.getLast?) * (1.0 + terminalGrowth) / (wacc - terminalGrowth)
  return pvFlows.sum + tv / lib.pow (1.0 + wacc) (years : F)

def calculate [FloorRing F] (lib : Libm F) (fcf growthRate terminalGrowth wacc : F) (years : ℤ) :
    Option (Valuation F) := do
  let npv ← netPresentValue lib fcf growthRate terminalGrowth wacc years
  return {
    intrinsicValue := mathRound npv 2
    marginOfSafety := mathRound ((npv - fcf) / npv * 100.0) 2
    npv := mathRound npv 2
    cashFlows := (flows lib fcf growthRate years).map (mathRound · 2)
    engine := "F#-Pricer-v2" }

end Dcf

/-! ### Implied volatility -/

namespace ImpliedVol

open BlackScholes (Price price)

def maxIter : ℕ := 200

def tol : F := 1e-8

structure Newton (F : Type) where
  sigma : F
  iter : ℕ
  converged : Bool
  lastError : F
  /-- The volatilities at which the option has been priced. Ghost. -/
  evaluated : List F

/-- The first error is `Double.MaxValue`. -/
def Newton.init : Newton F :=
  { sigma := 0.20, iter := 0, converged := false, lastError := 1.7976931348623157e308, evaluated := [] }

section

variable (pricing : F → Price F) (marketPrice : F) (isCall : Bool)

def bsP (sigma : F) : F := if isCall then (pricing sigma).callPrice else (pricing sigma).putPrice

/-- The scale of `price` is undone. -/
def vega (sigma : F) : F := (pricing sigma).vega * 100.0

def step (sigma : F) : F := (bsP pricing isCall sigma - marketPrice) / vega pricing sigma

/-- The body of the loop. -/
def Newton.next (st : Newton F) : Newton F :=
  let lastError := |bsP pricing isCall st.sigma - marketPrice|
  let evaluated := st.evaluated ++ [st.sigma]
  if vega pricing st.sigma < 1e-10 then { st with lastError, evaluated, iter := maxIter + 1 }
  else
    let step := step pricing marketPrice isCall st.sigma
    { lastError, evaluated
      sigma := max 0.001 (min 10.0 (st.sigma - step))
      converged := if |step| < tol then true else st.converged
      iter := st.iter + 1 }

def loop (fuel : ℕ) : Option (Newton F) :=
  whileLoop (fun st => st.iter < maxIter ∧ st.converged = false) (Newton.next pricing marketPrice isCall) fuel .init

structure Solution (F : Type) where
  iv : Option F
  iterations : ℕ
  error : Option F
  engine : String

variable [FloorRing F]

def Newton.solution (st : Newton F) : Solution F where
  iv := if st.converged then some (mathRound st.sigma 8) else none
  iterations := st.iter
  error := if st.converged then some (mathRound st.lastError 10) else none
  engine := "F#-Pricer-v2"

/-- `solve` with any pricing of a volatility. -/
def solveWith (fuel : ℕ) : Option (Solution F) := (loop pricing marketPrice isCall fuel).map Newton.solution

end

def solve [FloorRing F] (lib : Libm F) (fuel : ℕ) (marketPrice s k r t : F) (isCall : Bool) : Option (Solution F) :=
  solveWith (fun sigma => price lib s k r sigma t) marketPrice isCall fuel

end ImpliedVol

end PolyglotInfinity.PricerFsharp
