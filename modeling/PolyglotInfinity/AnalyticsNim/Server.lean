import Mathlib.Algebra.Order.Floor.Ring
import PolyglotInfinity.Lib.ForRange
import PolyglotInfinity.Lib.Libm

/-!
# The Nim analytics engine

Descriptive statistics, momentum indicators, the GARCH simulation and the autoregressive
forecast, over the numbers of an ordered field. `none` is an index out of range or a
division by zero.
-/

namespace PolyglotInfinity.AnalyticsNim

variable {F : Type} [Field F] [LinearOrder F]

/-- `arr[i]`. -/
def item (arr : List F) (i : ℤ) : Option F := if 0 ≤ i then arr[i.toNat]? else none

/-- `arr[i] = x`. -/
def assign (arr : List F) (i : ℤ) (x : F) : Option (List F) :=
  if 0 ≤ i ∧ i < arr.length then some (arr.set i.toNat x) else none

def newSeq (n : ℕ) : List F := List.replicate n 0

def divide (x y : F) : Option F := if y = 0 then none else some (x / y)

/-! ### Descriptive statistics -/

/-- `EMA_ALPHA_TABLE`, whose first index is 2. -/
def emaAlphaTable : List F := (List.range' 2 199).map fun p : ℕ => 2.0 / ((p + 1 : ℕ) : F)

def mean (arr : List F) : Option F :=
  if arr.length = 0 then some 0
  else divide (arr.foldl (· + ·) 0) (arr.length : F)

def variance (arr : List F) : Option F := do
  let m ← mean arr
  divide (arr.foldl (fun result x => result + (x - m) ^ 2) 0) (arr.length : F)

def stdDev (lib : Libm F) (arr : List F) : Option F := do
  return lib.sqrt (← variance arr)

def skewness (lib : Libm F) (arr : List F) : Option F := do
  let m ← mean arr
  let s ← stdDev lib arr
  if s = 0 then some 0
  else do
    let result ← arr.foldlM (fun result x => do return result + (← divide (x - m) s) ^ 3) 0
    divide result (arr.length : F)

def kurtosis (lib : Libm F) (arr : List F) : Option F := do
  let m ← mean arr
  let s ← stdDev lib arr
  if s = 0 then some 0
  else do
    let result ← arr.foldlM (fun result x => do return result + (← divide (x - m) s) ^ 4) 0
    return (← divide result (arr.length : F)) - 3.0

def autocorr (arr : List F) (lag : ℤ) : Option F :=
  if (arr.length : ℤ) ≤ lag then some 0
  else do
    let m ← mean arr
    let num ← forRange 0 (arr.length - lag) (fun i num => do
      return num + ((← item arr i) - m) * ((← item arr (i + lag)) - m)) 0
    let den := arr.foldl (fun den x => den + (x - m) ^ 2) 0
    if den = 0 then some 0 else divide num den

/-! ### Momentum -/

/-- A round of `rsi`, on the gains and the losses. -/
def rsiRound (prices : List F) (i : ℤ) (sums : F × F) : Option (F × F) := do
  let diff := (← item prices i) - (← item prices (i - 1))
  return if 0 < diff then (sums.1 + diff, sums.2) else (sums.1, sums.2 + -diff)

def rsi (prices : List F) (period : ℤ) : Option F :=
  if (prices.length : ℤ) < period + 1 then some 50.0
  else do
    let (gains, losses) ← forRange (prices.length - period) prices.length (rsiRound prices) (0, 0)
    if losses = 0 then some 100.0
    else do
      let rs ← divide gains losses
      return 100.0 - (← divide 100.0 (1 + rs))

def ema (prices : List F) (period : ℤ) : Option F :=
  if prices.length = 0 then some 0
  else do
    let p := max 2 (min 200 period)
    let k ← item emaAlphaTable (p - 2)
    let first ← item prices 0
    forRange 1 prices.length (fun i result => do return (← item prices i) * k + result * (1 - k)) first

/-! ### GARCH(1,1) -/

/-- A round of the generator: its next state, and a shock. -/
def noise [FloorRing F] (lib : Libm F) (sin : F → F) (x : F) : F × F :=
  let x := sin (x * 12.9898 + 78.233) * 43758.5453
  let x := x - ⌊x⌋
  let y := sin (x * 93.9898 + 67.345) * 43758.5453
  let y := y - ⌊y⌋
  (y, lib.sqrt (-2.0 * lib.log (x + 1e-10)) * lib.cos (2.0 * 3.141592653589793 * y))

/-- The shock of round `i`, which is the first one for `i = 1`. -/
def shock [FloorRing F] (lib : Libm F) (sin : F → F) (seed : ℤ) (i : ℕ) : F :=
  (noise lib sin ((fun x => (noise lib sin x).1)^[i - 1] (seed : F))).2

/-- A round of `garchSimulate`, on `h` and `eps`. -/
def garchRound (lib : Libm F) (z : ℕ → F) (omega alpha beta : F) (i : ℤ) (s : List F × List F) :
    Option (List F × List F) := do
  let eps ← assign s.2 i (z i.toNat * lib.sqrt (← item s.1 (i - 1)))
  let h ← assign s.1 i (omega + alpha * (← item eps (i - 1)) ^ 2 + beta * (← item s.1 (i - 1)))
  return (h, eps)

/-- `garchSimulate` with any shocks. -/
def garchWith (lib : Libm F) (z : ℕ → F) (n : ℕ) (omega alpha beta : F) : Option (List F × List F) := do
  let h ← assign (newSeq n) 0 (← divide omega (max (1 - alpha - beta) 1e-10))
  let (h, eps) ← forRange 1 n (garchRound lib z omega alpha beta) (h, newSeq n)
  return (eps, h)

def garchSimulate [FloorRing F] (lib : Libm F) (sin : F → F) (seed : ℤ) (n : ℕ) (omega alpha beta : F) :
    Option (List F × List F) :=
  garchWith lib (shock lib sin seed) n omega alpha beta

/-! ### Autoregression -/

/-- `gamma[lag]`. -/
def autocovariance (series : List F) (m : F) (lag : ℕ) : Option F := do
  let s ← forRange lag series.length (fun i s => do
    return s + ((← item series i) - m) * ((← item series (i - lag)) - m)) 0
  divide s (series.length : F)

def arFit (series : List F) (p : ℕ) : Option (List F) :=
  if series.length ≤ p then some (newSeq p)
  else do
    let m ← mean series
    let gamma ← (List.range (p + 1)).mapM (autocovariance series m)
    if p = 1 then do
      let phi ← if (← item gamma 0) ≠ 0 then divide (← item gamma 1) (← item gamma 0) else some 0
      return [phi]
    else if p = 2 then do
      let det := (← item gamma 0) ^ 2 - (← item gamma 1) ^ 2
      if |det| < 1e-12 then some [0, 0]
      else do
        let phi1 ← divide ((← item gamma 1) * (← item gamma 0) - (← item gamma 2) * (← item gamma 1)) det
        let phi2 ← divide ((← item gamma 2) * (← item gamma 0) - (← item gamma 1) ^ 2) det
        return [phi1, phi2]
    else some (newSeq p)

/-- The inner loop of `buildForecastJson`. -/
def predict (coeffs history : List F) (m : F) (p : ℕ) : Option F :=
  forRange 0 p (fun i pred => do
    let idx : ℤ := history.length - 1 - i
    if 0 ≤ idx then return pred + (← item coeffs i) * ((← item history idx) - m) else some pred) m

/-- A round of `buildForecastJson`, on `forecasts` and `history`. -/
def forecastRound (coeffs : List F) (m : F) (p : ℕ) (i : ℤ) (s : List F × List F) : Option (List F × List F) := do
  let pred ← predict coeffs s.2 m p
  return (← assign s.1 i pred, s.2 ++ [pred])

/-- What `buildForecastJson` predicts. -/
def forecasts (series coeffs : List F) (steps p : ℕ) : Option (List F) := do
  let m ← mean series
  let (forecasts, _) ← forRange 0 steps (forecastRound coeffs m p) (newSeq steps, series)
  return forecasts

/-- `fixed6` is the format `.6f`. -/
def buildForecastJson (fixed6 : F → String) (series coeffs : List F) (steps p : ℕ) : Option String := do
  let forecasts ← forecasts series coeffs steps p
  let fStr := "[" ++ ",".intercalate (forecasts.map fixed6) ++ "]"
  let cStr := "[" ++ ",".intercalate (coeffs.map fixed6) ++ "]"
  let last ← item series (series.length - 1)
  return "\x7b\n    \"engine\":\"Nim-AR-v1\",\n    \"model\":\"AR(" ++ toString p ++ ")\",\n    \"p\":" ++ toString p ++
    ",\n    \"steps\":" ++ toString steps ++ ",\n    \"coefficients\":" ++ cStr ++ ",\n    \"forecast\":" ++ fStr ++
    ",\n    \"last_actual\":" ++ fixed6 last ++ "\n  \x7d"

end PolyglotInfinity.AnalyticsNim
