import PolyglotInfinity.Lib.CProgram
import PolyglotInfinity.Lib.Libm
import PolyglotInfinity.Lib.WhileLoop

/-!
# The finance module

The Zig module that the browser runs, over the numbers of an ordered field. Where a program
divides by zero the field's value stands for an infinity or a NaN. The counters of the loops
over `finals` stay below 2000, where a `u32` and an `int` agree.
-/

namespace PolyglotInfinity.WasmZig

open CProgram (Run read write forInt)

variable {F : Type} [Field F] [LinearOrder F] (lib : Libm F)

/-- `math.pi` as an `f64`. -/
def pi : F := 3.141592653589793

def normCdf (x : F) : F :=
  let ax := |x|
  let t := 1.0 / (1.0 + 0.2316419 * ax)
  let poly := t * (0.319381530 + t * (-0.356563782 + t * (1.781477937 + t * (-1.821255978 + t * 1.330274429))))
  let pdf := lib.exp (-x * x / 2.0) / lib.sqrt (2.0 * pi)
  let result := 1.0 - pdf * poly
  if 0 ≤ x then result else 1.0 - result

/-! ### Black-Scholes -/

/-- What each function begins with, as `d1`. -/
def d1 (s k r sigma t : F) : F := (lib.log (s / k) + (r + sigma * sigma / 2.0) * t) / (sigma * lib.sqrt t)

def d2 (s k r sigma t : F) : F := d1 lib s k r sigma t - sigma * lib.sqrt t

/-- What the functions of the sensitivities have as `pdf`. -/
def pdf (x : F) : F := lib.exp (-x * x / 2.0) / lib.sqrt (2.0 * pi)

def bsCall (s k r sigma t : F) : F :=
  if t ≤ 0 then max (s - k) 0.0
  else s * normCdf lib (d1 lib s k r sigma t) - k * lib.exp (-r * t) * normCdf lib (d2 lib s k r sigma t)

def bsPut (s k r sigma t : F) : F :=
  if t ≤ 0 then max (k - s) 0.0
  else k * lib.exp (-r * t) * normCdf lib (-d2 lib s k r sigma t) - s * normCdf lib (-d1 lib s k r sigma t)

def bsDelta (s k r sigma t : F) : F :=
  if t ≤ 0 then if k < s then 1.0 else 0.0
  else normCdf lib (d1 lib s k r sigma t)

def bsGamma (s k r sigma t : F) : F :=
  if t ≤ 0 then 0.0
  else pdf lib (d1 lib s k r sigma t) / (s * sigma * lib.sqrt t)

def bsTheta (s k r sigma t : F) : F :=
  if t ≤ 0 then 0.0
  else
    let annual := -(s * pdf lib (d1 lib s k r sigma t) * sigma) / (2.0 * lib.sqrt t) -
      r * k * lib.exp (-r * t) * normCdf lib (d2 lib s k r sigma t)
    annual / 365.0

def bsVega (s k r sigma t : F) : F :=
  if t ≤ 0 then 0.0
  else s * pdf lib (d1 lib s k r sigma t) * lib.sqrt t / 100.0

def bsRho (s k r sigma t : F) : F :=
  if t ≤ 0 then 0.0
  else k * t * lib.exp (-r * t) * normCdf lib (d2 lib s k r sigma t) / 100.0

/-! ### Discounted cash flows -/

/-- The variables of the loop of `dcfValue`. -/
structure Dcf (F : Type) where
  pv : F
  y : F
  cf : F

def Dcf.year (growth wacc : F) (s : Dcf F) : Dcf F :=
  let cf := s.cf * (1.0 + growth)
  { cf, pv := s.pv + cf / lib.pow (1.0 + wacc) s.y, y := s.y + 1.0 }

/-- `none` where the fuel does not suffice. -/
def dcfValue (fuel : ℕ) (fcf growth terminal wacc years : F) : Option F := do
  let s ← whileLoop (fun s : Dcf F => s.y ≤ years) (Dcf.year lib growth wacc) fuel { pv := 0.0, y := 1.0, cf := fcf }
  let lastCf := fcf * lib.pow (1.0 + growth) years
  let tv := lastCf * (1.0 + terminal) / (wacc - terminal)
  return s.pv + tv / lib.pow (1.0 + wacc) years

/-! ### Monte Carlo -/

def maxPaths : ℕ := 2000

def xorshift (rng : UInt64) : UInt64 :=
  let rng := rng ^^^ (rng <<< 13)
  let rng := rng ^^^ (rng >>> 7)
  rng ^^^ (rng <<< 17)

/-- `rng & 0xFFFFFF` over `1 << 24`. -/
def share (rng : UInt64) : F := ((rng &&& 0xFFFFFF).toNat : F) / 16777216.0

def day (drift diffusion : F) (rng : UInt64) (s : F) : UInt64 × F :=
  let first := xorshift rng
  let rv1 : F := share first
  let second := xorshift first
  let rv2 : F := share second
  let z := lib.sqrt (-2.0 * lib.log (rv1 + 1e-10)) * lib.cos (2.0 * pi * rv2)
  (second, s * lib.exp (drift + diffusion * z))

def path (drift diffusion : F) : ℕ → UInt64 → F → UInt64 × F
  | 0, rng, s => (rng, s)
  | days + 1, rng, s =>
    let (rng, s) := day lib drift diffusion rng s
    path drift diffusion days rng s

def minIdx (finals : Array F) (j n : ℤ) : Run ℤ :=
  forInt (j + 1) n 1 (fun m minIdx => do
    let candidate ← read finals m
    let least ← read finals minIdx
    pure (if candidate < least then m else minIdx)) j

def partialSort (finals : Array F) (n k : ℤ) : Run (Array F) :=
  forInt 0 k 1 (fun j finals => do
    let minIdx ← minIdx finals j n
    let tmp ← read finals j
    let least ← read finals minIdx
    let finals ← write finals j least
    write finals minIdx tmp) finals

/-- `mcVaR95` behind the simulation. -/
def valueAtRisk (finals : Array F) (actualPaths : ℤ) : Run F := do
  let k := max 1 (actualPaths / 20)
  let finals ← partialSort finals actualPaths k
  let least ← read finals (k - 1)
  pure (-least)

/-- `undefined` is what the 2000 cells hold at first. -/
def mcVaR95 (undefined : Array F) (seed : UInt64) (s0 mu sigma : F) (days paths : UInt32) : Run F := do
  let dt : F := 1.0 / 252.0
  let sqrtDt := lib.sqrt dt
  let drift := (mu - 0.5 * sigma * sigma) * dt
  let actualPaths : ℤ := min paths.toNat maxPaths
  let (_, finals) ← forInt 0 actualPaths 1 (fun i (rng, finals) => do
    let (rng, s) := path lib drift (sigma * sqrtDt) days.toNat rng s0
    let finals ← write finals i ((s - s0) / s0)
    pure (rng, finals)) (seed, undefined)
  valueAtRisk finals actualPaths

/-! ### Portfolios -/

def minVarWeight (vol1 vol2 corr : F) : F :=
  let v1sq := vol1 * vol1
  let v2sq := vol2 * vol2
  let cov12 := corr * vol1 * vol2
  let denom := v1sq + v2sq - 2.0 * cov12
  if |denom| < 1e-12 then 0.5
  else
    let w := (v2sq - cov12) / denom
    max 0.0 (min 1.0 w)

def portVar (w vol1 vol2 corr : F) : F :=
  w * w * vol1 * vol1 + (1.0 - w) * (1.0 - w) * vol2 * vol2 + 2.0 * w * (1.0 - w) * corr * vol1 * vol2

def portfolioSharpe (w mu1 mu2 vol1 vol2 corr rf : F) : F :=
  let portMu := w * mu1 + (1.0 - w) * mu2
  let portVol := lib.sqrt (portVar w vol1 vol2 corr)
  if portVol < 1e-12 then 0.0 else (portMu - rf) / portVol

end PolyglotInfinity.WasmZig
