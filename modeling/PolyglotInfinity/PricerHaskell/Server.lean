import Mathlib.Algebra.Order.Floor.Ring
import Mathlib.Data.Stream.Defs
import PolyglotInfinity.Lib.Libm

/-!
# The Haskell pricer

Black-Scholes prices, the Monte Carlo report and the report on a simulated stream, over
the numbers of an ordered field. Where a program divides by zero the field's value stands
for an infinity or a NaN. `none` is an exception.
-/

namespace PolyglotInfinity.PricerHaskell

variable {F : Type} [Field F] [LinearOrder F]

/-! ### Pure math -/

def pi' : F := 3.141592653589793

/-- The recursion is for negative numbers only, and its argument is none. -/
def normCdf [IsStrictOrderedRing F] (lib : Libm F) (x : F) : F :=
  if x < 0 then 1.0 - normCdf lib (-x)
  else
    let t := 1.0 / (1.0 + 0.2316419 * x)
    let d := lib.exp (-(0.5 * x * x)) / lib.sqrt (2.0 * pi')
    let p := t * (0.319381530 + t * (-0.356563782 + t * (1.781477937 + t * (-1.821255978 + t * 1.330274429))))
    1.0 - d * p
termination_by if x < 0 then 1 else 0
decreasing_by
  rename_i negative
  rw [if_pos negative, if_neg (not_lt.mpr (neg_nonneg.mpr negative.le))]
  exact Nat.zero_lt_one

def normPdf (lib : Libm F) (x : F) : F := lib.exp (-(0.5 * x * x)) / lib.sqrt (2.0 * pi')

structure BSResult (F : Type) where
  callPrice : F
  putPrice : F
  delta : F
  gamma : F
  vega : F
  thetaDaily : F
  d1 : F
  d2 : F
  engine : String

def blackScholes [IsStrictOrderedRing F] (lib : Libm F) (s k r sigma t : F) : BSResult F :=
  let d1v := (lib.log (s / k) + (r + 0.5 * sigma * sigma) * t) / (sigma * lib.sqrt t)
  let d2v := d1v - sigma * lib.sqrt t
  let call := s * normCdf lib d1v - k * lib.exp (-(r * t)) * normCdf lib d2v
  let put := k * lib.exp (-(r * t)) * normCdf lib (-d2v) - s * normCdf lib (-d1v)
  let dlt := normCdf lib d1v
  let gma := normPdf lib d1v / (s * sigma * lib.sqrt t)
  let vga := s * normPdf lib d1v * lib.sqrt t / 100.0
  let tht := (-((s * normPdf lib d1v * sigma) / (2.0 * lib.sqrt t)) -
    r * k * lib.exp (-(r * t)) * normCdf lib d2v) / 365.0
  ⟨call, put, dlt, gma, vga, tht, d1v, d2v, "Haskell GHC servant-server"⟩

/-! ### Pseudo-random numbers -/

/-- The `Int` of GHC. -/
def wrap (x : ℤ) : ℤ := x.bmod (2 ^ 64)

def lcgNext (x : ℤ) : ℤ := wrap (wrap (1664525 * x) + 1013904223) % 2 ^ 31

def toUnit (x : ℤ) : F := (x : F) / ((2 ^ 31 : ℤ) : F)

def lcgSeq (seed : ℤ) : Stream' F := (Stream'.iterate lcgNext seed).map toUnit

/-- Over an endless list: each number is drawn from the next two. -/
def boxMuller (lib : Libm F) (us : Stream' F) : Stream' F := fun i =>
  let u1 := us.get (2 * i)
  let u2 := us.get (2 * i + 1)
  lib.sqrt (-(2.0 * lib.log (max u1 1e-10))) * lib.cos (2.0 * pi' * u2)

/-! ### Monte Carlo -/

def mcFinals (lib : Libm F) (s0 mu vol : F) (nPaths nDays seed : ℤ) : List F :=
  let dt : F := 1.0 / 252.0
  let drift := (mu - 0.5 * vol * vol) * dt
  let diff := vol * lib.sqrt dt
  let zs := (boxMuller lib (lcgSeq seed)).take (wrap (nPaths * nDays)).toNat
  let path := fun i : ℕ => ((zs.drop (wrap (i * nDays)).toNat).take nDays.toNat).foldl
    (fun p z => p * lib.exp (drift + diff * z)) s0
  (List.range (wrap (nPaths - 1) + 1).toNat).map path

def mean' (xs : List F) : F := xs.sum / (xs.length : F)

def std' (lib : Libm F) (xs : List F) : F :=
  let m := mean' xs
  let v := mean' (xs.map fun x => (x - m) ^ 2)
  lib.sqrt v

def insertSorted (y : F) : List F → List F
  | [] => [y]
  | z :: zs => if y ≤ z then y :: z :: zs else z :: insertSorted y zs

/-- `xs !! i`. -/
def index (xs : List F) (i : ℤ) : Option F := if i < 0 then none else xs[i.toNat]?

def percentile [FloorRing F] (xs : List F) (p : F) : Option F :=
  let sorted := xs.foldr insertSorted []
  let n : F := (sorted.length : F)
  let i := min ⌊p / 100.0 * n⌋ ((sorted.length : ℤ) - 1)
  index sorted i

/-! ### The stream of prices -/

def scanl {α β : Type} (f : β → α → β) (init : β) (xs : Stream' α) : Stream' β
  | 0 => init
  | n + 1 => f (scanl f init xs n) (xs.get n)

def gbmStream (lib : Libm F) (s0 mu sigma : F) (seed : ℤ) : Stream' F :=
  let dt : F := 1.0 / 252.0
  let drift := (mu - 0.5 * sigma * sigma) * dt
  let diff := sigma * lib.sqrt dt
  let zs := boxMuller lib ((lcgSeq seed).drop 1)
  scanl (fun p z => p * lib.exp (drift + diff * z)) s0 zs

def logReturns (lib : Libm F) (ps : List F) : List F := ps.zipWith (fun a b => lib.log (b / max a 1e-10)) ps.tail

def scanl1 (f : F → F → F) : List F → List F
  | [] => []
  | x :: xs => xs.scanl f x

def runningDrawdown (prices : List F) : List F :=
  let peaks := scanl1 max prices
  let dds := peaks.zipWith (fun pk p => if 0 < pk then (pk - p) / pk else 0.0) prices
  dds.scanl max 0

/-! ### Responses -/

structure MCResult (F : Type) where
  meanLogReturn : F
  stdLogReturn : F
  annualisedReturn : F
  annualisedVol : F
  var95 : F
  cvar95 : F
  avgFinalPrice : F
  nPaths : ℤ
  nDays : ℤ
  mcEngine : String

structure StreamResult (F : Type) where
  snDays : ℤ
  finalPrice : F
  streamAnnReturn : F
  streamAnnVol : F
  sharpeRatio : F
  maxDrawdown : F
  streamEngine : String

/-! ### Handlers -/

def priceHandler [IsStrictOrderedRing F] (lib : Libm F) (ms mk mr msigma mt : Option F) : BSResult F :=
  blackScholes lib (ms.getD 100.0) (mk.getD 100.0) (mr.getD 0.05) (msigma.getD 0.20) (mt.getD 1.0)

/-- `mcHandler` behind the returns. -/
def mcResult [FloorRing F] (lib : Libm F) (n days : ℤ) (finals rets : List F) : Option (MCResult F) := do
  let m := mean' rets
  let sv := std' lib rets
  let scale := 252.0 / (days : F)
  let annR := m * scale
  let annV := sv * lib.sqrt scale
  let v95 ← percentile rets 5.0
  let cv95 := mean' (rets.filter (· ≤ v95))
  return ⟨m, sv, annR, annV, v95, cv95, mean' finals, n, days, "Haskell GHC servant-server monte-carlo GBM"⟩

def mcHandler [FloorRing F] (lib : Libm F) (ms mvol mmu : Option F) (mn mdays : Option ℤ) : Option (MCResult F) :=
  let s := ms.getD 100.0
  let vol := mvol.getD 0.20
  let mu := mmu.getD 0.08
  let n := mn.getD 500
  let days := mdays.getD 252
  let finals := mcFinals lib s mu vol n days 42
  let rets := finals.map fun p => lib.log (p / s)
  mcResult lib n days finals rets

/-- `streamHandler` behind the stream. -/
def streamResult (lib : Libm F) (n : ℤ) (stream : Stream' F) : Option (StreamResult F) := do
  let prices := stream.take (n + 1).toNat
  let rets := (logReturns lib prices).take n.toNat
  let dds := (runningDrawdown prices).take (n + 1).toNat
  let annR := mean' rets * 252.0
  let annV := std' lib rets * lib.sqrt 252.0
  let sharpe := if 0 < annV then annR / annV else 0.0
  let mdd ← dds.getLast?
  return ⟨n, ← prices.getLast?, annR, annV, sharpe, mdd, "Haskell GHC servant-server lazy-stream scanl"⟩

def streamHandler (lib : Libm F) (ms mmu msigma : Option F) (mn mseed : Option ℤ) : Option (StreamResult F) :=
  let s := ms.getD 100.0
  let mu := mmu.getD 0.08
  let sigma := msigma.getD 0.20
  let n := min 500 (mn.getD 60)
  let seed := mseed.getD 42
  streamResult lib n (gbmStream lib s mu sigma seed)

end PolyglotInfinity.PricerHaskell
