import PolyglotInfinity.Lib.ForRange
import PolyglotInfinity.Lib.Libm
import PolyglotInfinity.Lib.Query

/-!
# The backtester

The generator, the price series and the moving average strategy of the V service, up to the
result that a request is answered with. `none` is an index out of range, which ends the
program. The loop over the prices is the one of any numbers, so also of floats.
-/

namespace PolyglotInfinity.QuantV

/-! ### Pseudo-random numbers -/

def lcgNext (seed : UInt64) : UInt64 := (6364136223846793005 * seed + 1442695040888963407) &&& 0xFFFFFFFFFFFFFFFF

section

variable {F : Type} [Field F] [LinearOrder F]

def lcgUniform (seed : UInt64) : F × UInt64 :=
  let ns := lcgNext seed
  ((ns.toNat : F) / ((0xFFFFFFFFFFFFFFFF : UInt64).toNat : F), ns)

def lcgNormal (lib : Libm F) (seed : UInt64) : F × UInt64 :=
  let (u1, s1) := lcgUniform seed
  let (u2, s2) := lcgUniform s1
  let safe := if u1 < 1e-15 then 1e-15 else u1
  let r := lib.sqrt (-2.0 * lib.log safe)
  let z := r * lib.cos (2.0 * 3.141592653589793 * u2)
  (z, s2)

end

/-! ### The strategy -/

variable {F : Type}

/-- `prices[i]`. -/
def item (prices : List F) (i : ℤ) : Option F := if 0 ≤ i then prices[i.toNat]? else none

/-- `prices[i] = x`. -/
def assign (prices : List F) (i : ℤ) (x : F) : Option (List F) :=
  if 0 ≤ i ∧ i < prices.length then some (prices.set i.toNat x) else none

/-- The variables of the loop. -/
structure State (F : Type) where
  trades : ℕ
  wins : ℕ
  losses : ℕ
  position : ℤ
  entryPrice : F
  nav : F
  peak : F
  maxDd : F
  totalReturn : F
  retSum : F
  retSq : F
  retN : ℕ

section

variable [Zero F] [One F] [Add F] [Sub F] [Mul F] [Div F] [IntCast F] [LT F] [DecidableLT F]

def State.start : State F where
  trades := 0
  wins := 0
  losses := 0
  position := 0
  entryPrice := 0
  nav := 1
  peak := 1
  maxDd := 0
  totalReturn := 0
  retSum := 0
  retSq := 0
  retN := 0

/-- The mean of the `period` prices before index `i`. -/
def movingAverage (prices : List F) (period i : ℤ) : Option F := do
  let sum ← forRange (i - period) i (fun j sum => do return sum + (← item prices j)) 0
  return sum / (period : F)

/-- A position is closed with the profit `pnl`. -/
def State.close (s : State F) (pnl : F) : State F :=
  { s with
    totalReturn := s.totalReturn + pnl
    nav := s.nav * (1 + pnl)
    retSum := s.retSum + pnl
    retSq := s.retSq + pnl * pnl
    retN := s.retN + 1
    wins := if 0 < pnl then s.wins + 1 else s.wins
    losses := if 0 < pnl then s.losses else s.losses + 1 }

def State.enter (s : State F) (position : ℤ) (price : F) : State F :=
  { s with position, entryPrice := price, trades := s.trades + 1 }

/-- The peak and the drawdown, at the end of a round. -/
def State.track (s : State F) : State F :=
  let peak := if s.peak < s.nav then s.nav else s.peak
  let dd := (peak - s.nav) / peak
  { s with peak, maxDd := if s.maxDd < dd then dd else s.maxDd }

/-- A round of the loop. -/
def tick (prices : List F) (fastPeriod slowPeriod i : ℤ) (s : State F) : Option (State F) := do
  let fastMa ← movingAverage prices fastPeriod i
  let slowMa ← movingAverage prices slowPeriod i
  if slowMa < fastMa ∧ s.position ≤ 0 then do
    let price ← item prices i
    let s := if s.position = -1 then s.close ((s.entryPrice - price) / s.entryPrice) else s
    return (s.enter 1 price).track
  else if fastMa < slowMa ∧ 0 ≤ s.position then do
    let price ← item prices i
    let s := if s.position = 1 then s.close ((price - s.entryPrice) / s.entryPrice) else s
    return (s.enter (-1) price).track
  else return s.track

/-- The loop up to index `ticks`. -/
def trade (prices : List F) (fastPeriod slowPeriod ticks : ℤ) : Option (State F) :=
  forRange slowPeriod ticks (tick prices fastPeriod slowPeriod) .start

end

/-! ### Results -/

structure BacktestResult (F : Type) where
  strategy : String
  ticks : ℤ
  trades : ℕ
  winTrades : ℕ
  lossTrades : ℕ
  winRate : F
  totalReturn : F
  maxDd : F
  sharpe : F
  gcPausesMs : ℕ

variable [Field F] [LinearOrder F]

def State.winRate (s : State F) : F := if 0 < s.trades then (s.wins : F) / (s.trades : F) else 0.0

def State.retMean (s : State F) : F := if 0 < s.retN then s.retSum / (s.retN : F) else 0.0

def State.retVar (s : State F) : F :=
  if 1 < s.retN then (s.retSq - (s.retN : F) * s.retMean * s.retMean) / ((s.retN - 1 : ℕ) : F) else 1.0

def State.sharpe (lib : Libm F) (s : State F) : F :=
  let retVol := lib.sqrt s.retVar
  if 0.0 < retVol then s.retMean / retVol * lib.sqrt 252.0 else 0.0

def State.result (lib : Libm F) (fastPeriod slowPeriod ticks : ℤ) (s : State F) : BacktestResult F where
  strategy := "MA(" ++ toString fastPeriod ++ "," ++ toString slowPeriod ++ ")"
  ticks
  trades := s.trades
  winTrades := s.wins
  lossTrades := s.losses
  winRate := s.winRate
  totalReturn := s.totalReturn
  maxDd := s.maxDd
  sharpe := s.sharpe lib
  gcPausesMs := 0

/-- `backtest_ma` behind the generation of the prices. -/
def backtest (lib : Libm F) (prices : List F) (fastPeriod slowPeriod ticks : ℤ) : Option (BacktestResult F) := do
  return (← trade prices fastPeriod slowPeriod ticks).result lib fastPeriod slowPeriod ticks

/-- A round of the generation, on the prices and the seed. -/
def seriesRound (lib : Libm F) (i : ℤ) (st : List F × UInt64) : Option (List F × UInt64) := do
  let (z, ns) := lcgNormal lib st.2
  let prices ← assign st.1 i ((← item st.1 (i - 1)) * lib.exp (0.0002 + 0.015 / lib.sqrt 252.0 * z))
  return (prices, ns)

/-- The prices that `backtest_ma` generates. -/
def series (lib : Libm F) (ticks : ℤ) (seed : UInt64) : Option (List F) := do
  let prices ← assign (List.replicate ticks.toNat 0) 0 100.0
  let (prices, _) ← forRange 1 ticks (seriesRound lib) (prices, seed)
  return prices

def backtestMa (lib : Libm F) (ticks fastPeriod slowPeriod : ℤ) (seed : UInt64) : Option (BacktestResult F) := do
  let prices ← series lib ticks seed
  backtest lib prices fastPeriod slowPeriod ticks

/-! ### Requests -/

def getParam (query key default : String) : String :=
  let pairs := (Query.splitOn '&' query.toList).filterMap fun p =>
    match Query.splitOn '=' p with
    | [k, v] => if k = key.toList then some (String.ofList v) else none
    | _ => none
  pairs.head?.getD default

/-- `int` is the method of V's strings, which reads the digits that a text begins with. -/
def parseI (int : String → ℤ) (s : String) (d : ℤ) : ℤ :=
  let v := int s
  if v = 0 ∧ s ≠ "0" then d else v

structure Params where
  ticks : ℤ
  fast : ℤ
  slow : ℤ
  seed : UInt64

/-- What `handle_backtest` passes. -/
def backtestParams (int : String → ℤ) (query : String) : Params :=
  let ticks := parseI int (getParam query "ticks" "100000") 100000
  let fast := parseI int (getParam query "fast" "20") 20
  let slow := parseI int (getParam query "slow" "50") 50
  let seed := UInt64.ofInt (parseI int (getParam query "seed" "42") 42)
  let safeFast := if fast < 2 then 2 else if 100 < fast then 100 else fast
  { ticks := if 1000000 < ticks then 1000000 else if ticks < 100 then 100 else ticks
    fast := safeFast
    slow := if slow ≤ safeFast then safeFast + 1 else if 200 < slow then 200 else slow
    seed }

/-- The result in the reply of `handle_backtest`. -/
def handleBacktest (lib : Libm F) (int : String → ℤ) (query : String) : Option (BacktestResult F) :=
  let p := backtestParams int query
  backtestMa lib p.ticks p.fast p.slow p.seed

end PolyglotInfinity.QuantV
