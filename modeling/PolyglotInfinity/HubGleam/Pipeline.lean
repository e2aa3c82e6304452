import Mathlib.Algebra.Order.Field.Basic
import Mathlib.Algebra.Order.Floor.Ring
import Mathlib.Data.Rat.Floor
import PolyglotInfinity.Lib.Rounding

/-!
# The pipeline of the Gleam hub

The simulated returns, their statistics and the two reports, over the numbers of an
ordered field with the rounding of the floats. Where a result overflows the BEAM raises
`badarith`; a division by zero gives zero in Gleam.
-/

namespace PolyglotInfinity.HubGleam

inductive Crash where
  | badarith
  deriving DecidableEq

abbrev Run := Except Crash

/-- The floats of the BEAM. -/
structure Beam (F : Type) [Field F] [LinearOrder F] extends Rounding F where
  wide : 2 ^ 53 ≤ bound
  /-- `math:pow(x, 0.5)`. -/
  sqrt : F → F

section

variable {F : Type} [Field F] [LinearOrder F] (fl : Beam F)

namespace Beam

def value (x : F) : Run F := (fl.round x).elim (.error .badarith) .ok

def add (x y : F) : Run F := fl.value (x + y)

def sub (x y : F) : Run F := fl.value (x - y)

def mul (x y : F) : Run F := fl.value (x * y)

def div (x y : F) : Run F := if y = 0 then .ok 0 else fl.value (x / y)

/-- A literal of the program, which is never out of range. -/
def literal (x : F) : F := (fl.round x).getD 0

/-- `int.to_float`. -/
def ofInt (n : ℤ) : Run F := fl.value n

/-- Arithmetic without any rounding. -/
def exactly (sqrt : F → F) : Beam F where
  toRounding := .exactly F (2 ^ 53)
  wide := le_rfl
  sqrt := sqrt

end Beam

/-! ### Math -/

def floatSqrt (x : F) : F := if x < 0 then 0 else fl.sqrt x

def floatPowInt (base : F) : ℕ → Run F
  | 0 => .ok 1
  | k + 1 => do fl.mul base (← floatPowInt base k)

def factorial : ℕ → ℕ
  | 0 => 1
  | 1 => 1
  | n + 1 => (n + 1) * factorial n

def floatLog (x : F) : Run F :=
  if 0 < x then do
    let z ← fl.div (← fl.sub x 1) (← fl.add x 1)
    let sum ← [1, 3, 5, 7, 9, 11, 13, 15, 17, 19].foldlM (fun acc n => do
      fl.add acc (← fl.div (← floatPowInt fl z n) (← fl.ofInt n))) 0
    fl.mul 2 sum
  else .ok (-999)

def floatCos (x : F) : Run F :=
  [0, 2, 4, 6, 8, 10, 12].zipIdx.foldlM (fun acc (n, i) => do
    let sign := if i % 2 = 0 then 1 else -1
    fl.add acc (← fl.div (← fl.mul sign (← floatPowInt fl x n)) (← fl.ofInt (factorial n)))) 0

/-! ### Pseudo-random numbers -/

def lcgNext (seed : ℤ) : ℤ := (1664525 * seed + 1013904223) % 2147483648

/-- `none` where the fuel does not suffice. -/
def lcgSeqLoop : ℕ → ℤ → ℤ → List F → Option (Run (List F))
  | 0, _, _, _ => none
  | fuel + 1, seed, remaining, acc =>
    if remaining = 0 then some (.ok acc.reverse)
    else
      match (do fl.div (← fl.ofInt (lcgNext seed)) 2147483648) with
      | .error crash => some (.error crash)
      | .ok val => lcgSeqLoop fuel (lcgNext seed) (remaining - 1) (val :: acc)

def boxMullerLoop : List F → List F → Run (List F)
  | u1 :: u2 :: rest, acc => do
    let least := fl.literal (1 / 10 ^ 10)
    let safe := if u1 < least then least else u1
    let r := floatSqrt fl (← fl.mul (-2) (← floatLog fl safe))
    let z ← fl.mul r (← floatCos fl (← fl.mul (← fl.mul 2 (fl.literal 3.141592653589793)) u2))
    boxMullerLoop rest (z :: acc)
  | _, acc => .ok acc.reverse

/-- The radius that `box_muller_loop` draws. -/
def radius (u1 : F) : Run F := do
  let least := fl.literal (1 / 10 ^ 10)
  let safe := if u1 < least then least else u1
  return floatSqrt fl (← fl.mul (-2) (← floatLog fl safe))

/-- What `box_muller_loop` multiplies the radius by. -/
def deviateCos (u2 : F) : Run F := do
  floatCos fl (← fl.mul (← fl.mul 2 (fl.literal 3.141592653589793)) u2)

/-- The drift and the diffusion of `gbm_returns`. -/
def gbmScale (mu sigma : F) : Run (F × F) := do
  let dt ← fl.div 1 252
  let drift ← fl.mul (← fl.sub mu (← fl.mul (← fl.mul (1 / 2) sigma) sigma)) dt
  let diffusion ← fl.mul sigma (floatSqrt fl dt)
  return (drift, diffusion)

def gbmReturns (fuel : ℕ) (n : ℤ) (mu sigma : F) (seed : ℤ) : Option (Run (List F)) :=
  match gbmScale fl mu sigma with
  | .error crash => some (.error crash)
  | .ok (drift, diffusion) => (lcgSeqLoop fl fuel seed (n * 2) []).map fun us => do
    let randoms ← boxMullerLoop fl (← us) []
    (randoms.take n.toNat).mapM fun z => do fl.add drift (← fl.mul diffusion z)

/-! ### Statistics -/

def sum (xs : List F) : Run F := xs.foldlM (fun a x => fl.add a x) 0

def listMean : List F → Run F
  | [] => .ok 0
  | xs => do fl.div (← sum fl xs) (← fl.ofInt xs.length)

def listStd (xs : List F) : Run F := do
  let m ← listMean fl xs
  let squares ← xs.foldlM (fun a x => do fl.add a (← fl.mul (← fl.sub x m) (← fl.sub x m))) 0
  let v ← fl.div squares (← fl.ofInt xs.length)
  return floatSqrt fl v

def listMin : List F → F
  | [] => 0
  | h :: t => t.foldl (fun m x => if x < m then x else m) h

def listMax : List F → F
  | [] => 0
  | h :: t => t.foldl (fun m x => if m < x then x else m) h

def sharpe (returns : List F) : Run F := do
  let annRet ← fl.mul (← listMean fl returns) 252
  let annVol ← fl.mul (← listStd fl returns) (floatSqrt fl 252)
  if annVol = 0 then return 0 else fl.div annRet annVol

def maxDrawdown (xs : List F) : Run F := do
  let (_, mdd) ← xs.foldlM (fun (pk, md) cr => do
    let newPk := if pk < cr then cr else pk
    let dd ← fl.sub newPk cr
    return (newPk, if md < dd then dd else md)) (0, 0)
  return mdd

/-- `list.scan` with the sum. -/
def cumsumFrom (acc : F) : List F → Run (List F)
  | [] => .ok []
  | x :: xs => do
    let next ← fl.add acc x
    return next :: (← cumsumFrom next xs)

def cumsum (xs : List F) : Run (List F) := cumsumFrom fl 0 xs

variable [FloorRing F]

/-- `float.round`: halves away from zero. -/
def roundAway (x : F) : ℤ := if x < 0 then -⌊-x + 1 / 2⌋ else ⌊x + 1 / 2⌋

def percentileP (xs : List F) (p : F) : Run F :=
  match xs with
  | [] => .ok 0
  | xs => do
    let sorted := xs.mergeSort
    let n : ℤ := sorted.length
    let rawIdx := roundAway (← fl.mul (← fl.div p 100) (← fl.ofInt n))
    let idx := if rawIdx < 0 then 0 else if n ≤ rawIdx then n - 1 else rawIdx
    return (sorted.drop idx.toNat).head?.getD 0

/-! ### Reports -/

def padStart (text : String) (length : ℕ) (pad : Char) : String := "".pushn pad (length - text.length) ++ text

def fmtF (x : F) : Run String := do
  let r := roundAway (← fl.mul x 1000000)
  let ip := r.tdiv 1000000
  let fp := (r.tmod 1000000).natAbs
  return toString ip ++ "." ++ padStart (toString fp) 6 '0'

/-- The millionfold of `x` is no overflow. -/
def Printable (x : F) : Prop := (fl.round (x * 1000000)).isSome

def pipelineStepJson (name : String) (xs : List F) : Run String := do
  return "\x7b" ++ "\"name\":\"" ++ name ++ "\"," ++
    "\"count\":" ++ toString xs.length ++ "," ++
    "\"mean\":" ++ (← fmtF fl (← listMean fl xs)) ++ "," ++
    "\"std\":" ++ (← fmtF fl (← listStd fl xs)) ++ "," ++
    "\"min\":" ++ (← fmtF fl (listMin xs)) ++ "," ++
    "\"max\":" ++ (← fmtF fl (listMax xs)) ++ "\x7d"

/-- `pipeline_json` behind its first line. -/
def pipelineReport (n : ℤ) (returns : List F) : Run String := do
  let sigma2 ← listStd fl returns
  let filtered ← returns.filterM fun r => do return |r| < (← fl.mul 2 sigma2)
  let scaled ← filtered.mapM fun r => fl.mul r 252
  let positive := filtered.filter fun r => 0 < r
  let annRet ← fl.mul (← listMean fl returns) 252
  let annVol ← fl.mul (← listStd fl returns) (floatSqrt fl 252)
  return "\x7b" ++ "\"n\":" ++ toString n ++ "," ++
    "\"annualized_return\":" ++ (← fmtF fl annRet) ++ "," ++
    "\"annualized_vol\":" ++ (← fmtF fl annVol) ++ "," ++
    "\"pipeline_steps\":[" ++
    (← pipelineStepJson fl "raw_returns" returns) ++ "," ++
    (← pipelineStepJson fl "filtered_2sigma" filtered) ++ "," ++
    (← pipelineStepJson fl "annualized" scaled) ++ "," ++
    (← pipelineStepJson fl "positive_only" positive) ++
    "],\"engine\":\"Gleam 1.15 (BEAM/Erlang)\"\x7d"

def pipelineJson (fuel : ℕ) (n : ℤ) (mu sigma : F) : Option (Run String) :=
  (gbmReturns fl fuel n mu sigma 42).map fun returns => do pipelineReport fl n (← returns)

/-- `risk_json` behind its first line. -/
def riskReport (n : ℤ) (returns : List F) : Run String := do
  let cum ← cumsum fl returns
  let var95 ← percentileP fl returns 5
  let cvar95 ← listMean fl (returns.filter fun r => r ≤ var95)
  let annRet ← fl.mul (← listMean fl returns) 252
  let annVol ← fl.mul (← listStd fl returns) (floatSqrt fl 252)
  let sr ← sharpe fl returns
  let mdd ← maxDrawdown fl cum
  return "\x7b" ++
    "\"annualized_return\":" ++ (← fmtF fl annRet) ++ "," ++
    "\"annualized_vol\":" ++ (← fmtF fl annVol) ++ "," ++
    "\"var_95\":" ++ (← fmtF fl var95) ++ "," ++
    "\"cvar_95\":" ++ (← fmtF fl cvar95) ++ "," ++
    "\"sharpe_ratio\":" ++ (← fmtF fl sr) ++ "," ++
    "\"max_drawdown\":" ++ (← fmtF fl mdd) ++ "," ++
    "\"n\":" ++ toString n ++ "," ++
    "\"engine\":\"Gleam 1.15 (BEAM/Erlang)\"\x7d"

def riskJson (fuel : ℕ) (n : ℤ) (mu sigma : F) : Option (Run String) :=
  (gbmReturns fl fuel n mu sigma 42).map fun returns => do riskReport fl n (← returns)

end

/-! ### Termination -/

section

variable {F : Type} [Field F] [LinearOrder F] {fl : Beam F} {seed remaining n : ℤ} {mu sigma : F}

/-- Counting down to exactly zero takes as many rounds as the count says. -/
theorem lcgSeqLoop_ends {fuel : ℕ} (nonneg : 0 ≤ remaining) (enough : remaining < fuel) (acc : List F) :
    (lcgSeqLoop fl fuel seed remaining acc).isSome := by
  induction fuel generalizing seed remaining acc with
  | zero => omega
  | succ fuel ih =>
    unfold lcgSeqLoop
    split
    · rfl
    · split
      · rfl
      · exact ih (by omega) (by omega) _

theorem gbmReturns_ends {fuel : ℕ} (nonneg : 0 ≤ n) (enough : n * 2 < fuel) :
    (gbmReturns fl fuel n mu sigma seed).isSome := by
  unfold gbmReturns
  split
  · rfl
  · rw [Option.isSome_map]
    exact lcgSeqLoop_ends (by omega) enough []

variable [IsStrictOrderedRing F]

theorem lcgNext_range (seed : ℤ) : 0 ≤ lcgNext seed ∧ lcgNext seed < 2147483648 := by
  unfold lcgNext
  omega

/-- The next number of the generator is a float, and so is its share of the modulus. -/
theorem lcg_val (fl : Beam F) (seed : ℤ) :
    ∃ val, (do fl.div (← fl.ofInt (lcgNext seed)) 2147483648) = Except.ok val := by
  obtain ⟨low, high⟩ := lcgNext_range seed
  have wide := fl.wide
  have exact : fl.ofInt (lcgNext seed) = .ok (lcgNext seed : F) := by
    unfold Beam.ofInt Beam.value
    rw [fl.int _ (by rw [abs_of_nonneg low]; omega)]
    rfl
  have modulus : (0 : F) < 2147483648 := by positivity
  have low' : ((0 : ℤ) : F) ≤ (lcgNext seed : F) / 2147483648 := by
    rw [Int.cast_zero]
    exact div_nonneg (Int.cast_nonneg low) modulus.le
  have high' : (lcgNext seed : F) / 2147483648 ≤ ((1 : ℤ) : F) := by
    rw [div_le_iff₀ modulus, Int.cast_one, one_mul]
    exact_mod_cast high.le
  obtain ⟨val, rounded, -⟩ := fl.between (by simp; omega) (by simp; omega) low' high'
  refine ⟨val, ?_⟩
  rw [exact]
  show Beam.div fl _ _ = _
  unfold Beam.div Beam.value
  rw [if_neg modulus.ne', rounded]
  rfl

theorem lcgSeqLoop_runs_on (below : remaining < 0) (fuel : ℕ) (acc : List F) :
    lcgSeqLoop fl fuel seed remaining acc = none := by
  induction fuel generalizing seed remaining acc with
  | zero => rfl
  | succ fuel ih =>
    obtain ⟨val, next⟩ := lcg_val fl seed
    unfold lcgSeqLoop
    rw [if_neg (by omega), next]
    exact ih (by omega) _

theorem gbmReturns_ends_iff :
    (∃ fuel, (gbmReturns fl fuel n mu sigma seed).isSome) ↔ 0 ≤ n ∨ gbmScale fl mu sigma = .error .badarith := by
  constructor
  · rintro ⟨fuel, ended⟩
    by_contra neither
    obtain ⟨below, computed⟩ := not_or.mp neither
    unfold gbmReturns at ended
    split at ended
    · rename_i crash crashed
      cases crash
      exact computed crashed
    · rw [lcgSeqLoop_runs_on (by omega)] at ended
      cases ended
  · rintro (nonneg | crashed)
    · exact ⟨(n * 2 + 1).toNat, gbmReturns_ends nonneg (by omega)⟩
    · refine ⟨0, ?_⟩
      unfold gbmReturns
      rw [crashed]
      rfl

/-- Both reports end exactly if the count is not negative, or the drift or the diffusion
overflows before a number is drawn. -/
theorem reports_end_iff [FloorRing F] (fl : Beam F) (n : ℤ) (mu sigma : F) :
    ((∃ fuel, (pipelineJson fl fuel n mu sigma).isSome) ∧ (∃ fuel, (riskJson fl fuel n mu sigma).isSome)) ↔
      0 ≤ n ∨ gbmScale fl mu sigma = .error .badarith := by
  unfold pipelineJson riskJson
  simp only [Option.isSome_map, gbmReturns_ends_iff, and_self]

end

/-- Exact arithmetic, with roots to twelve places. -/
def plain : Beam ℚ where
  toRounding := .exactly ℚ (2 ^ 53)
  wide := le_rfl
  sqrt := fun x => Nat.sqrt ⌊x * 10 ^ 24⌋.toNat / 10 ^ 12

theorem reports_end_iff_plain :
    IsStrictOrderedRing ℚ ∧
      (((∃ fuel, (pipelineJson plain fuel 5 0.08 0.2).isSome) ∧ (∃ fuel, (riskJson plain fuel 5 0.08 0.2).isSome)) ↔
        0 ≤ (5 : ℤ) ∨ gbmScale plain 0.08 0.2 = .error .badarith) :=
  ⟨inferInstance, reports_end_iff plain 5 0.08 0.2⟩

theorem negative_count_runs_on :
    ¬ ∀ (n : ℤ) (mu sigma : ℚ),
      (∃ fuel, (pipelineJson plain fuel n mu sigma).isSome) ∧ (∃ fuel, (riskJson plain fuel n mu sigma).isSome) := by
  intro law
  obtain ⟨⟨fuel, ended⟩, -⟩ := law (-1) 0 0
  unfold pipelineJson at ended
  rw [Option.isSome_map] at ended
  rcases gbmReturns_ends_iff.mp ⟨fuel, ended⟩ with nonneg | crashed
  · revert nonneg
    decide
  · cases crashed

end PolyglotInfinity.HubGleam
