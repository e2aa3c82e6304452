import Mathlib.Algebra.Order.Floor.Ring
import PolyglotInfinity.Lib.Libm
import PolyglotInfinity.Lib.Query
import PolyglotInfinity.RiskOcaml.Numbers

/-!
# The OCaml risk engine

Risk level, credit score, loan decision and margin status, and the endpoint of the margin
call. The rules compare doubles, so NaN is below no bound and above none.
-/

namespace PolyglotInfinity.RiskOcaml

/-! ### Risk level -/

inductive RiskLevel where
  | Low
  | Medium
  | High
  | Critical
  deriving DecidableEq

def RiskLevel.rank : RiskLevel → ℕ
  | Low => 0
  | Medium => 1
  | High => 2
  | Critical => 3

/-- The points of a rule, with its three bounds from the worst to the mildest. -/
def points (worst middle mild : Prop) [Decidable worst] [Decidable middle] [Decidable mild] (p q r score : ℤ) : ℤ :=
  if worst then score + p
  else if middle then score + q
  else if mild then score + r
  else score

def riskLevel (score : ℤ) : RiskLevel :=
  if 70 ≤ score then .Critical
  else if 45 ≤ score then .High
  else if 20 ≤ score then .Medium
  else .Low

def evaluateRisk (fmt : Doubles) (debtRatio volatility leverage : Extended) (creditScore : ℤ) : ℤ × RiskLevel :=
  let score := 0
  let score := points (debtRatio > fmt.double 0.80) (debtRatio > fmt.double 0.60) (debtRatio > fmt.double 0.40)
    40 20 10 score
  let score := points (volatility > fmt.double 0.35) (volatility > fmt.double 0.20) (volatility > fmt.double 0.10)
    30 15 5 score
  let score := points (leverage > fmt.double 5.0) (leverage > fmt.double 3.0) (leverage > fmt.double 2.0) 20 10 5 score
  let score := points (creditScore < 600) (creditScore < 700) (creditScore < 750) 20 10 5 score
  (score, riskLevel score)

/-! ### Credit scoring -/

section

variable {F : Type} [Field F]

def logistic (lib : Libm F) (x : F) : F := 1.0 / (1.0 + lib.exp (-x))

variable [LinearOrder F] [FloorRing F]

/-- `int_of_float`, towards zero. -/
def intOfFloat (x : F) : ℤ := if 0 ≤ x then ⌊x⌋ else ⌈x⌉

/-- Debt to income. -/
def dti (income debt : F) : F := if 0.0 < income then debt / income else 1.0

/-- The linear predictor. -/
def predictor (income debt history missed : F) : F := 2.5 - 3.5 * dti income debt + 0.08 * history - 0.6 * missed

def creditScore (lib : Libm F) (income debt historyYears missedPayments : ℤ) : ℤ × String × F :=
  let z := predictor (income : F) debt historyYears missedPayments
  let probGood := logistic lib z
  let score := intOfFloat (300.0 + 550.0 * probGood)
  let grade :=
    if 800 ≤ score then "A+"
    else if 750 ≤ score then "A"
    else if 700 ≤ score then "B+"
    else if 650 ≤ score then "B"
    else if 600 ≤ score then "C"
    else "D"
  (score, grade, probGood)

end

/-! ### Loan decision -/

structure Applicant where
  creditScoreI : ℤ
  debtRatio : Extended
  collateralRatio : Extended
  leverage : Extended
  income : ℤ
  missedPayments : ℤ

inductive LoanDecision where
  | Approved
  | ConditionalApproval (condition : String)
  | Rejected (reason : String)

/-- The order of the decisions. -/
def LoanDecision.rank : LoanDecision → ℕ
  | Rejected _ => 0
  | ConditionalApproval _ => 1
  | Approved => 2

def evaluateLoan (fmt : Doubles) (ap : Applicant) : LoanDecision :=
  if 750 ≤ ap.creditScoreI ∧ ap.debtRatio < fmt.double 0.40 ∧ ap.missedPayments = 0 then .Approved
  else if 700 ≤ ap.creditScoreI ∧ ap.debtRatio < fmt.double 0.60 ∧ ap.missedPayments ≤ 1 ∧
      ap.collateralRatio ≥ fmt.double 0.30 then .ConditionalApproval "interest rate surcharge 0.5 pct"
  else if 650 ≤ ap.creditScoreI ∧ ap.debtRatio < fmt.double 0.70 ∧ ap.collateralRatio ≥ fmt.double 0.50 then
    .ConditionalApproval "requires guarantor and quarterly review"
  else if ap.creditScoreI < 600 then .Rejected "credit score below minimum threshold 600"
  else if ap.debtRatio ≥ fmt.double 0.80 then .Rejected "debt ratio exceeds hard limit 0.80"
  else .Rejected "profile does not meet any approval criteria"

/-! ### Margin call -/

inductive MarginStatus where
  | Safe
  | MarginWarning
  | MarginCall
  | ForcedLiquidation
  deriving DecidableEq

/-- The escalation of the statuses. -/
def MarginStatus.rank : MarginStatus → ℕ
  | Safe => 0
  | MarginWarning => 1
  | MarginCall => 2
  | ForcedLiquidation => 3

def stringOfMargin : MarginStatus → String
  | .Safe => "SAFE"
  | .MarginWarning => "WARNING"
  | .MarginCall => "MARGIN_CALL"
  | .ForcedLiquidation => "FORCED_LIQUIDATION"

def marginAction : MarginStatus → String
  | .Safe => "no action required"
  | .MarginWarning => "notify client, monitor intraday"
  | .MarginCall => "issue margin call notice, T+1 cure"
  | .ForcedLiquidation => "liquidate positions to restore maintenance margin"

def evaluateMargin (fmt : Doubles) (ap : Applicant) : MarginStatus :=
  if ap.leverage > fmt.double 8.0 ∨ ap.collateralRatio < fmt.double 0.10 then .ForcedLiquidation
  else if ap.leverage > fmt.double 5.0 ∨ ap.collateralRatio < fmt.double 0.20 then .MarginCall
  else if ap.leverage > fmt.double 3.0 ∨ ap.collateralRatio < fmt.double 0.30 then .MarginWarning
  else .Safe

/-! ### Requests -/

def jsonString (s : String) : String :=
  "\"" ++ String.join (s.toList.map fun c =>
    if c = '"' then "\\\"" else if c = '\\' then "\\\\" else if c = '\n' then "\\n" else String.singleton c) ++ "\""

def jsonKvS (k v : String) : String := jsonString k ++ ":" ++ jsonString v
def jsonKvF (fl : Floats) (k : String) (v : Extended) : String := jsonString k ++ ":" ++ fl.fixed4 v

/-- A pair has exactly one equals sign. -/
def parseQuery (qs : String) : List (String × String) :=
  (Query.splitOn '&' qs.toList).filterMap fun pair =>
    match Query.splitOn '=' pair with
    | [k, v] => some (String.ofList k, String.ofList v)
    | _ => none

def getParam (params : List (String × String)) (key default : String) : String := (params.lookup key).getD default

def getFloat (fl : Floats) (params : List (String × String)) (key : String) (default : ℚ) : Extended :=
  (floatOfString fl (getParam params key (fl.stringOfFloat (fl.double default)))).getD (fl.double default)

def getInt (params : List (String × String)) (key : String) (default : ℤ) : ℤ :=
  (intOfString (getParam params key (toString default))).getD default

/-- What `/api/ocaml/margincall` evaluates. -/
def marginApplicant (fl : Floats) (params : List (String × String)) : Applicant where
  leverage := getFloat fl params "leverage" 3.5
  collateralRatio := getFloat fl params "collateral_ratio" 0.25
  creditScoreI := getInt params "credit_score" 700
  debtRatio := getFloat fl params "debt_ratio" 0.45
  income := getInt params "income" 5000000
  missedPayments := getInt params "missed_payments" 0

/-- The body that `/api/ocaml/margincall` answers. -/
def marginCall (fl : Floats) (query : String) : String :=
  let ap := marginApplicant fl (parseQuery query)
  let status := evaluateMargin fl.toDoubles ap
  "\x7b" ++ ",".intercalate [jsonKvS "status" (stringOfMargin status), jsonKvS "action" (marginAction status),
    jsonKvF fl "leverage" ap.leverage, jsonKvF fl "collateral_ratio" ap.collateralRatio,
    jsonKvS "engine" "OCaml pattern-matching margin"] ++ "\x7d"

end PolyglotInfinity.RiskOcaml
