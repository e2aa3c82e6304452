import PolyglotInfinity.HubGleam.Pipeline
import PolyglotInfinity.Lib.Json

/-!
# The validation service of the Gleam hub

The messages and their checks, the query parameters, and the router. The parsers of
the standard library are those of Erlang.
-/

namespace PolyglotInfinity.HubGleam

section

variable {F : Type} [Field F] [LinearOrder F] (fl : Beam F)

/-! ### Query parameters -/

def queryStr (params : List (String × String)) (key default : String) : String :=
  ((params.find? fun p => p.1 = key).map Prod.snd).getD default

/-- `binary_to_integer`. -/
def parseInt (text : String) : Option ℤ :=
  match ParseDouble.signedInt text.toList with
  | some (i, []) => some i
  | _ => none

/-- The number that `binary_to_float` reads: there has to be a point with digits on both sides. -/
def decimal (text : String) : Option ℚ :=
  let (negative, cs) := ParseDouble.sign text.toList
  let whole := cs.takeWhile Char.isDigit
  match cs.dropWhile Char.isDigit with
  | '.' :: more =>
    let behind := more.takeWhile Char.isDigit
    if whole = [] ∨ behind = [] then none
    else (Json.exponent (more.dropWhile Char.isDigit)).map fun e =>
      let q := ParseDouble.scale (ParseDouble.digits 10 (whole ++ behind)) 10 (e - behind.length)
      if negative then -q else q
  | _ => none

def parseFloat (text : String) : Option F := (decimal text).bind fun q => fl.round q

def queryInt (params : List (String × String)) (key : String) (default : ℤ) : ℤ :=
  (parseInt (queryStr params key "")).getD default

def queryFloat (params : List (String × String)) (key : String) (default : F) : F :=
  (parseFloat fl (queryStr params key "")).getD default

/-! ### Messages -/

inductive ServiceMessage (F : Type) where
  | riskScore (score : F) (grade : String) (userId : ℤ)
  | optionPrice (call put delta : F)
  | volatilityData (vol var95 cvar95 : F)
  | streamBatch (count window : ℤ)
  | unknown (raw : String)

inductive ValidationError (F : Type) where
  | scoreOutOfRange (score : F)
  | negativePremium (got : F)
  | deltaOutOfRange (delta : F)
  | negativeVolatility (vol : F)
  | emptyBatch
  | unknownService (name : String)

variable [FloorRing F]

def validateMessage : ServiceMessage F → Run (Except (ValidationError F) String)
  | .riskScore score grade _ =>
    if 0 ≤ score ∧ score ≤ 1000 then do
      return .ok ("valid: score=" ++ (← fmtF fl score) ++ " grade=" ++ grade)
    else return .error (.scoreOutOfRange score)
  | .optionPrice call _ delta =>
    if 0 ≤ call then
      if 0 ≤ delta ∧ delta ≤ 1 then do
        return .ok ("valid: call=" ++ (← fmtF fl call) ++ " delta=" ++ (← fmtF fl delta))
      else return .error (.deltaOutOfRange delta)
    else return .error (.negativePremium call)
  | .volatilityData vol var95 _ =>
    if 0 ≤ vol ∧ var95 ≤ 0 then do return .ok ("valid: vol=" ++ (← fmtF fl vol))
    else return .error (.negativeVolatility vol)
  | .streamBatch count _ =>
    if 0 < count then return .ok ("valid: batch count=" ++ toString count) else return .error .emptyBatch
  | .unknown raw => return .error (.unknownService raw)

def errorToString : ValidationError F → Run String
  | .scoreOutOfRange s => do return "score_out_of_range:" ++ (← fmtF fl s) ++ " (valid:0-1000)"
  | .negativePremium v => do return "negative_premium:" ++ (← fmtF fl v)
  | .deltaOutOfRange d => do return "delta_out_of_range:" ++ (← fmtF fl d) ++ " (valid:0-1)"
  | .negativeVolatility v => do return "negative_volatility:" ++ (← fmtF fl v)
  | .emptyBatch => return "empty_batch"
  | .unknownService n => return "unknown_service:" ++ n

/-- The scores that the service has to reject. -/
def Outside {K : Type} [Field K] [LinearOrder K] (x : K) : Prop := x < 0 ∨ 1000 < x

def accepted (service message : String) : String :=
  "\x7b\"ok\":true,\"message\":\"" ++ message ++
    "\",\"service\":\"" ++ service ++ "\",\"exhaustive\":true,\"engine\":\"Gleam 1.15\"\x7d"

def rejected (service error : String) : String :=
  "\x7b\"ok\":false,\"error\":\"" ++ error ++
    "\",\"service\":\"" ++ service ++ "\",\"exhaustive\":true,\"engine\":\"Gleam 1.15\"\x7d"

/-- What `validate_risk_json` and `validate_option_json` do with their message. -/
def validateJson (service : String) (msg : ServiceMessage F) : Run String := do
  match ← validateMessage fl msg with
  | .ok message => return accepted service message
  | .error e => return rejected service (← errorToString fl e)

def validateRiskJson (score : F) (grade : String) : Run String :=
  validateJson fl "risk" (.riskScore score grade 0)

def validateOptionJson (call delta : F) : Run String := validateJson fl "option" (.optionPrice call 0 delta)

def contractJson : String :=
  "\x7b\"services\":[\"risk\",\"option\",\"volatility\",\"stream\"]," ++
    "\"message_types\":[\"RiskScore\",\"OptionPrice\",\"VolatilityData\",\"StreamBatch\",\"Unknown\"]," ++
    "\"guarantee\":\"exhaustive_pattern_match\"," ++
    "\"note\":\"모든 ServiceMessage variant가 case에서 강제 처리됩니다. 누락 시 컴파일 에러.\"," ++
    "\"engine\":\"Gleam 1.15 (BEAM/Erlang)\"\x7d"

inductive Response where
  | text (body : String)
  | json (body : String)
  | notFound

/-- `none` where the fuel of the pipeline does not suffice. -/
def handleRequest (fuel : ℕ) (segments : List String) (params : List (String × String)) :
    Option (Run Response) :=
  match segments with
  | ["health"] => some (.ok (.text "Gleam Hub OK"))
  | ["api", "gleam", "pipeline"] =>
    let n := queryInt params "n" 252
    let mu := queryFloat fl params "mu" (fl.literal 0.08)
    let sigma := queryFloat fl params "sigma" (fl.literal 0.20)
    (pipelineJson fl fuel n mu sigma).map fun body => body.map .json
  | ["api", "gleam", "risk"] =>
    let n := queryInt params "n" 252
    let mu := queryFloat fl params "mu" (fl.literal 0.08)
    let sigma := queryFloat fl params "sigma" (fl.literal 0.20)
    (riskJson fl fuel n mu sigma).map fun body => body.map .json
  | ["api", "gleam", "validate"] =>
    let score := queryFloat fl params "score" 500
    let grade := queryStr params "grade" "B"
    some ((validateRiskJson fl score grade).map .json)
  | ["api", "gleam", "validate", "option"] =>
    let call := queryFloat fl params "call" 10.0
    let delta := queryFloat fl params "delta" 0.5
    some ((validateOptionJson fl call delta).map .json)
  | ["api", "gleam", "contract"] => some (.ok (.json contractJson))
  | _ => some (.ok .notFound)

end

end PolyglotInfinity.HubGleam
