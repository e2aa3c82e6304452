import PolyglotInfinity.Gateway.Requests
import PolyglotInfinity.Gateway.StatusHandler
import PolyglotInfinity.PipelineRust.BulkInsert

/-!
# The risk workflow

Five calls to the backends, one after another, and the status that the gateway replies
with, publishes and logs.
-/

namespace PolyglotInfinity.Gateway

variable {F : Type}

/-- What a call to a backend meets, and the body of the response if there is one. -/
structure Exchange extends Visit where
  body : Bytes

/-- What `httpClient` makes of it, be it sent by `Get` or by `Post` without a body. -/
def Exchange.outcome (x : Exchange) : Outcome := x.upstream.get

structure RiskCalls where
  python : Exchange
  bulkInsert : Exchange
  riskSummary : Exchange
  kotlin : Exchange
  nim : Exchange

structure RiskStep (F : Type) where
  step : ℕ
  service : String
  action : String
  status : String
  data : Option (GoMap F) := none
  error : Option String := none

structure RiskEvent where
  event : String
  status : String
  elapsedMs : ℤ
  timestamp : String

structure SystemLog where
  source : String
  message : String

structure RiskReply (F : Type) where
  workflow : String
  status : String
  elapsedMs : ℤ
  steps : List (RiskStep F)
  engine : String
  completedAt : String

structure RiskRun (F : Type) where
  published : RiskEvent
  logged : SystemLog
  reply : RiskReply F

/-- The clock at the end of the workflow. -/
structure RiskClock where
  elapsed : ℤ
  timestamp : String
  completedAt : String

/-- A breaker for each name. -/
abbrev Breakers := String → CircuitBreaker

/-- `cbGet`, with the breaker that has the name. -/
def Breakers.get (breakers : Breakers) (name : String) (x : Exchange) : Breakers × Except String ℕ :=
  let (cb, result) := cbGet name (breakers name) x.toVisit
  (Function.update breakers name cb, result)

/-- `httpClient.Post`. -/
def Exchange.post (x : Exchange) : Except String ℕ :=
  match x.outcome with
  | .error text => .error text
  | .response status => .ok status

/-- The entry of a step, the same for each of the five. -/
def riskStep (fl : Floats F) (step : ℕ) (service action : String) (x : Exchange) : Except String ℕ → RiskStep F
  | .ok _ => { step, service, action, status := "ok", data := some (decode fl x.body) }
  | .error err => { step, service, action, status := "error", error := some err }

/-- The overall status after a step. -/
def overall (status : String) : Except String ℕ → String
  | .ok _ => status
  | .error _ => "partial"

def workflowRiskFullHandler (fl : Floats F) (clock : RiskClock) (breakers : Breakers) (calls : RiskCalls) :
    Breakers × RiskRun F :=
  let overallStatus := "ok"
  let (breakers, resp1) := breakers.get "Python-Brain" calls.python
  let step1 := riskStep fl 1 "Python-Brain" "analyze" calls.python resp1
  let overallStatus := overall overallStatus resp1
  let resp2 := calls.bulkInsert.post
  let step2 := riskStep fl 2 "Rust-Pipeline" "bulk-insert" calls.bulkInsert resp2
  let overallStatus := overall overallStatus resp2
  let (breakers, resp3) := breakers.get "Rust-Pipeline" calls.riskSummary
  let step3 := riskStep fl 3 "Rust-Pipeline" "risk-summary" calls.riskSummary resp3
  let overallStatus := overall overallStatus resp3
  let (breakers, resp4) := breakers.get "Kotlin-Scheduler" calls.kotlin
  let step4 := riskStep fl 4 "Kotlin-Scheduler" "report-now" calls.kotlin resp4
  let overallStatus := overall overallStatus resp4
  let (breakers, resp5) := breakers.get "Nim-Analytics" calls.nim
  let step5 := riskStep fl 5 "Nim-Analytics" "garch" calls.nim resp5
  let overallStatus := overall overallStatus resp5
  (breakers, {
    published := {
      event := "risk-full-completed"
      status := overallStatus
      elapsedMs := clock.elapsed
      timestamp := clock.timestamp }
    logged := {
      source := "Go-Workflow"
      message := "risk-full pipeline completed in " ++ toString clock.elapsed ++ "ms status=" ++ overallStatus }
    reply := {
      workflow := "risk-full"
      status := overallStatus
      elapsedMs := clock.elapsed
      steps := [step1, step2, step3, step4, step5]
      engine := "Go-Workflow-v2"
      completedAt := clock.completedAt } })

/-! ### Answers and successes -/

/-- The breaker lets the call through, and the backend answers it. -/
def Exchange.Answered (x : Exchange) (cb : CircuitBreaker) : Prop :=
  (cb.allow x.now).2 = true ∧ x.outcome.isResponse = true

/-- The backend answers with a 2xx status. -/
def Exchange.Succeeds (x : Exchange) : Prop := ∃ status, x.outcome = .response status ∧ 200 ≤ status ∧ status < 300

/-- The reply of the bulk insert says that it succeeded. -/
def saysSuccess (reply : GoMap F) : Bool :=
  match reply.bind (List.lookup "status".toList) with
  | some (.str status) => status = "success".toList
  | _ => false

/-- Every call is answered, whatever the answer. -/
structure RiskCalls.Answered (calls : RiskCalls) (breakers : Breakers) : Prop where
  python : calls.python.Answered (breakers "Python-Brain")
  bulkInsert : calls.bulkInsert.outcome.isResponse = true
  riskSummary : calls.riskSummary.Answered (breakers "Rust-Pipeline")
  kotlin : calls.kotlin.Answered (breakers "Kotlin-Scheduler")
  nim : calls.nim.Answered (breakers "Nim-Analytics")

/-- Every answer is a success. -/
structure RiskCalls.Succeed (calls : RiskCalls) (fl : Floats F) : Prop where
  python : calls.python.Succeeds
  bulkInsert : calls.bulkInsert.Succeeds
  committed : saysSuccess (decode fl calls.bulkInsert.body) = true
  riskSummary : calls.riskSummary.Succeeds
  kotlin : calls.kotlin.Succeeds
  nim : calls.nim.Succeeds

variable {fl : Floats F} {breakers : Breakers} {name : String} {x : Exchange}

theorem overall_ok (status : String) (result : Except String ℕ) :
    overall status result = "ok" ↔ status = "ok" ∧ result.isOk = true := by
  cases result with
  | ok => simp [overall, Except.isOk, Except.toBool]
  | error => simp [overall, Except.isOk, Except.toBool]

theorem get_isOk : (breakers.get name x).2.isOk = true ↔ x.Answered (breakers name) := by
  unfold Breakers.get cbGet Exchange.Answered Exchange.outcome
  cases allowed : ((breakers name).allow x.now).2 with
  | false => simp [allowed, Except.isOk, Except.toBool]
  | true =>
    cases outcome : x.upstream.get with
    | error => simp [allowed, Outcome.isResponse, Except.isOk, Except.toBool]
    | response => simp [allowed, Outcome.isResponse, Except.isOk, Except.toBool]

theorem post_isOk : x.post.isOk = x.outcome.isResponse := by
  unfold Exchange.post
  cases x.outcome with
  | error => rfl
  | response => rfl

theorem get_other {other : String} (ne : other ≠ name) : (breakers.get name x).1 other = breakers other :=
  Function.update_of_ne ne _ _

theorem status_ok_iff (clock : RiskClock) (breakers : Breakers) (calls : RiskCalls) :
    (workflowRiskFullHandler fl clock breakers calls).2.reply.status = "ok" ↔ calls.Answered breakers := by
  simp only [workflowRiskFullHandler, overall_ok, get_isOk, post_isOk, true_and]
  rw [get_other (by decide), get_other (by decide), get_other (by decide), get_other (by decide), get_other (by decide),
    get_other (by decide)]
  constructor
  · rintro ⟨⟨⟨⟨python, bulkInsert⟩, riskSummary⟩, kotlin⟩, nim⟩
    exact ⟨python, bulkInsert, riskSummary, kotlin, nim⟩
  · rintro ⟨python, bulkInsert, riskSummary, kotlin, nim⟩
    exact ⟨⟨⟨⟨python, bulkInsert⟩, riskSummary⟩, kotlin⟩, nim⟩

/-- The status is reported and published as ok only where every step succeeded, unless a failure shows in answers
alone. -/
theorem workflow_ok_iff (fl : Floats F) (clock : RiskClock) (breakers : Breakers) (calls : RiskCalls) :
    ((workflowRiskFullHandler fl clock breakers calls).2.reply.status = "ok" ∨
      (workflowRiskFullHandler fl clock breakers calls).2.published.status = "ok" →
      calls.Answered breakers ∧ calls.Succeed fl) ↔
    (calls.Answered breakers → calls.Succeed fl) := by
  have same : (workflowRiskFullHandler fl clock breakers calls).2.published.status =
      (workflowRiskFullHandler fl clock breakers calls).2.reply.status := rfl
  rw [same, or_self, status_ok_iff]
  exact imp_congr_right fun answered => and_iff_right answered

def integers : Floats ℤ where
  parse q := if q.den = 1 then some q.num else none
  format n := (toString n).toList
  value n := n
  numeral := Json.numeral_int

def answers (status : ℕ) (body : String) : Exchange where
  now := 0
  upstream := .last (.response status)
  later := 0
  body := Runes.encode body.toList

/-- The table of the bulk insert cannot be made. -/
def refusedInsert : RiskCalls where
  python := answers 200 "\x7b\x7d"
  bulkInsert := answers 200
    "\x7b\"status\":\"error\",\"message\":\"DB schema ensure failed: connection refused\",\"inserted_rows\":0\x7d"
  riskSummary := answers 200 "\x7b\x7d"
  kotlin := answers 200 "\x7b\x7d"
  nim := answers 200 "\x7b\x7d"

theorem refusedInsert_reported_ok :
    ¬ ((workflowRiskFullHandler integers ⟨0, "", ""⟩ (fun _ => {}) refusedInsert).2.reply.status = "ok" ∨
        (workflowRiskFullHandler integers ⟨0, "", ""⟩ (fun _ => {}) refusedInsert).2.published.status = "ok" →
      refusedInsert.Answered (fun _ => {}) ∧ refusedInsert.Succeed integers) := by
  intro only_if
  have answered : refusedInsert.Answered fun _ => {} := ⟨⟨rfl, rfl⟩, rfl, ⟨rfl, rfl⟩, ⟨rfl, rfl⟩, ⟨rfl, rfl⟩⟩
  have succeed := (only_if (.inl ((status_ok_iff _ _ _).mpr answered))).2
  have failed : saysSuccess (decode integers refusedInsert.bulkInsert.body) = false := by decide +kernel
  exact Bool.false_ne_true (failed.symm.trans succeed.committed)

/-! ### The reply of the bulk insert -/

section

variable {α : Type}

def jsonString (s : String) : Json := .str (Json.units s.toList)

def jsonMember (name : String) (v : Json) : Utf16 × Json := (Json.units name.toList, v)

/-- The members behind the status, where `value` is the number that stands for a float. -/
def replyMembers (value : α → ℚ) (elapsed : ℕ) (r : PipelineRust.Reply α) : List (Utf16 × Json) :=
  match r.report with
  | none => [
      jsonMember "message" (r.message.elim .null jsonString),
      jsonMember "inserted_rows" (.num r.insertedRows)]
  | some report => [
      jsonMember "inserted_rows" (.num r.insertedRows),
      jsonMember "elapsed_time_ms" (.num elapsed),
      jsonMember "model" (jsonString report.model),
      jsonMember "formula" (jsonString report.formula),
      jsonMember "sample_var_first_krw" (.num (value report.sampleVarFirstKrw)),
      jsonMember "sample_var_last_krw" (.num (value report.sampleVarLastKrw))]

/-- The body of the pipeline. -/
def replyJson (value : α → ℚ) (elapsed : ℕ) (r : PipelineRust.Reply α) : Json :=
  .obj (jsonMember "status" (jsonString r.status) :: replyMembers value elapsed r)

theorem replyMembers_other (value : α → ℚ) (elapsed : ℕ) (r : PipelineRust.Reply α) :
    ∀ name ∈ (replyMembers value elapsed r).map Prod.fst, Runes.ofUtf16 name ≠ "status".toList := by
  unfold replyMembers
  cases r.report with
  | none =>
    show ∀ name ∈ ["message", "inserted_rows"].map fun name => Json.units name.toList, _
    decide +kernel
  | some report =>
    show ∀ name ∈ ["inserted_rows", "elapsed_time_ms", "model", "formula", "sample_var_first_krw",
      "sample_var_last_krw"].map fun name => Json.units name.toList, _
    decide +kernel

theorem lookup_first (key other : List Char) (v : GoValue F) (rest : Entries F) :
    List.lookup other ((key, v) :: rest) = if other = key then some v else rest.lookup other := by
  rw [List.lookup_cons]
  by_cases here : other = key
  · simp [here]
  · have elsewhere : (other == key) = false := beq_false_of_ne here
    rw [elsewhere, if_neg here]

theorem lookup_assign (key other : List Char) (v : GoValue F) (entries : Entries F) :
    (assign key v entries).lookup other = if other = key then some v else entries.lookup other := by
  induction entries with
  | nil => exact lookup_first key other v []
  | cons entry rest ih =>
    obtain ⟨name, w⟩ := entry
    unfold assign
    split
    · next same =>
      rw [lookup_first, lookup_first, ← same]
      split
      · rfl
      · rfl
    · next ne =>
      split
      · exact lookup_first key other v _
      · rw [lookup_first, ih, lookup_first]
        by_cases here : other = key
        · rw [if_pos here, if_pos here, if_neg (here ▸ ne)]
        · rw [if_neg here, if_neg here]

theorem lookup_goEntries {name : List Char} {members : List (Utf16 × Json)} (entries : Entries F)
    (other : ∀ key ∈ members.map Prod.fst, Runes.ofUtf16 key ≠ name) :
    (goEntries fl entries members).lookup name = entries.lookup name := by
  induction members generalizing entries with
  | nil => rfl
  | cons member rest ih =>
    obtain ⟨key, v⟩ := member
    have first : Runes.ofUtf16 key ≠ name := other key List.mem_cons_self
    rw [goEntries, ih _ fun key later => other key (List.mem_cons_of_mem _ later), lookup_assign, if_neg first.symm]

theorem saysSuccess_replyJson (value : α → ℚ) (elapsed : ℕ) (r : PipelineRust.Reply α) :
    saysSuccess (toMap fl (some (replyJson value elapsed r))) =
      decide (Runes.ofUtf16 (Json.units r.status.toList) = "success".toList) := by
  have name : Runes.ofUtf16 (Json.units "status".toList) = "status".toList := by decide +kernel
  rw [saysSuccess, replyJson, toMap, Option.bind_some, jsonMember, goEntries, name,
    lookup_goEntries _ (replyMembers_other value elapsed r), lookup_assign, if_pos rfl]
  rfl

open PipelineRust (Database Row bulkInsert bulkInsert_ends recordCount) in
/-- The pipeline says that it succeeded exactly where its rows were committed. -/
theorem saysSuccess_iff_committed [NatCast α] [Add α] [Mul α] [Div α] [OfScientific α]
    (floats : PipelineRust.Floats α) (db : Database) (table : List (Row α)) (value : α → ℚ) (elapsed : ℕ) :
    saysSuccess (toMap fl (some (replyJson value elapsed (bulkInsert floats db table).1))) = true ↔
      ∃ added, added.length = recordCount ∧ (bulkInsert floats db table).2 = table ++ added := by
  have success : Runes.ofUtf16 (Json.units "success".toList) = "success".toList := by decide +kernel
  have error : Runes.ofUtf16 (Json.units "error".toList) ≠ "success".toList := by decide +kernel
  rw [saysSuccess_replyJson, decide_eq_true_iff]
  rcases bulkInsert_ends floats db table with ⟨status, committed⟩ | ⟨status, kept⟩
  · rw [status]
    exact iff_of_true success committed
  · rw [status, kept]
    refine iff_of_false error ?_
    rintro ⟨added, length, same⟩
    rw [List.self_eq_append_right.mp same, List.length_nil, recordCount] at length
    omega

end

end PolyglotInfinity.Gateway
