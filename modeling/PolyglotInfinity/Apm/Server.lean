import Mathlib.Data.List.DropRight
import Mathlib.Data.Rat.Floor
import Mathlib.Data.Nat.Notation
import PolyglotInfinity.Lib.JsonText
import PolyglotInfinity.Lib.Query

/-!
# The metrics server

The requests of the APM server. Each handler runs to its end on the one event
loop once the body is read, so a run is the list of the requests in the order of
their handlers. `JSON.parse` reads nested arrays and objects to any depth, and
`JSON.stringify` throws on those that are too deep for the engine's stack: `nesting`
is how many levels it can write below the three that the server's own answers have.
-/

namespace PolyglotInfinity.Apm

def maxBuffer : ℕ := 100000

section Buffer

variable {α : Type*}

def ingest (buffer events : List α) : List α :=
  let overflow : ℤ := buffer.length + events.length - maxBuffer
  (if overflow > 0 then buffer.drop overflow.toNat else buffer) ++ events

variable {buffer events : List α} {batches : List (List α)}

theorem ingest_suffix {pushed : List α} (held : buffer <:+ pushed) : ingest buffer events <:+ pushed ++ events := by
  have kept : (if (buffer.length + events.length - maxBuffer : ℤ) > 0 then
      buffer.drop (buffer.length + events.length - maxBuffer : ℤ).toNat else buffer) <:+ pushed := by
    split
    · exact (List.drop_suffix _ _).trans held
    · exact held
  obtain ⟨evicted, rfl⟩ := kept
  exact ⟨evicted, by rw [ingest, List.append_assoc]⟩

theorem ingest_length : (ingest buffer events).length =
    max events.length (min (buffer.length + events.length) maxBuffer) := by
  unfold ingest
  simp only [List.length_append]
  split
  · rw [List.length_drop]
    omega
  · omega

/-- The buffer ends with the whole last batch, however long. -/
theorem buffer_eq : batches.foldl ingest [] <:+ batches.flatten ∧ (batches.foldl ingest []).length =
    max (batches.getLast?.getD []).length (min batches.flatten.length maxBuffer) := by
  induction batches using List.reverseRecOn with
  | nil => exact ⟨List.suffix_refl _, rfl⟩
  | append_singleton earlier batch ih =>
    obtain ⟨held, length⟩ := ih
    have part := held.length_le
    rw [List.foldl_concat, List.flatten_concat, List.getLast?_concat, Option.getD_some]
    refine ⟨ingest_suffix held, ?_⟩
    rw [ingest_length, length, List.length_append]
    omega

/-- The buffer is the end of what has been ingested exactly if the last batch
fits into it, and keeps its bound at all times exactly if all batches do. -/
theorem buffer_exact_iff (batches : List (List α)) :
    (batches.foldl ingest [] = batches.flatten.rtake (min batches.flatten.length maxBuffer) ↔
      ∀ batch ∈ batches.getLast?, batch.length ≤ maxBuffer) ∧
    ((∀ earlier, earlier <+: batches → (earlier.foldl ingest []).length ≤ maxBuffer) ↔
      ∀ batch ∈ batches, batch.length ≤ maxBuffer) := by
  constructor
  · obtain ⟨held, length⟩ := @buffer_eq _ batches
    have part := held.length_le
    have whole : batches.foldl ingest [] = batches.flatten.rtake (min batches.flatten.length maxBuffer) ↔
        (batches.foldl ingest []).length = min batches.flatten.length maxBuffer := by
      rw [List.rtake]
      constructor
      · intro same
        rw [same, List.length_drop]
        omega
      · intro same
        rw [← same]
        exact List.suffix_iff_eq_drop.mp held
    rw [whole, length]
    cases last : batches.getLast? with
    | none =>
      rw [List.getLast?_eq_none_iff.mp last]
      simp
    | some batch =>
      rw [last] at length
      simp only [Option.getD_some, Option.mem_some, forall_eq'] at length ⊢
      omega
  · constructor
    · intro bounded batch member
      obtain ⟨earlier, later, rfl⟩ := List.append_of_mem member
      have most := bounded (earlier ++ [batch]) ⟨later, by simp⟩
      rw [(@buffer_eq _ (earlier ++ [batch])).2, List.getLast?_concat, Option.getD_some] at most
      omega
    · intro fits earlier start
      rw [(@buffer_eq _ earlier).2]
      have last : (earlier.getLast?.getD []).length ≤ maxBuffer := by
        cases final : earlier.getLast? with
        | none => exact Nat.zero_le _
        | some batch => exact fits batch (start.subset (List.mem_of_getLast? final))
      omega

/-- One batch that is too long by one event. -/
theorem long_batch_overflows : ¬ ∀ batches : List (List Json),
    batches.foldl ingest [] = batches.flatten.rtake (min batches.flatten.length maxBuffer) ∧
      (batches.foldl ingest []).length ≤ maxBuffer := by
  intro law
  have bounded := (law [List.replicate 100001 (.obj [])]).2
  rw [buffer_eq.2, List.getLast?_singleton, Option.getD_some, List.length_replicate] at bounded
  exact absurd (Nat.le_trans (Nat.le_max_left _ _) bounded) (by decide)

end Buffer

/-! ### Statistics -/

def percentile (sorted : List Extended) (p : ℕ) : Extended :=
  if sorted = [] then 0
  else
    let idx : ℤ := ⌈(p / 100 : ℚ) * sorted.length⌉ - 1
    sorted.getD (max 0 idx).toNat 0

def mathRound : Extended → Extended
  | .fin q => .fin ⌊q + 1 / 2⌋
  | .posInf => .posInf
  | .negInf => .negInf
  | .nan => .nan

structure Stats where
  count : ℕ
  p50 : Extended
  p95 : Extended
  p99 : Extended
  avg : Extended
  max : Extended
  deriving DecidableEq

def computeStats (values : List Extended) : Stats :=
  if values = [] then ⟨0, 0, 0, 0, 0, 0⟩
  else
    -- Equal infinities differ by NaN, which the sort takes for 0.
    let sorted := values.mergeSort fun a b => ¬ 0 < a - b
    let sum := sorted.foldl (· + ·) 0
    { count := sorted.length
      p50 := percentile sorted 50
      p95 := percentile sorted 95
      p99 := percentile sorted 99
      avg := mathRound (sum * .fin (1 / sorted.length))
      max := sorted.getLastD 0 }

/-- `e.name`; `none` is undefined, and so is every such property of a value that is no object. -/
def property (e : Json) (name : String) : Except String (Option Json) :=
  match e with
  | .null => .error ("Cannot read properties of null (reading '" ++ name ++ "')")
  | .obj members => .ok (Json.member members (Json.units name.toList))
  | .bool _ | .num _ | .str _ | .arr _ => .ok none

/-- `byService`, in the order of the first event of each service. -/
abbrev Groups := List (Utf16 × List Extended)

def Groups.push (svc : Utf16) (ms : Extended) : Groups → Groups
  | [] => [(svc, [ms])]
  | (name, values) :: rest =>
    if name = svc then (name, values ++ [ms]) :: rest else (name, values) :: Groups.push svc ms rest

def serviceOf (e : Json) : Utf16 :=
  match property e "service" with
  | .ok (some (.str svc)) => svc
  | _ => Json.units "unknown".toList

def aggregate (acc : Groups × List Extended) (e : Json) : Except String (Groups × List Extended) :=
  match property e "responseMs" with
  | .error message => .error message
  | .ok (some (.num q)) => .ok (acc.1.push (serviceOf e) (binary64 q), acc.2 ++ [binary64 q])
  | .ok _ => .ok acc

structure Metrics where
  totalIngested : ℕ
  overallStats : Stats
  serviceStats : List (Utf16 × Stats)
  recentEvents : List Json

def buildMetrics (buffer : List Json) (limit : ℕ) : Except String Metrics :=
  let clampedLimit := min (max limit 1) 1000
  match buffer.foldlM aggregate ([], []) with
  | .error message => .error message
  | .ok (byService, allResp) => .ok {
      totalIngested := buffer.length
      overallStats := computeStats allResp
      serviceStats := byService.map fun (svc, values) => (svc, computeStats values)
      recentEvents := buffer.rtake clampedLimit }

/-! ### Requests -/

/-- How deep arrays and objects lie in one another in the payload. -/
def Metrics.depth (payload : Metrics) : ℕ :=
  2 + max (if payload.serviceStats = [] then 0 else 1) (Json.depthItems payload.recentEvents)

structure Request where
  method : String
  url : String
  body : String := ""

inductive Reply where
  | noContent
  | health (buffered : ℕ)
  | accepted (accepted total : ℕ)
  | metrics (payload : Metrics)
  /-- A head whose body does not come. -/
  | unended (status : ℕ)
  | error (status : ℕ) (error : String)
  | notFound (path : String)

def limitOf (url : String) : ℕ :=
  match Query.splitFirst '?' url.toList with
  | (_, none) => 100
  | (_, some qs) =>
    let digits (piece : List Char) : Option (List Char) :=
      if "limit=".toList <+: piece then some ((piece.drop 6).takeWhile Char.isDigit) else none
    match ((Query.splitOn '&' qs).filterMap digits).find? (· ≠ []) with
    | some ds => ParseDouble.digits 10 ds
    | none => 100

def handleIngest (buffer : List Json) (body : String) : List Json × Reply :=
  match Json.parse body with
  | none => (buffer, .error 400 "request body must be valid JSON")
  | some (.arr events) => (ingest buffer events, .accepted events.length (ingest buffer events).length)
  | some _ => (buffer, .error 400 "request body must be a JSON array")

def handleRequest (nesting : ℕ) (buffer : List Json) (req : Request) : List Json × Reply :=
  if req.method = "OPTIONS" then (buffer, .noContent)
  else if req.method = "GET" ∧ req.url = "/health" then (buffer, .health buffer.length)
  else if req.method = "POST" ∧ req.url = "/ingest" then handleIngest buffer req.body
  else if req.method = "GET" ∧ "/metrics".toList <+: req.url.toList then
    match buildMetrics buffer (limitOf req.url) with
    -- The rejected promise finds the head sent and leaves the response as it is.
    | .ok payload => (buffer, if payload.depth ≤ nesting + 3 then .metrics payload else .unended 200)
    -- The rejected promise of the handler.
    | .error message => (buffer, .error 500 message)
  else (buffer, .notFound req.url)

def served (nesting : ℕ) (requests : List Request) : List Json :=
  requests.foldl (fun buffer req => (handleRequest nesting buffer req).1) []

/-- The events of a request for `POST /ingest` whose body is an array. -/
def Request.events (req : Request) : Option (List Json) :=
  if req.method = "POST" ∧ req.url = "/ingest" then
    match Json.parse req.body with
    | some (.arr events) => some events
    | _ => none
  else none

def Request.getsMetrics (req : Request) : Bool := req.method = "GET" && "/metrics".toList.isPrefixOf req.url.toList

variable {nesting : ℕ} {buffer : List Json} {acc : Groups × List Extended} {e : Json} {req : Request}

theorem aggregate_ok : (∃ next, aggregate acc e = .ok next) ↔ e.isNull = false := by
  unfold aggregate
  cases e with
  | null => simp [property, Json.isNull]
  | obj members =>
    simp only [property, Json.isNull, iff_true]
    split
    · contradiction
    · exact ⟨_, rfl⟩
    · exact ⟨_, rfl⟩
  | _ => simp [property, Json.isNull]

theorem aggregates_ok : (∃ next, buffer.foldlM aggregate acc = .ok next) ↔ ∀ e ∈ buffer, e.isNull = false := by
  induction buffer generalizing acc with
  | nil => simp [pure, Except.pure]
  | cons e rest ih =>
    rw [List.forall_mem_cons, ← @aggregate_ok acc]
    cases first : aggregate acc e with
    | error message => simp [List.foldlM_cons, first, bind, Except.bind]
    | ok next => simpa [List.foldlM_cons, first, bind, Except.bind] using ih

theorem buildMetrics_ok {limit : ℕ} :
    (∃ payload, buildMetrics buffer limit = .ok payload) ↔ ∀ e ∈ buffer, e.isNull = false := by
  rw [← @aggregates_ok buffer ([], [])]
  unfold buildMetrics
  cases buffer.foldlM aggregate ([], []) <;> simp

theorem buildMetrics_recent {limit : ℕ} {payload : Metrics} (built : buildMetrics buffer limit = .ok payload) :
    payload.totalIngested = buffer.length ∧ payload.recentEvents = buffer.rtake (min (max limit 1) 1000) := by
  unfold buildMetrics at built
  dsimp only at built
  split at built
  · contradiction
  · rw [← Except.ok.inj built]
    exact ⟨rfl, rfl⟩

theorem depthItems_le {items : List Json} {n : ℕ} : Json.depthItems items ≤ n ↔ ∀ e ∈ items, e.depth ≤ n := by
  induction items with
  | nil => simp [Json.depthItems]
  | cons e rest ih => rw [Json.depthItems, max_le_iff, ih, List.forall_mem_cons]

/-- Only the events can make the payload deeper than the answers are by themselves. -/
theorem depth_le {payload : Metrics} :
    payload.depth ≤ nesting + 3 ↔ ∀ e ∈ payload.recentEvents, e.depth ≤ nesting + 1 := by
  rw [← depthItems_le, Metrics.depth]
  split <;> omega

theorem handleRequest_buffer : (handleRequest nesting buffer req).1 = (req.events.map (ingest buffer)).getD buffer := by
  by_cases post : req.method = "POST" ∧ req.url = "/ingest"
  · simp only [handleRequest, handleIngest, Request.events, post, and_self, if_true, String.reduceEq, if_false]
    cases Json.parse req.body with
    | none => simp
    | some body => cases body <;> simp
  · simp only [handleRequest, Request.events, post, if_false, Option.map_none, Option.getD_none]
    split
    · rfl
    · split
      · rfl
      · split
        · cases buildMetrics buffer (limitOf req.url) <;> rfl
        · rfl

theorem served_eq (requests : List Request) :
    served nesting requests = (requests.filterMap Request.events).foldl ingest [] := by
  unfold served
  generalize ([] : List Json) = buffer
  induction requests generalizing buffer with
  | nil => rfl
  | cons req rest ih =>
    rw [List.foldl_cons, ih, handleRequest_buffer]
    cases arrived : req.events <;> simp [arrived]

theorem handleRequest_metrics (get : req.getsMetrics) : (handleRequest nesting buffer req).2 =
    match buildMetrics buffer (limitOf req.url) with
    | .ok payload => if payload.depth ≤ nesting + 3 then .metrics payload else .unended 200
    | .error message => .error 500 message := by
  simp only [Request.getsMetrics, Bool.and_eq_true, decide_eq_true_eq, List.isPrefixOf_iff_prefix] at get
  obtain ⟨method, url⟩ := get
  have other : req.url ≠ "/health" := by
    intro health
    rw [health] at url
    exact absurd url (by decide)
  simp only [handleRequest, method, other, url, String.reduceEq, and_false, false_and, and_self, if_true, if_false]
  cases buildMetrics buffer (limitOf req.url) <;> rfl

/-- A request for the metrics is answered if it finds neither a null in the buffer nor an event among the
recent ones that is nested too deep. -/
theorem metrics_answered (get : req.getsMetrics) :
    (∃ payload, (handleRequest nesting buffer req).2 = .metrics payload) ↔ (∀ e ∈ buffer, e.isNull = false) ∧
      ∀ e ∈ buffer.rtake (min (max (limitOf req.url) 1) 1000), e.depth ≤ nesting + 1 := by
  rw [handleRequest_metrics get, ← @buildMetrics_ok _ (limitOf req.url)]
  cases built : buildMetrics buffer (limitOf req.url) with
  | error message => simp
  | ok payload =>
    rw [← (buildMetrics_recent built).2, ← depth_le]
    by_cases fits : payload.depth ≤ nesting + 3
    · simp [fits]
    · simp [fits]

def post (body : String) : Request := { method := "POST", url := "/ingest", body }

theorem post_eq (body : String) : handleRequest nesting buffer (post body) = handleIngest buffer body := by
  simp [handleRequest, post]

theorem post_accepted {body : String} {events : List Json} (parsed : Json.parse body = some (.arr events)) :
    handleIngest buffer body = (ingest buffer events, .accepted events.length (ingest buffer events).length) := by
  simp [handleIngest, parsed]

theorem post_rejected {body : String} (unparsed : Json.parse body = none) :
    handleIngest buffer body = (buffer, .error 400 "request body must be valid JSON") := by
  simp [handleIngest, unparsed]

def getMetrics : Request := { method := "GET", url := "/metrics?limit=2" }

end PolyglotInfinity.Apm
