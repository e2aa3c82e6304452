import PolyglotInfinity.Gateway.RiskWorkflow
import PolyglotInfinity.Lib.FanIn
import PolyglotInfinity.Lib.SortedMap

/-!
# Data from many services

The handlers that ask several services at once. Each has a goroutine for each service, which
sends what it got into a channel with a place for each of them. The answers come in any order.
-/

namespace PolyglotInfinity.Gateway

open FanIn (Collects)
open Transition (run)

variable {F : Type}

theorem assign_eq (key : List Char) (v : GoValue F) (entries : Entries F) :
    assign key v entries = SortedMap.insert key v entries := by
  induction entries with
  | nil => rfl
  | cons entry rest ih =>
    unfold assign SortedMap.insert
    rw [ih]
    split_ifs <;> rfl

/-! ### The unified report -/

structure Endpoint where
  key : String
  url : String
  deriving DecidableEq

def reportEndpoints : List Endpoint := [
  ⟨"rust_risk", "http://localhost:8081/api/risk/summary"⟩,
  ⟨"python_analysis", "http://localhost:8000/api/analyze"⟩,
  ⟨"julia_mc", "http://localhost:8002/api/julia/simulate?paths=50&days=252&vol=0.20&mu=0.05"⟩,
  ⟨"r_stats", "http://localhost:8003/api/r/stats"⟩,
  ⟨"ocaml_risk", "http://localhost:8004/api/ocaml/risk"⟩,
  ⟨"haskell_mc", "http://localhost:8006/api/haskell/montecarlo?s=100&vol=0.2&mu=0.05&n=500&days=252"⟩]

structure FetchResult (F : Type) where
  key : String
  data : GoMap F

/-- The goroutine of an endpoint, where `get` is the body of the response if there is one. -/
def fetch (fl : Floats F) (get : String → Option Bytes) (ep : Endpoint) : FetchResult F where
  key := ep.key
  data :=
    match get ep.url with
    | some body => decode fl body
    | none => some (assign "status".toList (text "offline") [])

/-- A map in an interface; a nil map is encoded as null. -/
def GoMap.value (m : GoMap F) : GoValue F := m.elim .null .map

def unifiedReport (generatedAt : String) (received : List (FetchResult F)) : Entries F :=
  received.foldl (fun report r => assign r.key.toList r.data.value report) <|
    assign "engine".toList (text "Go-Unified-Report-v1") <|
    assign "generated_at".toList (text generatedAt) []

/-- The reply of `reportHandler`. -/
def reportReply (fl : Floats F) (generatedAt : String) (received : List (FetchResult F)) : Bytes :=
  encode fl (.map (unifiedReport generatedAt received))

/-! ### The comparison of the option prices -/

structure EngineResult (F : Type) where
  engine : String
  data : GoMap F := none
  ms : ℤ
  err : String := ""

/-- The goroutine of an engine, where `get` is what `cbGet` returns, and after how long. -/
def engineResult (fl : Floats F) (get : String → String → Except String Bytes × ℤ) (ep : Endpoint) : EngineResult F :=
  match get ep.key ep.url with
  | (.error err, ms) => { engine := ep.key, err, ms }
  | (.ok body, ms) => { engine := ep.key, data := decode fl body, ms }

inductive EngineReply (F : Type) where
  | error (error : String) (latencyMs : ℤ)
  | ok (data : GoMap F) (latencyMs : ℤ)

def EngineResult.reply (r : EngineResult F) : EngineReply F :=
  if r.err ≠ "" then .error r.err r.ms else .ok r.data r.ms

structure OptionParams where
  s : String
  k : String
  sigma : String
  t : String
  r : String

/-- `q` is the first value of a parameter, or empty. -/
def optionParams (q : String → String) : OptionParams :=
  let get (name default : String) := if q name = "" then default else q name
  { s := get "s" "100", k := get "k" "100", sigma := get "sigma" "0.20", t := get "t" "1.0", r := get "r" "0.05" }

def optionEngines (p : OptionParams) : List Endpoint :=
  let query := "s=" ++ p.s ++ "&k=" ++ p.k ++ "&r=" ++ p.r ++ "&sigma=" ++ p.sigma ++ "&t=" ++ p.t
  [⟨"F#", "http://localhost:9001/api/fsharp/option?" ++ query⟩,
    ⟨"Haskell", "http://localhost:8006/api/haskell/blackscholes?" ++ query⟩,
    ⟨"Python+ZigFFI", "http://localhost:8000/api/analyze"⟩]

structure Comparison (F : Type) where
  workflow : String := "option-compare"
  params : OptionParams
  engines : List (String × EngineReply F)
  engine : String := "Go-Workflow-v1"

/-- The reply of `workflowOptionCompareHandler`. -/
def comparison (params : OptionParams) (received : List (EngineResult F)) : Comparison F where
  params
  engines := SortedMap.fill [] (received.map fun r => (r.engine, r.reply))

/-! ### Any order -/

variable {fl : Floats F} {received : List (FetchResult F)}

theorem unifiedReport_eq (generatedAt : String) (received : List (FetchResult F)) :
    unifiedReport generatedAt received = SortedMap.fill (unifiedReport generatedAt [])
      (received.map fun r => (r.key.toList, r.data.value)) := by
  unfold unifiedReport SortedMap.fill
  rw [List.foldl_map]
  simp only [assign_eq, List.foldl_nil]

theorem fetched_distinct (fl : Floats F) (get : String → Option Bytes) :
    (((reportEndpoints.map (fetch fl get)).map fun r => (r.key.toList, r.data.value)).map Prod.fst).Nodup := by
  have keys : ((reportEndpoints.map (fetch fl get)).map fun r => (r.key.toList, r.data.value)).map Prod.fst =
      reportEndpoints.map fun ep => ep.key.toList := by
    simp [fetch]
  rw [keys]
  decide

theorem engineResult_engine (get : String → String → Except String Bytes × ℤ) (ep : Endpoint) :
    (engineResult fl get ep).engine = ep.key := by
  unfold engineResult
  split <;> rfl

theorem engines_distinct (get : String → String → Except String Bytes × ℤ) (p : OptionParams) :
    ((((optionEngines p).map (engineResult fl get)).map fun r => (r.engine, r.reply)).map Prod.fst).Nodup := by
  have names : (((optionEngines p).map (engineResult fl get)).map fun r => (r.engine, r.reply)).map Prod.fst =
      (optionEngines p).map Endpoint.key := by
    simp [engineResult_engine, Function.comp_def]
  rw [names]
  show ["F#", "Haskell", "Python+ZigFFI"].Nodup
  decide

theorem unifiedReport_perm (get : String → Option Bytes) (generatedAt : String)
    (perm : received.Perm (reportEndpoints.map (fetch fl get))) :
    unifiedReport generatedAt received = unifiedReport generatedAt (reportEndpoints.map (fetch fl get)) := by
  have entries := perm.map fun r => (r.key.toList, r.data.value)
  rw [unifiedReport_eq, unifiedReport_eq generatedAt (reportEndpoints.map _)]
  exact SortedMap.fill_perm entries ((entries.map Prod.fst).nodup_iff.mpr (fetched_distinct fl get))

theorem unifiedReport_lookup (get : String → Option Bytes) (generatedAt : String) {ep : Endpoint}
    (member : ep ∈ reportEndpoints) :
    (unifiedReport generatedAt (reportEndpoints.map (fetch fl get))).lookup ep.key.toList =
      some (fetch fl get ep).data.value := by
  rw [unifiedReport_eq]
  exact SortedMap.lookup_fill (fetched_distinct fl get) (List.mem_map_of_mem (List.mem_map_of_mem member))

theorem comparison_perm (get : String → String → Except String Bytes × ℤ) (params : OptionParams)
    {received : List (EngineResult F)} (perm : received.Perm ((optionEngines params).map (engineResult fl get))) :
    comparison params received = comparison params ((optionEngines params).map (engineResult fl get)) := by
  have entries := perm.map fun r => (r.engine, r.reply)
  unfold comparison
  rw [SortedMap.fill_perm entries ((entries.map Prod.fst).nodup_iff.mpr (engines_distinct get params))]

theorem comparison_lookup (get : String → String → Except String Bytes × ℤ) (params : OptionParams) {ep : Endpoint}
    (member : ep ∈ optionEngines params) :
    (comparison params ((optionEngines params).map (engineResult fl get))).engines.lookup ep.key =
      some (engineResult fl get ep).reply := by
  refine SortedMap.lookup_fill (engines_distinct get params) (List.mem_map.mpr ⟨_, List.mem_map_of_mem member, ?_⟩)
  rw [engineResult_engine]

/-- In whatever order the services answer, no goroutine waits for its send, the handlers of the
report and of the comparison come to their end, no goroutine is left behind then, and the reply
is the same one, in which each service has its own answer. -/
theorem answers_in_any_order (fl : Floats F) :
    (∀ (get : String → Option Bytes) generatedAt es s,
      run (FanIn.step (fetch fl get)) (FanIn.start reportEndpoints) es = some s →
      Collects reportEndpoints (fetch fl get) (reportReply fl generatedAt) es s ∧
        (s.received.length = reportEndpoints.length → ∀ ep ∈ reportEndpoints,
          (unifiedReport generatedAt s.received).lookup ep.key.toList = some (fetch fl get ep).data.value)) ∧
    ∀ (get : String → String → Except String Bytes × ℤ) params es s,
      run (FanIn.step (engineResult fl get)) (FanIn.start (optionEngines params)) es = some s →
      Collects (optionEngines params) (engineResult fl get) (comparison params) es s ∧
        (s.received.length = (optionEngines params).length → ∀ ep ∈ optionEngines params,
          (comparison params s.received).engines.lookup ep.key = some (engineResult fl get ep).reply) := by
  constructor
  · intro get generatedAt es s ran
    refine ⟨FanIn.collects (fun received perm => ?_) ran, fun all ep member => ?_⟩
    · rw [reportReply, reportReply, unifiedReport_perm get generatedAt perm]
    · have balanced := FanIn.run_balanced ran
      rw [← balanced.expected] at all
      rw [unifiedReport_perm get generatedAt (balanced.finished all).2.2]
      exact unifiedReport_lookup get generatedAt member
  · intro get params es s ran
    refine ⟨FanIn.collects (fun received perm => comparison_perm get params perm) ran, fun all ep member => ?_⟩
    have balanced := FanIn.run_balanced ran
    rw [← balanced.expected] at all
    rw [comparison_perm get params (balanced.finished all).2.2]
    exact comparison_lookup get params member

/-- The last service answers first, and none of the others does. -/
def onlyHaskell : List (FanIn.Event Endpoint) :=
  reportEndpoints.reverse.map .send ++ reportEndpoints.map fun _ => .receive

def onlyHaskellUp (url : String) : Option Bytes :=
  if "http://localhost:8006".toList <+: url.toList then some (Runes.encode "\x7b\"var95\":12\x7d".toList) else none

theorem answers_in_any_order_reverse : ∃ s,
    run (FanIn.step (fetch integers onlyHaskellUp)) (FanIn.start reportEndpoints) onlyHaskell = some s ∧
      Collects reportEndpoints (fetch integers onlyHaskellUp) (reportReply integers "2024-01-01T00:00:00Z")
        onlyHaskell s ∧
      (s.received.length = reportEndpoints.length → ∀ ep ∈ reportEndpoints,
        (unifiedReport "2024-01-01T00:00:00Z" s.received).lookup ep.key.toList =
          some (fetch integers onlyHaskellUp ep).data.value) := by
  have ends : (run (FanIn.step (fetch integers onlyHaskellUp)) (FanIn.start reportEndpoints) onlyHaskell).isSome := by
    decide +kernel
  obtain ⟨s, ran⟩ := Option.isSome_iff_exists.mp ends
  exact ⟨s, ran, (answers_in_any_order integers).1 onlyHaskellUp _ _ s ran⟩

end PolyglotInfinity.Gateway
