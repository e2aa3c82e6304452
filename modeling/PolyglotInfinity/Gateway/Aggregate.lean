import PolyglotInfinity.Gateway.RiskWorkflow
import PolyglotInfinity.Lib.EventStream
import PolyglotInfinity.Lib.Slots

/-!
# The health of all services

`buildAggregate` asks every service at once, each goroutine for a place of its own in the results,
and `aggregateSSEHandler` writes what it finds as a frame of an event stream.
-/

namespace PolyglotInfinity.Gateway

open Transition (run)

structure ServiceInfo where
  name : String
  port : ℕ
  healthURL : String

def services : List ServiceInfo := [
  ⟨"Python-Brain", 8000, "http://localhost:8000/health"⟩,
  ⟨"Rust-Pipeline", 8081, "http://localhost:8081/health"⟩,
  ⟨"Julia-Engine", 8002, "http://localhost:8002/health"⟩,
  ⟨"R-Stats", 8003, "http://localhost:8003/health"⟩,
  ⟨"FSharp-Pricer", 9001, "http://localhost:9001/health"⟩,
  ⟨"OCaml-Risk", 8004, "http://localhost:8004/health"⟩,
  ⟨"Crystal-Gateway", 9002, "http://localhost:9002/health"⟩,
  ⟨"Nim-Analytics", 8005, "http://localhost:8005/health"⟩,
  ⟨"Scala-Streamer", 9003, "http://localhost:9003/health"⟩,
  ⟨"Haskell-Pricer", 8006, "http://localhost:8006/health"⟩,
  ⟨"Ruby-Scorer", 9004, "http://localhost:9004/health"⟩,
  ⟨"Dart-Engine", 9005, "http://localhost:9005/health"⟩,
  ⟨"Gleam-Hub", 4001, "http://localhost:4001/health"⟩,
  ⟨"V-Quant", 4002, "http://localhost:4002/health"⟩,
  ⟨"Erlang-Hot", 4003, "http://localhost:4003/health"⟩,
  ⟨"Kotlin-Scheduler", 9000, "http://localhost:9000/health"⟩,
  ⟨"Elixir-Hub", 4000, "http://localhost:4000/health"⟩,
  ⟨"Swift-Actor", 8008, "http://localhost:8008/health"⟩,
  ⟨"Lua-Stream", 8007, "http://localhost:8007/health"⟩,
  ⟨"Clojure-STM", 8009, "http://localhost:8009/health"⟩,
  ⟨"Java-Loom", 8010, "http://localhost:8010/health"⟩,
  ⟨"Prolog-Solver", 8011, "http://localhost:8011/health"⟩]

structure ServiceResult where
  name : String := ""
  port : ℕ := 0
  status : String := ""
  latencyMs : ℤ := 0

/-- What a request for the health of a service meets, and how long it took. -/
structure Probe where
  outcome : Outcome
  latency : ℤ

def ServiceInfo.result (s : ServiceInfo) (x : Probe) : ServiceResult where
  name := s.name
  port := s.port
  status :=
    match x.outcome with
    | .response 200 => "online"
    | .response _ | .error _ => "offline"
  latencyMs := x.latency

structure Aggregate where
  engine : String := "Go-Aggregate-v1"
  total : ℕ
  online : ℕ
  offline : ℤ
  services : List ServiceResult
  timestamp : String

def aggregate (results : List ServiceResult) (timestamp : String) : Aggregate where
  total := results.length
  online := results.countP (·.status = "online")
  offline := results.length - results.countP (·.status = "online")
  services := results
  timestamp

/-- The goroutine of service `i`; the results are zero before it ends. -/
def probed (probes : ℕ → Probe) (i : ℕ) : ServiceResult :=
  match services[i]? with
  | some s => s.result (probes i)
  | none => {}

/-- `buildAggregate`, where the goroutines end in the order of `ends`; nothing comes of it until
all of them have. -/
def buildAggregate (probes : ℕ → Probe) (ends : List ℕ) (timestamp : String) : Option Aggregate :=
  match run (Slots.step (probed probes)) (Slots.start {} services.length) ends with
  | some s => if s.running = [] then some (aggregate s.slots timestamp) else none
  | none => none

/-! ### The text -/

def ServiceResult.data (r : ServiceResult) : GoValue ℤ := .map [
  ("name".toList, text r.name),
  ("port".toList, .num r.port),
  ("status".toList, text r.status),
  ("latency_ms".toList, .num r.latencyMs)]

/-- The map, whose keys are encoded in their order. -/
def Aggregate.data (a : Aggregate) : GoValue ℤ := .map [
  ("engine".toList, text a.engine),
  ("offline".toList, .num a.offline),
  ("online".toList, .num a.online),
  ("services".toList, .list (a.services.map ServiceResult.data)),
  ("timestamp".toList, text a.timestamp),
  ("total".toList, .num a.total)]

/-- What `json.Marshal` makes of it. -/
def Aggregate.text (a : Aggregate) : List Char := (style integers).write a.data

/-- `fmt.Fprintf(w, "data: %s\n\n", b)`. -/
def Aggregate.frame (a : Aggregate) : List Char := "data: ".toList ++ a.text ++ "\n\n".toList

def Aggregate.json (a : Aggregate) : Json := Json.denote Json.units integers.value a.data

/-! ### What is built -/

variable {probes : ℕ → Probe} {ends : List ℕ} {timestamp : String} {a : Aggregate}

/-- Each service has its own result, in the order of the services. -/
theorem buildAggregate_eq (built : buildAggregate probes ends timestamp = some a) :
    a = aggregate ((List.range services.length).map (probed probes)) timestamp := by
  unfold buildAggregate at built
  split at built
  · rename_i s ran
    split at built
    · rename_i none
      rw [← (Slots.run_written ran).done none, Option.some.inj built]
    · contradiction
  · contradiction

/-- All services in their order, each with what came of its own probe, and their numbers. -/
structure Aggregate.Whole (probes : ℕ → Probe) (a : Aggregate) : Prop where
  services : a.services = (List.range 22).map (probed probes)
  own : ∀ i (service : ServiceInfo), Gateway.services[i]? = some service → a.services[i]? = some (service.result (probes i))
  total : a.total = 22
  online : a.online = a.services.countP (·.status = "online")
  parts : a.online + a.offline = a.total

theorem buildAggregate_whole (built : buildAggregate probes ends timestamp = some a) : a.Whole probes := by
  obtain rfl := buildAggregate_eq built
  have length : ((List.range services.length).map (probed probes)).length = 22 := by
    rw [List.length_map, List.length_range]
    rfl
  refine ⟨rfl, fun i service here => ?_, length, rfl, ?_⟩
  · have inside : i < services.length := (List.getElem?_eq_some_iff.mp here).1
    show ((List.range services.length).map (probed probes))[i]? = _
    rw [List.getElem?_map, List.getElem?_range inside, Option.map_some, probed, here]
  · show ((List.countP _ _ : ℕ) : ℤ) + ((List.length _ : ℕ) - (List.countP _ _ : ℕ) : ℤ) = (List.length _ : ℕ)
    omega

/-! ### What is written -/

theorem escape_printable (c : Char) : ∀ x ∈ escape c, ' ' ≤ x := by
  have digit : ∀ n < 16, ' ' ≤ Nat.digitChar n := by decide
  have pair : ∀ c, ' ' ≤ c → ∀ x ∈ ['\\', c], ' ' ≤ x := by
    intro c printable
    exact List.forall_mem_cons.mpr ⟨by decide, List.forall_mem_singleton.mpr printable⟩
  unfold escape
  split_ifs with quote back formFeed newline carriage tab other
  · rcases quote with rfl | rfl <;> exact pair _ (by decide)
  · exact pair _ (by decide)
  · exact pair _ (by decide)
  · exact pair _ (by decide)
  · exact pair _ (by decide)
  · exact pair _ (by decide)
  · have small : c.toNat < 0x10000 := by
      rcases other with control | rfl | rfl | rfl | rfl | rfl
      · have below : c.toNat < ' '.toNat := control
        exact Nat.lt_trans below (by decide)
      all_goals decide
    have digits : ∀ x ∈ hex4 c.toNat, ' ' ≤ x := by
      intro x member
      simp only [hex4, List.mem_cons, List.not_mem_nil, or_false] at member
      rcases member with rfl | rfl | rfl | rfl <;> exact digit _ (by omega)
    exact List.forall_mem_cons.mpr ⟨by decide, List.forall_mem_cons.mpr ⟨by decide, digits⟩⟩
  · rw [not_or] at other
    exact List.forall_mem_singleton.mpr (Char.not_lt.mp other.1)

theorem digit_printable {c : Char} (digit : c.isDigit) : ' ' ≤ c := by
  have low : '0' ≤ c := (Bool.and_eq_true_iff.mp digit).1 |> of_decide_eq_true
  exact Char.le_trans (by decide) low

theorem numeric_printable {c : Char} (numeral : Json.numeric c) : ' ' ≤ c := by
  simp only [Json.numeric, Bool.or_eq_true, decide_eq_true_eq] at numeral
  rcases numeral with ((((digit | rfl) | rfl) | rfl) | rfl) | rfl
  · exact digit_printable digit
  all_goals decide

theorem style_printable {F : Type} (fl : Floats F) (v : GoValue F) : ∀ x ∈ (style fl).write v, ' ' ≤ x := by
  refine Json.write_all (fun c printable => printable) (fun s x member => ?_) (fun x => ?_) v
  · obtain ⟨c, -, here⟩ := List.mem_flatMap.mp member
    exact escape_printable c x here
  · obtain ⟨⟨d, rest, text, opens, digits⟩, -⟩ := fl.numeral x
    show ∀ c ∈ fl.format x, ' ' ≤ c
    rw [text]
    refine List.forall_mem_cons.mpr ⟨?_, fun c member => numeric_printable (List.all_eq_true.mp digits c member)⟩
    rcases opens with rfl | digit
    · decide
    · exact digit_printable digit

theorem text_oneLine (a : Aggregate) : EventStream.OneLine a.text := by
  intro c member
  have printable := style_printable integers a.data c member
  constructor
  · rintro rfl
    exact absurd printable (by decide)
  · rintro rfl
    exact absurd printable (by decide)

theorem parse_text (a : Aggregate) : Json.parse (String.ofList a.text) = some a.json := by
  rw [Json.parse, String.toList_ofList, Aggregate.text, (style_reads integers).write]
  rfl

end PolyglotInfinity.Gateway
