import PolyglotInfinity.Apm.Collector
import PolyglotInfinity.Apm.Server

/-!
# The batches that the collector sends

`toJsonArray` writes what the metrics server reads.
-/

namespace PolyglotInfinity.Apm

open Transition (run)
open Json (feed units)

/-- `String.replace` of one character. -/
def replace (old : Char) (new : List Char) (cs : List Char) : List Char :=
  cs.flatMap fun c => if c = old then new else [c]

def esc (s : String) : String := String.ofList (replace '"' ['\\', '"'] (replace '\\' ['\\', '\\'] s.toList))

def entry (t : TransactionMetric) : String :=
  "\x7b" ++
    "\"correlationId\":\"" ++ esc t.correlationId ++ "\"," ++
    "\"service\":\"" ++ esc t.service ++ "\"," ++
    "\"endpoint\":\"" ++ esc t.endpoint ++ "\"," ++
    "\"responseMs\":" ++ toString t.responseMs ++ "," ++
    "\"queryMs\":" ++ toString t.queryMs ++ "," ++
    "\"timestamp\":" ++ toString t.timestamp ++
  "\x7d"

def appendEntry (sb : String) : TransactionMetric × ℕ → String
  | (t, i) => (if i > 0 then sb ++ "," else sb) ++ entry t

def toJsonArray (batch : List TransactionMetric) : String := batch.zipIdx.foldl appendEntry "[" ++ "]"

/-! ### What is meant -/

def TransactionMetric.members (t : TransactionMetric) : List (Utf16 × Json) := [
  (units "correlationId".toList, .str (units t.correlationId.toList)),
  (units "service".toList, .str (units t.service.toList)),
  (units "endpoint".toList, .str (units t.endpoint.toList)),
  (units "responseMs".toList, .num t.responseMs),
  (units "queryMs".toList, .num t.queryMs),
  (units "timestamp".toList, .num t.timestamp)]

def TransactionMetric.toJson (t : TransactionMetric) : Json := .obj t.members

def Printable (s : String) : Prop := s.toList.all (' ' ≤ ·)

instance (s : String) : Decidable (Printable s) := inferInstanceAs (Decidable (_ = true))

def TransactionMetric.Printable (t : TransactionMetric) : Prop :=
  Apm.Printable t.correlationId ∧ Apm.Printable t.service ∧ Apm.Printable t.endpoint

instance (t : TransactionMetric) : Decidable t.Printable := inferInstanceAs (Decidable (_ ∧ _ ∧ _))

/-! ### Reading back -/

variable {stack : List Json.Frame} {members : List (Utf16 × Json)} {name text : Utf16} {s : String}

def escaped (c : Char) : List Char :=
  if c = '\\' then ['\\', '\\'] else if c = '"' then ['\\', '"'] else [c]

theorem esc_toList : (esc s).toList = s.toList.flatMap escaped := by
  rw [esc, String.toList_ofList, replace, replace, List.flatMap_assoc]
  congr 1
  funext c
  unfold escaped
  by_cases backslash : c = '\\'
  · subst backslash
    rfl
  · by_cases quote : c = '"' <;> simp [backslash, quote]

theorem run_escaped (c : Char) : run feed ⟨.str text, stack⟩ (escaped c) =
    if ' ' ≤ c then some ⟨.str (text ++ Json.utf16 c), stack⟩ else none := by
  unfold escaped
  by_cases backslash : c = '\\'
  · subst backslash
    rfl
  · by_cases quote : c = '"'
    · subst quote
      rfl
    · simp only [backslash, quote, if_false]
      by_cases printable : ' ' ≤ c
      · rw [if_pos printable, run, Json.feed_plain (by simp [Json.plain, backslash, quote, printable])]
        rfl
      · rw [if_neg printable, run, Json.feed_control (Char.not_le.mp printable)]
        rfl

theorem run_esc (cs : List Char) : run feed ⟨.str text, stack⟩ (cs.flatMap escaped) =
    if cs.all (' ' ≤ ·) then some ⟨.str (text ++ units cs), stack⟩ else none := by
  induction cs generalizing text with
  | nil => simp [units]
  | cons c cs ih =>
    rw [List.flatMap_cons, Transition.run_concat, run_escaped]
    by_cases printable : ' ' ≤ c
    · simp [printable, ih, units]
    · simp [printable]

theorem run_escMember (rest : List Char) :
    run feed ⟨.value, .member members name :: stack⟩ ('"' :: ((esc s).toList ++ '"' :: ',' :: rest)) =
      if Printable s then run feed ⟨.key, .obj (members ++ [(name, .str (units s.toList))]) :: stack⟩ rest
      else none := by
  have quote : feed ⟨.value, .member members name :: stack⟩ '"' = some ⟨.str [], .member members name :: stack⟩ := rfl
  rw [run, quote, Option.bind_some, Transition.run_concat, esc_toList, run_esc]
  by_cases clean : s.toList.all (' ' ≤ ·)
  · rw [if_pos clean, if_pos (c := Printable s) clean, Option.bind_some, Json.run_endString, List.nil_append]
  · rw [if_neg clean, if_neg (c := Printable s) clean]
    rfl

theorem entry_toList (t : TransactionMetric) : (entry t).toList =
    '{' :: '"' :: ("correlationId".toList ++ '"' :: ':' :: '"' :: ((esc t.correlationId).toList ++ '"' :: ',' ::
    '"' :: ("service".toList ++ '"' :: ':' :: '"' :: ((esc t.service).toList ++ '"' :: ',' ::
    '"' :: ("endpoint".toList ++ '"' :: ':' :: '"' :: ((esc t.endpoint).toList ++ '"' :: ',' ::
    '"' :: ("responseMs".toList ++ '"' :: ':' :: ((toString t.responseMs).toList ++ ',' ::
    '"' :: ("queryMs".toList ++ '"' :: ':' :: ((toString t.queryMs).toList ++ ',' ::
    '"' :: ("timestamp".toList ++ '"' :: ':' :: ((toString t.timestamp).toList ++ ['}'])))))))))))) := by
  have cid : "\"correlationId\":\"".toList = '"' :: ("correlationId".toList ++ ['"', ':', '"']) := rfl
  have service : "\"service\":\"".toList = '"' :: ("service".toList ++ ['"', ':', '"']) := rfl
  have endpoint : "\"endpoint\":\"".toList = '"' :: ("endpoint".toList ++ ['"', ':', '"']) := rfl
  have responseMs : "\"responseMs\":".toList = '"' :: ("responseMs".toList ++ ['"', ':']) := rfl
  have queryMs : "\"queryMs\":".toList = '"' :: ("queryMs".toList ++ ['"', ':']) := rfl
  have timestamp : "\"timestamp\":".toList = '"' :: ("timestamp".toList ++ ['"', ':']) := rfl
  have brace : "\x7b".toList = ['{'] := rfl
  have comma : "\",".toList = ['"', ','] := rfl
  have comma' : ",".toList = [','] := rfl
  have close : "\x7d".toList = ['}'] := rfl
  unfold entry
  simp only [String.toList_append, cid, service, endpoint, responseMs, queryMs, timestamp, brace, comma, comma',
    close, List.append_assoc, List.cons_append, List.nil_append]

theorem run_entry {mode : Json.Mode} (before : mode = .firstValue ∨ mode = .value) (t : TransactionMetric) :
    run feed ⟨mode, stack⟩ (entry t).toList = if t.Printable then Json.put t.toJson stack else none := by
  have opened : feed ⟨mode, stack⟩ '{' = some ⟨.firstKey, .obj [] :: stack⟩ := by
    rcases before with rfl | rfl <;> rfl
  rw [entry_toList, run, opened, Option.bind_some, Json.run_name (.inl rfl) (by decide), run_escMember,
    Json.run_name (.inr rfl) (by decide), run_escMember, Json.run_name (.inr rfl) (by decide), run_escMember,
    Json.run_name (.inr rfl) (by decide), Json.run_intComma, Json.run_name (.inr rfl) (by decide), Json.run_intComma,
    Json.run_name (.inr rfl) (by decide), Json.run_intMember _ rfl]
  unfold TransactionMetric.Printable
  by_cases cid : Apm.Printable t.correlationId
  · by_cases service : Apm.Printable t.service
    · by_cases endpoint : Apm.Printable t.endpoint
      · have close : Json.behind ⟨.next, .obj t.members :: stack⟩ '}' = Json.put t.toJson stack := rfl
        simp only [cid, service, endpoint, and_self, if_true]
        show (Json.behind ⟨.next, .obj t.members :: stack⟩ '}').bind _ = _
        rw [close]
        exact Option.bind_fun_some _
      · simp [cid, service, endpoint]
    · simp [cid, service]
  · simp [cid]

/-- The metrics of a batch, each behind a comma. -/
def listed (rest : List TransactionMetric) : List Char := rest.flatMap fun t => ',' :: (entry t).toList

theorem run_listed (items : List Json) (rest : List TransactionMetric) :
    run feed ⟨.next, .arr items :: stack⟩ (listed rest) =
      if ∀ t ∈ rest, t.Printable then some ⟨.next, .arr (items ++ rest.map TransactionMetric.toJson) :: stack⟩
      else none := by
  induction rest generalizing items with
  | nil => simp [listed]
  | cons t rest ih =>
    have comma : feed ⟨.next, .arr items :: stack⟩ ',' = some ⟨.value, .arr items :: stack⟩ := rfl
    show run feed _ (',' :: ((entry t).toList ++ listed rest)) = _
    rw [run, comma, Option.bind_some, Transition.run_concat, run_entry (.inr rfl)]
    by_cases clean : t.Printable
    · simp [clean, Json.put, ih]
    · simp [clean]

theorem appendEntry_toList {i : ℕ} (later : 0 < i) (sb : String) (rest : List TransactionMetric) :
    ((rest.zipIdx i).foldl appendEntry sb).toList = sb.toList ++ listed rest := by
  induction rest generalizing i sb with
  | nil => simp [listed]
  | cons t rest ih =>
    rw [List.zipIdx_cons, List.foldl_cons, ih (Nat.succ_pos i)]
    simp [appendEntry, later, listed]

theorem toJsonArray_toList (batch : List TransactionMetric) :
    (toJsonArray batch).toList = '[' :: ((listed batch).tail ++ [']']) := by
  have close : "]".toList = [']'] := rfl
  unfold toJsonArray
  rw [String.toList_append, close]
  cases batch with
  | nil => rfl
  | cons t rest =>
    rw [List.zipIdx_cons, List.foldl_cons, appendEntry_toList (by decide)]
    simp [appendEntry, listed]

/-- The server reads a batch as it is meant, or not at all. -/
theorem parse_toJsonArray (batch : List TransactionMetric) : Json.parse (toJsonArray batch) =
    if ∀ t ∈ batch, t.Printable then some (.arr (batch.map TransactionMetric.toJson)) else none := by
  have opened : feed ⟨.value, []⟩ '[' = some ⟨.firstValue, [.arr []]⟩ := rfl
  rw [Json.parse, toJsonArray_toList, run, opened, Option.bind_some]
  cases batch with
  | nil => rfl
  | cons t rest =>
    show (run feed _ ((entry t).toList ++ listed rest ++ [']'])).bind _ = _
    rw [Transition.run_concat, Transition.run_concat, run_entry (.inl rfl)]
    by_cases first : t.Printable
    · have stored : Json.put t.toJson [.arr []] = some ⟨.next, [.arr [t.toJson]]⟩ := rfl
      rw [if_pos first, stored, Option.bind_some, run_listed]
      by_cases others : ∀ t ∈ rest, t.Printable
      · rw [if_pos others, if_pos (List.forall_mem_cons.mpr ⟨first, others⟩)]
        rfl
      · rw [if_neg others, if_neg fun all => others (List.forall_mem_cons.mp all).2]
        rfl
    · rw [if_neg first, if_neg fun all => first (List.forall_mem_cons.mp all).1]
      rfl

/-- A batch is read as it is meant exactly if no text in it has a control
character; otherwise the server rejects the whole batch. -/
theorem batch_parses_iff (batch : List TransactionMetric) :
    (Json.parse (toJsonArray batch) = some (.arr (batch.map TransactionMetric.toJson)) ↔
      ∀ t ∈ batch, t.Printable) ∧
    ∀ nesting buffer, ((handleRequest nesting buffer (post (toJsonArray batch))).2 =
        .error 400 "request body must be valid JSON" ↔ ¬ ∀ t ∈ batch, t.Printable) := by
  by_cases clean : ∀ t ∈ batch, t.Printable
  · have parsed := parse_toJsonArray batch
    rw [if_pos clean] at parsed
    refine ⟨⟨fun _ => clean, fun _ => parsed⟩, fun nesting buffer => ?_⟩
    rw [post_eq, post_accepted parsed]
    exact ⟨nofun, fun dirty => absurd clean dirty⟩
  · have unparsed := parse_toJsonArray batch
    rw [if_neg clean] at unparsed
    refine ⟨⟨fun parsed => ?_, fun all => absurd all clean⟩, fun nesting buffer => ?_⟩
    · rw [unparsed] at parsed
      contradiction
    · rw [post_eq, post_rejected unparsed]
      exact ⟨fun _ => clean, fun _ => rfl⟩

/-- A metric of a request for `/x%0Ay`. -/
def newline : TransactionMetric := { ping with endpoint := "/x\ny" }

theorem newline_loses_batch : ¬ ∀ batch : List TransactionMetric,
    Json.parse (toJsonArray batch) = some (.arr (batch.map TransactionMetric.toJson)) := by
  intro law
  have parsed := parse_toJsonArray [ping, newline]
  rw [law, if_neg (by decide)] at parsed
  contradiction

end PolyglotInfinity.Apm
