import PolyglotInfinity.Lib.JsonText
import PolyglotInfinity.Lib.Runes

/-!
# The status handler

One request for the gateway's status: what it takes from the cache or from the
Python engine, what it stores in the cache, and what it answers. A write to a nil
map panics, and the handler writes to whatever map it decoded.
-/

namespace PolyglotInfinity.Gateway

open Json (Data Parser Reads Style denote depth)
open Transition (run)

abbrev Bytes := List UInt8

/-! ### Go's maps and JSON values -/

/-- What an `interface{}` holds that was decoded from JSON. A map has its entries in
the order of their keys. -/
abbrev GoValue (F : Type) := Data (List Char) F

abbrev Entries (F : Type) := List (List Char × GoValue F)

variable {F : Type}

def assign (key : List Char) (v : GoValue F) : Entries F → Entries F
  | [] => [(key, v)]
  | (other, w) :: rest =>
    if key = other then (key, v) :: rest
    else if key < other then (key, v) :: (other, w) :: rest
    else (other, w) :: assign key v rest

/-- A `map[string]interface{}`; `none` is nil. -/
abbrev GoMap (F : Type) := Option (Entries F)

/-- `m[key] = v`, which panics when `m` is nil. -/
def GoMap.assign (m : GoMap F) (key : String) (v : GoValue F) : Option (Entries F) :=
  Option.map (Gateway.assign key.toList v) m

def text (s : String) : GoValue F := .str s.toList

/-- Go's floating point numbers, as far as `encoding/json` depends on them. -/
structure Floats (F : Type) where
  /-- `ParseFloat`, which fails out of range. -/
  parse : ℚ → Option F
  format : F → List Char
  /-- The exact value of the text. -/
  value : F → ℚ
  numeral : ∀ x, Json.Numeral (format x) (value x)

/-! ### Decoding -/

def maxNestingDepth : ℕ := 10000

mutual

def goValue (fl : Floats F) : Json → GoValue F
  | .null => .null
  | .bool b => .bool b
  | .num q => (fl.parse q).elim .null .num
  | .str s => .str (Runes.ofUtf16 s)
  | .arr items => .list (goItems fl items)
  | .obj members => .map (goEntries fl [] members)

def goItems (fl : Floats F) : List Json → List (GoValue F)
  | [] => []
  | v :: rest => goValue fl v :: goItems fl rest

/-- The members in their order, so that of two with one name the last one counts. -/
def goEntries (fl : Floats F) (entries : Entries F) : List (Utf16 × Json) → Entries F
  | [] => entries
  | (name, v) :: rest => goEntries fl (assign (Runes.ofUtf16 name) (goValue fl v) entries) rest

end

/-- The scanner fails where too much is open. -/
def scanned (v : Json) : Option Json := if depth v ≤ maxNestingDepth then some v else none

def whole (data : Bytes) : Option Json := (Json.parse (String.ofList (Runes.runes 0 data))).bind scanned

/-- The value that a text begins with: what follows an array or an object is not read. -/
def leadingFrom (p : Parser) : List Char → Option Json
  | [] => Json.finish p
  | c :: cs =>
    match p.mode with
    | .finished v => some v
    | _ => (Json.feed p c).bind fun q => leadingFrom q cs

def leading (data : Bytes) : Option Json := (leadingFrom ⟨.value, []⟩ (Runes.runes 0 data)).bind scanned

/-- Into a nil map, which stays nil for anything but an object. -/
def toMap (fl : Floats F) : Option Json → GoMap F
  | some (.obj members) => some (goEntries fl [] members)
  | _ => none

/-- `json.Unmarshal`. -/
def unmarshal (fl : Floats F) (data : Bytes) : GoMap F := toMap fl (whole data)

/-- `json.NewDecoder(body).Decode`. -/
def decode (fl : Floats F) (body : Bytes) : GoMap F := toMap fl (leading body)

/-! ### Encoding -/

def hex4 (n : ℕ) : List Char :=
  [Nat.digitChar (n / 4096), Nat.digitChar (n / 256 % 16), Nat.digitChar (n / 16 % 16), Nat.digitChar (n % 16)]

/-- A character of a string, as it is safe in HTML too. -/
def escape (c : Char) : List Char :=
  if c = '"' ∨ c = '\\' then ['\\', c]
  else if c = Char.ofNat 8 then ['\\', 'b']
  else if c = Char.ofNat 12 then ['\\', 'f']
  else if c = '\n' then ['\\', 'n']
  else if c = '\r' then ['\\', 'r']
  else if c = '\t' then ['\\', 't']
  else if c < ' ' ∨ c = '<' ∨ c = '>' ∨ c = '&' ∨ c = Char.ofNat 0x2028 ∨ c = Char.ofNat 0x2029 then
    '\\' :: 'u' :: hex4 c.toNat
  else [c]

def style (fl : Floats F) : Style (List Char) F Char where
  ascii := id
  body s := s.flatMap escape
  numeral := fl.format

/-- `json.Marshal`. -/
def marshal (fl : Floats F) (v : GoValue F) : Bytes := Runes.encode ((style fl).write v)

/-- `json.NewEncoder(w).Encode`. -/
def encode (fl : Floats F) (v : GoValue F) : Bytes := Runes.encode ((style fl).write v ++ ['\n'])

/-! ### The handler -/

/-- What a request meets: whether the log entry fails, what the script finds in the
cache, and the bodies of the two services, if they answer. -/
structure StatusRequest where
  dbErr : Bool
  cached : Option Bytes
  python : Option Bytes
  rust : Option Bytes

inductive StatusOutcome where
  | panicked
  /-- `stored` is what was set in the cache. -/
  | replied (stored : Option Bytes) (body : Bytes)

def StatusOutcome.replies : StatusOutcome → Bool
  | .panicked => false
  | .replied _ _ => true

def StatusOutcome.stored : StatusOutcome → Option Bytes
  | .panicked => none
  | .replied stored _ => stored

def rustData (fl : Floats F) (rust : Option Bytes) : GoMap F :=
  match rust with
  | some body => decode fl body
  | none => some (assign "message".toList (text "Rust Pipeline is down")
      (assign "status".toList (text "offline") []))

def reply (fl : Floats F) (req : StatusRequest) (engineData : Entries F) : Bytes :=
  let dbStatus := if req.dbErr then "error" else "connected"
  encode fl <| .map <|
    assign "pipeline_node".toList ((rustData fl req.rust).elim .null .map) <|
    assign "engine_analysis".toList (.map engineData) <|
    assign "database".toList (text dbStatus) <|
    assign "status".toList (text "online") <|
    assign "system".toList (text "Go-Backend-v1") []

def statusHandler (fl : Floats F) (req : StatusRequest) : StatusOutcome :=
  match req.cached with
  | some result =>
    match (unmarshal fl result).assign "source" (text "Redis Cache (Lua)") with
    | none => .panicked
    | some engineData => .replied none (reply fl req engineData)
  | none =>
    match req.python with
    | some body =>
      match (decode fl body).assign "source" (text "Python Engine") with
      | none => .panicked
      | some engineData => .replied (some (marshal fl (.map engineData))) (reply fl req engineData)
    | none => .replied none (reply fl req (assign "message".toList (text "Engine is offline") []))

/-! ### Texts that are read back -/

variable {fl : Floats F} {stack : List Json.Frame} {before : Utf16} {c : Char}

theorem isHexDigit_digitChar :
    ∀ n < 16, ParseDouble.isHexDigit (Nat.digitChar n) ∧ ParseDouble.digitVal (Nat.digitChar n) = n := by
  decide

theorem feed_hex4 {n : ℕ} (small : n < 65536) :
    run Json.feed ⟨.hex before [], stack⟩ (hex4 n) = some ⟨.str (before ++ [n.toUInt16]), stack⟩ := by
  obtain ⟨ha, va⟩ := isHexDigit_digitChar (n / 4096) (by omega)
  obtain ⟨hb, vb⟩ := isHexDigit_digitChar (n / 256 % 16) (by omega)
  obtain ⟨hc, vc⟩ := isHexDigit_digitChar (n / 16 % 16) (by omega)
  obtain ⟨hd, vd⟩ := isHexDigit_digitChar (n % 16) (by omega)
  have value : ParseDouble.digits 16 (hex4 n) = n := by
    simp only [hex4, ParseDouble.digits, List.foldl_cons, List.foldl_nil, va, vb, vc, vd]
    omega
  simp only [hex4] at value ⊢
  simp [run, Json.feed, ha, hb, hc, hd, value]

theorem run_escape (c : Char) :
    run Json.feed ⟨.str before, stack⟩ (escape c) = some ⟨.str (before ++ Json.utf16 c), stack⟩ := by
  unfold escape
  split_ifs with quote back formFeed newline carriage tab other
  · rcases quote with rfl | rfl <;> rfl
  · subst back
    rfl
  · subst formFeed
    rfl
  · subst newline
    rfl
  · subst carriage
    rfl
  · subst tab
    rfl
  · have small : c.toNat < 0x10000 := by
      rcases other with control | rfl | rfl | rfl | rfl | rfl
      · have below : c.toNat < ' '.toNat := control
        exact Nat.lt_trans below (by decide)
      all_goals decide
    have unit : Json.utf16 c = [c.toNat.toUInt16] := by rw [Json.utf16, if_pos small]
    rw [unit, ← feed_hex4 small]
    rfl
  · have plain : Json.plain c := by
      rw [not_or] at quote other
      simp [Json.plain, quote, Char.not_lt.mp other.1]
    rw [run, Json.feed_plain plain]
    rfl

theorem run_escaped (s : List Char) :
    run Json.feed ⟨.str before, stack⟩ (s.flatMap escape) = some ⟨.str (before ++ Json.units s), stack⟩ := by
  induction s generalizing before with
  | nil => simp [Json.units]
  | cons c s ih =>
    rw [List.flatMap_cons, Transition.run_concat, run_escape, Option.bind_some, ih]
    simp [Json.units]

theorem style_reads (fl : Floats F) : Reads (style fl) Json.units fl.value Json.feed where
  step _ _ fed := fed
  body s _ _ := run_escaped s
  numeral := fl.numeral

theorem whole_marshal (v : GoValue F) :
    whole (marshal fl v) = scanned (denote Json.units fl.value v) := by
  rw [whole, marshal, Runes.runes_encode, Json.parse, String.toList_ofList, (style_reads fl).write v, Option.bind_some]

/-! ### Nesting -/

def entriesDepth (fl : Floats F) (entries : Entries F) : ℕ :=
  Json.depthMembers (Json.denoteEntries Json.units fl.value entries)

theorem depth_assign (key : List Char) (v : GoValue F) (entries : Entries F) :
    entriesDepth fl (assign key v entries) ≤ max (depth (denote Json.units fl.value v)) (entriesDepth fl entries) := by
  induction entries with
  | nil => exact Nat.le_refl _
  | cons entry rest ih =>
    obtain ⟨other, w⟩ := entry
    simp only [entriesDepth] at ih ⊢
    unfold assign
    split_ifs
    all_goals
      simp only [Json.denoteEntries, Json.depthMembers]
      omega

mutual

theorem depth_goValue (v : Json) : depth (denote Json.units fl.value (goValue fl v)) ≤ depth v := by
  match v with
  | .null | .bool _ | .str _ => exact Nat.le_refl _
  | .num q =>
    cases parsed : fl.parse q <;> simp [goValue, parsed, denote, depth]
  | .arr items => exact Nat.succ_le_succ (depth_goItems items)
  | .obj members =>
    have within := depth_goEntries [] members
    exact Nat.succ_le_succ (Nat.le_trans within (Nat.max_le.mpr ⟨Nat.zero_le _, Nat.le_refl _⟩))

theorem depth_goItems (items : List Json) :
    Json.depthItems (Json.denoteItems Json.units fl.value (goItems fl items)) ≤ Json.depthItems items := by
  match items with
  | [] => exact Nat.le_refl _
  | v :: rest =>
    have first := depth_goValue v
    have others := depth_goItems rest
    simp only [goItems, Json.denoteItems, Json.depthItems]
    omega

theorem depth_goEntries (entries : Entries F) (members : List (Utf16 × Json)) :
    entriesDepth fl (goEntries fl entries members) ≤ max (entriesDepth fl entries) (Json.depthMembers members) := by
  match members with
  | [] => exact Nat.le_max_left _ _
  | (name, v) :: rest =>
    have first := depth_goValue v
    have added : entriesDepth fl _ ≤ _ := depth_assign (Runes.ofUtf16 name) (goValue fl v) entries
    have others := depth_goEntries (assign (Runes.ofUtf16 name) (goValue fl v) entries) rest
    simp only [goEntries, Json.depthMembers]
    omega

end

/-! ### Maps to write to -/

def IsObject (v : Option Json) : Prop := ∃ members, v = some (.obj members)

/-- On a hit the cached text is an object. On a miss the engine fails to answer, or
its body begins with an object. -/
def StatusRequest.Objects (req : StatusRequest) : Prop :=
  match req.cached with
  | some result => IsObject (whole result)
  | none => ∀ body, req.python = some body → IsObject (leading body)

variable {req : StatusRequest} {v : Option Json} {key : String} {w : GoValue F} {data : Bytes}

theorem toMap_object {members : List (Utf16 × Json)} (object : v = some (.obj members)) :
    (toMap fl v).assign key w = some (assign key.toList w (goEntries fl [] members)) := by
  rw [object]
  rfl

theorem toMap_other (other : ¬ IsObject v) : (toMap fl v).assign key w = none := by
  have null : toMap fl v = none := by
    unfold toMap
    split
    · exact absurd ⟨_, rfl⟩ other
    · rfl
  rw [null]
  rfl

theorem replies_iff : (statusHandler fl req).replies = true ↔ req.Objects := by
  unfold statusHandler StatusRequest.Objects
  cases req.cached with
  | some result =>
    by_cases object : IsObject (whole result)
    · obtain ⟨members, whole⟩ := object
      simp only [unmarshal, toMap_object whole, StatusOutcome.replies, true_iff]
      exact ⟨members, whole⟩
    · simp [unmarshal, toMap_other object, StatusOutcome.replies, object]
  | none =>
    cases req.python with
    | none => simp [StatusOutcome.replies]
    | some body =>
      by_cases object : IsObject (leading body)
      · obtain ⟨members, leading⟩ := object
        simp only [decode, toMap_object leading, StatusOutcome.replies, true_iff, Option.some.injEq, forall_eq']
        exact ⟨members, leading⟩
      · simp [decode, toMap_other object, StatusOutcome.replies, object]

theorem scanned_some {v object : Json} (h : scanned v = some object) : v = object ∧ depth v ≤ maxNestingDepth := by
  unfold scanned at h
  split_ifs at h with within
  exact ⟨Option.some.inj h, within⟩

/-- What is stored is an object again, as deep as the one of the engine. -/
theorem stored_object (stored : (statusHandler fl req).stored = some data) : IsObject (whole data) := by
  unfold statusHandler at stored
  cases hit : req.cached with
  | some result =>
    simp only [hit] at stored
    split at stored <;> simp [StatusOutcome.stored] at stored
  | none =>
    cases answer : req.python with
    | none => simp [hit, answer, StatusOutcome.stored] at stored
    | some body =>
      by_cases object : IsObject (leading body)
      · obtain ⟨members, first⟩ := object
        simp only [hit, answer, decode, toMap_object first, StatusOutcome.stored, Option.some.injEq] at stored
        obtain ⟨v, -, limit⟩ := Option.bind_eq_some_iff.mp first
        obtain ⟨rfl, within⟩ := scanned_some limit
        have source := @depth_assign _ fl "source".toList (text "Python Engine") (goEntries fl [] members)
        have decoded := @depth_goEntries _ fl [] members
        have empty : entriesDepth fl [] = 0 := rfl
        have string : depth (denote Json.units fl.value (text "Python Engine")) = 0 := rfl
        have shallow : entriesDepth fl (assign "source".toList (text "Python Engine") (goEntries fl [] members)) + 1 ≤
            maxNestingDepth := by
          simp only [depth] at within
          omega
        rw [← stored, whole_marshal, scanned]
        exact ⟨_, if_pos shallow⟩
      · simp [hit, answer, decode, toMap_other object, StatusOutcome.stored] at stored

/-- A reply comes exactly where there is a map to write to, and what it leaves in the
cache makes no later request panic. -/
theorem statusHandler_replies_iff (fl : Floats F) (req : StatusRequest) :
    ((statusHandler fl req).replies = true ∧
      ∀ data, (statusHandler fl req).stored = some data →
        ∀ later : StatusRequest, later.cached = some data → (statusHandler fl later).replies = true) ↔
      req.Objects := by
  rw [replies_iff]
  refine and_iff_left fun data stored later hit => ?_
  rw [replies_iff, StatusRequest.Objects, hit]
  exact stored_object stored

def numberless : Floats Empty where
  parse _ := none
  format := Empty.elim
  value := Empty.elim
  numeral := Empty.rec

theorem statusHandler_errorPage :
    (statusHandler numberless ⟨false, none, some (Runes.encode "Internal Server Error".toList), none⟩).replies =
      false := by
  decide +kernel

/-! ### One request after another -/

/-- A request finds the cache or does not reach it, and the cached text expires. -/
inductive StatusEvent where
  | request (reached dbErr : Bool) (python rust : Option Bytes)
  | expire

def StatusEvent.python : StatusEvent → Option Bytes
  | .request _ _ python _ => python
  | .expire => none

def statusStep (fl : Floats F) (cache : Option Bytes) : StatusEvent → Option (Option Bytes)
  | .request reached dbErr python rust =>
    match statusHandler fl ⟨dbErr, if reached then cache else none, python, rust⟩ with
    | .panicked => none
    | .replied stored _ => some (if reached then stored.or cache else cache)
  | .expire => some none

def CachedObject (cache : Option Bytes) : Prop := ∀ data, cache = some data → IsObject (whole data)

variable {cache : Option Bytes} {e : StatusEvent}

theorem statusStep_object (cached : CachedObject cache)
    (answer : ∀ body, e.python = some body → IsObject (leading body)) :
    ∃ cache', statusStep fl cache e = some cache' ∧ CachedObject cache' := by
  cases e with
  | expire => exact ⟨none, rfl, fun data none => absurd none (by simp)⟩
  | request reached dbErr python rust =>
    have objects : (⟨dbErr, if reached then cache else none, python, rust⟩ : StatusRequest).Objects := by
      unfold StatusRequest.Objects
      split
      · rename_i result hit
        cases reached with
        | true => exact cached result hit
        | false => exact absurd hit (by simp)
      · exact answer
    have replies := (@replies_iff _ fl _).mpr objects
    have kept (data : Bytes) := @stored_object _ fl ⟨dbErr, if reached then cache else none, python, rust⟩ data
    simp only [statusStep]
    cases outcome : statusHandler fl ⟨dbErr, if reached then cache else none, python, rust⟩ with
    | panicked =>
      rw [outcome] at replies
      contradiction
    | replied stored body =>
      rw [outcome] at kept
      refine ⟨_, rfl, fun data held => ?_⟩
      cases reached with
      | false => exact cached data held
      | true =>
        cases stored with
        | none => exact cached data held
        | some text => exact kept data held

/-- As long as the engine answers with objects no request panics. -/
theorem run_statusStep {events : List StatusEvent} (cached : CachedObject cache)
    (answers : ∀ e ∈ events, ∀ body, e.python = some body → IsObject (leading body)) :
    ∃ cache', run (statusStep fl) cache events = some cache' ∧ CachedObject cache' := by
  induction events generalizing cache with
  | nil => exact ⟨cache, rfl, cached⟩
  | cons e events ih =>
    obtain ⟨next, step, object⟩ := @statusStep_object _ fl _ _ cached (answers e List.mem_cons_self)
    obtain ⟨last, rest, final⟩ := ih object fun e later => answers e (List.mem_cons_of_mem _ later)
    exact ⟨last, Transition.run_cons.mpr ⟨next, step, rest⟩, final⟩

end PolyglotInfinity.Gateway
