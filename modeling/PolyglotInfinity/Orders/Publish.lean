import PolyglotInfinity.Lib.JsonStrings
import PolyglotInfinity.Orders.History

/-!
# The published text of a message

`publishOrderEvent` writes a JSON object without escaping anything in it. What
subscribers read is compared with the message's own texts.
-/

namespace PolyglotInfinity.Orders

open Transition (run)
open Json (feed units plain)

def redisChannel : String := "order-events"

def Message.payload (m : Message) (now : ℤ) : String :=
  "\x7b" ++
    "\"order_id\":\"" ++ m.orderId ++ "\"," ++
    "\"type\":\"" ++ m.type ++ "\"," ++
    "\"event\":\"" ++ m.event ++ "\"," ++
    "\"prev_status\":\"" ++ m.prevStatus ++ "\"," ++
    "\"new_status\":\"" ++ m.newStatus ++ "\"," ++
    "\"channel\":\"" ++ redisChannel ++ "\"," ++
    "\"timestamp\":" ++ toString now ++
  "\x7d"

/-! ### What is meant -/

def payloadKeys : List Utf16 :=
  ["order_id", "type", "event", "prev_status", "new_status", "channel", "timestamp"].map fun key => units key.toList

/-- The texts that a subscriber has to find, and under which keys. -/
def Message.fields (m : Message) : List (String × String) :=
  [("order_id", m.orderId), ("type", m.type), ("event", m.event), ("prev_status", m.prevStatus),
    ("new_status", m.newStatus)]

/-- An object with the keys of the payload and no others, and the given texts under five of them. -/
def Message.Intended (m : Message) : Json → Prop
  | .obj members =>
    (∀ key, key ∈ members.map Prod.fst ↔ key ∈ payloadKeys) ∧
      ∀ field ∈ m.fields, Json.member members (units field.1.toList) = some (.str (units field.2.toList))
  | .null | .bool _ | .num _ | .str _ | .arr _ => False

/-- A text that can stand in a JSON string as it is. -/
def Quotable (text : String) : Prop := text.toList.all plain

instance (text : String) : Decidable (Quotable text) := inferInstanceAs (Decidable (_ = true))

/-- The texts of a message, but for the order's id. -/
structure Message.Worded (m : Message) : Prop where
  type : Quotable m.type
  event : Quotable m.event
  prevStatus : Quotable m.prevStatus
  newStatus : Quotable m.newStatus

/-! ### Reading back -/

variable {stack : List Json.Frame} {members : List (Utf16 × Json)} {name text : Utf16} {m : Message} {now : ℤ}

/-- The payload from the quote behind the order's id. -/
def Message.rest (m : Message) (now : ℤ) : List Char :=
    '"' :: ',' :: '"' :: ("type".toList ++ '"' :: ':' :: '"' :: (m.type.toList ++ '"' :: ',' ::
    '"' :: ("event".toList ++ '"' :: ':' :: '"' :: (m.event.toList ++ '"' :: ',' ::
    '"' :: ("prev_status".toList ++ '"' :: ':' :: '"' :: (m.prevStatus.toList ++ '"' :: ',' ::
    '"' :: ("new_status".toList ++ '"' :: ':' :: '"' :: (m.newStatus.toList ++ '"' :: ',' ::
    '"' :: ("channel".toList ++ '"' :: ':' :: '"' :: (redisChannel.toList ++ '"' :: ',' ::
    '"' :: ("timestamp".toList ++ '"' :: ':' :: ((toString now).toList ++ ['}']))))))))))))

def Message.others (m : Message) (now : ℤ) : List (Utf16 × Json) := [
  (units "type".toList, .str (units m.type.toList)),
  (units "event".toList, .str (units m.event.toList)),
  (units "prev_status".toList, .str (units m.prevStatus.toList)),
  (units "new_status".toList, .str (units m.newStatus.toList)),
  (units "channel".toList, .str (units redisChannel.toList)),
  (units "timestamp".toList, .num now)]

theorem payload_toList : (m.payload now).toList =
    '{' :: '"' :: ("order_id".toList ++ '"' :: ':' :: '"' :: (m.orderId.toList ++ m.rest now)) := by
  have orderId : "\"order_id\":\"".toList = '"' :: ("order_id".toList ++ ['"', ':', '"']) := rfl
  have type : "\"type\":\"".toList = '"' :: ("type".toList ++ ['"', ':', '"']) := rfl
  have event : "\"event\":\"".toList = '"' :: ("event".toList ++ ['"', ':', '"']) := rfl
  have prev : "\"prev_status\":\"".toList = '"' :: ("prev_status".toList ++ ['"', ':', '"']) := rfl
  have new : "\"new_status\":\"".toList = '"' :: ("new_status".toList ++ ['"', ':', '"']) := rfl
  have channel : "\"channel\":\"".toList = '"' :: ("channel".toList ++ ['"', ':', '"']) := rfl
  have timestamp : "\"timestamp\":".toList = '"' :: ("timestamp".toList ++ ['"', ':']) := rfl
  have brace : "\x7b".toList = ['{'] := rfl
  have comma : "\",".toList = ['"', ','] := rfl
  have close : "\x7d".toList = ['}'] := rfl
  unfold Message.payload Message.rest
  simp only [String.toList_append, orderId, type, event, prev, new, channel, timestamp, brace, comma, close,
    List.append_assoc, List.cons_append, List.nil_append]

/-- From within a string value on, the rest of the payload ends the object. -/
theorem run_rest (worded : m.Worded) : run feed ⟨.str text, .member members name :: stack⟩ (m.rest now) =
    Json.put (.obj (members ++ (name, .str text) :: m.others now)) stack := by
  unfold Message.rest
  rw [Json.run_endString, Json.run_name (.inr rfl) (by decide), Json.run_strMember worded.type,
    Json.run_name (.inr rfl) (by decide), Json.run_strMember worded.event,
    Json.run_name (.inr rfl) (by decide), Json.run_strMember worded.prevStatus,
    Json.run_name (.inr rfl) (by decide), Json.run_strMember worded.newStatus,
    Json.run_name (.inr rfl) (by decide), Json.run_strMember (by decide),
    Json.run_name (.inr rfl) (by decide), Json.run_intMember _ rfl]
  simp only [List.append_assoc, List.cons_append, List.nil_append]
  exact Option.bind_fun_some _

/-- What follows the order's id goes on with another member, so the id has to end within the value of one. -/
theorem rest_within {p q : Json.Parser} (h : run feed p (m.rest now) = some q) :
    ∃ text members name stack, p = ⟨.str text, .member members name :: stack⟩ :=
  Json.within_member (by decide) (by decide) h

theorem parse_payload : Json.parse (m.payload now) =
    (run feed ⟨.str [], [.member [] (units "order_id".toList)]⟩ m.orderId.toList).bind fun p =>
      (run feed p (m.rest now)).bind Json.finish := by
  have opened : feed ⟨.value, []⟩ '{' = some ⟨.firstKey, [.obj []]⟩ := rfl
  have quote : feed ⟨.value, [.member [] (units "order_id".toList)]⟩ '"' =
      some ⟨.str [], [.member [] (units "order_id".toList)]⟩ := rfl
  rw [Json.parse, payload_toList, run, opened, Option.bind_some, Json.run_name (.inl rfl) (by decide), run, quote,
    Option.bind_some, Transition.run_concat, Option.bind_assoc]

theorem parse_quotable (worded : m.Worded) (quotable : Quotable m.orderId) :
    Json.parse (m.payload now) =
      some (.obj ((units "order_id".toList, .str (units m.orderId.toList)) :: m.others now)) := by
  rw [parse_payload, Json.run_plain quotable, Option.bind_some, run_rest worded]
  rfl

theorem others_keys : payloadKeys = units "order_id".toList :: (m.others now).map Prod.fst := rfl

theorem payloadKeys_distinct : payloadKeys.Nodup := by decide

theorem intended_members : m.Intended
    (.obj ((units "order_id".toList, .str (units m.orderId.toList)) :: m.others now)) := by
  constructor
  · intro key
    rw [List.map_cons, ← others_keys]
  · intro field member
    have distinct := payloadKeys_distinct
    rw [@others_keys m now] at distinct
    apply Json.member_distinct
    · exact distinct
    · simp only [Message.fields, List.mem_cons, List.not_mem_nil, or_false] at member
      rcases member with rfl | rfl | rfl | rfl | rfl <;> simp [Message.others]

/-- A payload is read as intended exactly if the order's id can stand in it as it is. -/
theorem intended_iff (worded : m.Worded) :
    (∃ v, Json.parse (m.payload now) = some v ∧ m.Intended v) ↔ Quotable m.orderId := by
  constructor
  · rintro ⟨v, parsed, intended⟩
    by_contra special
    rw [parse_payload] at parsed
    obtain ⟨p, readId, parsed⟩ := Option.bind_eq_some_iff.mp parsed
    obtain ⟨q, readRest, finished⟩ := Option.bind_eq_some_iff.mp parsed
    have nothing : Json.Short [] 0 [.member [] (units "order_id".toList)] := by simp [Json.Short, Json.Frame.members]
    obtain ⟨n, short, below⟩ := Json.falls_short special nothing .empty readId
    obtain ⟨text, members, name, stack, rfl⟩ := rest_within readRest
    rw [run_rest worded] at readRest
    cases stack with
    | cons frame stack => cases frame <;> cases readRest <;> contradiction
    | nil =>
      obtain rfl := Option.some.inj readRest
      obtain rfl := Option.some.inj finished
      have found : (units "order_id".toList, Json.str (units m.orderId.toList)) ∈ _ :=
        Json.member_some (intended.2 ("order_id", m.orderId) List.mem_cons_self)
      rw [Nat.zero_add] at short
      rcases List.mem_append.mp found with before | last
      · have bound := Json.grown_nil.mp (below.stack _ List.mem_cons_self _ _ before)
        omega
      · rcases List.mem_cons.mp last with here | other
        · have bound : text.length ≤ n := Json.grown_nil.mp below.text
          simp only [Prod.mk.injEq, Json.str.injEq] at here
          rw [here.2] at short
          omega
        · have distinct := payloadKeys_distinct
          rw [@others_keys m now] at distinct
          exact absurd (List.mem_map_of_mem other) (List.nodup_cons.mp distinct).1
  · intro quotable
    exact ⟨_, parse_quotable worded quotable, intended_members⟩

/-! ### The texts of the messages of a run -/

variable {s s' : State} {e : Event}

/-- Every character with a letter for its upper case can be quoted. -/
theorem upper_plain {c : Char} (upper : ∀ d ∈ upperChar c, d.isUpper) : plain c := by
  by_contra special
  have kind : c = '"' ∨ c = '\\' ∨ c < ' ' := by
    simp only [plain, Bool.and_eq_true, decide_eq_true_eq, not_and, Char.not_le] at special
    by_cases quote : c = '"'
    · exact .inl quote
    · by_cases backslash : c = '\\'
      · exact .inr (.inl backslash)
      · exact .inr (.inr (special ⟨quote, backslash⟩))
  rcases kind with rfl | rfl | control
  · exact absurd (upper '"' (by decide)) (by decide)
  · exact absurd (upper '\\' (by decide)) (by decide)
  · have own : upperChar c = [c.toUpper] := by
      unfold upperChar
      split <;> first | rfl | exact absurd control (by decide)
    have letter := upper c.toUpper (by simp [own])
    have low : c.toNat < 32 := control
    unfold Char.toUpper at letter
    split at letter
    · rename_i small
      have above : 97 ≤ c.toNat := small.1
      omega
    · have above : 65 ≤ c.toNat := (of_decide_eq_true letter).1
      omega

theorem valueOf_upper {text : String} {event : OrderEvent} (h : OrderEvent.valueOf text = some event) :
    text.toList.all Char.isUpper := by
  unfold OrderEvent.valueOf at h
  split at h <;> first | rfl | contradiction

theorem parsePut_quotable {req : Request} {p : String × OrderEvent × String} (h : parsePut req = .ok p) :
    Quotable ((req.param "event").getD "") := by
  unfold parsePut at h
  split at h
  · rename_i id evt _ given
    split at h
    · rename_i event known
      have upper := valueOf_upper known
      rw [given, Option.getD_some]
      unfold Quotable
      rw [toUpperCase, String.toList_ofList, List.all_eq_true] at upper
      rw [List.all_eq_true]
      intro c member
      exact upper_plain fun d letter => upper d (List.mem_flatMap.mpr ⟨c, member, letter⟩)
    · contradiction
  · contradiction

/-- A transaction under way was asked for by a request that has parsed. -/
def Asked (s : State) : Prop :=
  ∀ t, s.db.txs t = .idle ∨ ∃ req p, s.puts t = some req ∧ parsePut req = .ok p

theorem step_asked (asked : Asked s) (h : step s e = some s') : Asked s' := by
  intro u
  have statement {q : DbEvent} {db : Db} (taken : s.db.step q = some db) (later : ∀ k r, q ≠ .begin u k r) :
      db.txs u = .idle ∨ ∃ req p, s.puts u = some req ∧ parsePut req = .ok p := by
    rcases asked u with idle | known
    · exact .inl (RowLock.step_idle taken idle later)
    · exact .inr known
  cases e with
  | post i req now => obtain ⟨-, ⟨reply, -, rfl⟩ | ⟨o, -, -, rfl⟩ | ⟨o, -, -, rfl⟩⟩ := post_eq h <;> exact asked u
  | postFails i req fault => obtain ⟨-, rfl⟩ := postFails_eq h; exact asked u
  | respond i sent => obtain ⟨req, o, row, -, rfl⟩ := respond_eq h; exact asked u
  | announce i => obtain ⟨req, o, reply, -, rfl⟩ := announce_eq h; exact asked u
  | executeSaga i => obtain ⟨req, o, reply, -, rfl⟩ := executeSaga_eq h; exact asked u
  | resolve i success => obtain ⟨o, -, rfl⟩ := resolve_eq h; exact asked u
  | write i now => obtain ⟨o, success, -, -, rfl⟩ := write_eq h; exact asked u
  | writeFails i => obtain ⟨o, success, -, rfl⟩ := writeFails_eq h; exact asked u
  | publishSaga i sent => obtain ⟨o, success, -, rfl⟩ := publishSaga_eq h; exact asked u
  | put t req now =>
    obtain ⟨fresh, ⟨reply, -, rfl⟩ | ⟨id, event, evt, db, parsed, taken, rfl⟩⟩ := put_eq h
    · by_cases same : u = t
      · subst same
        rcases asked u with idle | ⟨_, _, held, -⟩
        · exact .inl idle
        · simp [fresh] at held
      · simpa [same] using asked u
    · by_cases same : u = t
      · subst same
        exact .inr ⟨req, _, Function.update_self _ _ _, parsed⟩
      · have apart : db.txs u = s.db.txs u := RowLock.step_others taken same
        simpa [same, apart] using asked u
  | select t => obtain ⟨db, taken, rfl⟩ := statement_eq h; exact statement taken (by simp)
  | update t => obtain ⟨db, taken, rfl⟩ := statement_eq h; exact statement taken (by simp)
  | commit t =>
    obtain ⟨id, call, row, row', db, -, taken, rfl⟩ := commit_eq h
    exact statement taken (by simp)
  | abort t => obtain ⟨db, taken, rfl⟩ := statement_eq h; exact statement taken (by simp)
  | reply t => obtain ⟨reply, rfl | ⟨req, id, call, row, row', updated, -, -, -, rfl⟩⟩ := reply_eq h <;> exact asked u
  | replyFails t fault => obtain rfl := replyFails_eq h; exact asked u
  | publish m sent => obtain ⟨-, rfl⟩ := publish_eq h; exact asked u

/-- The rows that this server has inserted have a type that can be quoted. -/
def Typed (s : State) : Prop := ∀ p ∈ s.inserts, ∃ row, s.db.table p.2 = some row ∧ Quotable row.type

theorem parsePost_quotable {req : Request} {o : NewOrder} (h : parsePost req = .ok o) : Quotable o.type := by
  obtain ⟨-, side, -⟩ := parsePost_ok h
  rcases side with buy | sell
  · rw [buy]; decide
  · rw [sell]; decide

theorem applyEvent_type {call : TransitionCall} {row row' : Row} (h : applyEvent call row = some row') :
    row'.type = row.type := by
  simp only [applyEvent, Option.ite_none_right_eq_some, Option.some.injEq] at h
  rw [← h.2]

theorem step_typed (sound : Sound s) (typed : Typed s) (h : step s e = some s') : Typed s' := by
  intro p member
  have kept (old : p ∈ s.inserts) : ∃ row, s'.db.table p.2 = some row ∧ Quotable row.type := by
    apply step_row sound.safe _ (fun _ _ _ ok => ok) (typed p old) h
    intro call row row' decided ok
    rw [applyEvent_type decided]
    exact ok
  cases step_effect h with
  | same _ inserts => exact kept (inserts ▸ member)
  | statement _ _ _ inserts => exact kept (inserts ▸ member)
  | commit _ _ inserts => exact kept (inserts ▸ member)
  | write _ _ _ inserts => exact kept (inserts ▸ member)
  | @insert i req o now absent db inserts =>
    by_cases old : p ∈ s.inserts
    · exact kept old
    · obtain ⟨-, ⟨reply, -, rfl⟩ | ⟨o, -, -, rfl⟩ | ⟨o, parsed, -, rfl⟩⟩ := post_eq h
      · exact absurd member old
      · exact absurd member old
      · obtain rfl := List.mem_singleton.mp ((List.mem_append.mp member).resolve_left old)
        exact ⟨pendingRow o now, by simp [RowLock.Store.put], parsePost_quotable parsed⟩

/-- The texts of a message, whose type is the one of its row where a PUT has sent it. -/
structure Message.Written (s : State) (m : Message) : Prop where
  type : Quotable m.type ∨ ∃ row, s.db.table m.orderId = some row ∧ row.type = m.type
  event : Quotable m.event
  prevStatus : Quotable m.prevStatus
  newStatus : Quotable m.newStatus

theorem name_quotable (status : OrderStatus) : Quotable status.name := by cases status <;> decide

theorem Message.Said.written (sound : Sound s) (asked : Asked s) (said : m.Said s) : m.Written s := by
  have posted {i : ℕ} {req : Request} {o : NewOrder} (accepted : (s.posts i).accepted = some (req, o)) :
      Quotable o.type := parsePost_quotable (sound.threads.accepted i req o accepted).1
  have pending : Quotable "PENDING" := by decide
  cases said with
  | insert phase =>
    exact ⟨.inl (posted (by rw [phase]; rfl)), (by decide : Quotable "INSERT"), (by decide : Quotable ""), pending⟩
  | @saga i o success phase =>
    obtain ⟨req, reply, started⟩ := sound.threads.started i o (sound.threads.running i o (by rw [phase]; rfl))
    refine ⟨.inl (posted (by rw [started]; rfl)), ?_, pending, name_quotable _⟩
    cases success with
    | true => exact (by decide : Quotable "SAGA_COMPLETE")
    | false => exact (by decide : Quotable "SAGA_COMPENSATE")
  | @put t req id call row row' updated sent phase found =>
    refine ⟨.inr ⟨updated, found, rfl⟩, ?_, name_quotable _, name_quotable _⟩
    rcases asked t with idle | ⟨req', p, held, parsed⟩
    · rw [phase] at idle
      contradiction
    · obtain rfl := Option.some.inj (sent.symm.trans held)
      exact parsePut_quotable parsed

theorem Message.Written.step (sound : Sound s) (written : m.Written s) (h : step s e = some s') : m.Written s' := by
  refine ⟨written.type.imp_right fun before => ?_, written.event, written.prevStatus, written.newStatus⟩
  apply step_row sound.safe _ (fun _ _ _ same => same) before h
  intro call row row' decided same
  exact (applyEvent_type decided).trans same

structure Texts (s : State) : Prop where
  sound : Sound s
  asked : Asked s
  typed : Typed s
  messages : ∀ m, m ∈ s.outbox ∨ m ∈ s.published → m.Written s

theorem init_texts (table : String → Option Row) : Texts (State.initial table) where
  sound := init_sound table
  asked := fun _ => .inl rfl
  typed := by simp [Typed, State.initial]
  messages := by simp [State.initial]

theorem step_texts (texts : Texts s) (h : step s e = some s') : Texts s' where
  sound := step_sound texts.sound h
  asked := step_asked texts.asked h
  typed := step_typed texts.sound texts.typed h
  messages m member := by
    rcases step_messages h member with old | said
    · exact (texts.messages m old).step texts.sound h
    · exact (said.written texts.sound texts.asked).step texts.sound h

/-- What a subscriber reads of a published change is what was meant, exactly if
the order's id can stand in a JSON string as it is. -/
theorem payload_intended_iff {table : String → Option Row} {events : List Event} {s : State} {i : ℕ} {m : Message}
    (h : run step (State.initial table) events = some s) (posted : (i, m.orderId) ∈ s.inserts)
    (published : m ∈ s.published) (now : ℤ) :
    (∃ v, Json.parse (m.payload now) = some v ∧ m.Intended v) ↔ Quotable m.orderId := by
  have texts : Texts s := Transition.run_invariant (fun _ _ _ => step_texts) (init_texts table) h
  have written := texts.messages m (.inr published)
  refine intended_iff ⟨?_, written.event, written.prevStatus, written.newStatus⟩
  rcases written.type with quotable | ⟨row, found, type⟩
  · exact quotable
  · obtain ⟨row', found', quotable⟩ := texts.typed _ posted
    obtain rfl := Option.some.inj (found.symm.trans found')
    exact type ▸ quotable

def announced (id : String) : List Event :=
  [.post 0 ⟨"id=" ++ id, "c0"⟩ 1, .respond 0 true, .announce 0, .publish ⟨id, "BUY", "", "PENDING", "INSERT", none⟩ true]

theorem payload_intended_iff_plain : ∃ s m, run step (State.initial fun _ => none) (announced "o1") = some s ∧
    m ∈ s.published ∧ ∃ v, Json.parse (m.payload 1700000000000) = some v ∧ m.Intended v := by
  have history : (run step (State.initial fun _ => none) (announced "o1")).map (fun s => (s.inserts, s.published)) =
      some ([(0, "o1")], [⟨"o1", "BUY", "", "PENDING", "INSERT", none⟩]) := by decide +kernel
  obtain ⟨s, h, facts⟩ := Option.map_eq_some_iff.mp history
  obtain ⟨inserts, published⟩ := Prod.mk.inj facts
  have sent : ⟨"o1", "BUY", "", "PENDING", "INSERT", none⟩ ∈ s.published := by
    rw [published]
    exact List.mem_cons_self
  refine ⟨s, _, h, sent, (@payload_intended_iff _ _ _ 0 _ h ?_ sent _).mpr (by decide)⟩
  rw [inserts]
  exact List.mem_cons_self

/-- A quote in the id, percent-encoded in the request, ends the value and begins another member. -/
theorem quote_in_id_adds_key : ¬ ∀ s i m now,
    run step (State.initial fun _ => none) (announced "o1\",\"role\":\"admin") = some s →
    (i, m.orderId) ∈ s.inserts → m ∈ s.published → ∃ v, Json.parse (m.payload now) = some v ∧ m.Intended v := by
  intro law
  have history : (run step (State.initial fun _ => none) (announced "o1\",\"role\":\"admin")).map
      (fun s => (s.inserts, s.published)) = some ([(0, "o1\",\"role\":\"admin")],
        [⟨"o1\",\"role\":\"admin", "BUY", "", "PENDING", "INSERT", none⟩]) := by decide +kernel
  obtain ⟨s, h, facts⟩ := Option.map_eq_some_iff.mp history
  obtain ⟨inserts, published⟩ := Prod.mk.inj facts
  have intended := law s 0 ⟨"o1\",\"role\":\"admin", "BUY", "", "PENDING", "INSERT", none⟩ 1700000000000 h
    (by rw [inserts]; exact List.mem_cons_self) (by rw [published]; exact List.mem_cons_self)
  exact absurd ((intended_iff ⟨by decide, by decide, by decide, by decide⟩).mp intended) (by decide)

end PolyglotInfinity.Orders
