import PolyglotInfinity.HubElixir.Poller

/-!
# The WebSocket handler

One frame of a client at a time. The state of the handler is the peer of the connection.
-/

namespace PolyglotInfinity.HubElixir

open Transition (Through)

inductive Frame where
  | text (data : Binary)
  | binary (data : Binary)
  | ping (data : Binary)
  | pong (data : Binary)

/-- A frame of the client, and the clock in milliseconds. -/
structure Arrival where
  frame : Frame
  systemTime : ℤ

def pong (ts : ℤ) : Term := .map [(.binary "event", .binary "pong"), (.binary "ts", .integer ts)]

/-- The text frame to reply with, if any, and the state. -/
def websocketHandle (json : Jason) (arrival : Arrival) (state : String) : Except Crash (Option Binary × String) :=
  match arrival.frame with
  | .text data =>
    match json.decode data with
    | some term =>
      match term.field "event" with
      | some (.binary "ping") =>
        match json.encode (pong arrival.systemTime) with
        | some frame => .ok (some frame, state)
        | none => .error .badMatch
      -- the logger's level is `info`, so `debug` does not evaluate its text
      | some _ => .ok (none, state)
      | none => .error .caseClause
    | none => .ok (none, state)
  | _ => .ok (none, state)

structure Handler where
  state : String
  replies : List Binary := []

/-- The process as long as it lives. -/
def Handler.step (json : Jason) (s : Handler) (arrival : Arrival) : Option Handler :=
  (websocketHandle json arrival s.state).toOption.map fun (reply, state) =>
    { s with state, replies := s.replies ++ reply.toList }

/-- A JSON object whose event is "ping". -/
def Frame.pings (json : Jason) : Frame → Prop
  | .text data => ∃ term, json.decode data = some term ∧ term.field "event" = some (.binary "ping")
  | _ => False

/-- The state stays, and the frame is answered exactly if it pings. -/
def Acknowledged (json : Jason) (s : Handler) (arrival : Arrival) (t : Handler) : Prop :=
  t.state = s.state ∧
    ((arrival.frame.pings json ∧ ∃ reply, json.encode (pong arrival.systemTime) = some reply ∧
        t.replies = s.replies ++ [reply]) ∨
      (¬ arrival.frame.pings json ∧ t.replies = s.replies))

/-- A text frame is no JSON, or a JSON object with an event. -/
def Frame.foreseen (json : Jason) : Frame → Prop
  | .text data => ∀ term, json.decode data = some term → (term.field "event").isSome
  | _ => True

variable {json : Jason} {arrival : Arrival} {state : String}

theorem websocketHandle_pings {reply : Binary} (pings : arrival.frame.pings json)
    (encoded : json.encode (pong arrival.systemTime) = some reply) :
    websocketHandle json arrival state = .ok (some reply, state) := by
  unfold Frame.pings at pings
  split at pings
  · rename_i data frame
    obtain ⟨term, decoded, event⟩ := pings
    simp only [websocketHandle, frame, decoded, event, encoded]
  · exact pings.elim

theorem websocketHandle_silent (silent : ¬ arrival.frame.pings json) (foreseen : arrival.frame.foreseen json) :
    websocketHandle json arrival state = .ok (none, state) := by
  unfold websocketHandle
  split
  · rename_i data frame
    rw [frame] at silent foreseen
    split
    · rename_i term decoded
      obtain ⟨event, value⟩ := Option.isSome_iff_exists.mp (foreseen term decoded)
      split
      · rename_i ping
        exact absurd ⟨term, decoded, ping⟩ silent
      · rfl
      · rename_i absent
        rw [absent] at value
        cases value
    · rfl
  · rfl

theorem websocketHandle_crash (unforeseen : ¬ arrival.frame.foreseen json) :
    websocketHandle json arrival state = .error .caseClause := by
  unfold Frame.foreseen at unforeseen
  split at unforeseen
  · rename_i data frame
    simp only [not_forall, Option.not_isSome_iff_eq_none] at unforeseen
    obtain ⟨term, decoded, absent⟩ := unforeseen
    simp only [websocketHandle, frame, decoded, absent]
  · exact (unforeseen trivial).elim

theorem step_acknowledged (encodes : ∀ term, (json.encode term).isSome) (s : Handler) (arrival : Arrival) :
    (∃ t, s.step json arrival = some t ∧ Acknowledged json s arrival t) ↔ arrival.frame.foreseen json := by
  unfold Handler.step
  constructor
  · rintro ⟨t, taken, -⟩
    by_contra unforeseen
    rw [websocketHandle_crash unforeseen] at taken
    cases taken
  · intro foreseen
    by_cases pings : arrival.frame.pings json
    · obtain ⟨reply, encoded⟩ := Option.isSome_iff_exists.mp (encodes (pong arrival.systemTime))
      rw [websocketHandle_pings pings encoded]
      exact ⟨_, rfl, rfl, Or.inl ⟨pings, reply, encoded, rfl⟩⟩
    · rw [websocketHandle_silent pings foreseen]
      exact ⟨_, rfl, rfl, Or.inr ⟨pings, List.append_nil _⟩⟩

/-- Every frame is taken, and answered exactly if it pings, when each text frame is no
JSON or a JSON object with an event. -/
theorem frames_acknowledged_iff (encodes : ∀ term, (json.encode term).isSome) (state : String)
    (arrivals : List Arrival) :
    Through (Handler.step json) (Acknowledged json) { state } arrivals ↔
      ∀ arrival ∈ arrivals, arrival.frame.foreseen json :=
  Transition.through_iff (fun _ _ _ (_ : True) _ => trivial)
    (fun s arrival _ => step_acknowledged encodes s arrival) trivial

def emptyArray : Binary := [91, 93]

/-- The bytes of an object whose event is "ping". -/
def pingText : Binary := [123, 34, 101, 118, 101, 110, 116, 34, 58, 34, 112, 105, 110, 103, 34, 125]

/-- `Jason`, as far as a session with pings, empty arrays and texts that are no JSON needs it. -/
def arrays : Jason where
  decode data :=
    if data = emptyArray then some (.list [])
    else if data = pingText then some (.map [(.binary "event", .binary "ping")])
    else none
  encode
    | .map [(.binary "event", .binary "pong"), (.binary "ts", .integer ts)] =>
      some ("\x7b\"event\":\"pong\",\"ts\":" ++ toString ts ++ "\x7d").toUTF8.toList
    | _ => some "null".toUTF8.toList

theorem arrays_encodes (term : Term) : (arrays.encode term).isSome := by
  simp only [arrays]
  split <;> rfl

def arrayArrival : Arrival := { frame := .text emptyArray, systemTime := 0 }

/-- Two pings, a text that is no JSON, and a frame that is no text. -/
def pinging : List Arrival :=
  [⟨.text pingText, 5⟩, ⟨.text [104, 105], 6⟩, ⟨.binary [0], 7⟩, ⟨.text pingText, 8⟩]

theorem frames_acknowledged_pinging :
    Through (Handler.step arrays) (Acknowledged arrays) { state := "peer" } pinging := by
  have ping : (Frame.text pingText).foreseen arrays := by
    intro term decoded
    obtain rfl : .map [(.binary "event", .binary "ping")] = term := Option.some.inj decoded
    rfl
  have junk : (Frame.text [104, 105]).foreseen arrays := nofun
  refine (frames_acknowledged_iff arrays_encodes _ _).mpr ?_
  simp only [pinging, List.forall_mem_cons]
  exact ⟨ping, junk, trivial, ping, nofun⟩

theorem array_crashes :
    ¬ ∀ arrivals, Through (Handler.step arrays) (Acknowledged arrays) { state := "peer" } arrivals := by
  intro law
  obtain ⟨t, taken, -⟩ := law [arrayArrival]
  have unforeseen : ¬ arrayArrival.frame.foreseen arrays := by
    intro foreseen
    have event := foreseen (.list []) rfl
    cases event
  unfold Handler.step at taken
  rw [websocketHandle_crash unforeseen] at taken
  cases taken

end PolyglotInfinity.HubElixir
