import Mathlib.Data.Int.Notation
import PolyglotInfinity.Lib.Transition

/-!
# The Poller

One `:poll` message of the GenServer, by what the Go API answered. `Jason` is a parameter.
-/

namespace PolyglotInfinity.HubElixir

open Transition (Through)

abbrev Binary := List UInt8

inductive Key where
  | atom (name : String)
  | binary (text : String)
  deriving DecidableEq

/-- The terms of JSON values. -/
inductive Term where
  | null
  | bool (b : Bool)
  | integer (i : ℤ)
  | float (bits : UInt64)
  | binary (text : String)
  | list (items : List Term)
  | map (entries : List (Key × Term))

structure Jason where
  decode : Binary → Option Term
  encode : Term → Option Binary

/-- The exceptions that end a process. -/
inductive Crash where
  | caseClause
  | badMap
  | badMatch
  deriving DecidableEq

def Term.isMap : Term → Bool
  | .map _ => true
  | _ => false

/-- `Map.put` with a binary key. -/
def Term.put (term : Term) (key : String) (value : Term) : Except Crash Term :=
  match term with
  | .map entries => .ok (.map ((.binary key, value) :: entries.filter fun entry => entry.1 ≠ .binary key))
  | _ => .error .badMap

/-- What a map pattern with the key binds. -/
def Term.field (term : Term) (key : String) : Option Term :=
  match term with
  | .map entries => (entries.find? fun entry => entry.1 = .binary key).map Prod.snd
  | _ => none

/-- What `HTTPoison.get` returned. -/
inductive Outcome where
  | ok (statusCode : ℕ) (body : Binary)
  | error (reason : String)

structure Poll where
  outcome : Outcome
  utcNow : String

def errorSnapshot (msg utcNow : String) : Term := .map [
  (.binary "elixir_hub", .binary "online"),
  (.binary "go_status", .binary "error"),
  (.binary "error", .binary msg),
  (.binary "polled_at", .binary utcNow)]

def fetchSnapshot (json : Jason) (poll : Poll) : Except Crash Term :=
  match poll.outcome with
  | .ok 200 body =>
    match json.decode body with
    | some data => do
      let data ← data.put "elixir_hub" (.binary "online")
      data.put "polled_at" (.binary poll.utcNow)
    | none => .ok (errorSnapshot "JSON decode failed" poll.utcNow)
  | .error _ => .ok (errorSnapshot "Go API unreachable" poll.utcNow)
  -- no clause of the outer `case` has another status
  | .ok _ _ => .error .caseClause

inductive Effect where
  | pubsub (topic event : String) (payload : Term)
  | dispatch (encoded : Binary)
  | sendAfter (ms : ℕ)

def message (event : String) (payload : Term) : Term :=
  .map [(.binary "event", .binary event), (.binary "payload", payload)]

/-- `Broadcaster.broadcast`. -/
def broadcast (json : Jason) (event : String) (payload : Term) : List Effect :=
  match json.encode (message event payload) with
  | some encoded => [.dispatch encoded]
  | none => []

def schedulePoll : Effect := .sendAfter 10000

structure Poller where
  snapshot : Term
  effects : List Effect

def Poller.init : Poller :=
  { snapshot := .map [(.atom "status", .binary "initializing")], effects := [schedulePoll] }

def Poller.handlePoll (json : Jason) (s : Poller) (poll : Poll) : Except Crash Poller := do
  let snapshot ← fetchSnapshot json poll
  let sent := .pubsub "system:lobby" "snapshot" snapshot :: broadcast json "snapshot" snapshot ++ [schedulePoll]
  return { s with snapshot, effects := s.effects ++ sent }

/-- The process as long as it lives. -/
def Poller.step (json : Jason) (s : Poller) (poll : Poll) : Option Poller := (s.handlePoll json poll).toOption

/-- The poll stores and broadcasts what it fetched, and schedules the next one. -/
def Served (json : Jason) (s : Poller) (poll : Poll) (t : Poller) : Prop :=
  ∃ encoded, fetchSnapshot json poll = .ok t.snapshot ∧ json.encode (message "snapshot" t.snapshot) = some encoded ∧
    t.effects = s.effects ++ [.pubsub "system:lobby" "snapshot" t.snapshot, .dispatch encoded, schedulePoll]

/-- The Go API is down, or it answers 200 with a body that is a JSON object or no JSON at all. -/
def Outcome.foreseen (json : Jason) : Outcome → Prop
  | .ok statusCode body => statusCode = 200 ∧ ∀ data, json.decode body = some data → data.isMap = true
  | .error _ => True

variable {json : Jason}

theorem put_ok {term : Term} (key : String) (value : Term) (map : term.isMap = true) :
    ∃ result, term.put key value = .ok result ∧ result.isMap = true := by
  cases term with
  | map entries => exact ⟨.map _, rfl, rfl⟩
  | _ => cases map

theorem put_error {key : String} {value term : Term} (other : term.isMap = false) :
    term.put key value = .error .badMap := by
  cases term with
  | map entries => cases other
  | _ => rfl

theorem fetchSnapshot_ok (poll : Poll) :
    (∃ snapshot, fetchSnapshot json poll = .ok snapshot) ↔ poll.outcome.foreseen json := by
  unfold fetchSnapshot Outcome.foreseen
  split
  · rename_i body outcome
    rw [outcome]
    split
    · rename_i data decoded
      cases map : data.isMap with
      | true =>
        obtain ⟨first, put, isMap⟩ := put_ok "elixir_hub" (.binary "online") map
        obtain ⟨second, again, -⟩ := put_ok "polled_at" (.binary poll.utcNow) isMap
        refine iff_of_true ⟨second, ?_⟩ ⟨rfl, ?_⟩
        · rw [put]
          exact again
        · rintro other same
          obtain rfl := Option.some.inj (decoded.symm.trans same)
          exact map
      | false =>
        refine iff_of_false ?_ ?_
        · rintro ⟨snapshot, fetched⟩
          rw [put_error map] at fetched
          cases fetched
        · rintro ⟨-, law⟩
          rw [law data decoded] at map
          cases map
    · rename_i failed
      refine iff_of_true ⟨_, rfl⟩ ⟨rfl, ?_⟩
      rintro data decoded
      rw [failed] at decoded
      cases decoded
  · rename_i reason outcome
    rw [outcome]
    exact iff_of_true ⟨_, rfl⟩ trivial
  · rename_i statusCode body other outcome
    rw [outcome]
    refine iff_of_false ?_ ?_
    · rintro ⟨snapshot, fetched⟩
      cases fetched
    · rintro ⟨ok, -⟩
      exact other ok

theorem handlePoll_served (encodes : ∀ term, (json.encode term).isSome) (s : Poller) (poll : Poll) :
    (∃ t, s.step json poll = some t ∧ Served json s poll t) ↔ poll.outcome.foreseen json := by
  rw [← fetchSnapshot_ok]
  constructor
  · rintro ⟨t, -, encoded, fetched, -⟩
    exact ⟨t.snapshot, fetched⟩
  · rintro ⟨snapshot, fetched⟩
    obtain ⟨encoded, frame⟩ := Option.isSome_iff_exists.mp (encodes (message "snapshot" snapshot))
    let sent := .pubsub "system:lobby" "snapshot" snapshot :: broadcast json "snapshot" snapshot ++ [schedulePoll]
    refine ⟨{ s with snapshot, effects := s.effects ++ sent }, ?_, encoded, fetched, frame, ?_⟩
    · unfold Poller.step Poller.handlePoll
      rw [fetched]
      rfl
    · simp [sent, broadcast, frame]

/-- Every poll is served exactly if the Go API never answers with another status than
200, or with JSON that is no object. -/
theorem polls_served_iff (encodes : ∀ term, (json.encode term).isSome) (polls : List Poll) :
    Through (Poller.step json) (Served json) .init polls ↔ ∀ poll ∈ polls, poll.outcome.foreseen json :=
  Transition.through_iff (fun _ _ _ (_ : True) _ => trivial)
    (fun s poll _ => handlePoll_served encodes s poll) trivial

/-- `Jason`, as far as the Poller needs it while the Go API is down. -/
def outage : Jason where
  decode := fun _ => none
  encode := fun _ => some ("\x7b\"event\":\"snapshot\",\"payload\":\x7b\"elixir_hub\":\"online\"," ++
    "\"error\":\"Go API unreachable\",\"go_status\":\"error\",\"polled_at\":\"2026-01-01T00:00:00Z\"" ++
    "\x7d\x7d").toUTF8.toList

def refusal : Poll := { outcome := .error "econnrefused", utcNow := "2026-01-01T00:00:00Z" }

theorem polls_served_outage :
    (∀ term, (outage.encode term).isSome) ∧
      (Through (Poller.step outage) (Served outage) .init [refusal] ↔
        ∀ poll ∈ [refusal], poll.outcome.foreseen outage) :=
  ⟨fun _ => rfl, polls_served_iff (fun _ => rfl) _⟩

theorem status_500_crashes :
    ¬ ∀ polls, Through (Poller.step outage) (Served outage) .init polls := by
  intro law
  obtain ⟨t, taken, -⟩ := law [{ refusal with outcome := .ok 500 [] }]
  cases taken

end PolyglotInfinity.HubElixir
