import Mathlib.Data.List.Infix
import PolyglotInfinity.Gateway.Hub

/-!
# What a client of the hub is sent

The messages that the hub puts into one client's channel, against the sequence of
broadcasts. A subscriber is the hub as one client sees it: its own channel and
membership, and the broadcasts. The hub refines it, for every client.
-/

namespace PolyglotInfinity.Gateway

open Transition (run)

/-- What is noted about one client along a run. -/
structure Record where
  broadcasts : List Message := []
  /-- How many broadcasts had begun when the client was registered. -/
  started : Option ℕ := none
  /-- How many were over when it was dropped; the one that finds the buffer full is not. -/
  ended : Option ℕ := none
  queued : List Message := []

def Record.offer (r : Record) (msg : Message) (ch : Channel Message) : Record :=
  match ch.trySend msg with
  | .panicked => r
  | .sent _ => { r with queued := r.queued ++ [msg] }
  | .full => { r with ended := some (r.broadcasts.length - 1) }

def Record.note (c : ℕ) (h : Hub) (r : Record) : HubEvent → Record
  | .register d => if d = c then { r with started := some r.broadcasts.length } else r
  | .unregister d => if d = c ∧ c ∈ h.clients then { r with ended := some r.broadcasts.length } else r
  | .broadcast msg => { r with broadcasts := r.broadcasts ++ [msg] }
  | .visit d =>
    match h.loop with
    | .ranging msg _ => if d = c then r.offer msg (h.send c) else r
    | _ => r
  | .ranged => r
  | .drain _ => r

/-- The hub's step, with the notes about client `c`. -/
def follow (c : ℕ) (w : Hub × Record) (e : HubEvent) : Option (Hub × Record) :=
  (w.1.step e).map fun h => (h, w.2.note c w.1 e)

/-- The message of the loop that has not reached the client. -/
def Hub.offered (h : Hub) (c : ℕ) : Option Message :=
  match h.loop with
  | .ranging msg rest => if c ∈ rest then some msg else none
  | _ => none

/-- How many broadcasts have been settled for the client: all that were over when it
was dropped, or all but the one that still has to reach it. -/
def Record.due (r : Record) (offered : Option Message) : ℕ :=
  r.ended.getD (if offered.isSome then r.broadcasts.length - 1 else r.broadcasts.length)

structure Subscriber where
  send : Channel Message
  listed : Bool
  offered : Option Message
  record : Record

/-- The events of one client, and the broadcasts. -/
inductive Own where
  | register
  | unregister
  | broadcast (msg : Message)
  | visit
  | drain

def HubEvent.own (c : ℕ) : HubEvent → Option Own
  | .register d => if d = c then some .register else none
  | .unregister d => if d = c then some .unregister else none
  | .broadcast msg => some (.broadcast msg)
  | .visit d => if d = c then some .visit else none
  | .ranged => none
  | .drain d => if d = c then some .drain else none

def Subscriber.drop (s : Subscriber) : Subscriber :=
  { s with send := { s.send with closed := true }, listed := false }

def Subscriber.step (s : Subscriber) : Own → Option Subscriber
  | .register =>
    if s.offered = none ∧ s.record.started = none then
      some { s with listed := true, record := { s.record with started := some s.record.broadcasts.length } }
    else none
  | .unregister =>
    if s.offered = none then
      some (if s.listed then { s.drop with record := { s.record with ended := some s.record.broadcasts.length } } else s)
    else none
  | .broadcast msg =>
    if s.offered = none then
      some { s with
        offered := if s.listed then some msg else none
        record := { s.record with broadcasts := s.record.broadcasts ++ [msg] } }
    else none
  | .visit => s.offered.bind fun msg =>
    let s := { s with offered := none, record := s.record.offer msg s.send }
    match s.send.trySend msg with
    | .panicked => none
    | .sent ch => some { s with send := ch }
    | .full => some s.drop
  | .drain => s.send.receive.map fun r => { s with send := r.2 }

/-- The queue is the segment of the broadcasts from the registration on, up to those
that are settled; it stays open as long as the client is listed. -/
structure Segment (s : Subscriber) : Prop where
  unheard : s.record.started = none → s.listed = false ∧ s.record.ended = none ∧ s.record.queued = []
  listed : s.record.started ≠ none → (s.listed = true ↔ s.record.ended = none)
  offered : ∀ msg, s.offered = some msg → s.listed = true ∧ ∃ past, s.record.broadcasts = past ++ [msg]
  within : ∀ first, s.record.started = some first →
    first ≤ s.record.due s.offered ∧ s.record.due s.offered ≤ s.record.broadcasts.length
  queued : ∀ first, s.record.started = some first →
    s.record.queued = (s.record.broadcasts.take (s.record.due s.offered)).drop first

section Subscriber

variable {s t : Subscriber}

theorem due_settled {r : Record} {past : List Message} {msg : Message} (log : r.broadcasts = past ++ [msg])
    (going : r.ended = none) : r.due (some msg) = past.length := by
  simp [Record.due, going, log]

theorem due_over {r : Record} (going : r.ended = none) : r.due none = r.broadcasts.length := by
  simp [Record.due, going]

theorem Segment.begun (segment : Segment s) (here : s.listed = true) : s.record.started ≠ none := by
  intro new
  have absent := (segment.unheard new).1
  rw [here] at absent
  cases absent

theorem Segment.going (segment : Segment s) (here : s.listed = true) : s.record.ended = none :=
  (segment.listed (segment.begun here)).mp here

theorem register_segment (segment : Segment s) (taken : s.step .register = some t) : Segment t := by
  simp only [Subscriber.step, Option.ite_none_right_eq_some, Option.some.injEq] at taken
  obtain ⟨⟨idle, new⟩, rfl⟩ := taken
  obtain ⟨-, going, empty⟩ := segment.unheard new
  refine ⟨by simp, by simp [going], by simp [idle], fun first starts => ?_, fun first starts => ?_⟩
  · simp only [Option.some.injEq] at starts
    subst first
    simp [Record.due, going, idle]
  · simp only [Option.some.injEq] at starts
    subst first
    simp [Record.due, going, idle, empty]

theorem unregister_segment (segment : Segment s) (taken : s.step .unregister = some t) : Segment t := by
  simp only [Subscriber.step, Option.ite_none_right_eq_some, Option.some.injEq] at taken
  obtain ⟨idle, rfl⟩ := taken
  split
  · rename_i here
    have whole := due_over (segment.going here)
    refine ⟨fun new => absurd new (segment.begun here), by simp [Subscriber.drop], by simp [Subscriber.drop, idle],
      fun first starts => ?_, fun first starts => ?_⟩
    · have bounds := segment.within first starts
      rw [idle, whole] at bounds
      simpa [Record.due] using bounds
    · have queued := segment.queued first starts
      rw [idle, whole] at queued
      simpa [Record.due] using queued
  · exact segment

/-- A broadcast settles nothing yet: it is either still to be offered, or comes after the end. -/
theorem due_broadcast (segment : Segment s) (idle : s.offered = none) {first : ℕ}
    (starts : s.record.started = some first) (msg : Message) :
    Record.due { s.record with broadcasts := s.record.broadcasts ++ [msg] } (if s.listed then some msg else none) =
      s.record.due s.offered := by
  have listed := segment.listed (by simp [starts])
  by_cases here : s.listed = true
  · simp [Record.due, here, listed.mp here, idle]
  · obtain ⟨stop, ended⟩ := Option.ne_none_iff_exists'.mp (mt listed.mpr here)
    simp [Record.due, ended]

theorem broadcast_segment {msg : Message} (segment : Segment s) (taken : s.step (.broadcast msg) = some t) :
    Segment t := by
  simp only [Subscriber.step, Option.ite_none_right_eq_some, Option.some.injEq] at taken
  obtain ⟨idle, rfl⟩ := taken
  refine ⟨segment.unheard, segment.listed, fun m offered => ?_, fun first starts => ?_, fun first starts => ?_⟩
  · simp only [Option.ite_none_right_eq_some, Option.some.injEq] at offered
    obtain ⟨here, rfl⟩ := offered
    exact ⟨here, s.record.broadcasts, rfl⟩
  · have bounds := segment.within first starts
    rw [due_broadcast segment idle starts, List.length_append]
    omega
  · rw [due_broadcast segment idle starts, List.take_append_of_le_length (segment.within first starts).2]
    exact segment.queued first starts

theorem visit_segment (segment : Segment s) (taken : s.step .visit = some t) : Segment t := by
  simp only [Subscriber.step, Option.bind_eq_some_iff] at taken
  obtain ⟨msg, offered, taken⟩ := taken
  obtain ⟨here, past, log⟩ := segment.offered msg offered
  have begun := segment.begun here
  have going := segment.going here
  have reached : ∀ first, s.record.started = some first →
      first ≤ past.length ∧ s.record.queued = past.drop first := by
    intro first starts
    have bounds := segment.within first starts
    have queued := segment.queued first starts
    rw [offered, due_settled log going] at bounds queued
    rw [log, List.take_left] at queued
    exact ⟨bounds.1, queued⟩
  cases tried : s.send.trySend msg with
  | panicked => simp [tried] at taken
  | sent ch =>
    simp only [tried, Option.some.injEq] at taken
    subst t
    have kept : s.record.offer msg s.send = { s.record with queued := s.record.queued ++ [msg] } := by
      simp [Record.offer, tried]
    have whole := @due_over { s.record with queued := s.record.queued ++ [msg] } going
    rw [kept]
    refine ⟨fun new => absurd new begun, segment.listed, by simp, fun first starts => ?_, fun first starts => ?_⟩
    · obtain ⟨soon, -⟩ := reached first starts
      show first ≤ Record.due _ none ∧ Record.due _ none ≤ s.record.broadcasts.length
      rw [whole, log, List.length_append]
      omega
    · obtain ⟨soon, queued⟩ := reached first starts
      show s.record.queued ++ [msg] = (s.record.broadcasts.take (Record.due _ none)).drop first
      rw [whole, List.take_length, log, List.drop_append_of_le_length soon, ← queued]
  | full =>
    simp only [tried, Option.some.injEq] at taken
    subst t
    have kept : s.record.offer msg s.send = { s.record with ended := some past.length } := by
      simp [Record.offer, tried, log]
    rw [kept]
    refine ⟨fun new => absurd new begun, by simp [Subscriber.drop], by simp [Subscriber.drop],
      fun first starts => ?_, fun first starts => ?_⟩
    · obtain ⟨soon, -⟩ := reached first starts
      simp [Record.due, Subscriber.drop, log, soon]
    · obtain ⟨-, queued⟩ := reached first starts
      simp [Record.due, Subscriber.drop, log, queued]

theorem step_segment {e : Own} (segment : Segment s) (taken : s.step e = some t) : Segment t := by
  cases e with
  | register => exact register_segment segment taken
  | unregister => exact unregister_segment segment taken
  | broadcast msg => exact broadcast_segment segment taken
  | visit => exact visit_segment segment taken
  | drain =>
    simp only [Subscriber.step, Option.map_eq_some_iff] at taken
    obtain ⟨r, -, rfl⟩ := taken
    exact ⟨segment.unheard, segment.listed, segment.offered, segment.within, segment.queued⟩

end Subscriber

def view (c : ℕ) (w : Hub × Record) : Subscriber := ⟨w.1.send c, decide (c ∈ w.1.clients), w.1.offered c, w.2⟩

structure Followed (c : ℕ) (w : Hub × Record) : Prop where
  orderly : Orderly w.1
  fresh : w.2.started = none ↔ w.1.life c = .fresh

variable {c : ℕ} {h h' : Hub} {r : Record}

@[simp] theorem offer_started (r : Record) (msg : Message) (ch : Channel Message) :
    (r.offer msg ch).started = r.started := by
  unfold Record.offer
  split <;> rfl

theorem note_started (e : HubEvent) :
    (r.note c h e).started = none ↔ r.started = none ∧ ∀ d, e = .register d → d ≠ c := by
  cases e with
  | register d => by_cases same : d = c <;> simp [Record.note, same]
  | unregister d => by_cases drops : d = c ∧ c ∈ h.clients <;> simp [Record.note, drops]
  | visit d =>
    unfold Record.note
    cases h.loop with
    | ranging msg rest => by_cases same : d = c <;> simp [same]
    | _ => simp
  | _ => simp [Record.note]

@[simp] theorem drop_life (h : Hub) (d : ℕ) : (h.drop d).life = h.life := by
  unfold Hub.drop
  split <;> rfl

theorem step_life {e : HubEvent} (taken : h.step e = some h') :
    h'.life c = .fresh ↔ h.life c = .fresh ∧ ∀ d, e = .register d → d ≠ c := by
  cases e with
  | register d =>
    obtain ⟨-, new, rfl⟩ := register_eq.mp taken
    by_cases same : d = c
    · simp [same]
    · simp [same, Ne.symm same]
  | unregister d =>
    obtain ⟨-, registered, gone⟩ := unregister_eq.mp taken
    have left : Function.update h.life d .unregistered c = .fresh ↔ h.life c = .fresh := by
      by_cases same : d = c
      · subst d
        simp [registered]
      · simp [Ne.symm same]
    rcases gone with ⟨-, rfl⟩ | ⟨-, rfl⟩ <;> simpa using left
  | broadcast msg => simp [(broadcast_eq.mp taken).2]
  | visit d =>
    obtain ⟨msg, rest, -, -, ⟨-, rfl⟩ | ⟨ch, -, rfl⟩ | ⟨-, rfl⟩⟩ := visit_eq.mp taken <;> simp
  | ranged =>
    obtain ⟨msg, -, rfl⟩ := ranged_eq.mp taken
    simp
  | drain d =>
    obtain ⟨-, r, -, rfl⟩ := drain_eq.mp taken
    simp

theorem drop_view (live : (h.send c).closed = false) : view c (h.drop c, r) = (view c (h, r)).drop := by
  rw [drop_eq live]
  simp [view, Subscriber.drop, Hub.offered]

theorem drop_view_other {d : ℕ} (live : (h.send d).closed = false) (other : d ≠ c) :
    view c (h.drop d, r) = view c (h, r) := by
  rw [drop_eq live]
  simp [view, Hub.offered, Ne.symm other]

theorem shows_register {d : ℕ} (fresh : r.started = none ↔ h.life c = .fresh)
    (taken : h.step (.register d) = some h') :
    run Subscriber.step (view c (h, r)) (HubEvent.own c (.register d)).toList =
      some (view c (h', r.note c h (.register d))) := by
  obtain ⟨selecting, new, rfl⟩ := register_eq.mp taken
  by_cases same : d = c
  · subst d
    simp [HubEvent.own, run, Subscriber.step, view, Record.note, Hub.offered, selecting, fresh, new]
  · simp [HubEvent.own, view, Record.note, Hub.offered, selecting, same, Ne.symm same]

theorem shows_unregister {d : ℕ} (orderly : Orderly h) (taken : h.step (.unregister d) = some h') :
    run Subscriber.step (view c (h, r)) (HubEvent.own c (.unregister d)).toList =
      some (view c (h', r.note c h (.unregister d))) := by
  obtain ⟨selecting, -, ⟨here, rfl⟩ | ⟨gone, rfl⟩⟩ := unregister_eq.mp taken
  · have live := ((orderly.listed d).mp here).2
    by_cases same : d = c
    · subst d
      rw [drop_view]
      · simp [HubEvent.own, run, Subscriber.step, Subscriber.drop, view, Record.note, Hub.offered, selecting, here]
      · exact live
    · rw [drop_view_other ?live same]
      case live => exact live
      simp [HubEvent.own, view, Record.note, Hub.offered, same]
  · by_cases same : d = c
    · subst d
      simp [HubEvent.own, run, Subscriber.step, view, Record.note, Hub.offered, selecting, gone]
    · simp [HubEvent.own, view, Record.note, Hub.offered, same]

theorem shows_broadcast {msg : Message} (taken : h.step (.broadcast msg) = some h') :
    run Subscriber.step (view c (h, r)) (HubEvent.own c (.broadcast msg)).toList =
      some (view c (h', r.note c h (.broadcast msg))) := by
  obtain ⟨selecting, rfl⟩ := broadcast_eq.mp taken
  simp [HubEvent.own, run, Subscriber.step, view, Record.note, Hub.offered, selecting]

theorem shows_visit {d : ℕ} (orderly : Orderly h) (taken : h.step (.visit d) = some h') :
    run Subscriber.step (view c (h, r)) (HubEvent.own c (.visit d)).toList =
      some (view c (h', r.note c h (.visit d))) := by
  obtain ⟨msg, rest, ranging, next, here, ⟨ch, sent, -, rfl⟩ | ⟨full, rfl⟩⟩ := orderly.visit taken
  · by_cases same : d = c
    · subst d
      simp [HubEvent.own, run, Subscriber.step, view, Record.note, Hub.offered, ranging, next, sent]
    · simp [HubEvent.own, view, Record.note, Hub.offered, ranging, same, Ne.symm same]
  · have live := ((orderly.listed d).mp here).2
    by_cases same : d = c
    · subst d
      rw [drop_view]
      · simp [HubEvent.own, run, Subscriber.step, Subscriber.drop, view, Record.note, Hub.offered, ranging, next,
          full]
      · exact live
    · rw [drop_view_other ?live same]
      case live => exact live
      simp [HubEvent.own, view, Record.note, Hub.offered, ranging, same, Ne.symm same]

theorem shows_ranged (taken : h.step .ranged = some h') :
    run Subscriber.step (view c (h, r)) (HubEvent.own c .ranged).toList = some (view c (h', r.note c h .ranged)) := by
  obtain ⟨msg, ranging, rfl⟩ := ranged_eq.mp taken
  simp [HubEvent.own, view, Record.note, Hub.offered, ranging]

theorem shows_drain {d : ℕ} (taken : h.step (.drain d) = some h') :
    run Subscriber.step (view c (h, r)) (HubEvent.own c (.drain d)).toList =
      some (view c (h', r.note c h (.drain d))) := by
  obtain ⟨-, x, received, rfl⟩ := drain_eq.mp taken
  by_cases same : d = c
  · subst d
    simp [HubEvent.own, run, Subscriber.step, view, Record.note, Hub.offered, received]
  · simp [HubEvent.own, view, Record.note, Hub.offered, same, Ne.symm same]

theorem follow_shows {w x : Hub × Record} {e : HubEvent} (followed : Followed c w) (taken : follow c w e = some x) :
    run Subscriber.step (view c w) (e.own c).toList = some (view c x) := by
  obtain ⟨h, r⟩ := w
  obtain ⟨h', stepped, rfl⟩ := Option.map_eq_some_iff.mp taken
  cases e with
  | register d => exact shows_register followed.fresh stepped
  | unregister d => exact shows_unregister followed.orderly stepped
  | broadcast msg => exact shows_broadcast stepped
  | visit d => exact shows_visit followed.orderly stepped
  | ranged => exact shows_ranged stepped
  | drain d => exact shows_drain stepped

theorem follow_keeps {w x : Hub × Record} {e : HubEvent} (followed : Followed c w) (taken : follow c w e = some x) :
    Followed c x := by
  obtain ⟨h, r⟩ := w
  obtain ⟨h', stepped, rfl⟩ := Option.map_eq_some_iff.mp taken
  exact ⟨step_orderly followed.orderly stepped, by rw [note_started, step_life stepped, followed.fresh]⟩

theorem follow_run {w : Hub × Record} {events : List HubEvent} (taken : run Hub.step w.1 events = some h) :
    ∃ r, run (follow c) w events = some (h, r) := by
  induction events generalizing w with
  | nil => exact ⟨w.2, by rw [Transition.run_nil, ← Option.some.inj taken]⟩
  | cons e events ih =>
    obtain ⟨x, first, rest⟩ := Transition.run_cons.mp taken
    obtain ⟨r, noted⟩ := @ih (x, w.2.note c w.1 e) rest
    exact ⟨r, Transition.run_cons.mpr ⟨_, by simp [follow, first], noted⟩⟩

theorem followed_start : Followed c ({}, {}) := ⟨start_orderly, by simp⟩

theorem follow_view {w : Hub × Record} {events : List HubEvent} (taken : run (follow c) ({}, {}) events = some w) :
    run Subscriber.step (view c ({}, {})) (events.filterMap (HubEvent.own c)) = some (view c w) :=
  Transition.run_filterMap (fun _ _ _ followed taken => follow_keeps followed taken)
    (fun _ _ _ followed taken => follow_shows followed taken) followed_start taken

theorem view_segment {w : Hub × Record} {events : List HubEvent} (taken : run (follow c) ({}, {}) events = some w) :
    Segment (view c w) := by
  have start : Segment (view c ({}, {})) :=
    ⟨by simp [view], by simp [view], by simp [view, Hub.offered], by simp [view], by simp [view]⟩
  exact Transition.run_invariant (fun _ _ _ segment taken => step_segment segment taken) start (follow_view taken)

/-- In every run of the hub, what is put into a client's channel is the segment of
the broadcasts that starts behind those before its registration and ends where the
client is dropped, or with the last broadcast that has reached it. Any other run in
which the broadcasts and the client's own events are the same puts the same there. -/
theorem queued_segment (c : ℕ) {events : List HubEvent} {h : Hub} (taken : run Hub.step {} events = some h) :
    ∃ r : Record, run (follow c) ({}, {}) events = some (h, r) ∧
      (r.started = none → r.queued = []) ∧
      (r.started ≠ none → (c ∈ h.clients ↔ r.ended = none)) ∧
      (∀ first, r.started = some first →
        first ≤ r.due (h.offered c) ∧ r.due (h.offered c) ≤ r.broadcasts.length ∧
          r.queued = (r.broadcasts.take (r.due (h.offered c))).drop first) ∧
      ∀ others g, run Hub.step {} others = some g →
        others.filterMap (HubEvent.own c) = events.filterMap (HubEvent.own c) →
        ∃ q : Record, run (follow c) ({}, {}) others = some (g, q) ∧ q.queued = r.queued := by
  obtain ⟨r, noted⟩ := @follow_run c h ({}, {}) events taken
  have segment := view_segment noted
  refine ⟨r, noted, fun new => (segment.unheard new).2.2, fun begun => ?_, fun first starts => ?_,
    fun others g also same => ?_⟩
  · simpa [view] using segment.listed begun
  · exact ⟨(segment.within first starts).1, (segment.within first starts).2, segment.queued first starts⟩
  · obtain ⟨q, other⟩ := @follow_run c g ({}, {}) others also
    have seen := follow_view other
    rw [same, follow_view noted] at seen
    have records := congrArg Subscriber.record (Option.some.inj seen)
    exact ⟨q, other, congrArg Record.queued records.symm⟩

/-- Client 1 of the chatter, when client 0 is visited first and does not read. -/
def slower : List HubEvent := [.register 1, .register 0, .broadcast [42], .visit 0, .visit 1, .ranged,
  .unregister 1, .broadcast [43], .visit 0, .ranged, .drain 1]

theorem queued_segment_chatter : ∃ h g r q, run Hub.step {} chatter = some h ∧ run Hub.step {} slower = some g ∧
    run (follow 1) ({}, {}) chatter = some (h, r) ∧ run (follow 1) ({}, {}) slower = some (g, q) ∧
    r.queued = [[42]] ∧ q.queued = r.queued := by
  have runs : (run Hub.step {} chatter).isSome ∧ (run Hub.step {} slower).isSome := by decide +kernel
  obtain ⟨h, chatted⟩ := Option.isSome_iff_exists.mp runs.1
  obtain ⟨g, slowed⟩ := Option.isSome_iff_exists.mp runs.2
  obtain ⟨r, noted, -, -, segment, independent⟩ := queued_segment 1 chatted
  obtain ⟨q, also, same⟩ := independent slower g slowed rfl
  have history : (run (follow 1) ({}, {}) chatter).map (fun w => (w.2.broadcasts, w.2.started, w.2.ended)) =
      some ([[42], [43]], some 0, some 1) := by decide +kernel
  rw [noted, Option.map_some, Option.some.injEq, Prod.mk.injEq, Prod.mk.injEq] at history
  obtain ⟨broadcasts, started, ended⟩ := history
  have queued := (segment 0 started).2.2
  rw [broadcasts, Record.due, ended] at queued
  exact ⟨h, g, r, q, chatted, slowed, noted, also, queued, same⟩

end PolyglotInfinity.Gateway
