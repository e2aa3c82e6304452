import PolyglotInfinity.Gateway.Delivery
import PolyglotInfinity.Lib.Json

/-!
# The order feed

What the page of the portal shows of the events that the gateway's subscriber takes from Redis:
through the hub's `broadcast` channel, the hub, the write pump and the socket of the page's client,
with the page opening a new socket some time after each that closes.
-/

namespace PolyglotInfinity.PortalSvelte

open Gateway (Followed Hub HubEvent Message Own Record Segment Subscriber follow view)
open Transition (run run_cons)

inductive Status where
  | connecting
  | connected
  | disconnected
  | error
  deriving DecidableEq

def broadcastBuffer : ℕ := 256

structure Feed where
  hub : Hub := {}
  broadcast : Channel Message := Channel.make broadcastBuffer
  /-- The write pumps that have met no error. -/
  pumping : ℕ → Bool := fun _ => true
  /-- The frames on a client's socket. -/
  wire : ℕ → List Message := fun _ => []
  /-- The sockets of the page whose `onclose` has not run, by their clients. -/
  sockets : List ℕ := []
  wsConn : Option ℕ := none
  wsStatus : Status := .disconnected
  /-- The pending calls of `connectOrderFeed`. -/
  timers : ℕ := 0
  orderEvents : List Json := []
  /-- What Redis has sent the subscriber. Ghost, as the rest. -/
  published : List Message := []
  /-- What the hub has taken from its channel. -/
  taken : List Message := []
  record : ℕ → Record := fun _ => {}
  written : ℕ → List Message := fun _ => []
  /-- What the page has got on a client's socket. -/
  brought : ℕ → List Message := fun _ => []
  received : List Message := []

def frameText (msg : Message) : Option String := String.fromUTF8? msg.toByteArray

/-- `JSON.parse` of a frame's text; the page ignores what fails. -/
def parsed (msg : Message) : Option Json := (frameText msg).bind Json.parse

namespace Feed

inductive Event where
  | redis (msg : Message)
  | take
  /-- A step of the hub, except that it takes a broadcast. -/
  | hub (e : HubEvent)
  | pump (c : ℕ) (writes : Bool)
  | open (c : ℕ)
  | frame (c : ℕ)
  | error (c : ℕ)
  | close (c : ℕ)
  /-- A timer fires, and the gateway will know the new socket as this client. -/
  | timer (c : ℕ)

def connectOrderFeed (s : Feed) (c : ℕ) : Feed :=
  { s with wsStatus := .connecting, wsConn := some c, sockets := s.sockets ++ [c] }

def mounted (c : ℕ) : Feed := connectOrderFeed {} c

def hubStep (s : Feed) (e : HubEvent) : Option Feed :=
  (s.hub.step e).map fun hub => { s with hub, record := fun c => (s.record c).note c s.hub e }

def onmessage (s : Feed) (msg : Message) : Feed :=
  { s with
    orderEvents := match parsed msg with
      | some data => (data :: s.orderEvents).take 50
      | none => s.orderEvents
    received := s.received ++ [msg] }

def write (s : Feed) (c : ℕ) (msg : Message) : Feed :=
  { s with
    wire := Function.update s.wire c (s.wire c ++ [msg])
    written := Function.update s.written c (s.written c ++ [msg]) }

def step (s : Feed) : Event → Option Feed
  | .redis msg =>
    match s.broadcast.trySend msg with
    | .sent broadcast => some { s with broadcast, published := s.published ++ [msg] }
    -- the subscriber waits
    | .full | .panicked => none
  | .take => s.broadcast.receive.bind fun r =>
    (s.hubStep (.broadcast r.1)).map fun t => { t with broadcast := r.2, taken := s.taken ++ [r.1] }
  | .hub e =>
    match e with
    | .broadcast _ | .drain _ => none
    | _ => s.hubStep e
  | .pump c writes =>
    if s.pumping c then
      (s.hub.send c).receive.bind fun r =>
        (s.hubStep (.drain c)).map fun t =>
          if writes then t.write c r.1 else { t with pumping := Function.update s.pumping c false }
    else none
  | .open c => if c ∈ s.sockets then some { s with wsStatus := .connected } else none
  | .frame c =>
    match s.wire c with
    | msg :: rest =>
      -- a text frame that is no UTF-8 closes the socket instead
      if c ∈ s.sockets ∧ (frameText msg).isSome then
        some ({ s with
          wire := Function.update s.wire c rest
          brought := Function.update s.brought c (s.brought c ++ [msg]) }.onmessage msg)
      else none
    | [] => none
  | .error c => if c ∈ s.sockets then some { s with wsStatus := .error } else none
  | .close c =>
    if c ∈ s.sockets then
      some { s with
        wsStatus := .disconnected, wsConn := none, sockets := s.sockets.erase c, timers := s.timers + 1 }
    else none
  | .timer c =>
    if 0 < s.timers ∧ s.hub.life c = .fresh then some ({ s with timers := s.timers - 1 }.connectOrderFeed c) else none

end Feed

/-! ## The way of a message -/

def message : HubEvent → Option Message
  | .broadcast msg => some msg
  | _ => none

/-- What is known of a client: its queue holds a segment of the broadcasts, of which the pump has
written a front to the socket. -/
structure Served (c : ℕ) (h : Hub) (r : Record) (log written : List Message) (pumping : Bool) : Prop where
  followed : Followed c (h, r)
  segment : Segment (view c (h, r))
  broadcasts : r.broadcasts = log
  front : written <+: r.queued
  queue : pumping = true → r.queued = written ++ (h.send c).buffer

variable {c d : ℕ} {h h' : Hub} {r : Record} {log written : List Message} {pumping : Bool} {msg : Message}
  {e : HubEvent}

theorem subscriber_queued {s t : Subscriber} {e : Own} (taken : s.step e = some t) (other : e ≠ .drain) :
    ∃ add, t.record.queued = s.record.queued ++ add ∧ t.send.buffer = s.send.buffer ++ add := by
  cases e with
  | register =>
    obtain ⟨-, rfl⟩ : (s.offered = none ∧ s.record.started = none) ∧ _ = t := by simpa [Subscriber.step] using taken
    exact ⟨[], by simp⟩
  | unregister =>
    obtain ⟨-, rfl⟩ : s.offered = none ∧ _ = t := by simpa [Subscriber.step] using taken
    refine ⟨[], ?_⟩
    cases s.listed <;> simp [Subscriber.drop]
  | broadcast msg =>
    obtain ⟨-, rfl⟩ : s.offered = none ∧ _ = t := by simpa [Subscriber.step] using taken
    exact ⟨[], by simp⟩
  | visit =>
    obtain ⟨msg, -, visited⟩ := Option.bind_eq_some_iff.mp taken
    dsimp only at visited
    cases tried : s.send.trySend msg with
    | panicked => simp [tried] at visited
    | sent ch =>
      obtain rfl := Option.some.inj (by simpa [tried] using visited)
      exact ⟨[msg], by simp [Record.offer, tried], Channel.trySend_sent tried⟩
    | full =>
      obtain rfl := Option.some.inj (by simpa [tried] using visited)
      exact ⟨[], by simp [Record.offer, Subscriber.drop, tried], by simp [Subscriber.drop]⟩
  | drain => exact absurd rfl other

theorem note_broadcasts (e : HubEvent) : (r.note c h e).broadcasts = r.broadcasts ++ (message e).toList := by
  cases e with
  | register d => by_cases same : d = c <;> simp [Record.note, message, same]
  | unregister d => by_cases drops : d = c ∧ c ∈ h.clients <;> simp [Record.note, message, drops]
  | visit d =>
    simp only [Record.note, message, Option.toList_none, List.append_nil]
    split
    · split
      · unfold Record.offer
        split <;> rfl
      · rfl
    · rfl
  | _ => simp [Record.note, message]

theorem Served.hub (served : Served c h r log written pumping) (taken : h.step e = some h')
    (other : e.own c ≠ some .drain) :
    Served c h' (r.note c h e) (log ++ (message e).toList) written pumping := by
  have followed : follow c (h, r) e = some (h', r.note c h e) := by rw [follow, taken, Option.map_some]
  have shows := Gateway.follow_shows served.followed followed
  have keeps := Gateway.follow_keeps served.followed followed
  obtain ⟨segment, add, queued, buffer⟩ : Segment (view c (h', r.note c h e)) ∧
      ∃ add, (r.note c h e).queued = r.queued ++ add ∧ (h'.send c).buffer = (h.send c).buffer ++ add := by
    cases own : e.own c with
    | none =>
      rw [own, Option.toList_none, Transition.run_nil] at shows
      have same := Option.some.inj shows
      refine ⟨same ▸ served.segment, [], ?_, ?_⟩
      · rw [List.append_nil]
        exact (congrArg (fun w => w.record.queued) same).symm
      · rw [List.append_nil]
        exact (congrArg (fun w => w.send.buffer) same).symm
    | some o =>
      rw [own, Option.toList_some] at shows
      obtain ⟨t, stepped, same⟩ := run_cons.mp shows
      obtain rfl := Option.some.inj same
      exact ⟨Gateway.step_segment served.segment stepped,
        subscriber_queued stepped fun drains => other (by rw [own, drains])⟩
  exact {
    followed := keeps
    segment
    broadcasts := by rw [note_broadcasts, served.broadcasts]
    front := queued ▸ served.front.trans (List.prefix_append _ _)
    queue on := by rw [queued, buffer, served.queue on, List.append_assoc] }

/-- The pump takes a message, and writes it or stops. -/
theorem Served.pump {ch : Channel Message} (served : Served c h r log written true)
    (taken : h.step (.drain c) = some h') (received : (h.send c).receive = some (msg, ch)) :
    Served c h' r log (written ++ [msg]) true ∧ Served c h' r log written false := by
  have followed : follow c (h, r) (.drain c) = some (h', r) := by rw [follow, taken, Option.map_some]; rfl
  have shows := Gateway.follow_shows served.followed followed
  have keeps := Gateway.follow_keeps served.followed followed
  have segment : Segment (view c (h', r)) := by
    rw [HubEvent.own, if_pos rfl, Option.toList_some] at shows
    obtain ⟨t, stepped, same⟩ := run_cons.mp shows
    obtain rfl := Option.some.inj same
    exact Gateway.step_segment served.segment stepped
  obtain ⟨-, ⟨first, rest⟩, also, rfl⟩ := Gateway.drain_eq.mp taken
  obtain ⟨rfl, rfl⟩ := Prod.mk.inj (Option.some.inj (received.symm.trans also))
  have queued : r.queued = written ++ [msg] ++ ch.buffer := by
    rw [served.queue rfl, (Channel.receive_front received).1, List.append_assoc, List.singleton_append]
  constructor
  · exact {
      followed := keeps
      segment
      broadcasts := served.broadcasts
      front := ⟨ch.buffer, queued.symm⟩
      queue _ := by simpa using queued }
  · exact {
      followed := keeps
      segment
      broadcasts := served.broadcasts
      front := served.front
      queue := fun on => absurd on Bool.false_ne_true }

theorem Served.unheard (served : Served c h r log written pumping) (none : r.started = none) : written = [] := by
  have front := served.front
  rw [show r.queued = [] from (served.segment.unheard none).2.2] at front
  exact List.prefix_nil.mp front

/-- What has been written are the broadcasts from the registration on, up to some point. -/
theorem Served.gapless {first : ℕ} (served : Served c h r log written pumping) (started : r.started = some first) :
    written <+: log.drop first := by
  have queued : r.queued = (log.take _).drop first := served.broadcasts ▸ served.segment.queued first started
  have front := served.front
  rw [queued, List.drop_take] at front
  exact front.trans (List.take_prefix _ _)

namespace Feed

/-- The page shows the newest of what it received: what its earlier sockets gave, in the order of the
broadcasts, and then a front of what the queue of its present client got. -/
structure Shown (s : Feed) : Prop where
  published : s.published = s.taken ++ s.broadcast.buffer
  served : ∀ c, Served c s.hub (s.record c) s.taken (s.written c) (s.pumping c)
  arrived : ∀ c, s.written c = s.brought c ++ s.wire c
  events : s.orderEvents = (s.received.filterMap parsed).reverse.take 50
  single : s.sockets = s.wsConn.toList ∧ s.sockets.length + s.timers = 1
  status : s.wsConn = none ↔ s.wsStatus = .disconnected
  past : ∃ past base, past.Sublist (s.taken.take base) ∧ base ≤ s.taken.length ∧
    (s.wsConn = none → s.received = past) ∧
    ∀ c, s.wsConn = some c → (∀ first, (s.record c).started = some first → base ≤ first) ∧
      s.received = past ++ s.brought c

variable {s t : Feed}

theorem Shown.open (shown : Shown s) : c ∈ s.sockets ↔ s.wsConn = some c := by
  rw [shown.single.1, Option.mem_toList]

/-- What a socket has brought are the broadcasts since its client was registered, without a gap. -/
theorem Shown.gapless (shown : Shown s) (c : ℕ) : s.brought c = [] ∨
    ∃ first, (s.record c).started = some first ∧ s.brought c <+: s.taken.drop first := by
  have arrived := shown.arrived c
  cases started : (s.record c).started with
  | none =>
    rw [(shown.served c).unheard started] at arrived
    exact .inl (List.append_eq_nil_iff.mp arrived.symm).1
  | some first =>
    have front : s.brought c <+: s.written c := ⟨s.wire c, arrived.symm⟩
    exact .inr ⟨first, rfl, front.trans ((shown.served c).gapless started)⟩

/-- What the present socket has brought, behind everything from before its client was registered. -/
theorem Shown.reading (shown : Shown s) (conn : s.wsConn = some c) : ∃ past, s.received = past ++ s.brought c ∧
    past.Sublist s.taken ∧ ∀ first, (s.record c).started = some first → past.Sublist (s.taken.take first) := by
  obtain ⟨past, base, before, within, -, present⟩ := shown.past
  obtain ⟨later, received⟩ := present c conn
  refine ⟨past, received, before.trans (List.take_sublist _ _), fun first started => before.trans ?_⟩
  exact (List.take_prefix_take_left (later first started)).sublist

theorem Shown.received (shown : Shown s) : s.received.Sublist s.taken := by
  cases conn : s.wsConn with
  | none =>
    obtain ⟨past, base, before, -, same, -⟩ := shown.past
    exact same conn ▸ before.trans (List.take_sublist _ _)
  | some c =>
    obtain ⟨past, same, whole, before⟩ := shown.reading conn
    rw [same]
    rcases shown.gapless c with nothing | ⟨first, started, front⟩
    · rwa [nothing, List.append_nil]
    · have split := (before first started).append front.sublist
      rwa [List.take_append_drop] at split

@[simp] theorem note_drain : r.note c h (.drain d) = r := rfl

theorem note_first {first : ℕ} (started : (r.note c h e).started = some first) :
    r.started = some first ∨ first = r.broadcasts.length := by
  cases e with
  | register d =>
    by_cases same : d = c
    · simp [Record.note, same] at started
      exact .inr started.symm
    · simp [Record.note, same] at started
      exact .inl started
  | unregister d =>
    by_cases drops : d = c ∧ c ∈ h.clients <;> simp [Record.note, drops] at started <;> exact .inl started
  | visit d =>
    simp only [Record.note] at started
    split at started
    · split at started
      · exact .inl ((Gateway.offer_started _ _ _).symm.trans started)
      · exact .inl started
    · exact .inl started
  | _ => exact .inl started

/-- A step of the hub, as one client sees it and with what it leaves alone. -/
theorem hubStep_some (stepped : s.hubStep e = some t) : ∃ hub, s.hub.step e = some hub ∧
    t = { s with hub, record := fun c => (s.record c).note c s.hub e } := by
  obtain ⟨hub, taken, rfl⟩ := Option.map_eq_some_iff.mp stepped
  exact ⟨hub, taken, rfl⟩

/-- The clients are registered behind what the page had before. -/
theorem Shown.after {base : ℕ} (shown : Shown s) (within : base ≤ s.taken.length)
    (later : ∀ first, (s.record c).started = some first → base ≤ first) (first : ℕ)
    (started : ((s.record c).note c s.hub e).started = some first) : base ≤ first := by
  rcases note_first started with before | rfl
  · exact later first before
  · rw [(shown.served c).broadcasts]
    exact within

theorem step_redis (shown : Shown s) (taken : s.step (.redis msg) = some t) : Shown t := by
  simp only [step] at taken
  cases sent : s.broadcast.trySend msg with
  | panicked | full => simp [sent] at taken
  | sent broadcast =>
    obtain rfl : { s with broadcast, published := s.published ++ [msg] } = t := by simpa [sent] using taken
    refine { shown with published := ?_ }
    rw [Channel.trySend_sent sent, ← List.append_assoc, ← shown.published]

theorem step_take (shown : Shown s) (taken : s.step .take = some t) : Shown t := by
  obtain ⟨⟨msg, ch⟩, received, taken⟩ := Option.bind_eq_some_iff.mp taken
  obtain ⟨u, stepped, rfl⟩ := Option.map_eq_some_iff.mp taken
  obtain ⟨hub, broadcast, rfl⟩ := hubStep_some stepped
  obtain ⟨past, base, before, within, idle, present⟩ := shown.past
  refine { shown with
    published := ?_
    served := fun c => (shown.served c).hub broadcast nofun
    past := ⟨past, base, ?_, ?_, idle, fun c conn => ⟨?_, (present c conn).2⟩⟩ }
  · rw [shown.published, (Channel.receive_front received).1, List.append_assoc, List.singleton_append]
  · rwa [List.take_append_of_le_length within]
  · exact within.trans (by simp)
  · exact shown.after within (present c conn).1

theorem step_hub (shown : Shown s) (taken : s.step (.hub e) = some t) : Shown t := by
  obtain ⟨stepped, quiet, other⟩ : s.hubStep e = some t ∧ message e = none ∧ ∀ c, e.own c ≠ some .drain := by
    cases e with
    | broadcast | drain => cases taken
    | register d | unregister d | visit d =>
      refine ⟨taken, rfl, fun c => ?_⟩
      by_cases same : d = c <;> simp [HubEvent.own, same]
    | ranged => exact ⟨taken, rfl, fun c => by simp [HubEvent.own]⟩
  obtain ⟨hub, moved, rfl⟩ := hubStep_some stepped
  obtain ⟨past, base, before, within, idle, present⟩ := shown.past
  refine { shown with
    served := fun c => ?_
    past := ⟨past, base, before, within, idle,
      fun c conn => ⟨shown.after within (present c conn).1, (present c conn).2⟩⟩ }
  have served := (shown.served c).hub moved (other c)
  rwa [quiet, Option.toList_none, List.append_nil] at served

theorem step_pump {writes : Bool} (shown : Shown s) (taken : s.step (.pump d writes) = some t) : Shown t := by
  simp only [step] at taken
  split at taken
  · rename_i pumps
    obtain ⟨⟨msg, ch⟩, received, taken⟩ := Option.bind_eq_some_iff.mp taken
    obtain ⟨u, stepped, rfl⟩ := Option.map_eq_some_iff.mp taken
    obtain ⟨hub, drained, rfl⟩ := hubStep_some stepped
    obtain ⟨past, base, before, within, idle, present⟩ := shown.past
    have here := shown.served d
    rw [pumps] at here
    obtain ⟨wrote, stopped⟩ := here.pump drained received
    have others {c : ℕ} (other : c ≠ d) : Served c hub (s.record c) s.taken (s.written c) (s.pumping c) := by
      have away : (HubEvent.drain d).own c ≠ some .drain := by simp [HubEvent.own, Ne.symm other]
      simpa [message] using (shown.served c).hub drained away
    cases writes with
    | true =>
      refine { shown with
        served := fun c => ?_
        arrived := fun c => ?_
        past := ⟨past, base, before, within, idle, present⟩ }
      · by_cases same : c = d
        · subst same
          simpa [write, pumps] using wrote
        · simpa [write, same] using others same
      · by_cases same : c = d
        · subst same
          simp [write, shown.arrived c]
        · simp [write, same, shown.arrived c]
    | false =>
      refine { shown with served := fun c => ?_, past := ⟨past, base, before, within, idle, present⟩ }
      by_cases same : c = d
      · subst same
        simpa using stopped
      · simpa [same] using others same
  · cases taken

theorem step_frame (shown : Shown s) (taken : s.step (.frame d) = some t) : Shown t := by
  simp only [step] at taken
  split at taken
  · rename_i msg rest wire
    split at taken
    · rename_i reads
      obtain rfl := Option.some.inj taken
      have conn := shown.open.mp reads.1
      obtain ⟨past, base, before, within, idle, present⟩ := shown.past
      obtain ⟨later, received⟩ := present d conn
      refine { shown with
        arrived := fun c => ?_
        events := ?_
        past := ⟨past, base, before, within, fun idle => (by cases conn.symm.trans idle), fun c at_c => ?_⟩ }
      · by_cases same : c = d
        · subst same
          have arrived := shown.arrived c
          rw [wire] at arrived
          simp [onmessage, arrived]
        · simpa [onmessage, same] using shown.arrived c
      · simp only [onmessage, List.filterMap_append, List.reverse_append]
        cases json : parsed msg with
        | none => simpa [json] using shown.events
        | some data => simp [json, shown.events, List.take_take]
      · obtain rfl := Option.some.inj (at_c.symm.trans conn)
        refine ⟨later, ?_⟩
        simp [onmessage, received]
    · cases taken
  · cases taken

theorem step_close (shown : Shown s) (taken : s.step (.close d) = some t) : Shown t := by
  simp only [step] at taken
  split at taken
  · rename_i member
    obtain rfl := Option.some.inj taken
    have conn := shown.open.mp member
    obtain ⟨same, one⟩ := shown.single
    rw [conn, Option.toList_some] at same
    -- What was read is now the past; a later client hears of broadcasts from here on only.
    refine { shown with
      single := ?_
      status := iff_of_true rfl rfl
      past := ⟨s.received, s.taken.length, ?_, le_rfl, fun _ => rfl, nofun⟩ }
    · rw [same] at one
      simpa [same] using one
    · rw [List.take_length]
      exact shown.received
  · cases taken

theorem step_timer (shown : Shown s) (taken : s.step (.timer d) = some t) : Shown t := by
  simp only [step] at taken
  split at taken
  · rename_i fires
    obtain rfl := Option.some.inj taken
    obtain ⟨same, one⟩ := shown.single
    have idle : s.wsConn = none := by
      cases conn : s.wsConn with
      | none => rfl
      | some c =>
        rw [same, conn, Option.toList_some, List.length_singleton] at one
        omega
    rw [idle, Option.toList_none] at same
    obtain ⟨past, base, before, within, received, -⟩ := shown.past
    have started : (s.record d).started = none := (shown.served d).followed.fresh.mpr fires.2
    have arrived := shown.arrived d
    rw [(shown.served d).unheard started] at arrived
    have brought : s.brought d = [] := (List.append_eq_nil_iff.mp arrived.symm).1
    -- The new client has heard nothing, so the page has only what is past.
    refine { shown with
      single := ?_
      status := iff_of_false nofun nofun
      past := ⟨past, base, before, within, nofun, fun c conn => ?_⟩ }
    · rw [same, List.length_nil, Nat.zero_add] at one
      simp [connectOrderFeed, same, one]
    · obtain rfl := Option.some.inj conn
      refine ⟨fun first begun => (by cases started.symm.trans begun), ?_⟩
      show s.received = past ++ s.brought d
      rw [brought, List.append_nil, received idle]
  · cases taken

theorem step_shown {e : Event} (shown : Shown s) (taken : s.step e = some t) : Shown t := by
  cases e with
  | redis msg => exact step_redis shown taken
  | take => exact step_take shown taken
  | hub e => exact step_hub shown taken
  | pump c writes => exact step_pump shown taken
  | frame c => exact step_frame shown taken
  | close c => exact step_close shown taken
  | timer c => exact step_timer shown taken
  | «open» c | error c =>
    simp only [step] at taken
    split at taken
    · rename_i member
      obtain rfl := Option.some.inj taken
      have conn := shown.open.mp member
      exact { shown with status := iff_of_false (by simp [conn]) nofun }
    · cases taken

theorem mounted_shown (c : ℕ) : Shown (mounted c) where
  published := rfl
  served d := {
    followed := Gateway.followed_start
    segment := @Gateway.view_segment d ({}, {}) [] rfl
    broadcasts := rfl
    front := List.nil_prefix
    queue _ := rfl }
  arrived _ := rfl
  events := rfl
  single := ⟨rfl, rfl⟩
  status := iff_of_false nofun nofun
  past := ⟨[], 0, List.nil_sublist _, le_rfl, fun _ => rfl, fun _ _ => ⟨fun _ _ => Nat.zero_le _, rfl⟩⟩

/-- In every run the page has one socket or one timer for the next, shows the newest fifty of the events
that reached it, each of them once and in the order in which Redis sent them. What any of its sockets
brought are the events from the one on before which the client was registered, without a gap; with
the present socket that is all behind what came before it. -/
theorem feed_follows {es : List Event} (ran : run step (mounted c) es = some s) :
    s.orderEvents = (s.received.filterMap parsed).reverse.take 50 ∧
      s.received.Sublist s.published ∧
      (∀ d, s.brought d = [] ∨
        ∃ first, (s.record d).started = some first ∧ s.brought d <+: s.published.drop first) ∧
      (∀ d, s.wsConn = some d → ∃ past, s.received = past ++ s.brought d ∧ past.Sublist s.published ∧
        ∀ first, (s.record d).started = some first → past.Sublist (s.published.take first)) ∧
      s.sockets = s.wsConn.toList ∧ s.sockets.length + s.timers = 1 ∧
      (s.wsConn = none ↔ s.wsStatus = .disconnected) := by
  have shown : Shown s :=
    Transition.run_invariant (fun _ _ _ shown taken => step_shown shown taken) (mounted_shown c) ran
  have front : s.taken <+: s.published := shown.published ▸ List.prefix_append _ _
  refine ⟨shown.events, shown.received.trans front.sublist, fun d => ?_, fun d conn => ?_, shown.single.1,
    shown.single.2, shown.status⟩
  · refine (shown.gapless d).imp_right ?_
    rintro ⟨first, started, run⟩
    exact ⟨first, started, run.trans (front.drop first)⟩
  · obtain ⟨past, received, whole, before⟩ := shown.reading conn
    refine ⟨past, received, whole.trans front.sublist, fun first started => ?_⟩
    exact (before first started).trans (front.take first).sublist

/-- Two sockets, with an event before each, one on the first that is never read, and two on the second. -/
def reconnecting : List Event := [
  .redis [48], .take, .hub .ranged, .hub (.register 0), .open 0,
  .redis [49], .take, .hub (.visit 0), .hub .ranged, .pump 0 true, .frame 0,
  .redis [50], .take, .hub (.visit 0), .hub .ranged, .pump 0 true, .close 0,
  .hub (.unregister 0), .redis [51], .take, .hub .ranged, .timer 1, .hub (.register 1), .open 1,
  .redis [52], .take, .hub (.visit 1), .hub .ranged, .pump 1 true, .frame 1,
  .redis [53], .take, .hub (.visit 1), .hub .ranged, .pump 1 true, .frame 1]

theorem feed_follows_reconnecting : ∃ s, run step (mounted 0) reconnecting = some s ∧
    s.received = [[49], [52], [53]] ∧ s.received.Sublist s.published ∧ s.brought 1 = [[52], [53]] ∧
    (s.brought 1 = [] ∨ ∃ first, (s.record 1).started = some first ∧ s.brought 1 <+: s.published.drop first) := by
  have taken : (run step (mounted 0) reconnecting).map (fun s => (s.received, s.brought 1)) =
    some ([[49], [52], [53]], [[52], [53]]) := by decide +kernel
  obtain ⟨s, ran, both⟩ := Option.map_eq_some_iff.mp taken
  obtain ⟨received, brought⟩ := Prod.mk.inj both
  have follows := feed_follows ran
  exact ⟨s, ran, received, follows.2.1, brought, follows.2.2.1 1⟩

end Feed

end PolyglotInfinity.PortalSvelte
