import Mathlib.Algebra.Group.Basic
import Mathlib.Algebra.Group.Nat.Defs
import PolyglotInfinity.HubElixir.Redix

/-!
# The subscriber of the hub

The `RedisSubscriber` takes the messages of its mailbox one by one. Beside it run the connection
process, Redis, the timers of `Process.send_after`, and whoever publishes on the channel. A run
is one life of the process; its supervisor starts the next one from nothing.
-/

namespace PolyglotInfinity.HubElixir

open Transition (run run_cons)

def retryBaseMs : ℕ := 5000

def retryMaxMs : ℕ := 30000

/-- What the outside answers to the subscriber's own attempt to connect: whether `start_link` starts
a process, whether that reaches Redis at once, and whether the socket takes the `SUBSCRIBE`. -/
structure Answers where
  starts : Bool
  connects : Bool
  sends : Bool
  deriving DecidableEq

structure RedisSubscriber where
  /-- The process registered as `:redix_pubsub`. -/
  link : Option Link := none
  mail : List Info := []
  /-- The delays of the timers that are running, each for a `:retry_connect`. -/
  timers : List ℕ := []
  pubsub : Bool := false
  retryMs : ℕ := retryBaseMs
  /-- The payloads of the messages taken from the mailbox. -/
  handled : List Binary := []
  effects : List Effect := []
  down : Option Fault := none

/-- `term[key]`. -/
def Term.access (term : Term) (key : String) : Except Fault (Option Term) :=
  match term with
  | .map _ => .ok (term.field key)
  | .null => .ok none
  | _ => .error .badAccess

/-- A message of the channel. Its name is only logged, but it is looked up for that. -/
def forward (json : Jason) (payload : Binary) : Except Fault (List Effect) :=
  match json.decode payload with
  | some event => do
    let _ ← event.access "event"
    return .pubsub "system:lobby" "redis_event" event :: broadcast json "redis_event" event
  | none => .ok []

namespace RedisSubscriber

/-- The connection process goes on with its new state, or ends and the subscriber, linked to it, with it. -/
def hold (s : RedisSubscriber) : Except Fault (Link × List Info) → RedisSubscriber
  | .ok (l, infos) => { s with link := some l, mail := s.mail ++ infos }
  | .error fault => { s with down := some fault }

def sendAfter (s : RedisSubscriber) : RedisSubscriber :=
  { s with timers := s.timers ++ [s.retryMs], effects := s.effects ++ [.sendAfter s.retryMs], pubsub := false }

/-- The connection is there, and the subscriber subscribes. -/
def join (s : RedisSubscriber) (l : Link) (sends : Bool) : RedisSubscriber :=
  { s.hold (l.subscribe sends) with pubsub := true, retryMs := retryBaseMs }

def connect (s : RedisSubscriber) (a : Answers) : RedisSubscriber :=
  match s.link with
  | some l => s.join l a.sends
  | none =>
    if a.starts then
      match Link.connect {} a.connects a.sends with
      | .ok (l, _) => s.join l a.sends
      | .error fault => { s with down := some fault }
    else { s.sendAfter with retryMs := Backoff.capped (2 * ·) retryMaxMs s.retryMs }

def init (a : Answers) : RedisSubscriber := connect {} a

def handleInfo (json : Jason) (a : Answers) (s : RedisSubscriber) : Info → RedisSubscriber
  | .subscribed => { s with retryMs := retryBaseMs }
  | .message payload =>
    match forward json payload with
    | .ok effects => { s with handled := s.handled ++ [payload], effects := s.effects ++ effects }
    | .error fault => { s with handled := s.handled ++ [payload], down := some fault }
  | .disconnected => s.sendAfter
  | .retryConnect => s.connect a

inductive Event where
  | publish (payload : Binary)
  | confirm
  | receive
  | drop
  | attempt (connects sends : Bool)
  | handle (a : Answers)
  | fire (i : ℕ)
  deriving DecidableEq

/-- A step of the connection process. -/
def ofLink (s : RedisSubscriber) (f : Link → Option (Except Fault (Link × List Info))) : Option RedisSubscriber :=
  (s.link.bind f).map s.hold

def step (json : Jason) (s : RedisSubscriber) (e : Event) : Option RedisSubscriber :=
  if s.down.isSome then none
  else match e with
    | .publish payload => some { s with link := s.link.map fun l => l.push payload }
    | .confirm => s.ofLink fun l => if l.commands = 0 then none else some (.ok (l.confirm, []))
    | .receive => s.ofLink fun l =>
      match l.replies with
      | [] => none
      | r :: rest => some (Link.receive { l with replies := rest } r)
    | .drop => s.ofLink fun l => if l.connected then some l.drop else none
    | .attempt connects sends => s.ofLink fun l =>
      if l.reconnect.isSome then some (l.connect connects sends) else none
    | .handle a =>
      match s.mail with
      | [] => none
      | info :: rest => some (handleInfo json a { s with mail := rest } info)
    | .fire i =>
      if i < s.timers.length then
        some { s with timers := s.timers.eraseIdx i, mail := s.mail ++ [.retryConnect] }
      else none

/-- The payloads that Redis has pushed and that are not lost with a socket, in the order of Redis. -/
def received (s : RedisSubscriber) : List Binary :=
  s.handled ++ s.mail.filterMap Info.payload ++ s.link.elim [] Link.carried

def active (s : RedisSubscriber) : Bool := s.link.elim false Link.active

def Event.published : Event → Option Binary
  | .publish payload => some payload
  | _ => none

end RedisSubscriber

def Effect.delay : Effect → Option ℕ
  | .sendAfter ms => some ms
  | .pubsub .. | .dispatch _ => none

/-- What a payload becomes on the two paths, to the Phoenix channels and, where it can be encoded
again, to the sockets of the hub: nothing unless it decodes to an object or `null`. -/
def forwarded (json : Jason) (payload : Binary) : List Effect :=
  match json.decode payload with
  | some event =>
    match event with
    | .map _ | .null =>
      .pubsub "system:lobby" "redis_event" event ::
        ((json.encode (message "redis_event" event)).map Effect.dispatch).toList
    | _ => []
  | none => []

namespace RedisSubscriber

/-! ## What holds in every state -/

/-- The delays behind attempts that failed one after another, then those behind lost connections. -/
def Delays (delays : List ℕ) (linked : Bool) (retryMs : ℕ) : Prop :=
  ∃ k m, delays = Backoff.delays (2 * ·) retryMaxMs retryBaseMs k ++ List.replicate m retryBaseMs ∧
    if linked then retryMs = retryBaseMs
    else m = 0 ∧ retryMs = (Backoff.capped (2 * ·) retryMaxMs)^[k] retryBaseMs

structure Attached (json : Jason) (s : RedisSubscriber) : Prop where
  phase : ∀ l, s.link = some l → Phase l
  unlinked : s.link = none → ∀ info ∈ s.mail, info = .retryConnect
  effects : s.effects.filter (fun effect => effect.delay = none) = s.handled.flatMap (forwarded json)
  delays : Delays (s.effects.filterMap Effect.delay) s.link.isSome s.retryMs

/-- Without a connection a retry is on its way. -/
def Retries (s : RedisSubscriber) : Prop := s.pubsub = false → s.timers ≠ [] ∨ .retryConnect ∈ s.mail

variable {json : Jason} {s t : RedisSubscriber} {l m : Link} {infos rest : List Info} {info : Info} {a : Answers}
  {payload : Binary} {e : Event} {es : List Event} {fault : Fault}
  {f : Link → Option (Except Fault (Link × List Info))}

theorem broadcast_eq {event : String} {term : Term} :
    broadcast json event term = ((json.encode (message event term)).map Effect.dispatch).toList := by
  unfold broadcast
  cases json.encode (message event term) <;> rfl

theorem forward_forwarded : (forward json payload).toOption.getD [] = forwarded json payload := by
  unfold forward forwarded
  cases json.decode payload with
  | none => rfl
  | some event =>
    simp only [← broadcast_eq]
    cases event <;> rfl

theorem forwarded_delay : ∀ effect ∈ forwarded json payload, effect.delay = none := by
  unfold forwarded
  split
  · split <;> simp [Effect.delay]
  · nofun

theorem ofLink_some (taken : s.ofLink f = some t) : ∃ l r, s.link = some l ∧ f l = some r ∧ s.hold r = t := by
  obtain ⟨r, found, rfl⟩ := Option.map_eq_some_iff.mp taken
  obtain ⟨l, link, found⟩ := Option.bind_eq_some_iff.mp found
  exact ⟨l, r, link, found, rfl⟩

theorem join_eq {sends : Bool} (ok : l.subscribe sends = .ok (m, infos)) : s.join l sends =
    { s with link := some m, mail := s.mail ++ infos, pubsub := true, retryMs := retryBaseMs } := by
  rw [join, ok, hold]

/-- A process that has just started takes the subscription in whatever state its first attempt left it. -/
theorem start_phase (connects sends : Bool) : ∃ l m infos, Link.connect {} connects sends = .ok (l, []) ∧
    l.subscribe sends = .ok (m, infos) ∧ Phase m ∧ m.carried = [] ∧ m.active = false ∧
    infos.filterMap Info.payload = [] := by
  have fresh : ∀ b, (none : Option ℕ) = some b → Delayed b := nofun
  cases connects with
  | false => exact ⟨_, _, _, rfl, rfl, @closed_phase {} fresh, rfl, rfl, rfl⟩
  | true =>
    cases sends with
    | true => exact ⟨_, _, _, rfl, rfl, .asking ⟨rfl, rfl⟩ rfl rfl rfl rfl rfl, rfl, rfl, rfl⟩
    | false => exact ⟨_, _, _, rfl, rfl, @closed_phase {} fresh, rfl, rfl, rfl⟩

/-- An attempt of the subscriber joins it to the process, or schedules the next one. -/
theorem connect_cases (phase : ∀ l, s.link = some l → Phase l) :
    (∃ m infos, s.connect a =
        { s with link := some m, mail := s.mail ++ infos, pubsub := true, retryMs := retryBaseMs } ∧
      Phase m ∧ m.carried = s.link.elim [] Link.carried ∧ m.active = s.active ∧ infos.filterMap Info.payload = []) ∨
    s.link = none ∧ s.connect a = { s.sendAfter with retryMs := Backoff.capped (2 * ·) retryMaxMs s.retryMs } := by
  cases link : s.link with
  | some l =>
    obtain ⟨infos, ok, silent⟩ := @subscribe_phase l a.sends (phase l link)
    refine .inl ⟨l, infos, ?_, phase l link, rfl, ?_, silent⟩
    · rw [connect, link]
      exact join_eq ok
    · rw [active, link, Option.elim_some]
  | none =>
    cases starts : a.starts with
    | true =>
      obtain ⟨l, m, infos, started, ok, phase, carried, inactive, silent⟩ := start_phase a.connects a.sends
      refine .inl ⟨m, infos, ?_, phase, carried, ?_, silent⟩
      · rw [connect, link, starts, if_pos rfl, started]
        exact join_eq ok
      · rw [inactive, active, link, Option.elim_none]
    | false =>
      refine .inr ⟨rfl, ?_⟩
      rw [connect, link, starts, if_neg Bool.false_ne_true]

theorem Attached.relink (attached : Attached json s) (was : s.link = some l) (phase : Phase m) :
    Attached json { s with link := some m, mail := s.mail ++ infos } where
  phase _ same := Option.some.inj same ▸ phase
  unlinked := nofun
  effects := attached.effects
  delays := by simpa [was] using attached.delays

theorem Delays.failed {delays : List ℕ} {retryMs : ℕ} (so : Delays delays false retryMs) :
    Delays (delays ++ [retryMs]) false (Backoff.capped (2 * ·) retryMaxMs retryMs) := by
  obtain ⟨k, m, rfl, rfl, rfl⟩ := so
  refine ⟨k + 1, 0, ?_, rfl, ?_⟩
  · rw [Backoff.delays_succ, List.replicate_zero, List.append_nil, List.append_nil]
  · rw [Function.iterate_succ_apply']

theorem Delays.lost {delays : List ℕ} {retryMs : ℕ} (so : Delays delays true retryMs) :
    Delays (delays ++ [retryMs]) true retryMs := by
  obtain ⟨k, m, rfl, rfl⟩ := so
  exact ⟨k, m + 1, by rw [List.replicate_succ', List.append_assoc], rfl⟩

theorem Delays.joined {delays : List ℕ} {linked : Bool} {retryMs : ℕ} (so : Delays delays linked retryMs) :
    Delays delays true retryBaseMs := by
  obtain ⟨k, m, same, -⟩ := so
  exact ⟨k, m, same, rfl⟩

theorem Attached.connect (attached : Attached json s) : Attached json (s.connect a) ∧ (s.connect a).Retries := by
  rcases connect_cases attached.phase with ⟨m, infos, eq, phase, -⟩ | ⟨none, eq⟩
  · rw [eq]
    refine ⟨?_, nofun⟩
    exact {
      phase _ same := Option.some.inj same ▸ phase
      unlinked := nofun
      effects := attached.effects
      delays := attached.delays.joined }
  · rw [eq]
    have delays := attached.delays
    rw [none] at delays
    refine ⟨?_, fun _ => .inl (by simp [sendAfter])⟩
    exact {
      phase := attached.phase
      unlinked := attached.unlinked
      effects := by simpa [sendAfter, List.filter_append, Effect.delay] using attached.effects
      delays := by simpa [sendAfter, none, Effect.delay] using delays.failed }

theorem init_attached : Attached json (init a) ∧ (init a).Retries := by
  apply Attached.connect
  exact ⟨nofun, fun _ => nofun, rfl, 0, 0, rfl, rfl, rfl⟩

theorem handleInfo_attached (attached : Attached json s) (retries : s.Retries) (mail : s.mail = info :: rest) :
    Attached json (handleInfo json a { s with mail := rest } info) ∧
      (handleInfo json a { s with mail := rest } info).Retries := by
  have taken : Attached json { s with mail := rest } := {
    phase := attached.phase
    unlinked none other member := attached.unlinked none other (mail ▸ List.mem_cons_of_mem _ member)
    effects := attached.effects
    delays := attached.delays }
  -- Every message but the retry comes from a connection process.
  have linked (other : info ≠ .retryConnect) : s.link.isSome = true := by
    by_contra unlinked
    exact other (attached.unlinked (by simpa using unlinked) info (mail ▸ List.mem_cons_self))
  have still (other : info ≠ .retryConnect) : ({ s with mail := rest } : RedisSubscriber).Retries := by
    intro off
    rcases retries off with running | waiting
    · exact .inl running
    · rw [mail] at waiting
      exact .inr ((List.mem_cons.mp waiting).resolve_left other.symm)
  cases info with
  | subscribed =>
    refine ⟨?_, still nofun⟩
    exact { taken with delays := linked nofun ▸ attached.delays.joined }
  | message payload =>
    simp only [handleInfo]
    cases ok : forward json payload with
    | ok effects =>
      obtain rfl : effects = forwarded json payload := by
        rw [← forward_forwarded, ok]
        rfl
      have scheduled : (forwarded json payload).filter (fun effect => effect.delay = none) = forwarded json payload :=
        List.filter_eq_self.mpr (by simpa using forwarded_delay)
      refine ⟨?_, still nofun⟩
      exact {
        phase := attached.phase
        unlinked := taken.unlinked
        effects := by
          rw [List.filter_append, attached.effects, List.flatMap_append, scheduled, List.flatMap_singleton]
        delays := by
          have none : (forwarded json payload).filterMap Effect.delay = [] :=
            List.filterMap_eq_nil_iff.mpr forwarded_delay
          simpa [List.filterMap_append, none] using attached.delays }
    | error fault =>
      refine ⟨?_, still nofun⟩
      exact { taken with
        effects := by
          have nothing : forwarded json payload = [] := by
            rw [← forward_forwarded, ok]
            rfl
          rw [List.flatMap_append, ← attached.effects, List.flatMap_singleton, nothing, List.append_nil] }
  | disconnected =>
    refine ⟨?_, fun _ => .inl (by simp [handleInfo, sendAfter])⟩
    have delays := attached.delays
    rw [linked nofun] at delays
    exact { taken with
      effects := by simpa [handleInfo, sendAfter, List.filter_append, Effect.delay] using attached.effects
      delays := by simpa [handleInfo, sendAfter, linked, Effect.delay] using delays.lost }
  | retryConnect => exact taken.connect

/-- What a step of the connection process, of Redis or of the network makes of the process. -/
structure Relinked (l : Link) (e : Event) (m : Link) (infos : List Info) : Prop where
  phase : Phase m
  carried : infos.filterMap Info.payload ++ m.carried =
    if e = .drop then [] else l.carried ++ if l.active then e.published.toList else []
  active : e ≠ .drop → l.active = true → m.active = true

inductive Step (json : Jason) (s : RedisSubscriber) : Event → RedisSubscriber → Prop where
  | relink (e : Event) (l m : Link) (infos : List Info) (was : s.link = some l) (relinked : Relinked l e m infos) :
    Step json s e { s with link := some m, mail := s.mail ++ infos }
  | fault : Step json s (.attempt true false) { s with down := some .functionClause }
  | unheard (payload : Binary) (unlinked : s.link = none) : Step json s (.publish payload) s
  | handle (a : Answers) (info : Info) (rest : List Info) (mail : s.mail = info :: rest) :
    Step json s (.handle a) (handleInfo json a { s with mail := rest } info)
  | fire (i : ℕ) (running : i < s.timers.length) :
    Step json s (.fire i) { s with timers := s.timers.eraseIdx i, mail := s.mail ++ [.retryConnect] }

theorem step_cases (attached : Attached json s) (taken : step json s e = some t) : s.down = none ∧ Step json s e t := by
  unfold step at taken
  split at taken
  · cases taken
  rename_i alive
  refine ⟨by simpa using alive, ?_⟩
  cases e with
  | publish payload =>
    obtain rfl := Option.some.inj taken
    cases link : s.link with
    | none =>
      have same : { s with link := none } = s := by rw [← link]
      simpa [same] using Step.unheard payload link
    | some l =>
      obtain ⟨phase, carried⟩ := @push_phase l payload (attached.phase l link)
      refine @List.append_nil _ s.mail ▸ .relink _ l (l.push payload) [] link ⟨phase, ?_, fun _ on => ?_⟩
      · rw [carried]
        cases l.active <;> simp [Event.published]
      · simp [Link.push, on]
  | confirm =>
    obtain ⟨l, r, link, found, rfl⟩ := ofLink_some taken
    split at found
    · cases found
    rename_i waiting
    obtain rfl := Option.some.inj found
    obtain ⟨phase, carried⟩ := confirm_phase (attached.phase l link) waiting
    exact .relink _ l l.confirm [] link ⟨phase, by simp [carried, Event.published], fun _ _ => rfl⟩
  | receive =>
    obtain ⟨l, _, link, found, rfl⟩ := ofLink_some taken
    split at found
    · cases found
    rename_i r rest replies
    obtain rfl := Option.some.inj found
    have phase := attached.phase l link
    obtain ⟨m, infos, ok, phase, active, carried⟩ := @receive_phase l rest r (by rw [← replies]; exact phase)
    rw [ok]
    refine .relink _ l m infos link ⟨phase, ?_, fun _ on => active.trans on⟩
    rw [carried, ← replies]
    simp [Link.carried, Event.published]
  | drop =>
    obtain ⟨l, r, link, found, rfl⟩ := ofLink_some taken
    split at found
    · rename_i up
      obtain rfl := Option.some.inj found
      obtain ⟨m, ok, phase, carried⟩ := drop_phase (attached.phase l link) up
      rw [ok]
      exact .relink _ l m [.disconnected] link ⟨phase, by simp [carried, Info.payload], fun other => absurd rfl other⟩
    · cases found
  | attempt connects sends =>
    obtain ⟨l, r, link, found, rfl⟩ := ofLink_some taken
    split at found
    · rename_i waits
      obtain rfl := Option.some.inj found
      have phase := attached.phase l link
      have down := phase.down waits
      by_cases taken : connects = true → sends = true
      · obtain ⟨m, ok, after, carried⟩ := connect_phase phase down taken
        rw [ok]
        have silent : l.carried = [] ∧ l.active = false := phase.silent down
        exact .relink _ l m [] link
          ⟨after, by simp [carried, silent], fun _ on => by simp [silent] at on⟩
      · obtain ⟨rfl, sends⟩ : connects = true ∧ sends = false := by simpa using taken
        rw [sends, connect_fault phase down]
        exact .fault
    · cases found
  | handle a =>
    cases mail : s.mail with
    | nil => simp [mail] at taken
    | cons info rest =>
      obtain rfl : handleInfo json a { s with mail := rest } info = t := by simpa [mail] using taken
      exact .handle a info rest mail
  | fire i =>
    obtain ⟨running, rfl⟩ : i < s.timers.length ∧
        { s with timers := s.timers.eraseIdx i, mail := s.mail ++ [.retryConnect] } = t := by simpa using taken
    exact .fire i running

theorem step_attached (attached : Attached json s ∧ s.Retries) (taken : step json s e = some t) :
    Attached json t ∧ t.Retries := by
  obtain ⟨attached, retries⟩ := attached
  cases (step_cases attached taken).2 with
  | relink _ l m infos was relinked =>
    refine ⟨attached.relink was relinked.phase, fun off => ?_⟩
    exact (retries off).imp_right (List.mem_append_left _)
  | fault => exact ⟨{ attached with }, retries⟩
  | unheard => exact ⟨attached, retries⟩
  | handle a info rest mail => exact handleInfo_attached attached retries mail
  | fire i running =>
    refine ⟨{ attached with unlinked := fun none info member => ?_ }, fun _ => .inr ?_⟩
    · rcases List.mem_append.mp member with before | new
      · exact attached.unlinked none info before
      · exact List.mem_singleton.mp new
    · exact List.mem_append_right _ List.mem_cons_self

/-- Taking a message from the mailbox changes nothing about what was received. -/
theorem handleInfo_received (attached : Attached json s) (mail : s.mail = info :: rest) :
    (handleInfo json a { s with mail := rest } info).received = s.received ∧
      (handleInfo json a { s with mail := rest } info).active = s.active := by
  cases info with
  | subscribed | disconnected => simp [handleInfo, sendAfter, received, active, mail, List.filterMap_cons, Info.payload]
  | message payload =>
    simp only [handleInfo]
    cases forward json payload <;> simp [received, active, mail, Info.payload]
  | retryConnect =>
    have phase : ∀ l, ({ s with mail := rest } : RedisSubscriber).link = some l → Phase l := attached.phase
    rcases @connect_cases _ a phase with ⟨m, infos, eq, -, carried, active, silent⟩ | ⟨none, eq⟩
    · simp only [handleInfo]
      rw [eq]
      refine ⟨?_, active⟩
      simp [received, mail, silent, carried, List.filterMap_cons, Info.payload]
    · simp only [handleInfo]
      rw [eq]
      simp [sendAfter, received, active, mail, List.filterMap_cons, Info.payload]

theorem step_received (attached : Attached json s) (taken : step json s e = some t) :
    (t.received = if e = .drop then s.handled ++ s.mail.filterMap Info.payload
      else s.received ++ if s.active then e.published.toList else []) ∧
      (e ≠ .drop → s.active = true → t.active = true) := by
  cases (step_cases attached taken).2 with
  | relink _ l m infos was relinked =>
    constructor
    · have carried := relinked.carried
      simp only [received, active, was, Option.elim_some, List.filterMap_append, List.append_assoc]
      rw [carried]
      split <;> simp
    · intro other on
      exact relinked.active other (by simpa [active, was] using on)
  | fault => exact ⟨by simp [received, Event.published], fun _ on => on⟩
  | unheard payload unlinked => simp [active, unlinked]
  | handle a info rest mail =>
    obtain ⟨received, active⟩ := @handleInfo_received json s rest info a attached mail
    exact ⟨by simp [received, Event.published], fun _ on => active.trans on⟩
  | fire i running =>
    exact ⟨by simp [received, Event.published, List.filterMap_cons, Info.payload], fun _ on => on⟩

theorem step_down (attached : Attached json s) (taken : step json s e = some t) (down : t.down = some fault) :
    e = .attempt true false ∧ fault = .functionClause ∨ ∃ payload ∈ t.handled, forward json payload = .error fault := by
  obtain ⟨alive, cause⟩ := step_cases attached taken
  cases cause with
  | relink | unheard | fire => cases alive.symm.trans down
  | fault => exact .inl ⟨rfl, (Option.some.inj down).symm⟩
  | handle a info rest mail =>
    cases info with
    | subscribed | disconnected => cases alive.symm.trans down
    | message payload =>
      simp only [handleInfo] at down ⊢
      cases ok : forward json payload with
      | ok effects =>
        rw [ok] at down
        cases alive.symm.trans down
      | error other =>
        rw [ok] at down
        obtain rfl := Option.some.inj down
        exact .inr ⟨payload, by simp, ok⟩
    | retryConnect =>
      have phase : ∀ l, ({ s with mail := rest } : RedisSubscriber).link = some l → Phase l := attached.phase
      simp only [handleInfo] at down
      rcases @connect_cases _ a phase with ⟨m, infos, eq, -⟩ | ⟨-, eq⟩
      · rw [eq] at down
        cases alive.symm.trans down
      · rw [eq] at down
        cases alive.symm.trans down

/-! ## Whole lives -/

theorem run_attached (ran : run (step json) s es = some t) (attached : Attached json s ∧ s.Retries) :
    Attached json t ∧ t.Retries :=
  @Transition.run_invariant _ _ _ (fun s => Attached json s ∧ s.Retries) _ _ _
    (fun _ _ _ before taken => step_attached before taken) attached ran

/-- Nothing is made up, doubled or put in another order. -/
theorem run_received (ran : run (step json) s es = some t) (attached : Attached json s ∧ s.Retries) :
    t.received.Sublist (s.received ++ es.filterMap Event.published) := by
  induction es generalizing s with
  | nil =>
    obtain rfl := Option.some.inj ran
    simp
  | cons e es ih =>
    obtain ⟨x, taken, ran⟩ := run_cons.mp ran
    obtain ⟨received, -⟩ := step_received attached.1 taken
    have one : x.received.Sublist (s.received ++ e.published.toList) := by
      rw [received]
      split
      · exact ((List.sublist_append_left _ _).trans (List.sublist_append_left _ _))
      · split
        · exact List.Sublist.refl _
        · exact List.Sublist.append_left (List.nil_sublist _) _
    have split : (e :: es).filterMap Event.published = e.published.toList ++ es.filterMap Event.published := by
      cases published : e.published <;> simp [published]
    rw [split, ← List.append_assoc]
    exact (ih ran (step_attached attached taken)).trans (one.append_right _)

/-- While Redis pushes to the socket and nobody closes it, nothing is lost. -/
theorem run_lossless (ran : run (step json) s es = some t) (attached : Attached json s ∧ s.Retries)
    (active : s.active = true) (up : .drop ∉ es) : t.received = s.received ++ es.filterMap Event.published := by
  induction es generalizing s with
  | nil =>
    obtain rfl := Option.some.inj ran
    simp
  | cons e es ih =>
    obtain ⟨x, taken, ran⟩ := run_cons.mp ran
    have here : e ≠ .drop := fun same => up (same ▸ List.mem_cons_self)
    obtain ⟨received, still⟩ := step_received attached.1 taken
    rw [if_neg here, if_pos active] at received
    have later : .drop ∉ es := fun member => up (List.mem_cons_of_mem _ member)
    rw [ih ran (step_attached attached taken) (still here active) later, received]
    cases published : e.published <;> simp [published]

theorem run_alive (ran : run (step json) s es = some t) (down : s.down = some fault) : t = s := by
  cases es with
  | nil => exact (Option.some.inj ran).symm
  | cons e es =>
    obtain ⟨x, taken, -⟩ := run_cons.mp ran
    simp [step, down] at taken

theorem run_down (ran : run (step json) s es = some t) (attached : Attached json s ∧ s.Retries) (alive : s.down = none)
    (down : t.down = some fault) : fault = .functionClause ∧ .attempt true false ∈ es ∨
      ∃ payload ∈ t.handled, forward json payload = .error fault := by
  induction es generalizing s with
  | nil =>
    obtain rfl := Option.some.inj ran
    cases alive.symm.trans down
  | cons e es ih =>
    obtain ⟨x, taken, ran⟩ := run_cons.mp ran
    cases ended : x.down with
    | none => exact (ih ran (step_attached attached taken) ended).imp_left fun ⟨same, member⟩ =>
        ⟨same, List.mem_cons_of_mem _ member⟩
    | some other =>
      obtain rfl := run_alive ran ended
      exact (step_down attached.1 taken down).imp_left fun ⟨here, same⟩ => ⟨same, here ▸ List.mem_cons_self⟩

theorem init_down : (init a).down = none := by
  rcases @connect_cases {} a nofun with ⟨m, infos, eq, -⟩ | ⟨-, eq⟩
  · rw [init, eq]
  · rw [init, eq]
    rfl

theorem init_received : (init a).received = [] := by
  rcases @connect_cases {} a nofun with ⟨m, infos, eq, -, carried, -, silent⟩ | ⟨-, eq⟩
  · rw [init, eq]
    simp [received, carried, silent]
  · rw [init, eq]
    rfl

/-- With nothing under way the subscription stands; a process without a socket has its next attempt before it. -/
def Link.Settles (l : Link) : Prop :=
  (l.connected = true → l.commands = 0 → l.replies = [] → l.subscription = some .subscribed ∧ l.active = true) ∧
    (l.connected = false → ∃ delay, l.reconnect = some delay ∧ Delayed delay)

theorem settles (phase : Phase l) : Link.Settles l := by
  cases phase with
  | closed delay delayed pending _ down =>
    exact ⟨fun up => (by cases down.symm.trans up), fun _ => ⟨delay, pending, delayed⟩⟩
  | asking _ up _ commands =>
    exact ⟨fun _ none => (by cases commands.symm.trans none), fun down => (by cases down.symm.trans up)⟩
  | confirmed _ _ up _ _ _ replies =>
    exact ⟨fun _ _ none => (by cases replies.symm.trans none), fun down => (by cases down.symm.trans up)⟩
  | live _ _ up subscription _ active =>
    exact ⟨fun _ _ _ => ⟨subscription, active⟩, fun down => (by cases down.symm.trans up)⟩

theorem delays_eq (k : ℕ) : Backoff.delays (2 * ·) retryMaxMs retryBaseMs k =
    (List.range k).map fun i => min (2 ^ i * retryBaseMs) retryMaxMs := by
  apply List.map_congr_left
  intro i _
  rw [Backoff.capped_iterate (fun a b le => Nat.mul_le_mul_left 2 le) (by decide) (by decide), mul_left_iterate_apply]

/-- What the subscriber did and waits for after the events. -/
structure Follows (json : Jason) (s : RedisSubscriber) (es : List Event) : Prop where
  forwards : s.effects.filter (fun effect => effect.delay = none) = s.handled.flatMap (forwarded json)
  received : s.received.Sublist (es.filterMap Event.published)
  lossless : s.active = true → ∀ fs t, .drop ∉ fs → run (step json) s fs = some t →
    t.received = s.received ++ fs.filterMap Event.published
  settles : ∀ l, s.link = some l → Link.Settles l
  retries : s.pubsub = false → s.timers ≠ [] ∨ .retryConnect ∈ s.mail
  delays : ∃ k m, s.effects.filterMap Effect.delay =
      (List.range k).map (fun i => min (2 ^ i * retryBaseMs) retryMaxMs) ++ List.replicate m retryBaseMs ∧
    (s.link = none → m = 0)
  /-- The process ends by a payload that decodes to neither an object nor `null`, or with the connection
  process, when that has a new socket which does not take its `SUBSCRIBE`. -/
  down : ∀ fault, s.down = some fault → fault = .functionClause ∧ .attempt true false ∈ es ∨
    ∃ payload ∈ s.handled, forward json payload = .error fault

/-- In every life of the subscriber each event that it took goes out once on each path and in order,
none that Redis pushed is lost while the socket stays, and it is never left without the channel for good. -/
theorem subscriber_follows (ran : run (step json) (init a) es = some s) : Follows json s es := by
  have attached := run_attached ran init_attached
  refine {
    forwards := attached.1.effects
    received := ?_
    lossless active fs t up more := run_lossless more attached active up
    settles l link := RedisSubscriber.settles (attached.1.phase l link)
    retries := attached.2
    delays := ?_
    down fault down := ?_ }
  · have received := run_received ran init_attached
    rwa [init_received, List.nil_append] at received
  · obtain ⟨k, m, same, rest⟩ := attached.1.delays
    refine ⟨k, m, by rw [same, delays_eq], fun none => ?_⟩
    rw [none] at rest
    exact rest.1
  · exact run_down ran init_attached init_down down

/-- `Jason` on the empty object and the message that brings it. -/
def emptyObject : Jason where
  decode payload := if payload = [123, 125] then some (.map []) else none
  encode
    | .map [(.binary "event", .binary "redis_event"), (.binary "payload", .map [])] =>
      some "\x7b\"event\":\"redis_event\",\"payload\":\x7b\x7d\x7d".toUTF8.toList
    | _ => none

def reachable : Answers := ⟨true, true, true⟩

/-- An event before and one behind a lost connection, one between that nobody hears, and a payload
that is no JSON. -/
def reconnected : List Event := [
  .confirm, .receive, .handle reachable, .publish [123, 125], .receive, .handle reachable,
  .drop, .publish [123, 125], .handle reachable, .attempt true true, .confirm, .receive, .handle reachable,
  .fire 0, .handle reachable, .publish [123], .publish [123, 125], .handle reachable, .receive, .receive,
  .handle reachable, .handle reachable]

theorem subscriber_follows_reconnected : ∃ s, run (step emptyObject) (init reachable) reconnected = some s ∧
    s.handled = [[123, 125], [123], [123, 125]] ∧ Follows emptyObject s reconnected := by
  have taken : ∃ s, run (step emptyObject) (init reachable) reconnected = some s ∧
    s.handled = [[123, 125], [123], [123, 125]] := ⟨_, rfl, rfl⟩
  obtain ⟨s, ran, handled⟩ := taken
  exact ⟨s, ran, handled, subscriber_follows ran⟩

end RedisSubscriber

end PolyglotInfinity.HubElixir
