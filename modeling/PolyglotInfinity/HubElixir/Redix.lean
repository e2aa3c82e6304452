import Mathlib.Data.List.Basic
import PolyglotInfinity.HubElixir.Poller
import PolyglotInfinity.Lib.Backoff

/-!
# The pub/sub connection of Redix

The connection process holds one socket to Redis and one subscription, that of the
`RedisSubscriber` to its channel. A `Link` is the process together with what is on the
socket: the commands that Redis has not read yet, and the replies the process has not.
-/

namespace PolyglotInfinity.HubElixir

/-- What the process keeps of the channel; the set of its subscribers has the one member. -/
inductive Subscription where
  | disconnected
  | subscribing
  | subscribed
  deriving DecidableEq

inductive Reply where
  | subscribe
  | message (payload : Binary)
  deriving DecidableEq

/-- The messages of the subscriber's mailbox. -/
inductive Info where
  | subscribed
  | message (payload : Binary)
  | disconnected
  | retryConnect
  deriving DecidableEq

/-- How a process of the hub ends. -/
inductive Fault where
  | functionClause
  | badMatch
  | caseClause
  | badAccess
  deriving DecidableEq

structure Link where
  connected : Bool := false
  subscription : Option Subscription := none
  backoffCurrent : Option ℕ := none
  /-- The delay of the pending `:reconnect` timeout. -/
  reconnect : Option ℕ := none
  /-- The `SUBSCRIBE` commands on the socket. -/
  commands : ℕ := 0
  /-- Whether Redis pushes the channel's messages to the socket. -/
  active : Bool := false
  replies : List Reply := []

def backoffInitial : ℕ := 500

def backoffMax : ℕ := 30000

/-- `round(backoff * 1.5)`. -/
def grownBackoff (backoff : ℕ) : ℕ := (3 * backoff + 1) / 2

def Link.nextBackoff (l : Link) : ℕ :=
  Backoff.capped grownBackoff backoffMax (l.backoffCurrent.getD backoffInitial)

/-- `disconnect/3`; what was on the socket is gone with it. -/
def Link.disconnect (l : Link) : Link :=
  { l with
    connected := false, backoffCurrent := some l.nextBackoff, reconnect := some l.nextBackoff, commands := 0,
    active := false, replies := [] }

/-- The clause of `disconnected/3` for `:handle_disconnection`; the process monitors its subscriber
from the subscription on. -/
def Link.handleDisconnection (l : Link) : Except Fault (Link × List Info) :=
  match l.subscription with
  | none => .ok (l, [])
  | some .subscribed | some .subscribing => .ok ({ l with subscription := some .disconnected }, [.disconnected])
  -- the function over the subscriptions has no clause for it
  | some .disconnected => .error .functionClause

/-- The socket is closed, by Redis or by the network. -/
def Link.drop (l : Link) : Except Fault (Link × List Info) := l.disconnect.handleDisconnection

/-- An attempt of the process to connect, from its start or from the timeout. `sends` says
whether the socket takes what is sent. -/
def Link.connect (l : Link) (connects sends : Bool) : Except Fault (Link × List Info) :=
  if connects then
    let up := { l with connected := true, backoffCurrent := none, reconnect := none }
    match l.subscription with
    | none => .ok (up, [])
    | some .disconnected =>
      if sends then .ok ({ up with subscription := some .subscribing, commands := 1 }, [])
      -- the subscriptions are still those from before the attempt
      else up.drop
    | some _ => .error .functionClause
  else .ok (l.disconnect, [])

def Link.subscribe (l : Link) (sends : Bool) : Except Fault (Link × List Info) :=
  if l.connected then
    match l.subscription with
    | none =>
      let asking := { l with subscription := some .subscribing }
      if sends then .ok ({ asking with commands := asking.commands + 1 }, []) else asking.drop
    | some .subscribed => .ok (l, [.subscribed])
    | some .subscribing => .ok (l, [])
    | some .disconnected => .error .functionClause
  else
    match l.subscription with
    | none | some .disconnected => .ok ({ l with subscription := some .disconnected }, [])
    | some _ => .error .functionClause

/-- `handle_pubsub_msg`. -/
def Link.receive (l : Link) : Reply → Except Fault (Link × List Info)
  | .subscribe =>
    match l.subscription with
    | some .subscribing => .ok ({ l with subscription := some .subscribed }, [.subscribed])
    | _ => .error .badMatch
  | .message payload =>
    match l.subscription with
    | some .subscribed => .ok (l, [.message payload])
    | _ => .error .caseClause

/-- Redis reads a `SUBSCRIBE` and confirms it. -/
def Link.confirm (l : Link) : Link :=
  { l with commands := l.commands - 1, active := true, replies := l.replies ++ [.subscribe] }

/-- Redis pushes what somebody publishes on the channel. -/
def Link.push (l : Link) (payload : Binary) : Link :=
  if l.active then { l with replies := l.replies ++ [.message payload] } else l

/-! ## The four phases of a subscription -/

def Delayed (delay : ℕ) : Prop := 750 ≤ delay ∧ delay ≤ backoffMax

/-- Where a subscription is, with what that says about the socket. -/
inductive Phase (l : Link) : Prop where
  | closed (delay : ℕ) (delayed : Delayed delay) (pending : l.reconnect = some delay)
    (backoff : l.backoffCurrent = some delay) (socket : l.connected = false)
    (subscription : l.subscription = some .disconnected) (commands : l.commands = 0) (active : l.active = false)
    (replies : l.replies = [])
  | asking (idle : l.backoffCurrent = none ∧ l.reconnect = none) (socket : l.connected = true)
    (subscription : l.subscription = some .subscribing) (commands : l.commands = 1) (active : l.active = false)
    (replies : l.replies = [])
  | confirmed (payloads : List Binary) (idle : l.backoffCurrent = none ∧ l.reconnect = none)
    (socket : l.connected = true) (subscription : l.subscription = some .subscribing) (commands : l.commands = 0)
    (active : l.active = true) (replies : l.replies = .subscribe :: payloads.map .message)
  | live (payloads : List Binary) (idle : l.backoffCurrent = none ∧ l.reconnect = none) (socket : l.connected = true)
    (subscription : l.subscription = some .subscribed) (commands : l.commands = 0) (active : l.active = true)
    (replies : l.replies = payloads.map .message)

def Reply.payload : Reply → Option Binary
  | .message payload => some payload
  | .subscribe => none

def Info.payload : Info → Option Binary
  | .message payload => some payload
  | .subscribed | .disconnected | .retryConnect => none

def Link.carried (l : Link) : List Binary := l.replies.filterMap Reply.payload

variable {l m : Link} {infos : List Info} {sends connects : Bool} {payload : Binary} {rest : List Reply} {r : Reply}

theorem le_grownBackoff (backoff : ℕ) : backoff ≤ grownBackoff backoff := by
  unfold grownBackoff
  omega

theorem nextBackoff_delayed (before : ∀ backoff, l.backoffCurrent = some backoff → Delayed backoff) :
    Delayed l.nextBackoff := by
  refine ⟨?_, Backoff.capped_le _⟩
  unfold Link.nextBackoff
  cases current : l.backoffCurrent with
  | none => decide
  | some backoff => exact Backoff.le_capped le_grownBackoff (before backoff current).1 (by decide)

theorem Phase.delayed (phase : Phase l) (backoff : ℕ) (current : l.backoffCurrent = some backoff) : Delayed backoff := by
  cases phase with
  | closed delay delayed _ same =>
    obtain rfl := Option.some.inj (same.symm.trans current)
    exact delayed
  | asking idle | confirmed _ idle | live _ idle => cases idle.1.symm.trans current

theorem Phase.down (phase : Phase l) (waits : l.reconnect.isSome) : l.connected = false := by
  cases phase with
  | closed _ _ _ _ down => exact down
  | asking idle | confirmed _ idle | live _ idle => simp [idle.2] at waits

theorem Phase.silent (phase : Phase l) (down : l.connected = false) : l.carried = [] ∧ l.active = false := by
  cases phase with
  | closed _ _ _ _ _ _ _ active replies => exact ⟨by rw [Link.carried, replies, List.filterMap_nil], active⟩
  | asking _ up | confirmed _ _ up | live _ _ up => cases down.symm.trans up

theorem closed_phase (before : ∀ backoff, l.backoffCurrent = some backoff → Delayed backoff) :
    Phase { l.disconnect with subscription := some .disconnected } :=
  .closed l.nextBackoff (nextBackoff_delayed before) rfl rfl rfl rfl rfl rfl rfl

/-- A socket that is closed leaves the process waiting for its next attempt, and the subscriber told. -/
theorem drop_phase (phase : Phase l) (up : l.connected = true) :
    ∃ m, l.drop = .ok (m, [.disconnected]) ∧ Phase m ∧ m.carried = [] := by
  have told : l.drop = .ok ({ l.disconnect with subscription := some .disconnected }, [.disconnected]) := by
    unfold Link.drop Link.handleDisconnection
    cases phase with
    | closed _ _ _ _ down => cases down.symm.trans up
    | asking _ _ subscription | confirmed _ _ _ subscription | live _ _ _ subscription =>
      rw [show l.disconnect.subscription = l.subscription from rfl, subscription]
  exact ⟨_, told, closed_phase phase.delayed, rfl⟩

theorem connect_phase (phase : Phase l) (down : l.connected = false) (fault : connects = true → sends = true) :
    ∃ m, l.connect connects sends = .ok (m, []) ∧ Phase m ∧ m.carried = [] := by
  cases phase with
  | closed delay delayed pending backoff _ subscription commands active replies =>
    cases connects with
    | true =>
      let asking : Link := { l with
        connected := true, subscription := some .subscribing, backoffCurrent := none, reconnect := none, commands := 1 }
      have sent : l.connect true sends = .ok (asking, []) := by simp [Link.connect, subscription, fault rfl, asking]
      exact ⟨asking, sent, .asking ⟨rfl, rfl⟩ rfl rfl rfl active replies, by simp [Link.carried, asking, replies]⟩
    | false =>
      have before : ∀ b, l.backoffCurrent = some b → Delayed b :=
        (Phase.closed delay delayed pending backoff down subscription commands active replies).delayed
      refine ⟨l.disconnect, rfl, ?_, rfl⟩
      exact .closed l.nextBackoff (nextBackoff_delayed before) rfl rfl rfl subscription rfl rfl rfl
  | asking _ up | confirmed _ _ up | live _ _ up => cases down.symm.trans up

/-- The attempt whose `SUBSCRIBE` the socket does not take is the end of the process. -/
theorem connect_fault (phase : Phase l) (down : l.connected = false) :
    l.connect true false = .error .functionClause := by
  cases phase with
  | closed _ _ _ _ _ subscription =>
    simp [Link.connect, Link.drop, Link.handleDisconnection, Link.disconnect, subscription]
  | asking _ up | confirmed _ _ up | live _ _ up => cases down.symm.trans up

/-- A second subscription of the same process is none to Redis. -/
theorem subscribe_phase (phase : Phase l) :
    ∃ infos, l.subscribe sends = .ok (l, infos) ∧ infos.filterMap Info.payload = [] := by
  unfold Link.subscribe
  cases phase with
  | closed _ _ _ _ down subscription =>
    have same : { l with subscription := some .disconnected } = l := by rw [← subscription]
    rw [if_neg (by simp [down]), subscription]
    exact ⟨[], congrArg (fun m => Except.ok (m, [])) same, rfl⟩
  | asking _ up subscription | confirmed _ _ up subscription =>
    rw [if_pos up, subscription]
    exact ⟨_, rfl, rfl⟩
  | live _ _ up subscription =>
    rw [if_pos up, subscription]
    exact ⟨_, rfl, rfl⟩

theorem receive_phase (phase : Phase { l with replies := r :: rest }) :
    ∃ m infos, Link.receive { l with replies := rest } r = .ok (m, infos) ∧ Phase m ∧ m.active = l.active ∧
      infos.filterMap Info.payload ++ m.carried = (r :: rest).filterMap Reply.payload := by
  cases phase with
  | closed _ _ _ _ _ _ _ _ replies | asking _ _ _ _ _ replies => cases replies
  | confirmed payloads idle socket subscription commands active replies =>
    obtain ⟨rfl, rfl⟩ := List.cons.inj replies
    refine ⟨{ l with replies := payloads.map .message, subscription := some .subscribed }, [.subscribed], ?_,
      .live payloads idle socket rfl commands active rfl, rfl, rfl⟩
    simp only [Link.receive]
    rw [show l.subscription = some .subscribing from subscription]
  | live payloads idle socket subscription commands active replies =>
    cases payloads with
    | nil => cases replies
    | cons payload payloads =>
      obtain ⟨rfl, rfl⟩ := List.cons.inj replies
      refine ⟨{ l with replies := payloads.map .message }, [.message payload], ?_,
        .live payloads idle socket subscription commands active rfl, rfl, rfl⟩
      simp only [Link.receive]
      rw [show l.subscription = some .subscribed from subscription]

theorem confirm_phase (phase : Phase l) (waiting : l.commands ≠ 0) :
    Phase l.confirm ∧ l.confirm.carried = l.carried := by
  cases phase with
  | closed _ _ _ _ _ _ none | confirmed _ _ _ _ none | live _ _ _ _ none => exact absurd none waiting
  | asking idle socket subscription commands active replies =>
    refine ⟨.confirmed [] idle socket subscription ?_ rfl ?_, ?_⟩
    · simp [Link.confirm, commands]
    · simp [Link.confirm, replies]
    · simp [Link.confirm, Link.carried, replies, Reply.payload]

theorem push_phase (phase : Phase l) : Phase (l.push payload) ∧
    (l.push payload).carried = if l.active then l.carried ++ [payload] else l.carried := by
  unfold Link.push
  cases phase with
  | closed delay delayed pending backoff socket subscription commands inactive replies =>
    rw [if_neg (by simp [inactive]), if_neg (by simp [inactive])]
    exact ⟨.closed delay delayed pending backoff socket subscription commands inactive replies, rfl⟩
  | asking idle socket subscription commands inactive replies =>
    rw [if_neg (by simp [inactive]), if_neg (by simp [inactive])]
    exact ⟨.asking idle socket subscription commands inactive replies, rfl⟩
  | confirmed payloads idle socket subscription commands active replies =>
    rw [if_pos active, if_pos active]
    refine ⟨.confirmed (payloads ++ [payload]) idle socket subscription commands active ?_, ?_⟩
    · simp [replies]
    · simp [Link.carried, Reply.payload]
  | live payloads idle socket subscription commands active replies =>
    rw [if_pos active, if_pos active]
    refine ⟨.live (payloads ++ [payload]) idle socket subscription commands active ?_, ?_⟩
    · simp [replies]
    · simp [Link.carried, Reply.payload]

end PolyglotInfinity.HubElixir
