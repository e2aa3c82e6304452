import Mathlib.Data.Finset.Basic
import PolyglotInfinity.Lib.Channel
import PolyglotInfinity.Lib.Transition

/-!
# The WebSocket hub

The event loop of the hub, with the clients' handlers and write pumps. Each case
of the select is one step, and so is each round of the broadcast's loop over the
clients, in whatever order the map gives them.
-/

namespace PolyglotInfinity.Gateway

open Transition (run)

abbrev Message := List UInt8

/-- How far a client's handler has come; `wsHandler` registers it, and then `readPump` may unregister it. -/
inductive Life where
  | fresh
  | registered
  | unregistered
  deriving DecidableEq

inductive Panic where
  | closeOfClosed (c : ℕ)
  | sendOnClosed (c : ℕ)

/-- Where the hub's goroutine stands; `rest` are the clients that the loop has not reached. -/
inductive Loop where
  | selecting
  | ranging (msg : Message) (rest : Finset ℕ)
  | panicked (p : Panic)

def sendBuffer : ℕ := 256

structure Hub where
  clients : Finset ℕ := ∅
  send : ℕ → Channel Message := fun _ => Channel.make sendBuffer
  life : ℕ → Life := fun _ => .fresh
  loop : Loop := .selecting
  /-- How often the hub has called `close` on a client's channel. -/
  closes : ℕ → ℕ := fun _ => 0

inductive HubEvent where
  | register (c : ℕ)
  | unregister (c : ℕ)
  | broadcast (msg : Message)
  /-- The loop reaches client `c`. -/
  | visit (c : ℕ)
  | ranged
  /-- The write pump of client `c` receives. -/
  | drain (c : ℕ)

/-- Both places that drop a client take it from the map and close its channel. -/
def Hub.drop (h : Hub) (c : ℕ) : Hub :=
  let closes := Function.update h.closes c (h.closes c + 1)
  match (h.send c).close with
  | some ch => { h with clients := h.clients.erase c, send := Function.update h.send c ch, closes }
  | none => { h with loop := .panicked (.closeOfClosed c), closes }

def Hub.step (h : Hub) : HubEvent → Option Hub
  | .register c =>
    match h.loop with
    | .selecting =>
      if h.life c = .fresh then
        some { h with clients := insert c h.clients, life := Function.update h.life c .registered }
      else none
    | _ => none
  | .unregister c =>
    match h.loop with
    | .selecting =>
      if h.life c = .registered then
        let h := { h with life := Function.update h.life c .unregistered }
        some (if c ∈ h.clients then h.drop c else h)
      else none
    | _ => none
  | .broadcast msg =>
    match h.loop with
    | .selecting => some { h with loop := .ranging msg h.clients }
    | _ => none
  | .visit c =>
    match h.loop with
    | .ranging msg rest =>
      if c ∈ rest then
        let h := { h with loop := .ranging msg (rest.erase c) }
        match (h.send c).trySend msg with
        | .panicked => some { h with loop := .panicked (.sendOnClosed c) }
        | .sent ch => some { h with send := Function.update h.send c ch }
        | .full => some (h.drop c)
      else none
    | _ => none
  | .ranged =>
    match h.loop with
    | .ranging _ rest => if rest = ∅ then some { h with loop := .selecting } else none
    | _ => none
  | .drain c =>
    if h.life c = .fresh then none
    else (h.send c).receive.map fun r => { h with send := Function.update h.send c r.2 }

variable {h h' : Hub} {c : ℕ}

theorem register_eq : h.step (.register c) = some h' ↔ h.loop = .selecting ∧ h.life c = .fresh ∧
    h' = { h with clients := insert c h.clients, life := Function.update h.life c .registered } := by
  cases position : h.loop <;> simp [Hub.step, position, @eq_comm _ _ h']

theorem unregister_eq : h.step (.unregister c) = some h' ↔ h.loop = .selecting ∧ h.life c = .registered ∧
    (c ∈ h.clients ∧ h' = Hub.drop { h with life := Function.update h.life c .unregistered } c ∨
      c ∉ h.clients ∧ h' = { h with life := Function.update h.life c .unregistered }) := by
  by_cases here : c ∈ h.clients <;> cases position : h.loop <;> simp [Hub.step, position, here, @eq_comm _ _ h']

theorem broadcast_eq {msg : Message} : h.step (.broadcast msg) = some h' ↔
    h.loop = .selecting ∧ h' = { h with loop := .ranging msg h.clients } := by
  cases position : h.loop <;> simp [Hub.step, position, @eq_comm _ _ h']

theorem visit_eq : h.step (.visit c) = some h' ↔ ∃ msg rest, h.loop = .ranging msg rest ∧ c ∈ rest ∧
    ((h.send c).trySend msg = .panicked ∧ h' = { h with loop := .panicked (.sendOnClosed c) } ∨
      (∃ ch, (h.send c).trySend msg = .sent ch ∧
        h' = { h with loop := .ranging msg (rest.erase c), send := Function.update h.send c ch }) ∨
      (h.send c).trySend msg = .full ∧ h' = Hub.drop { h with loop := .ranging msg (rest.erase c) } c) := by
  cases position : h.loop with
  | ranging msg rest => cases tried : (h.send c).trySend msg <;> simp [Hub.step, position, tried, @eq_comm _ _ h']
  | _ => simp [Hub.step, position]

theorem ranged_eq : h.step .ranged = some h' ↔
    ∃ msg, h.loop = .ranging msg ∅ ∧ h' = { h with loop := .selecting } := by
  cases position : h.loop with
  | ranging msg rest => simp [Hub.step, position, @eq_comm _ _ h']
  | _ => simp [Hub.step, position]

theorem drain_eq : h.step (.drain c) = some h' ↔ h.life c ≠ .fresh ∧
    ∃ r, (h.send c).receive = some r ∧ h' = { h with send := Function.update h.send c r.2 } := by
  simp [Hub.step, @eq_comm _ _ h']

structure Orderly (h : Hub) : Prop where
  running : ∀ p, h.loop ≠ .panicked p
  reached : ∀ msg rest, h.loop = .ranging msg rest → rest ⊆ h.clients
  fresh : ∀ c, h.life c = .fresh → (h.send c).closed = false
  listed : ∀ c, c ∈ h.clients ↔ h.life c ≠ .fresh ∧ (h.send c).closed = false
  closes : ∀ c, h.closes c = if (h.send c).closed then 1 else 0

theorem drop_eq (live : (h.send c).closed = false) : h.drop c =
    { h with
      clients := h.clients.erase c
      send := Function.update h.send c { h.send c with closed := true }
      closes := Function.update h.closes c (h.closes c + 1) } := by
  simp [Hub.drop, Channel.close_eq.mpr ⟨live, rfl⟩]

theorem Orderly.drop (orderly : Orderly h) (here : c ∈ h.clients)
    (passed : ∀ msg rest, h.loop = .ranging msg rest → c ∉ rest) : Orderly (h.drop c) := by
  obtain ⟨registered, live⟩ := (orderly.listed c).mp here
  rw [drop_eq live]
  refine ⟨orderly.running, fun msg rest ranging => ?_, fun d new => ?_, fun d => ?_, fun d => ?_⟩
  · exact Finset.subset_erase.mpr ⟨orderly.reached msg rest ranging, passed msg rest ranging⟩
  · have other : d ≠ c := by
      rintro rfl
      exact registered new
    simpa [Function.update_of_ne other] using orderly.fresh d new
  · by_cases same : d = c
    · subst d
      simp
    · simpa [Function.update_of_ne same, same] using orderly.listed d
  · by_cases same : d = c
    · subst d
      simp [orderly.closes, live]
    · simpa [Function.update_of_ne same] using orderly.closes d

/-- A channel that the hub or a write pump has used, and that stays as open as it was. -/
theorem Orderly.moved (orderly : Orderly h) {ch : Channel Message} (same : ch.closed = (h.send c).closed) :
    Orderly { h with send := Function.update h.send c ch } := by
  have shut : ∀ d, (Function.update h.send c ch d).closed = (h.send d).closed := by
    intro d
    by_cases mine : d = c
    · subst d
      rw [Function.update_self, same]
    · rw [Function.update_of_ne mine]
  refine ⟨orderly.running, orderly.reached, fun d => ?_, fun d => ?_, fun d => ?_⟩
  · simpa [shut] using orderly.fresh d
  · simpa [shut] using orderly.listed d
  · simpa [shut] using orderly.closes d

/-- An orderly hub never sends on a closed channel. -/
theorem Orderly.visit (orderly : Orderly h) (taken : h.step (.visit c) = some h') :
    ∃ msg rest, h.loop = .ranging msg rest ∧ c ∈ rest ∧ c ∈ h.clients ∧
      ((∃ ch, (h.send c).trySend msg = .sent ch ∧ ch.closed = (h.send c).closed ∧
          h' = { h with loop := .ranging msg (rest.erase c), send := Function.update h.send c ch }) ∨
        (h.send c).trySend msg = .full ∧ h' = Hub.drop { h with loop := .ranging msg (rest.erase c) } c) := by
  obtain ⟨msg, rest, ranging, next, offered⟩ := visit_eq.mp taken
  have here := orderly.reached msg rest ranging next
  have live := ((orderly.listed c).mp here).2
  refine ⟨msg, rest, ranging, next, here, ?_⟩
  rcases Channel.trySend_open (x := msg) live with ⟨ch, sent, kept⟩ | full
  · left
    exact ⟨ch, sent, kept.trans live.symm, by simpa [sent] using offered⟩
  · right
    exact ⟨full, by simpa [full] using offered⟩

theorem step_orderly {e : HubEvent} (orderly : Orderly h) (taken : h.step e = some h') : Orderly h' := by
  cases e with
  | register c =>
    obtain ⟨selecting, new, rfl⟩ := register_eq.mp taken
    refine ⟨orderly.running, by simp [selecting], fun d still => ?_, fun d => ?_, orderly.closes⟩
    · by_cases same : d = c
      · subst d
        exact orderly.fresh c new
      · exact orderly.fresh d (by simpa [Function.update_of_ne same] using still)
    · by_cases same : d = c
      · subst d
        simp [orderly.fresh c new]
      · simpa [Function.update_of_ne same, same] using orderly.listed d
  | unregister c =>
    obtain ⟨selecting, registered, gone⟩ := unregister_eq.mp taken
    have left : Orderly { h with life := Function.update h.life c .unregistered } := by
      refine ⟨orderly.running, orderly.reached, fun d still => ?_, fun d => ?_, orderly.closes⟩
      · by_cases same : d = c
        · subst d
          simp at still
        · exact orderly.fresh d (by simpa [Function.update_of_ne same] using still)
      · by_cases same : d = c
        · subst d
          simp [orderly.listed, registered]
        · simpa [Function.update_of_ne same] using orderly.listed d
    rcases gone with ⟨here, rfl⟩ | ⟨-, rfl⟩
    · exact left.drop here (by simp [selecting])
    · exact left
  | broadcast msg =>
    obtain ⟨-, rfl⟩ := broadcast_eq.mp taken
    refine ⟨by simp, fun m rest ranging => ?_, orderly.fresh, orderly.listed, orderly.closes⟩
    cases ranging
    exact Finset.Subset.refl _
  | visit c =>
    obtain ⟨msg, rest, ranging, next, here, offered⟩ := orderly.visit taken
    have passed : Orderly { h with loop := .ranging msg (rest.erase c) } := by
      refine ⟨by simp, fun m remaining still => ?_, orderly.fresh, orderly.listed, orderly.closes⟩
      cases still
      exact (Finset.erase_subset c rest).trans (orderly.reached msg rest ranging)
    rcases offered with ⟨ch, -, kept, rfl⟩ | ⟨-, rfl⟩
    · exact passed.moved kept
    · exact passed.drop here (by simp)
  | ranged =>
    obtain ⟨msg, -, rfl⟩ := ranged_eq.mp taken
    exact ⟨by simp, by simp, orderly.fresh, orderly.listed, orderly.closes⟩
  | drain c =>
    obtain ⟨-, r, received, rfl⟩ := drain_eq.mp taken
    exact orderly.moved (Channel.receive_closed received)

theorem start_orderly : Orderly {} := ⟨by simp, by simp, by simp, by simp, by simp⟩

/-- Whatever order the hub's events come in, it never panics, it closes a
channel at most once, and it lists the clients that have been registered and whose
channel is open. -/
theorem hub_keeps_order {events : List HubEvent} (taken : run Hub.step {} events = some h) :
    (∀ p, h.loop ≠ .panicked p) ∧
      ∀ c, h.closes c ≤ 1 ∧ (c ∈ h.clients ↔ h.life c ≠ .fresh ∧ (h.send c).closed = false) := by
  have orderly : Orderly h :=
    Transition.run_invariant (fun _ _ _ orderly taken => step_orderly orderly taken) start_orderly taken
  refine ⟨orderly.running, fun c => ⟨?_, orderly.listed c⟩⟩
  rw [orderly.closes]
  split <;> simp

/-- Two clients, a message to both, one of them gone before the second message. -/
def chatter : List HubEvent := [.register 0, .register 1, .broadcast [42], .visit 1, .visit 0, .ranged, .drain 0,
  .unregister 1, .broadcast [43], .visit 0, .ranged, .drain 1]

theorem hub_keeps_order_chatter : ∃ h, run Hub.step {} chatter = some h ∧ h.life 1 = .unregistered ∧ h.closes 1 = 1 ∧
    (1 ∈ h.clients ↔ h.life 1 ≠ .fresh ∧ (h.send 1).closed = false) := by
  have history : (run Hub.step {} chatter).map (fun h => (h.life 1, h.closes 1)) = some (.unregistered, 1) := by
    decide +kernel
  obtain ⟨h, taken, shown⟩ := Option.map_eq_some_iff.mp history
  obtain ⟨life, closes⟩ := Prod.mk.inj shown
  exact ⟨h, taken, life, closes, ((hub_keeps_order taken).2 1).2⟩

end PolyglotInfinity.Gateway
