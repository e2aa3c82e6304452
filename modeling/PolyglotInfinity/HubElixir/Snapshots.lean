import Mathlib.Data.List.Nodup
import Mathlib.Data.List.Range
import Mathlib.Logic.Function.Basic
import PolyglotInfinity.Lib.Transition

/-!
# Snapshots on their way to the WebSocket clients

The Poller, the registry and the handler processes. A snapshot stands by its number: the
one that `init` stores is 0, and each poll takes the next. The messages of the Poller to one
process keep their order; the reply to a call is received ahead of the mailbox.
-/

namespace PolyglotInfinity.HubElixir

open Transition (run Along Always)

/-- How far a handler process is in `websocket_init`. -/
inductive Stage where
  | connected
  | registered
  | calling
  | answered (snapshot : ℕ)
  | running
  deriving DecidableEq

structure Session where
  stage : Stage := .connected
  /-- The broadcasts that wait for `websocket_info`. -/
  mailbox : List ℕ := []
  frames : List ℕ := []
  /-- The last snapshot produced when the client registered. Ghost. -/
  since : ℕ := 0

inductive Activity where
  | waiting
  | fetched
  | dispatching (entries : List ℕ)
  deriving DecidableEq

structure Hub where
  produced : ℕ := 0
  snapshot : ℕ := 0
  poller : Activity := .waiting
  entries : List ℕ := []
  sessions : ℕ → Session := fun _ => {}

inductive Event where
  | register (c : ℕ)
  | call (c : ℕ)
  | initial (c : ℕ)
  | deliver (c : ℕ)
  | poll
  | lookup
  | send
  | store
  | answer (c : ℕ)

def Hub.put (h : Hub) (c : ℕ) (s : Session) : Hub := { h with sessions := Function.update h.sessions c s }

def Session.register (s : Session) (produced : ℕ) : Session := { s with stage := .registered, since := produced }

/-- The handler sends the snapshot of the reply as its first frame. -/
def Session.initial (s : Session) : Option Session :=
  match s.stage with
  | .answered k => some { s with stage := .running, frames := s.frames ++ [k] }
  | _ => none

def Session.websocketInfo (s : Session) : Option Session :=
  match s.stage, s.mailbox with
  | .running, k :: rest => some { s with mailbox := rest, frames := s.frames ++ [k] }
  | _, _ => none

/-- `Registry.dispatch` at its next entry. -/
def Hub.dispatch (h : Hub) : Option Hub :=
  match h.poller with
  | .dispatching (c :: left) =>
    let s := h.sessions c
    some { h.put c { s with mailbox := s.mailbox ++ [h.produced] } with poller := .dispatching left }
  | _ => none

def Hub.step (h : Hub) : Event → Option Hub
  | .register c =>
    if (h.sessions c).stage = .connected then
      some { h.put c ((h.sessions c).register h.produced) with entries := h.entries ++ [c] }
    else none
  | .call c =>
    if (h.sessions c).stage = .registered then some (h.put c { h.sessions c with stage := .calling }) else none
  | .initial c => (h.sessions c).initial.map (h.put c)
  | .deliver c => (h.sessions c).websocketInfo.map (h.put c)
  | .poll =>
    if h.poller = .waiting then some { h with produced := h.produced + 1, poller := .fetched } else none
  | .lookup => if h.poller = .fetched then some { h with poller := .dispatching h.entries } else none
  | .send => h.dispatch
  | .store =>
    if h.poller = .dispatching [] then some { h with snapshot := h.produced, poller := .waiting } else none
  | .answer c =>
    if h.poller = .waiting ∧ (h.sessions c).stage = .calling then
      some (h.put c { h.sessions c with stage := .answered h.snapshot })
    else none

/-- Never an older snapshot after a newer one. -/
def InOrder (h : Hub) : Prop := ∀ c, (h.sessions c).frames.Pairwise (· ≤ ·)

/-- Every snapshot produced after the registration and broadcast by now has reached the client. -/
def Complete (h : Hub) : Prop :=
  ∀ c, (h.sessions c).stage ≠ .connected →
    ∀ k, (h.sessions c).since < k → k ≤ h.snapshot → k ∈ (h.sessions c).frames ∨ k ∈ (h.sessions c).mailbox

/-- The call is answered before a second broadcast waits behind it. -/
def Prompt (h : Hub) : Event → Prop
  | .answer c => (h.sessions c).mailbox.length ≤ 1
  | _ => True

/-- The last snapshot sent to a registered client, or that of its first chance. -/
def Hub.due (h : Hub) (c : ℕ) : ℕ :=
  match h.poller with
  | .waiting => h.produced
  | .fetched => h.snapshot
  | .dispatching left => if c ∈ left then h.snapshot else h.produced

/-- From the one after `base` on, the client has been sent every snapshot, each once. -/
structure Sent (h : Hub) (c base : ℕ) : Prop where
  early : base ≤ (h.sessions c).since
  within : base ≤ h.due c
  sent : (h.sessions c).frames.tail ++ (h.sessions c).mailbox = List.range' (base + 1) (h.due c - base)

/-- The first frame is not newer than the first broadcast. -/
structure Opened (s : Session) (base : ℕ) : Prop where
  answered : ∀ k, s.stage = .answered k → k ≤ base + 1
  first : ∀ k, s.frames.head? = some k → k ≤ base + 1

structure Tidy (h : Hub) : Prop where
  stored : h.poller = .waiting → h.produced = h.snapshot
  ahead : h.poller ≠ .waiting → h.produced = h.snapshot + 1
  once : h.entries.Nodup
  listed : ∀ c, c ∈ h.entries ↔ (h.sessions c).stage ≠ .connected
  left : ∀ left, h.poller = .dispatching left → left.Nodup ∧ ∀ c ∈ left, c ∈ h.entries
  unheard : ∀ c, (h.sessions c).stage = .connected → (h.sessions c).mailbox = []
  framed : ∀ c, (h.sessions c).frames = [] ↔ (h.sessions c).stage ≠ .running

variable {h t : Hub} {e : Event} {c d base : ℕ} {s : Session}

@[simp] theorem put_same : (h.put c s).sessions c = s := Function.update_self ..

theorem put_other (other : d ≠ c) : (h.put c s).sessions d = h.sessions d := Function.update_of_ne other ..

theorem initial_some (taken : h.step (.initial c) = some t) :
    ∃ k, (h.sessions c).stage = .answered k ∧
      t = h.put c { h.sessions c with stage := .running, frames := (h.sessions c).frames ++ [k] } := by
  obtain ⟨s, replied, rfl⟩ := Option.map_eq_some_iff.mp taken
  unfold Session.initial at replied
  split at replied
  · rename_i k stage
    exact ⟨k, stage, congrArg (h.put c) (Option.some.inj replied).symm⟩
  · cases replied

theorem deliver_some (taken : h.step (.deliver c) = some t) :
    ∃ k rest, (h.sessions c).stage = .running ∧ (h.sessions c).mailbox = k :: rest ∧
      t = h.put c { h.sessions c with mailbox := rest, frames := (h.sessions c).frames ++ [k] } := by
  obtain ⟨s, forwarded, rfl⟩ := Option.map_eq_some_iff.mp taken
  unfold Session.websocketInfo at forwarded
  split at forwarded
  · rename_i k rest stage mailbox
    exact ⟨k, rest, stage, mailbox, congrArg (h.put c) (Option.some.inj forwarded).symm⟩
  · cases forwarded

theorem dispatch_some (taken : h.dispatch = some t) :
    ∃ c left, h.poller = .dispatching (c :: left) ∧
      t = { h.put c { h.sessions c with mailbox := (h.sessions c).mailbox ++ [h.produced] } with
        poller := .dispatching left } := by
  unfold Hub.dispatch at taken
  split at taken
  · rename_i c left poller
    exact ⟨c, left, poller, (Option.some.inj taken).symm⟩
  · cases taken

section Tidy

theorem Tidy.put (tidy : Tidy h) (here : (h.sessions c).stage ≠ .connected) (stays : s.stage ≠ .connected)
    (framed : s.frames = [] ↔ s.stage ≠ .running) : Tidy (h.put c s) := by
  refine ⟨tidy.stored, tidy.ahead, tidy.once, fun d => ?_, tidy.left, fun d new => ?_, fun d => ?_⟩
  · by_cases same : d = c
    · subst d
      rw [put_same]
      exact iff_of_true ((tidy.listed c).mpr here) stays
    · rw [put_other same]
      exact tidy.listed d
  · by_cases same : d = c
    · subst d
      rw [put_same] at new
      exact absurd new stays
    · rw [put_other same] at new ⊢
      exact tidy.unheard d new
  · by_cases same : d = c
    · subst d
      rwa [put_same]
    · rw [put_other same]
      exact tidy.framed d

theorem Tidy.register (tidy : Tidy h) (new : (h.sessions c).stage = .connected) :
    Tidy { h.put c ((h.sessions c).register h.produced) with entries := h.entries ++ [c] } := by
  have absent : c ∉ h.entries := fun member => (tidy.listed c).mp member new
  have blank := (tidy.framed c).mpr (by rw [new]; decide)
  refine ⟨tidy.stored, tidy.ahead, ?_, fun d => ?_, fun left poller => ?_, fun d unlisted => ?_, fun d => ?_⟩
  · exact List.nodup_append.mpr ⟨tidy.once, List.nodup_singleton c, by grind⟩
  · by_cases same : d = c
    · subst d
      simp [Session.register]
    · simpa [put_other same, same] using tidy.listed d
  · obtain ⟨nodup, within⟩ := tidy.left left poller
    exact ⟨nodup, fun d member => List.mem_append_left _ (within d member)⟩
  · by_cases same : d = c
    · subst d
      simp [Session.register] at unlisted
    · simp only [put_other same] at unlisted ⊢
      exact tidy.unheard d unlisted
  · by_cases same : d = c
    · subst d
      simp [Session.register, blank]
    · simpa [put_other same] using tidy.framed d

theorem Tidy.send (tidy : Tidy h) (taken : h.dispatch = some t) : Tidy t := by
  obtain ⟨c, left, poller, rfl⟩ := dispatch_some taken
  obtain ⟨nodup, within⟩ := tidy.left _ poller
  have here := (tidy.listed c).mp (within c List.mem_cons_self)
  have put := tidy.put (s := { h.sessions c with mailbox := (h.sessions c).mailbox ++ [h.produced] }) here here
    (tidy.framed c)
  refine ⟨nofun, fun _ => tidy.ahead (by rw [poller]; nofun), put.once, put.listed, fun rest same => ?_, put.unheard,
    put.framed⟩
  obtain rfl := Activity.dispatching.inj same
  exact ⟨nodup.of_cons, fun d member => within d (List.mem_cons_of_mem c member)⟩

theorem Tidy.step (tidy : Tidy h) (taken : h.step e = some t) : Tidy t := by
  cases e with
  | register c =>
    obtain ⟨new, rfl⟩ := Option.ite_some_none_eq_some.mp taken
    exact tidy.register new
  | call c =>
    obtain ⟨stage, rfl⟩ := Option.ite_some_none_eq_some.mp taken
    refine tidy.put (by rw [stage]; decide) nofun ?_
    exact (tidy.framed c).trans (by simp [stage])
  | initial c =>
    obtain ⟨k, stage, rfl⟩ := initial_some taken
    exact tidy.put (by rw [stage]; nofun) nofun (by simp)
  | deliver c =>
    obtain ⟨k, rest, stage, -, rfl⟩ := deliver_some taken
    exact tidy.put (by rw [stage]; decide) (by rw [stage]; decide) (by simp [stage])
  | poll =>
    obtain ⟨waiting, rfl⟩ := Option.ite_some_none_eq_some.mp taken
    exact ⟨nofun, fun _ => congrArg (· + 1) (tidy.stored waiting), tidy.once, tidy.listed, nofun, tidy.unheard,
      tidy.framed⟩
  | lookup =>
    obtain ⟨fetched, rfl⟩ := Option.ite_some_none_eq_some.mp taken
    refine ⟨nofun, fun _ => tidy.ahead (by rw [fetched]; decide), tidy.once, tidy.listed, fun left same => ?_,
      tidy.unheard, tidy.framed⟩
    obtain rfl := Activity.dispatching.inj same
    exact ⟨tidy.once, fun _ member => member⟩
  | send => exact tidy.send taken
  | store =>
    obtain ⟨-, rfl⟩ := Option.ite_some_none_eq_some.mp taken
    exact ⟨fun _ => rfl, fun busy => absurd rfl busy, tidy.once, tidy.listed, nofun, tidy.unheard, tidy.framed⟩
  | answer c =>
    obtain ⟨⟨-, stage⟩, rfl⟩ := Option.ite_some_none_eq_some.mp taken
    refine tidy.put (by rw [stage]; decide) nofun ?_
    exact (tidy.framed c).trans (by simp [stage])

theorem tidy_start : Tidy {} :=
  ⟨fun _ => rfl, fun busy => absurd rfl busy, List.nodup_nil, by simp, nofun, fun _ _ => rfl, by simp⟩

end Tidy

section Sent

theorem due_bounds (tidy : Tidy h) : h.snapshot ≤ h.due c ∧ h.due c ≤ h.produced := by
  unfold Hub.due
  split
  · rename_i waiting
    have stored := tidy.stored waiting
    omega
  · rename_i fetched
    have ahead := tidy.ahead (by rw [fetched]; decide)
    omega
  · rename_i left poller
    have ahead := tidy.ahead (by rw [poller]; nofun)
    split <;> omega

theorem due_waiting (tidy : Tidy h) (waiting : h.poller = .waiting) : h.due c = h.snapshot := by
  unfold Hub.due
  rw [waiting]
  exact tidy.stored waiting

theorem Sent.congr (sent : Sent h c base) (session : t.sessions c = h.sessions c) (due : t.due c = h.due c) :
    Sent t c base := by
  refine ⟨?_, ?_, ?_⟩
  · rw [session]
    exact sent.early
  · rw [due]
    exact sent.within
  · rw [session, due]
    exact sent.sent

/-- What is already sent to a client stays the same range under a step that keeps its session's. -/
theorem Sent.put (sent : Sent h d base)
    (kept : d = c → s.since = (h.sessions c).since ∧
      s.frames.tail ++ s.mailbox = (h.sessions c).frames.tail ++ (h.sessions c).mailbox) :
    Sent (h.put c s) d base := by
  by_cases same : d = c
  · subst d
    obtain ⟨since, stream⟩ := kept rfl
    refine ⟨?_, sent.within, ?_⟩
    · rw [put_same, since]
      exact sent.early
    · rw [put_same, stream]
      exact sent.sent
  · exact sent.congr (put_other same) rfl

theorem sent_register (tidy : Tidy h) (new : (h.sessions c).stage = .connected) :
    Sent { h.put c ((h.sessions c).register h.produced) with entries := h.entries ++ [c] } c (h.due c) := by
  have blank := (tidy.framed c).mpr (by rw [new]; decide)
  refine ⟨?_, le_refl _, ?_⟩
  · simp only [put_same, Session.register]
    exact (due_bounds tidy).2
  · have none_due : Hub.due { h.put c ((h.sessions c).register h.produced) with entries := h.entries ++ [c] } c =
        h.due c := rfl
    rw [none_due, Nat.sub_self]
    simp [Session.register, blank, tidy.unheard c new]

theorem Sent.send (tidy : Tidy h) (sent : Sent h d base) (taken : h.dispatch = some t) : Sent t d base := by
  obtain ⟨c, left, poller, rfl⟩ := dispatch_some taken
  have fresh := List.nodup_cons.mp (tidy.left _ poller).1
  have ahead := tidy.ahead (by rw [poller]; nofun)
  obtain ⟨early, within, stream⟩ := sent
  unfold Hub.due at within stream
  rw [poller] at within stream
  by_cases same : d = c
  · subst d
    simp only [List.mem_cons, true_or, if_true] at within stream
    refine ⟨?_, ?_, ?_⟩
    · simpa using early
    · simp only [Hub.due, fresh.1, if_false, Hub.put, ahead]
      omega
    · have last : h.produced - base = h.snapshot - base + 1 := by omega
      have next : base + 1 + (h.snapshot - base) = h.produced := by omega
      simp only [put_same, Hub.due, fresh.1, if_false]
      show _ = List.range' (base + 1) (h.produced - base)
      rw [last, List.range'_1_concat, next, ← stream, List.append_assoc]
  · simp only [List.mem_cons, same, false_or] at within stream
    refine ⟨?_, ?_, ?_⟩
    · rwa [put_other same]
    · exact within
    · rw [put_other same]
      exact stream

theorem Sent.step (tidy : Tidy h) (known : (h.sessions d).stage ≠ .connected) (sent : Sent h d base)
    (taken : h.step e = some t) : Sent t d base := by
  cases e with
  | register c =>
    obtain ⟨new, rfl⟩ := Option.ite_some_none_eq_some.mp taken
    have other : d ≠ c := by
      rintro rfl
      exact known new
    exact sent.congr (put_other other) rfl
  | call c =>
    obtain ⟨-, rfl⟩ := Option.ite_some_none_eq_some.mp taken
    exact sent.put fun _ => ⟨rfl, rfl⟩
  | initial c =>
    obtain ⟨k, stage, rfl⟩ := initial_some taken
    have blank := (tidy.framed c).mpr (by rw [stage]; nofun)
    exact sent.put fun _ => ⟨rfl, by simp [blank]⟩
  | deliver c =>
    obtain ⟨k, rest, stage, mailbox, rfl⟩ := deliver_some taken
    have begun := mt (tidy.framed c).mp (by rw [stage]; decide)
    exact sent.put fun _ => ⟨rfl, by simp [mailbox, List.tail_append_of_ne_nil begun]⟩
  | poll =>
    obtain ⟨waiting, rfl⟩ := Option.ite_some_none_eq_some.mp taken
    exact sent.congr rfl (due_waiting tidy waiting).symm
  | lookup =>
    obtain ⟨fetched, rfl⟩ := Option.ite_some_none_eq_some.mp taken
    have listed := (tidy.listed d).mpr known
    have same : h.due d = Hub.due { h with poller := .dispatching h.entries } d := by
      simp [Hub.due, fetched, listed]
    exact sent.congr rfl same.symm
  | send => exact sent.send tidy taken
  | store =>
    obtain ⟨swept, rfl⟩ := Option.ite_some_none_eq_some.mp taken
    have same : h.due d = h.produced := by simp [Hub.due, swept]
    exact sent.congr rfl same.symm
  | answer c =>
    obtain ⟨-, rfl⟩ := Option.ite_some_none_eq_some.mp taken
    exact sent.put fun _ => ⟨rfl, rfl⟩

end Sent

/-- Only a registration adds an entry. -/
theorem entries_step (taken : h.step e = some t) : t.entries = h.entries ∨
    ∃ c, (h.sessions c).stage = .connected ∧
      t = { h.put c ((h.sessions c).register h.produced) with entries := h.entries ++ [c] } := by
  cases e with
  | register c =>
    obtain ⟨new, rfl⟩ := Option.ite_some_none_eq_some.mp taken
    exact Or.inr ⟨c, new, rfl⟩
  | initial c | deliver c =>
    obtain ⟨s, -, rfl⟩ := Option.map_eq_some_iff.mp taken
    exact Or.inl rfl
  | send =>
    obtain ⟨c, left, -, rfl⟩ := dispatch_some taken
    exact Or.inl rfl
  | call c | poll | lookup | store | answer c =>
    obtain ⟨-, rfl⟩ := Option.ite_some_none_eq_some.mp taken
    exact Or.inl rfl

theorem known_step (tidy : Tidy h) (taken : h.step e = some t) (known : (t.sessions d).stage ≠ .connected) :
    (h.sessions d).stage ≠ .connected ∨ (h.sessions d).stage = .connected ∧
      t = { h.put d ((h.sessions d).register h.produced) with entries := h.entries ++ [d] } := by
  have listed := ((tidy.step taken).listed d).mpr known
  rcases entries_step taken with same | ⟨c, new, rfl⟩
  · rw [same] at listed
    exact Or.inl ((tidy.listed d).mp listed)
  · rcases List.mem_append.mp listed with before | now
    · exact Or.inl ((tidy.listed d).mp before)
    · obtain rfl := List.mem_singleton.mp now
      exact Or.inr ⟨new, rfl⟩

/-- What holds in every run: the clients are sent consecutive snapshots. -/
structure Fed (h : Hub) : Prop where
  tidy : Tidy h
  sent : ∀ c, (h.sessions c).stage ≠ .connected → ∃ base, Sent h c base

theorem Fed.step (fed : Fed h) (taken : h.step e = some t) : Fed t := by
  refine ⟨fed.tidy.step taken, fun c known => ?_⟩
  rcases known_step fed.tidy taken known with before | ⟨new, rfl⟩
  · obtain ⟨base, sent⟩ := fed.sent c before
    exact ⟨base, sent.step fed.tidy before taken⟩
  · exact ⟨h.due c, sent_register fed.tidy new⟩

theorem fed_start : Fed {} := ⟨tidy_start, fun _ known => absurd rfl known⟩

theorem Sent.complete {k : ℕ} (tidy : Tidy h) (sent : Sent h c base) (after : (h.sessions c).since < k)
    (stored : k ≤ h.snapshot) : k ∈ (h.sessions c).frames ∨ k ∈ (h.sessions c).mailbox := by
  have due := (due_bounds (c := c) tidy).1
  have early := sent.early
  have within := sent.within
  have member : k ∈ (h.sessions c).frames.tail ++ (h.sessions c).mailbox := by
    rw [sent.sent, List.mem_range'_1]
    omega
  exact (List.mem_append.mp member).imp_left List.mem_of_mem_tail

theorem Opened.put (opened : Opened (h.sessions d) base) (kept : d = c → Opened s base) :
    Opened ((h.put c s).sessions d) base := by
  by_cases same : d = c
  · subst d
    rw [put_same]
    exact kept rfl
  · rwa [put_other same]

theorem Opened.step (tidy : Tidy h) (sent : Sent h d base) (known : (h.sessions d).stage ≠ .connected)
    (opened : Opened (h.sessions d) base) (prompt : Prompt h e) (taken : h.step e = some t) :
    Opened (t.sessions d) base := by
  cases e with
  | register c =>
    obtain ⟨new, rfl⟩ := Option.ite_some_none_eq_some.mp taken
    refine opened.put (c := c) fun same => ?_
    exact absurd (same ▸ new) known
  | call c =>
    obtain ⟨-, rfl⟩ := Option.ite_some_none_eq_some.mp taken
    refine opened.put fun same => ⟨nofun, ?_⟩
    exact same ▸ opened.first
  | initial c =>
    obtain ⟨k, stage, rfl⟩ := initial_some taken
    refine opened.put fun same => ⟨nofun, fun j first => ?_⟩
    subst d
    have blank := (tidy.framed c).mpr (by rw [stage]; nofun)
    obtain rfl : k = j := by simpa [blank] using first
    exact opened.answered k stage
  | deliver c =>
    obtain ⟨k, rest, stage, mailbox, rfl⟩ := deliver_some taken
    refine opened.put fun same => ⟨?_, fun j first => ?_⟩
    · rw [← same]
      exact opened.answered
    · subst d
      have begun := mt (tidy.framed c).mp (by rw [stage]; decide)
      rw [List.head?_append_of_ne_nil _ begun] at first
      exact opened.first j first
  | send =>
    obtain ⟨c, left, -, rfl⟩ := dispatch_some taken
    refine opened.put fun same => ?_
    subst d
    exact ⟨opened.answered, opened.first⟩
  | answer c =>
    obtain ⟨⟨waiting, stage⟩, rfl⟩ := Option.ite_some_none_eq_some.mp taken
    refine opened.put fun same => ⟨fun k answered => ?_, ?_⟩
    · subst d
      obtain rfl := Stage.answered.inj answered
      have blank := (tidy.framed c).mpr (by rw [stage]; decide)
      have due := due_waiting (c := c) tidy waiting
      have length := congrArg List.length sent.sent
      simp only [blank, due, List.tail_nil, List.nil_append, List.length_range'] at length
      have few : (h.sessions c).mailbox.length ≤ 1 := prompt
      omega
    · exact same ▸ opened.first
  | poll | lookup | store =>
    obtain ⟨-, rfl⟩ := Option.ite_some_none_eq_some.mp taken
    exact opened

theorem Sent.ordered (sent : Sent h c base) (opened : Opened (h.sessions c) base) :
    (h.sessions c).frames.Pairwise (· ≤ ·) := by
  have stream := sent.sent
  have first := opened.first
  cases frames : (h.sessions c).frames with
  | nil => exact List.Pairwise.nil
  | cons k rest =>
    rw [frames] at stream first
    have oldest := first k rfl
    have increasing : rest.Pairwise (· < ·) := by
      have whole := List.pairwise_lt_range' (s := base + 1) (n := h.due c - base)
      rw [← stream] at whole
      exact (List.pairwise_append.mp whole).1
    refine List.pairwise_cons.mpr ⟨fun j member => ?_, increasing.imp le_of_lt⟩
    have within : j ∈ List.range' (base + 1) (h.due c - base) := stream ▸ List.mem_append_left _ member
    have above := (List.mem_range'_1.mp within).1
    omega

/-- What holds as long as the calls are answered promptly. -/
structure Following (h : Hub) : Prop where
  tidy : Tidy h
  sent : ∀ c, (h.sessions c).stage ≠ .connected → ∃ base, Sent h c base ∧ Opened (h.sessions c) base

theorem Following.step (following : Following h) (prompt : Prompt h e) (taken : h.step e = some t) : Following t := by
  refine ⟨following.tidy.step taken, fun c known => ?_⟩
  rcases known_step following.tidy taken known with before | ⟨new, rfl⟩
  · obtain ⟨base, sent, opened⟩ := following.sent c before
    exact ⟨base, sent.step following.tidy before taken, opened.step following.tidy sent before prompt taken⟩
  · refine ⟨h.due c, sent_register following.tidy new, ?_⟩
    have blank := (following.tidy.framed c).mpr (by rw [new]; decide)
    constructor <;> simp [Session.register, blank]

theorem Following.law (following : Following h) : InOrder h ∧ Complete h := by
  constructor
  · intro c
    by_cases new : (h.sessions c).stage = .connected
    · rw [(following.tidy.framed c).mpr (by rw [new]; decide)]
      exact List.Pairwise.nil
    · obtain ⟨base, sent, opened⟩ := following.sent c new
      exact sent.ordered opened
  · intro c known k after stored
    obtain ⟨base, sent, -⟩ := following.sent c known
    exact sent.complete following.tidy after stored

theorem following_start : Following {} := ⟨tidy_start, fun _ known => absurd rfl known⟩

/-- With two broadcasts behind it, the reply overtakes the first of them. -/
theorem overtakes (fed : Fed h) (taken : h.step (.answer c) = some t) (late : ¬ Prompt h (.answer c)) :
    ∃ u, run Hub.step h [.answer c, .initial c, .deliver c] = some u ∧ ¬ InOrder u := by
  obtain ⟨⟨waiting, stage⟩, -⟩ := Option.ite_none_right_eq_some.mp taken
  obtain ⟨base, sent⟩ := fed.sent c (by rw [stage]; decide)
  have blank := (fed.tidy.framed c).mpr (by rw [stage]; decide)
  have due := due_waiting (c := c) fed.tidy waiting
  have stream := sent.sent
  simp only [blank, due, List.tail_nil, List.nil_append] at stream
  have many : 2 ≤ h.snapshot - base := by
    have length := congrArg List.length stream
    rw [List.length_range'] at length
    have two : ¬ (h.sessions c).mailbox.length ≤ 1 := late
    omega
  obtain ⟨n, size⟩ := Nat.exists_eq_add_of_le' many
  rw [size, List.range'_succ] at stream
  let a := h.put c { h.sessions c with stage := .answered h.snapshot }
  let i := a.put c { a.sessions c with stage := .running, frames := [h.snapshot] }
  let d := i.put c { i.sessions c with
    mailbox := List.range' (base + 1 + 1) (n + 1), frames := [h.snapshot, base + 1] }
  have answer : h.step (.answer c) = some a := if_pos ⟨waiting, stage⟩
  have initial : a.step (.initial c) = some i := by simp [a, i, Hub.step, Session.initial, blank]
  have deliver : i.step (.deliver c) = some d := by simp [a, i, d, Hub.step, Session.websocketInfo, stream]
  refine ⟨d, by simp [run, answer, initial, deliver], fun ordered => ?_⟩
  have frames := ordered c
  simp only [d, put_same, List.pairwise_pair] at frames
  omega

/-- While no call is answered behind two broadcasts, every client's frames are in order
and complete; an answer behind two broadcasts lets an older snapshot follow a newer one. -/
theorem frames_follow (events : List Event) :
    (Along Hub.step Prompt {} events → Always Hub.step (fun h => InOrder h ∧ Complete h) {} events) ∧
      ∀ h t c, run Hub.step {} events = some h → h.step (.answer c) = some t → ¬ Prompt h (.answer c) →
        ∃ u, run Hub.step h [.answer c, .initial c, .deliver c] = some u ∧ ¬ InOrder u := by
  constructor
  · exact Transition.always_along (fun _ _ _ following prompt taken => following.step prompt taken)
      (fun _ following => following.law) following_start
  · intro h t c reached taken late
    have fed := Transition.run_invariant (fun _ _ _ fed taken => fed.step taken) fed_start reached
    exact overtakes fed taken late

/-- Two polls go by between the registration and the call. -/
def overtaken : List Event :=
  [.register 0, .poll, .lookup, .send, .store, .poll, .lookup, .send, .store, .call 0, .answer 0, .initial 0, .deliver 0]

theorem older_after_newer :
    ¬ ∀ events, Always Hub.step (fun h => InOrder h ∧ Complete h) {} events := by
  intro law
  have last := Transition.always_last (law overtaken) rfl
  have frames : [2, 1].Pairwise (· ≤ ·) := last.1 0
  revert frames
  decide

end PolyglotInfinity.HubElixir
