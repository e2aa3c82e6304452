import Mathlib.Data.List.Infix
import PolyglotInfinity.Lib.Channel
import PolyglotInfinity.Lib.Transition

/-!
# The APM drainer

`withAPM` of the Go hub puts one event for each request into `apmQueue`, and the goroutine
of `startAPMDrainer` sends them on in batches. The steps of all goroutines interleave; the
drainer itself waits for `sendAPMBatch`, which reads the batch through a slice of its memory.
-/

namespace PolyglotInfinity.Gateway

open Transition (run)

structure ApmEvent where
  correlationId : String
  service : String
  endpoint : String
  responseMs : ℤ
  timestamp : ℤ
  deriving DecidableEq

structure Served where
  /-- The header `X-Correlation-Id`. -/
  correlationId : String
  newCorrelationId : String
  path : String
  elapsed : ℤ
  now : ℤ

def Served.event (r : Served) : ApmEvent where
  correlationId := if r.correlationId = "" then r.newCorrelationId else r.correlationId
  service := "go-hub"
  endpoint := r.path
  responseMs := r.elapsed
  timestamp := r.now

/-! ### The batch -/

/-- A slice of events from the start of its memory. -/
structure Batch where
  backing : List ApmEvent
  len : ℕ
  fits : len ≤ backing.length

namespace Batch

def items (b : Batch) : List ApmEvent := b.backing.take b.len

def zero : ApmEvent := ⟨"", "", "", 0, 0⟩

/-- `make([]apmEvent, 0, capacity)`. -/
def make (capacity : ℕ) : Batch := ⟨List.replicate capacity zero, 0, Nat.zero_le _⟩

/-- `append` writes behind the slice, in new memory of twice the size if there is no room. -/
def append (b : Batch) (ev : ApmEvent) : Batch :=
  if room : b.len < b.backing.length then ⟨b.backing.set b.len ev, b.len + 1, by rwa [List.length_set]⟩
  else ⟨b.items ++ ev :: List.replicate (b.len - 1) zero, b.len + 1, by
    have size : b.items.length = b.len := List.length_take_of_le b.fits
    rw [List.length_append, List.length_cons, size]
    omega⟩

def reset (b : Batch) : Batch := ⟨b.backing, 0, Nat.zero_le _⟩

variable {b : Batch} {ev : ApmEvent}

theorem items_length : b.items.length = b.len := List.length_take_of_le b.fits

theorem append_items : (b.append ev).items = b.items ++ [ev] := by
  unfold append
  split
  · rename_i room
    show (b.backing.set b.len ev).take (b.len + 1) = b.backing.take b.len ++ [ev]
    rw [List.take_add_one, List.getElem?_set_self room, List.take_set_of_le le_rfl]
    rfl
  · show (b.items ++ ev :: _).take (b.len + 1) = _
    rw [← items_length, List.take_length_add_append]
    rfl

@[simp] theorem reset_items : b.reset.items = [] := rfl

end Batch

/-! ### The goroutines -/

inductive Drainer where
  | selecting
  /-- `sendAPMBatch` has got a slice of this length and has not read it yet. -/
  | called (len : ℕ)
  | posting

structure Apm where
  queue : Channel ApmEvent
  ticked : Bool
  batch : Batch
  drainer : Drainer
  /-- The batches that `sendAPMBatch` has got. Ghost, as the next two. -/
  passed : List (List ApmEvent)
  /-- The arrays that it has made of them. -/
  posted : List (List ApmEvent)
  /-- Every event with the length of the queue when it was recorded. -/
  recorded : List (ApmEvent × ℕ)

def queueCapacity : ℕ := 8192

def batchSize : ℕ := 100

def Apm.init : Apm :=
  { queue := Channel.make queueCapacity, ticked := false, batch := Batch.make batchSize, drainer := .selecting
    passed := [], posted := [], recorded := [] }

inductive ApmStep where
  | record (r : Served)
  | fire
  | receive
  | tick
  | marshal
  | respond

def Apm.send (s : Apm) : Apm := { s with drainer := .called s.batch.len, passed := s.passed ++ [s.batch.items] }

/-- The non-blocking send of `withAPM`. -/
def Apm.record (s : Apm) (ev : ApmEvent) : Option Apm :=
  let s := { s with recorded := s.recorded ++ [(ev, s.queue.buffer.length)] }
  match s.queue.trySend ev with
  | .sent queue => some { s with queue }
  | .full => some s
  | .panicked => none

def Apm.receive (s : Apm) : Option Apm :=
  match s.queue.receive with
  | some (ev, queue) =>
    let s := { s with queue, batch := s.batch.append ev }
    some (if batchSize ≤ s.batch.len then s.send else s)
  | none => none

def Apm.tick (s : Apm) : Option Apm :=
  if s.ticked then
    let s := { s with ticked := false }
    some (if 0 < s.batch.len then s.send else s)
  else none

def Apm.step (s : Apm) : ApmStep → Option Apm
  | .record r => s.record r.event
  | .fire => some { s with ticked := true }
  | .receive =>
    match s.drainer with
    | .selecting => s.receive
    | .called _ | .posting => none
  | .tick =>
    match s.drainer with
    | .selecting => s.tick
    | .called _ | .posting => none
  | .marshal =>
    match s.drainer with
    | .called len => some { s with drainer := .posting, posted := s.posted ++ [s.batch.backing.take len] }
    | .selecting | .posting => none
  | .respond =>
    match s.drainer with
    | .posting => some { s with drainer := .selecting, batch := s.batch.reset }
    | .selecting | .called _ => none

/-- The drainer's batch, once it has been passed on it is no longer the current one. -/
def Apm.current (s : Apm) : List ApmEvent :=
  match s.drainer with
  | .selecting => s.batch.items
  | .called _ | .posting => []

def Apm.unread (s : Apm) : List (List ApmEvent) :=
  match s.drainer with
  | .called len => [s.batch.backing.take len]
  | .selecting | .posting => []

/-- The recorded events without those that found the queue full. -/
def Apm.kept (s : Apm) : List ApmEvent := (s.recorded.filter (·.2 < queueCapacity)).map Prod.fst

/-! ### What the steps do -/

variable {s t : Apm} {e : ApmStep}

/-- Each step is taken in one phase of the drainer only. -/
theorem step_cases (taken : s.step e = some t) :
    (∃ r, e = .record r ∧ s.record r.event = some t) ∨
    (e = .fire ∧ t = { s with ticked := true }) ∨
    (e = .receive ∧ s.drainer = .selecting ∧ s.receive = some t) ∨
    (e = .tick ∧ s.drainer = .selecting ∧ s.tick = some t) ∨
    (∃ len, e = .marshal ∧ s.drainer = .called len ∧
      t = { s with drainer := .posting, posted := s.posted ++ [s.batch.backing.take len] }) ∨
    (e = .respond ∧ s.drainer = .posting ∧ t = { s with drainer := .selecting, batch := s.batch.reset }) := by
  unfold Apm.step at taken
  split at taken
  · exact .inl ⟨_, rfl, taken⟩
  · exact .inr (.inl ⟨rfl, (Option.some.inj taken).symm⟩)
  · split at taken
    · exact .inr (.inr (.inl ⟨rfl, ‹_›, taken⟩))
    all_goals contradiction
  · split at taken
    · exact .inr (.inr (.inr (.inl ⟨rfl, ‹_›, taken⟩)))
    all_goals contradiction
  · split at taken
    · exact .inr (.inr (.inr (.inr (.inl ⟨_, rfl, ‹_›, (Option.some.inj taken).symm⟩))))
    all_goals contradiction
  · split at taken
    · exact .inr (.inr (.inr (.inr (.inr ⟨rfl, ‹_›, (Option.some.inj taken).symm⟩))))
    all_goals contradiction

theorem receive_cases (received : s.receive = some t) :
    ∃ ev queue, s.queue.receive = some (ev, queue) ∧
      let s := { s with queue, batch := s.batch.append ev }
      t = if batchSize ≤ s.batch.len then s.send else s := by
  unfold Apm.receive at received
  split at received
  · exact ⟨_, _, ‹_›, (Option.some.inj received).symm⟩
  · contradiction

theorem tick_cases (ticked : s.tick = some t) :
    t = if 0 < s.batch.len then Apm.send { s with ticked := false } else { s with ticked := false } := by
  unfold Apm.tick at ticked
  split at ticked
  · exact (Option.some.inj ticked).symm
  · contradiction

/-! ### The invariant -/

/-- Nothing is lost or sent twice, with at most `limit` events in the current batch. -/
structure Drained (limit : ℕ) (s : Apm) : Prop where
  live : s.queue.closed = false
  capacity : s.queue.capacity = queueCapacity
  content : s.passed.flatten ++ s.current ++ s.queue.buffer = s.kept
  sizes : ∀ batch ∈ s.passed, 1 ≤ batch.length ∧ batch.length ≤ batchSize
  room : s.current.length ≤ limit
  read : s.passed = s.posted ++ s.unread

theorem init_drained : Drained 99 Apm.init :=
  ⟨rfl, rfl, rfl, fun _ none => absurd none List.not_mem_nil, Nat.zero_le _, rfl⟩

theorem Drained.send (drained : Drained batchSize s) (selecting : s.drainer = .selecting) (some : 0 < s.batch.len) :
    Drained 99 s.send := by
  obtain ⟨live, capacity, content, sizes, room, read⟩ := drained
  have current : s.current = s.batch.items := by simp only [Apm.current, selecting]
  have unread : s.unread = [] := by simp only [Apm.unread, selecting]
  rw [current] at content room
  rw [unread, List.append_nil] at read
  refine ⟨live, capacity, ?_, fun batch batch_mem => ?_, Nat.zero_le _, ?_⟩
  · show (s.passed ++ [s.batch.items]).flatten ++ [] ++ s.queue.buffer = s.kept
    rw [List.flatten_concat, List.append_nil, content]
  · rcases List.mem_append.mp batch_mem with old | new
    · exact sizes batch old
    · obtain rfl := List.mem_singleton.mp new
      rw [Batch.items_length] at room ⊢
      exact ⟨some, room⟩
  · show s.passed ++ [s.batch.items] = s.posted ++ [s.batch.items]
    rw [read]

theorem Drained.record (drained : Drained 99 s) (ev : ApmEvent) (recorded : s.record ev = some t) : Drained 99 t := by
  obtain ⟨live, capacity, content, sizes, room, read⟩ := drained
  unfold Apm.record Channel.trySend at recorded
  simp only [live, Bool.false_eq_true, if_false] at recorded
  by_cases space : s.queue.buffer.length < s.queue.capacity
  · rw [dif_pos space] at recorded
    obtain rfl := Option.some.inj recorded
    refine ⟨live, capacity, ?_, sizes, room, read⟩
    have short : s.queue.buffer.length < queueCapacity := capacity ▸ space
    show s.passed.flatten ++ s.current ++ (s.queue.buffer ++ [ev]) =
      ((s.recorded ++ [(ev, s.queue.buffer.length)]).filter (·.2 < queueCapacity)).map Prod.fst
    rw [List.filter_append, List.map_append, ← List.append_assoc, content]
    simp [Apm.kept, short]
  · rw [dif_neg space] at recorded
    obtain rfl := Option.some.inj recorded
    refine ⟨live, capacity, ?_, sizes, room, read⟩
    have full : ¬ s.queue.buffer.length < queueCapacity := capacity ▸ space
    show s.passed.flatten ++ s.current ++ s.queue.buffer =
      ((s.recorded ++ [(ev, s.queue.buffer.length)]).filter (·.2 < queueCapacity)).map Prod.fst
    rw [List.filter_append, List.map_append, content]
    simp [Apm.kept, full]

theorem Drained.receive (drained : Drained 99 s) (selecting : s.drainer = .selecting) (received : s.receive = some t) :
    Drained 99 t := by
  obtain ⟨live, capacity, content, sizes, room, read⟩ := drained
  have current : s.current = s.batch.items := by simp only [Apm.current, selecting]
  rw [current] at content room
  obtain ⟨ev, queue, taken, rfl⟩ := receive_cases received
  obtain ⟨front, sameCapacity, sameClosed⟩ := Channel.receive_front taken
  have next : Drained batchSize { s with queue, batch := s.batch.append ev } := by
    refine ⟨sameClosed.trans live, sameCapacity.trans capacity, ?_, sizes, ?_, ?_⟩
    · simp only [Apm.current, selecting, Batch.append_items]
      show s.passed.flatten ++ (s.batch.items ++ [ev]) ++ queue.buffer = s.kept
      rw [← content, front]
      simp
    · simp only [Apm.current, selecting, Batch.append_items, List.length_append, List.length_singleton]
      exact Nat.succ_le_succ room
    · simpa only [Apm.unread, selecting] using read
  split
  · rename_i full
    exact next.send selecting (Nat.lt_of_lt_of_le (by decide) full)
  · rename_i short
    obtain ⟨live, capacity, content, sizes, -, read⟩ := next
    refine ⟨live, capacity, content, sizes, ?_, read⟩
    simp only [Apm.current, selecting, Batch.items_length]
    exact Nat.lt_succ_iff.mp (not_le.mp short)

theorem Drained.tick (drained : Drained 99 s) (selecting : s.drainer = .selecting) (ticked : s.tick = some t) :
    Drained 99 t := by
  have next : Drained 99 { s with ticked := false } :=
    ⟨drained.live, drained.capacity, drained.content, drained.sizes, drained.room, drained.read⟩
  obtain rfl := tick_cases ticked
  split
  · rename_i some
    obtain ⟨live, capacity, content, sizes, room, read⟩ := next
    exact Drained.send ⟨live, capacity, content, sizes, room.trans (by decide), read⟩ selecting some
  · exact next

/-- Every step of every goroutine keeps it. -/
theorem step_drained (drained : Drained 99 s) (taken : s.step e = some t) : Drained 99 t := by
  rcases step_cases taken with ⟨r, -, recorded⟩ | ⟨-, rfl⟩ | ⟨-, phase, received⟩ | ⟨-, phase, ticked⟩ |
    ⟨len, -, phase, rfl⟩ | ⟨-, phase, rfl⟩
  · exact drained.record r.event recorded
  · exact ⟨drained.live, drained.capacity, drained.content, drained.sizes, drained.room, drained.read⟩
  · exact drained.receive phase received
  · exact drained.tick phase ticked
  · obtain ⟨live, capacity, content, sizes, room, read⟩ := drained
    simp only [Apm.current, phase] at content
    simp only [Apm.unread, phase] at read
    exact ⟨live, capacity, content, sizes, Nat.zero_le _, read.trans (List.append_nil _).symm⟩
  · obtain ⟨live, capacity, content, sizes, room, read⟩ := drained
    simp only [Apm.current, phase] at content
    simp only [Apm.unread, phase] at read
    exact ⟨live, capacity, content, sizes, Nat.zero_le _, read⟩

/-! ### Runs -/

variable {es : List ApmStep}

def ApmStep.event : ApmStep → Option ApmEvent
  | .record r => some r.event
  | .fire | .receive | .tick | .marshal | .respond => none

theorem record_recorded {ev : ApmEvent} (recorded : s.record ev = some t) :
    t.recorded = s.recorded ++ [(ev, s.queue.buffer.length)] := by
  simp only [Apm.record] at recorded
  split at recorded
  · obtain rfl := Option.some.inj recorded
    rfl
  · obtain rfl := Option.some.inj recorded
    rfl
  · contradiction

theorem drainer_recorded (other : e.event = none) (taken : s.step e = some t) : t.recorded = s.recorded := by
  rcases step_cases taken with ⟨r, rfl, -⟩ | ⟨-, rfl⟩ | ⟨-, -, received⟩ | ⟨-, -, ticked⟩ | ⟨len, -, -, rfl⟩ |
    ⟨-, -, rfl⟩
  · contradiction
  · rfl
  · obtain ⟨ev, queue, -, rfl⟩ := receive_cases received
    split <;> rfl
  · obtain rfl := tick_cases ticked
    split <;> rfl
  · rfl
  · rfl

theorem step_recorded (taken : s.step e = some t) :
    t.recorded.map Prod.fst = s.recorded.map Prod.fst ++ e.event.toList := by
  cases recorded : e.event with
  | none => rw [drainer_recorded recorded taken, Option.toList_none, List.append_nil]
  | some ev =>
    cases e with
    | record r =>
      obtain rfl := Option.some.inj recorded
      rw [record_recorded taken, List.map_append]
      rfl
    | _ => contradiction

theorem run_recorded (ran : run Apm.step s es = some t) :
    t.recorded.map Prod.fst = s.recorded.map Prod.fst ++ es.filterMap ApmStep.event := by
  induction es generalizing s with
  | nil =>
    obtain rfl := Option.some.inj ran
    exact (List.append_nil _).symm
  | cons e es ih =>
    obtain ⟨u, first, rest⟩ := Transition.run_cons.mp ran
    rw [ih rest, step_recorded first, List.append_assoc, List.filterMap_cons]
    cases e.event <;> rfl

/-- What has been passed on, what the drainer holds and what the queue holds are the kept events
in their order; each is passed on once, in batches of 1 to 100, which are what is read and posted. -/
theorem events_drained (ran : run Apm.step Apm.init es = some s) :
    s.passed.flatten ++ s.current ++ s.queue.buffer = s.kept ∧
      s.recorded.map Prod.fst = es.filterMap ApmStep.event ∧
      (∀ batch ∈ s.passed, 1 ≤ batch.length ∧ batch.length ≤ 100) ∧
      s.passed = s.posted ++ s.unread ∧ ∀ ev, s.passed.flatten.count ev ≤ s.kept.count ev := by
  have drained := Transition.run_invariant (fun _ _ _ drained taken => step_drained drained taken) init_drained ran
  refine ⟨drained.content, run_recorded ran, drained.sizes, drained.read, fun ev => ?_⟩
  rw [← drained.content, List.append_assoc, List.count_append]
  exact Nat.le_add_right _ _

def requestEnds (path : String) : ApmStep := .record ⟨"", "0a", path, 12, 1000⟩

/-- The first batch is on its way while three more requests end, and the next one in the memory of it;
the last request comes too late for both. -/
def overlapping : List ApmStep :=
  [requestEnds "/a", requestEnds "/b", .receive, .fire, .receive, .tick, requestEnds "/c", .marshal, .fire,
    requestEnds "/d", .respond, .receive, requestEnds "/e", .receive, .receive, .tick, .marshal,
    requestEnds "/f", .respond]

theorem events_drained_overlapping : ∃ s, run Apm.step Apm.init overlapping = some s ∧
    s.posted.map (List.map ApmEvent.endpoint) = [["/a", "/b"], ["/c", "/d", "/e"]] ∧
    s.queue.buffer.map ApmEvent.endpoint = ["/f"] ∧
    s.passed.flatten ++ s.current ++ s.queue.buffer = s.kept ∧
      s.recorded.map Prod.fst = overlapping.filterMap ApmStep.event ∧
      (∀ batch ∈ s.passed, 1 ≤ batch.length ∧ batch.length ≤ 100) ∧
      s.passed = s.posted ++ s.unread ∧ ∀ ev, s.passed.flatten.count ev ≤ s.kept.count ev :=
  ⟨_, rfl, rfl, rfl, events_drained rfl⟩

end PolyglotInfinity.Gateway
