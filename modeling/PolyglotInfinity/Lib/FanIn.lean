import Mathlib.Data.List.Perm.Basic
import PolyglotInfinity.Lib.Channel
import PolyglotInfinity.Lib.Transition

/-!
# Many workers, one collector

Each worker sends one value into a buffered channel and ends; the collector receives as many
values as there are workers. A send into a full channel waits, and so does a receive from an
empty one: such a step is refused. With a buffer that has a place for every worker no send waits,
and when the collector has its values nothing is left behind.
-/

namespace FanIn

open Transition (run)

variable {ι β : Type*} [DecidableEq ι]

structure State (ι β : Type*) where
  /-- The workers that have not sent yet. -/
  running : List ι
  channel : Channel β
  received : List β
  /-- How many values the collector waits for. -/
  expected : ℕ

def start (jobs : List ι) : State ι β := ⟨jobs, Channel.make jobs.length, [], jobs.length⟩

inductive Event (ι : Type*) where
  | send (i : ι)
  | receive

def step (value : ι → β) (s : State ι β) : Event ι → Option (State ι β)
  | .send i =>
    if i ∈ s.running then
      match s.channel.trySend (value i) with
      | .sent channel => some { s with running := s.running.erase i, channel }
      | .full | .panicked => none
    else none
  | .receive =>
    if s.received.length < s.expected then
      match s.channel.receive with
      | some (x, channel) => some { s with channel, received := s.received ++ [x] }
      | none => none
    else none

/-- The values of all workers are received, in the channel or still to come. -/
structure Balanced (jobs : List ι) (value : ι → β) (s : State ι β) : Prop where
  live : s.channel.closed = false
  capacity : s.channel.capacity = jobs.length
  expected : s.expected = jobs.length
  values : (s.received ++ s.channel.buffer ++ s.running.map value).Perm (jobs.map value)

variable {jobs : List ι} {value : ι → β} {s t : State ι β} {e : Event ι} {es : List (Event ι)}

omit [DecidableEq ι] in
theorem start_balanced : Balanced jobs value (start jobs) := ⟨rfl, rfl, rfl, List.Perm.refl _⟩

omit [DecidableEq ι] in
theorem Balanced.count (balanced : Balanced jobs value s) :
    s.received.length + s.channel.buffer.length + s.running.length = jobs.length := by
  simpa [Nat.add_assoc] using balanced.values.length_eq

theorem step_cases (taken : step value s e = some t) :
    (∃ i, ∃ room : s.channel.buffer.length < s.channel.capacity, e = .send i ∧ i ∈ s.running ∧
      t = { s with running := s.running.erase i, channel := s.channel.push (value i) room }) ∨
    ∃ x channel, e = .receive ∧ s.received.length < s.expected ∧ s.channel.receive = some (x, channel) ∧
      t = { s with channel, received := s.received ++ [x] } := by
  cases e with
  | send i =>
    simp only [step] at taken
    split at taken
    · rename_i held
      unfold Channel.trySend at taken
      split at taken
      · rename_i channel sent
        split at sent
        · contradiction
        · split at sent
          · rename_i room
            obtain rfl := Channel.Sent.sent.inj sent
            exact .inl ⟨i, room, rfl, held, (Option.some.inj taken).symm⟩
          · contradiction
      all_goals contradiction
    · contradiction
  | receive =>
    simp only [step] at taken
    split at taken
    · split at taken
      · exact .inr ⟨_, _, rfl, ‹_›, ‹_›, (Option.some.inj taken).symm⟩
      · contradiction
    · contradiction

theorem step_balanced (balanced : Balanced jobs value s) (taken : step value s e = some t) : Balanced jobs value t := by
  obtain ⟨live, capacity, expected, values⟩ := balanced
  rcases step_cases taken with ⟨i, room, -, held, rfl⟩ | ⟨x, channel, -, -, received, rfl⟩
  · refine ⟨live, capacity, expected, List.Perm.trans ?_ values⟩
    show (s.received ++ (s.channel.buffer ++ [value i]) ++ (s.running.erase i).map value).Perm _
    have moved := (List.perm_cons_erase held).map value
    rw [List.map_cons] at moved
    rw [List.append_assoc, List.append_assoc, List.append_assoc]
    exact List.Perm.append_left _ (List.Perm.append_left _ moved.symm)
  · obtain ⟨front, sameCapacity, sameClosed⟩ := Channel.receive_front received
    refine ⟨sameClosed.trans live, sameCapacity.trans capacity, expected, ?_⟩
    show (s.received ++ [x] ++ channel.buffer ++ s.running.map value).Perm _
    rw [front] at values
    rwa [List.append_assoc s.received [x], List.singleton_append]

theorem run_balanced (ran : run (step value) (start jobs) es = some s) : Balanced jobs value s :=
  Transition.run_invariant (fun _ _ _ balanced taken => step_balanced balanced taken) start_balanced ran

/-- No worker waits for its send. -/
theorem Balanced.send (balanced : Balanced jobs value s) {i : ι} (held : i ∈ s.running) :
    ∃ t, step value s (.send i) = some t := by
  have here := List.length_pos_of_mem held
  have room : s.channel.buffer.length < s.channel.capacity := by
    have count := balanced.count
    rw [balanced.capacity]
    omega
  have sent : s.channel.trySend (value i) = .sent (s.channel.push (value i) room) := by
    simp only [Channel.trySend, balanced.live, Bool.false_eq_true, if_false, room, dite_true]
  exact ⟨{ s with running := s.running.erase i, channel := s.channel.push (value i) room }, by simp [step, held, sent]⟩

/-- As long as the collector waits for a value, something can be done. -/
theorem Balanced.progress (balanced : Balanced jobs value s) (waits : s.received.length < s.expected) :
    ∃ e t, step value s e = some t := by
  cases running : s.running with
  | cons i rest => exact ⟨_, balanced.send (running ▸ List.mem_cons_self)⟩
  | nil =>
    cases received : s.channel.receive with
    | some next =>
      exact ⟨.receive, { s with channel := next.2, received := s.received ++ [next.1] }, by simp [step, waits, received]⟩
    | none =>
      have drained : s.channel.buffer = [] := by
        unfold Channel.receive at received
        split at received
        · assumption
        · contradiction
      have count := balanced.count
      rw [running, drained, List.length_nil, ← balanced.expected] at count
      simp only [List.length_nil] at count
      omega

omit [DecidableEq ι] in
/-- Then all workers have ended, the channel is empty, and every worker's value has come once. -/
theorem Balanced.finished (balanced : Balanced jobs value s) (all : s.received.length = s.expected) :
    s.running = [] ∧ s.channel.buffer = [] ∧ s.received.Perm (jobs.map value) := by
  have count := balanced.count
  rw [all, balanced.expected] at count
  have none : s.running = [] := List.length_eq_zero_iff.mp (by omega)
  have drained : s.channel.buffer = [] := List.length_eq_zero_iff.mp (by omega)
  have values := balanced.values
  rw [none, drained, List.append_nil, List.map_nil, List.append_nil] at values
  exact ⟨none, drained, values⟩

/-- Every step sends or receives one of the values. -/
theorem run_length (ran : run (step value) s es = some t) :
    es.length + s.received.length + t.running.length = t.received.length + s.running.length := by
  induction es generalizing s with
  | nil =>
    obtain rfl := Option.some.inj ran
    simp only [List.length_nil]
    omega
  | cons e es ih =>
    obtain ⟨u, first, rest⟩ := Transition.run_cons.mp ran
    have later := ih rest
    rw [List.length_cons]
    rcases step_cases first with ⟨i, room, -, held, rfl⟩ | ⟨x, channel, -, -, -, rfl⟩
    · have here := List.length_pos_of_mem held
      simp only [List.length_erase_of_mem held] at later
      omega
    · simp only [List.length_append, List.length_singleton] at later
      omega

/-! ### What a run comes to -/

/-- Nothing waits for ever, and what `reply` makes of the received values in the end does not depend
on the order in which the workers end. -/
structure Collects {ρ : Type*} (jobs : List ι) (value : ι → β) (reply : List β → ρ) (es : List (Event ι))
    (s : State ι β) : Prop where
  sends : ∀ i ∈ s.running, ∃ t, step value s (.send i) = some t
  ends : es.length ≤ 2 * jobs.length
  progress : s.received.length < jobs.length → ∃ e t, step value s e = some t
  reply : s.received.length = jobs.length →
    s.running = [] ∧ s.channel.buffer = [] ∧ reply s.received = reply (jobs.map value)

theorem collects {ρ : Type*} {reply : List β → ρ}
    (unordered : ∀ received : List β, received.Perm (jobs.map value) → reply received = reply (jobs.map value))
    (ran : run (step value) (start jobs) es = some s) : Collects jobs value reply es s := by
  have balanced := run_balanced ran
  have steps : es.length + 0 + s.running.length = s.received.length + jobs.length := run_length ran
  have count := balanced.count
  refine ⟨fun i held => balanced.send held, by omega, fun waits => ?_, fun all => ?_⟩
  · rw [← balanced.expected] at waits
    exact balanced.progress waits
  · rw [← balanced.expected] at all
    obtain ⟨none, drained, values⟩ := balanced.finished all
    exact ⟨none, drained, unordered _ values⟩

end FanIn
