import Mathlib.Data.Int.Notation
import Mathlib.Data.Nat.Notation
import Mathlib.Logic.Function.Basic
import PolyglotInfinity.Lib.Transition

/-!
# The metric collector's queue

`ApmCollector` of the Java service. Any number of `record` calls and of flushes
share the queue, and each of their calls on it is one step. How the POST of a
batch ends does not matter here.
-/

namespace PolyglotInfinity.Apm

open Transition (run Along Always)

structure TransactionMetric where
  correlationId : String
  service : String
  endpoint : String
  responseMs : ℤ
  queryMs : ℤ
  timestamp : ℤ
  deriving DecidableEq

def maxQueueSize : ℕ := 10000
def batchSize : ℕ := 200

structure Collector where
  queue : List TransactionMetric := []
  /-- Held by `record` calls between the size check and the offer. -/
  passed : List TransactionMetric := []
  /-- Discarded by the size check. Ghost. -/
  dropped : List TransactionMetric := []
  /-- The batches of the flushes under way. -/
  flushes : ℕ → Option (List TransactionMetric) := fun _ => none
  sent : List (List TransactionMetric) := []

inductive Access where
  /-- A `record` call reads the size of the queue. -/
  | size (m : TransactionMetric)
  | offer (m : TransactionMetric)
  /-- Flush `f` begins. -/
  | isEmpty (f : ℕ)
  | poll (f : ℕ)

/-- Flush `f` ends with what it has taken. -/
def Collector.post (s : Collector) (f : ℕ) (batch : List TransactionMetric) : Collector :=
  { s with
    flushes := Function.update s.flushes f none
    sent := if batch = [] then s.sent else s.sent ++ [batch] }

def Collector.step (s : Collector) : Access → Option Collector
  | .size m =>
    some (if s.queue.length ≥ maxQueueSize then { s with dropped := s.dropped ++ [m] }
      else { s with passed := s.passed ++ [m] })
  | .offer m =>
    if m ∈ s.passed then some { s with passed := s.passed.erase m, queue := s.queue ++ [m] } else none
  | .isEmpty f =>
    match s.flushes f with
    | none => some (if s.queue = [] then s else { s with flushes := Function.update s.flushes f (some []) })
    | some _ => none
  | .poll f =>
    match s.flushes f with
    | none => none
    | some batch =>
      match s.queue with
      | [] => some (s.post f batch)
      | m :: queue =>
        let s := { s with queue }
        if batch.length + 1 < batchSize then
          some { s with flushes := Function.update s.flushes f (some (batch ++ [m])) }
        else some (s.post f (batch ++ [m]))

/-! ### The bound on the queue -/

def Bounded (s : Collector) : Prop := s.queue.length ≤ maxQueueSize

/-- No size check passes while the queue, together with the metrics that have passed and
are still to be offered, is full. -/
def RoomForPassed (s : Collector) : Access → Prop
  | .size _ => s.queue.length < maxQueueSize → s.queue.length + s.passed.length < maxQueueSize
  | _ => True

variable {s s' : Collector} {m : TransactionMetric} {f : ℕ}

theorem offer_eq : s.step (.offer m) = some s' ↔
    m ∈ s.passed ∧ s' = { s with passed := s.passed.erase m, queue := s.queue ++ [m] } := by
  by_cases held : m ∈ s.passed <;> simp [Collector.step, held, eq_comm]

theorem poll_queue (h : s.step (.poll f) = some s') :
    s'.passed = s.passed ∧ s'.dropped = s.dropped ∧ s'.queue = s.queue.tail := by
  unfold Collector.step at h
  cases under : s.flushes f with
  | none => simp [under] at h
  | some batch =>
    simp only [under] at h
    split at h
    · rename_i drained
      obtain rfl := Option.some.inj h
      exact ⟨rfl, rfl, by simp [Collector.post, drained]⟩
    · rename_i m queue next
      split at h <;> obtain rfl := Option.some.inj h <;> exact ⟨rfl, rfl, by simp [Collector.post, next]⟩

theorem isEmpty_queue (h : s.step (.isEmpty f) = some s') :
    s'.passed = s.passed ∧ s'.dropped = s.dropped ∧ s'.queue = s.queue := by
  unfold Collector.step at h
  cases under : s.flushes f with
  | some batch => simp [under] at h
  | none =>
    simp only [under, Option.some.injEq] at h
    subst h
    split <;> exact ⟨rfl, rfl, rfl⟩

/-- Even with everything that has passed, the queue keeps its bound. -/
def Covered (s : Collector) : Prop := s.queue.length + s.passed.length ≤ maxQueueSize

theorem step_covered {e : Access} (covered : Covered s) (room : RoomForPassed s e) (h : s.step e = some s') :
    Covered s' := by
  unfold Covered at covered ⊢
  cases e with
  | size m =>
    obtain rfl := Option.some.inj h
    by_cases full : s.queue.length ≥ maxQueueSize
    · simpa [full] using covered
    · have space := room (Nat.lt_of_not_le full)
      simp only [full, if_false, List.length_append, List.length_cons, List.length_nil]
      omega
  | offer m =>
    obtain ⟨held, rfl⟩ := offer_eq.mp h
    have nonempty := List.length_pos_of_mem held
    simp only [List.length_append, List.length_cons, List.length_nil, List.length_erase_of_mem held]
    omega
  | isEmpty f =>
    obtain ⟨passed, -, queue⟩ := isEmpty_queue h
    rw [passed, queue]
    exact covered
  | poll f =>
    obtain ⟨passed, -, queue⟩ := poll_queue h
    rw [passed, queue, List.length_tail]
    omega

/-- Once no flush comes between, everything that has passed is offered. -/
theorem offers_run (s : Collector) : run Collector.step s (s.passed.map .offer) =
    some { s with passed := [], queue := s.queue ++ s.passed } := by
  generalize held : s.passed = passed
  induction passed generalizing s with
  | nil =>
    have same : { s with passed := [], queue := s.queue ++ [] } = s := by rw [List.append_nil, ← held]
    rw [List.map_nil, Transition.run_nil, same]
  | cons m rest ih =>
    have first : s.step (.offer m) = some { s with passed := rest, queue := s.queue ++ [m] } :=
      offer_eq.mpr ⟨by simp [held], by simp [held]⟩
    have later := ih { s with passed := rest, queue := s.queue ++ [m] } rfl
    rw [List.map_cons, Transition.run, first, Option.bind_some, later]
    simp

/-- The queue keeps its bound in every run whose size checks leave room for what
has passed before. Where one does not, the offers that are still to come break
the bound. -/
theorem queue_bounded (events : List Access) (room : Along Collector.step RoomForPassed {} events) :
    Always Collector.step Bounded {} events ∧
      ∀ s m s', run Collector.step {} events = some s → ¬ RoomForPassed s (.size m) →
        s.step (.size m) = some s' →
        ∃ offers q, run Collector.step s' offers = some q ∧ ¬ Bounded q := by
  constructor
  · refine Transition.always_along (fun _ _ _ covered ok h => step_covered covered ok h) ?_ (Nat.zero_le _) room
    intro s covered
    exact Nat.le_trans (Nat.le_add_right _ _) covered
  · intro s m s' _ crowded h
    refine ⟨_, _, offers_run s', ?_⟩
    obtain rfl := Option.some.inj h
    simp only [RoomForPassed, Classical.not_imp, Nat.not_lt] at crowded
    obtain ⟨open', full⟩ := crowded
    rw [if_neg (Nat.not_le.mpr open')]
    simp only [Bounded, List.length_append, List.length_cons, List.length_nil]
    omega

instance (s : Collector) : (e : Access) → Decidable (RoomForPassed s e)
  | .size _ => inferInstanceAs (Decidable (_ → _))
  | .offer _ | .isEmpty _ | .poll _ => .isTrue trivial

def ping : TransactionMetric := ⟨"c0", "java-loom", "/health", 1, 0, 1700000000000⟩

theorem queue_bounded_overlap : ∃ s,
    run Collector.step {} [.size ping, .size ping, .offer ping, .isEmpty 0, .poll 0, .offer ping, .poll 0] = some s ∧
      s.queue = [] ∧ Bounded s := by
  have room : Along Collector.step RoomForPassed {}
      [.size ping, .size ping, .offer ping, .isEmpty 0, .poll 0, .offer ping, .poll 0] := by decide
  exact ⟨_, rfl, rfl, Transition.always_last (queue_bounded _ room).1 rfl⟩

def filling (n : ℕ) : List Access := (List.replicate n [.size ping, .offer ping]).flatten

theorem filling_run {n : ℕ} (fits : n ≤ maxQueueSize) :
    run Collector.step {} (filling n) = some { queue := List.replicate n ping } := by
  induction n with
  | zero => rfl
  | succ n ih =>
    have more : filling (n + 1) = filling n ++ [.size ping, .offer ping] := by
      simp [filling, List.replicate_succ']
    have space : ¬ maxQueueSize ≤ n := Nat.not_le.mpr fits
    rw [more]
    refine Transition.run_append.mpr ⟨_, ih (Nat.le_of_succ_le fits), ?_⟩
    simp [run, Collector.step, space, List.replicate_succ']

/-- The last place in the queue, and two `record` calls that both see it. -/
def crowd : List Access := filling 9999 ++ [.size ping, .size ping, .offer ping, .offer ping]

theorem crowd_overflows : ¬ Always Collector.step Bounded {} crowd := by
  intro bounded
  have overlap : ∀ queue : List TransactionMetric, queue.length < maxQueueSize →
      run Collector.step { queue } [.size ping, .size ping, .offer ping, .offer ping] =
        some { queue := queue ++ [ping, ping] } := by
    intro queue space
    simp [run, Collector.step, Nat.not_le.mpr space]
  have filled := @filling_run 9999 (by decide)
  have overfull := overlap (List.replicate 9999 ping) (by rw [List.length_replicate]; decide)
  have last := Transition.always_last bounded (Transition.run_append.mpr ⟨_, filled, overfull⟩)
  rw [Bounded, List.length_append, List.length_replicate] at last
  exact absurd last (by decide)

/-! ### Calls that nothing comes between -/

def Collector.record (s : Collector) (m : TransactionMetric) : Collector :=
  if s.queue.length ≥ maxQueueSize then { s with dropped := s.dropped ++ [m] }
  else { s with queue := s.queue ++ [m] }

def Collector.flush (s : Collector) : Collector :=
  if s.queue = [] then s
  else { s with queue := s.queue.drop batchSize, sent := s.sent ++ [s.queue.take batchSize] }

theorem record_alone (none : s.passed = []) (m : TransactionMetric) :
    ∃ steps, run Collector.step s steps = some (s.record m) := by
  unfold Collector.record
  by_cases full : s.queue.length ≥ maxQueueSize
  · refine ⟨[.size m], ?_⟩
    simp [run, Collector.step, full]
  · refine ⟨[.size m, .offer m], ?_⟩
    simp [run, Collector.step, full, none]

/-- The polls of a flush that has taken `batch`, and that nothing comes between. -/
theorem polls_run {batch : List TransactionMetric} (under : s.flushes f = some batch)
    (short : batch.length < batchSize) (nonempty : batch ≠ [] ∨ s.queue ≠ []) :
    ∃ polls, run Collector.step s polls = some { s with
      queue := s.queue.drop (batchSize - batch.length)
      flushes := Function.update s.flushes f none
      sent := s.sent ++ [batch ++ s.queue.take (batchSize - batch.length)] } := by
  generalize held : s.queue = queue at nonempty ⊢
  induction queue generalizing s batch with
  | nil =>
    have taken : batch ≠ [] := nonempty.resolve_right (by simp)
    refine ⟨[.poll f], ?_⟩
    simp [run, Collector.step, under, held, Collector.post, taken]
  | cons m queue ih =>
    by_cases last : batch.length + 1 < batchSize
    · obtain ⟨polls, rest⟩ := @ih { s with queue, flushes := Function.update s.flushes f (some (batch ++ [m])) }
        (batch ++ [m]) (by simp) (by simpa using last) rfl (.inl (by simp))
      refine ⟨.poll f :: polls, ?_⟩
      have first : s.step (.poll f) =
          some { s with queue, flushes := Function.update s.flushes f (some (batch ++ [m])) } := by
        simp [Collector.step, under, held, last]
      have left : batchSize - batch.length = batchSize - (batch ++ [m]).length + 1 := by
        rw [List.length_append, List.length_singleton]
        omega
      rw [run, first, Option.bind_some, rest, left]
      simp
    · refine ⟨[.poll f], ?_⟩
      have left : batchSize - batch.length = 1 := by omega
      simp [run, Collector.step, under, held, last, left, Collector.post]

theorem flush_alone (idle : s.flushes f = none) : ∃ steps, run Collector.step s steps = some s.flush := by
  unfold Collector.flush
  by_cases drained : s.queue = []
  · refine ⟨[.isEmpty f], ?_⟩
    simp [run, Collector.step, idle, drained]
  · obtain ⟨polls, rest⟩ := @polls_run { s with flushes := Function.update s.flushes f (some []) } f []
      (by simp) (by decide) (.inr drained)
    refine ⟨.isEmpty f :: polls, ?_⟩
    have first : s.step (.isEmpty f) = some { s with flushes := Function.update s.flushes f (some []) } := by
      simp [Collector.step, idle, drained]
    rw [run, first, Option.bind_some, rest]
    have restored : Function.update s.flushes f none = s.flushes := by rw [← idle, Function.update_eq_self]
    simp [drained, restored]

end PolyglotInfinity.Apm
