import PolyglotInfinity.Apm.Collector
import PolyglotInfinity.Lib.Backlog

/-!
# Bursts of metrics

What the collector takes before it drops a metric, when `record` calls and
flushes come one after another.
-/

namespace PolyglotInfinity.Apm

open Transition (run)

inductive Call where
  | record (m : TransactionMetric)
  | flush

def Call.isRecord : Call → Bool
  | record _ => true
  | flush => false

def Call.isFlush : Call → Bool
  | record _ => false
  | flush => true

def Collector.call (s : Collector) : Call → Collector
  | .record m => s.record m
  | .flush => s.flush

/-- The most that a call changes the length of the queue by. -/
def Call.change : Call → ℤ
  | record _ => 1
  | flush => -batchSize

variable {calls : List Call}

theorem change_sum (calls : List Call) : (calls.map Call.change).sum =
    (calls.countP Call.isRecord : ℤ) - batchSize * calls.countP Call.isFlush := by
  induction calls with
  | nil => simp
  | cons c calls ih =>
    rw [List.map_cons, List.sum_cons, ih, List.countP_cons, List.countP_cons]
    cases c <;>
      simp only [Call.change, Call.isRecord, Call.isFlush, batchSize, if_true, Bool.false_eq_true, if_false] <;>
      omega

theorem record_dropped (s : Collector) (m : TransactionMetric) :
    (s.record m).dropped = [] ↔ s.dropped = [] ∧ s.queue.length < maxQueueSize := by
  unfold Collector.record
  split
  · rename_i full
    simp [Nat.not_lt.mpr full]
  · rename_i space
    simp [Nat.lt_of_not_le space]

theorem flush_dropped (s : Collector) : s.flush.dropped = s.dropped := by
  unfold Collector.flush
  split <;> rfl

theorem flush_length (s : Collector) : s.flush.queue.length = s.queue.length - batchSize := by
  unfold Collector.flush
  split
  · rename_i drained
    simp [drained]
  · exact List.length_drop

/-- Until a metric is dropped, the queue is as long as the backlog of the calls. -/
theorem dropped_iff_levels (calls : List Call) :
    ((calls.foldl Collector.call {}).dropped = [] ↔
      ∀ earlier, earlier <+: calls → Backlog.level Call.change earlier ≤ maxQueueSize) ∧
    ((calls.foldl Collector.call {}).dropped = [] →
      ((calls.foldl Collector.call {}).queue.length : ℤ) = Backlog.level Call.change calls) := by
  induction calls using List.reverseRecOn with
  | nil => simp [Backlog.level]
  | append_singleton calls c ih =>
    obtain ⟨kept, length⟩ := ih
    rw [List.foldl_append, List.foldl_cons, List.foldl_nil]
    generalize calls.foldl Collector.call {} = s at kept length ⊢
    have prefixes : (∀ earlier, earlier <+: calls ++ [c] → Backlog.level Call.change earlier ≤ maxQueueSize) ↔
        s.dropped = [] ∧ Backlog.level Call.change (calls ++ [c]) ≤ maxQueueSize := by
      simp only [List.prefix_concat_iff, forall_eq_or_imp, kept]
      exact and_comm
    rw [prefixes, Backlog.level_concat]
    cases c with
    | record m =>
      simp only [Collector.call, record_dropped, Call.change]
      constructor
      · apply and_congr_right
        intro none
        have here := length none
        omega
      · rintro ⟨none, space⟩
        have here := length none
        rw [Collector.record, if_neg (Nat.not_le.mpr space), List.length_append, List.length_singleton]
        push_cast
        omega
    | flush =>
      simp only [Collector.call, flush_dropped, flush_length, Call.change]
      constructor
      · constructor
        · intro none
          have low := kept.mp none calls (List.prefix_refl _)
          exact ⟨none, by omega⟩
        · exact And.left
      · intro none
        have here := length none
        omega

/-- No metric is dropped exactly if no stretch of calls has more `record` calls
than the queue takes and the flushes in the stretch send. -/
theorem calls_kept_iff (calls : List Call) : (calls.foldl Collector.call {}).dropped = [] ↔
    ∀ stretch, stretch <:+: calls →
      stretch.countP Call.isRecord ≤ maxQueueSize + batchSize * stretch.countP Call.isFlush := by
  rw [(dropped_iff_levels calls).1, Backlog.levels_le_iff]
  refine forall_congr' fun stretch => forall_congr' fun _ => ?_
  rw [change_sum]
  omega

/-! ### Calls that overlap -/

def Access.change : Access → ℤ
  | .offer _ => 1
  | .poll _ => -1
  | .size _ | .isEmpty _ => 0

variable {s s' : Collector} {e : Access} {events : List Access}

theorem step_length (h : s.step e = some s') :
    (s'.queue.length : ℤ) = max 0 (s.queue.length + e.change) := by
  cases e with
  | size m =>
    obtain rfl := Option.some.inj h
    simp only [Access.change]
    split <;> simp
  | offer m =>
    obtain ⟨-, rfl⟩ := offer_eq.mp h
    simp only [Access.change, List.length_append, List.length_singleton]
    omega
  | isEmpty f =>
    rw [(isEmpty_queue h).2.2]
    simp only [Access.change]
    omega
  | poll f =>
    rw [(poll_queue h).2.2, List.length_tail]
    simp only [Access.change]
    omega

theorem step_dropped (h : s.step e = some s') : s'.dropped = [] ↔
    s.dropped = [] ∧ ∀ m, e = .size m → s.queue.length < maxQueueSize := by
  cases e with
  | size m =>
    obtain rfl := Option.some.inj h
    by_cases full : s.queue.length ≥ maxQueueSize
    · simp [full, Nat.not_lt.mpr full]
    · simp [full, Nat.lt_of_not_le full]
  | offer m =>
    obtain ⟨-, rfl⟩ := offer_eq.mp h
    simp
  | isEmpty f => simp [(isEmpty_queue h).2.1]
  | poll f => simp [(poll_queue h).2.1]

/-- However the calls overlap, no metric is dropped exactly if no stretch of steps
before a size check has as many more offers than polls as the queue has places. -/
theorem steps_kept_iff (h : run Collector.step {} events = some s) : s.dropped = [] ↔
    ∀ earlier m, earlier ++ [.size m] <+: events →
      ∀ latest, latest <:+ earlier → (latest.map Access.change).sum < maxQueueSize := by
  suffices both : (s.queue.length : ℤ) = Backlog.level Access.change events ∧ (s.dropped = [] ↔
      ∀ earlier m, earlier ++ [.size m] <+: events → Backlog.level Access.change earlier ≤ maxQueueSize - 1) by
    rw [both.2]
    refine forall_congr' fun earlier => forall_congr' fun m => forall_congr' fun _ => ?_
    rw [Backlog.level_le_iff]
    simp only [Int.le_sub_one_iff]
  induction events using List.reverseRecOn generalizing s with
  | nil =>
    obtain rfl := Option.some.inj h
    simp [Backlog.level]
  | append_singleton events e ih =>
    obtain ⟨x, before, last⟩ := Transition.run_append.mp h
    obtain ⟨y, taken, done⟩ := Transition.run_cons.mp last
    obtain rfl := Option.some.inj done
    obtain ⟨length, kept⟩ := ih before
    refine ⟨by rw [step_length taken, length, Backlog.level_concat], ?_⟩
    rw [step_dropped taken, kept]
    constructor
    · rintro ⟨levels, space⟩ earlier m within
      rcases List.prefix_concat_iff.mp within with whole | shorter
      · obtain ⟨rfl, here⟩ := List.append_inj' whole rfl
        have room := space m (List.cons.inj here).1.symm
        omega
      · exact levels earlier m shorter
    · intro levels
      refine ⟨fun earlier m within => levels earlier m (List.prefix_concat_iff.mpr (.inr within)), ?_⟩
      rintro m rfl
      have room := levels events m (List.prefix_refl _)
      omega

/-- When no metric is dropped, in calls one after another and in calls that overlap. -/
theorem no_metric_dropped_iff (calls : List Call) (events : List Access) :
    ((calls.foldl Collector.call {}).dropped = [] ↔
      ∀ stretch, stretch <:+: calls →
        stretch.countP Call.isRecord ≤ maxQueueSize + batchSize * stretch.countP Call.isFlush) ∧
    ∀ s, run Collector.step {} events = some s → (s.dropped = [] ↔
      ∀ earlier m, earlier ++ [.size m] <+: events →
        ∀ latest, latest <:+ earlier → (latest.map Access.change).sum < maxQueueSize) :=
  ⟨calls_kept_iff calls, fun _ => steps_kept_iff⟩

/-- The `record` calls that the sizing comment has between two flushes. -/
def burst : List Call := List.replicate 600 (.record ping)

def bursts : ℕ → List Call
  | 0 => burst
  | n + 1 => burst ++ .flush :: bursts n

theorem bursts_apart (n : ℕ) : (bursts n).splitOnP Call.isFlush = List.replicate (n + 1) burst := by
  have none : ∀ c ∈ burst, c.isFlush = false := by
    intro c member
    rw [List.eq_of_mem_replicate member]
    rfl
  induction n with
  | zero => exact List.splitOnP_eq_singleton none
  | succ n ih =>
    rw [bursts, List.splitOnP_append_cons_of_forall_mem none _ rfl, ih]
    rfl

theorem bursts_sum (n : ℕ) : ((bursts n).map Call.change).sum = 600 + 400 * n := by
  have once : (burst.map Call.change).sum = 600 := by
    rw [burst, List.map_replicate, List.sum_replicate]
    rfl
  induction n with
  | zero => simpa [bursts] using once
  | succ n ih =>
    rw [bursts, List.map_append, List.sum_append, List.map_cons, List.sum_cons, ih, once]
    simp only [Call.change, batchSize]
    push_cast
    omega

/-- The 25th burst finds 9600 metrics that the flushes have left. -/
theorem bursts_drop : ¬ ((∀ burst ∈ (bursts 24).splitOnP Call.isFlush, burst.length ≤ 600) →
    ((bursts 24).foldl Collector.call {}).dropped = []) := by
  intro law
  have sized : ∀ burst ∈ (bursts 24).splitOnP Call.isFlush, burst.length ≤ 600 := by
    intro other member
    rw [bursts_apart] at member
    rw [List.eq_of_mem_replicate member, burst, List.length_replicate]
  have levels := (dropped_iff_levels _).1.mp (law sized) _ (List.prefix_refl _)
  have sum := Backlog.level_le_iff.mp levels _ (List.suffix_refl _)
  rw [bursts_sum] at sum
  exact absurd sum (by decide)

end PolyglotInfinity.Apm
