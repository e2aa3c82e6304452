import Mathlib.Data.Finset.Option
import PolyglotInfinity.Orders.Cleanup

/-!
# The connection pool

`DbStore` has one pool of connections for the clients and all benchmarks. An operation takes a
connection before its first statement and gives it back at its end; where none is free it waits, and
fails after three seconds. Every run with the pool is a run without it.
-/

namespace PolyglotInfinity.Orders.Benchmark

open Transition (run)

/-- `setMaximumPoolSize`. -/
def poolSize : ℕ := 20

/-- A client's operation, a task of a run, or the DELETE of a run. -/
inductive Holder where
  | client (t : ℕ)
  | task (r i : ℕ)
  | cleaner (r : ℕ)
  deriving DecidableEq

def Holder.tx : Holder → ℕ
  | .client t => clientTx t
  | .task r i => taskTx r i
  | .cleaner r => cleanerTx r

structure Pooled where
  state : State
  /-- Those that have a connection. -/
  out : Finset Holder := ∅

def Pooled.initial (rows : List Row) : Pooled := { state := .initial rows }

/-- The transaction behind the number is not at its end. -/
def State.busy (s : State) (h : Holder) : Bool := (s.db.txs h.tx).underway

/-- The next statement of the holder needs a connection. -/
def State.asks (s : State) : Holder → Prop
  | .client _ => True
  | .task r i => (∃ b, s.runs r = some b ∧ i < b.submitted) ∧ (s.tasks (r, i) = .waiting ∨ s.tasks (r, i) = .inserted)
  | .cleaner r => ∃ b, s.runs r = some b ∧ b.phase = .leaving

instance (s : State) (h : Holder) : Decidable (s.asks h) :=
  match h with
  | .client _ => inferInstanceAs (Decidable True)
  | .task r i => inferInstanceAs (Decidable ((∃ b, s.runs r = some b ∧ i < b.submitted) ∧ _))
  | .cleaner r => inferInstanceAs (Decidable (∃ b, s.runs r = some b ∧ b.phase = .leaving))

def ClientEvent.holder : ClientEvent → Holder
  | .post t _ _ _ | .finish t _ _ _ | .call t _ _ | .move t _ => .client t

/-- Who needs a connection for it. -/
def Event.uses : Event → Option Holder
  | .client e => some e.holder
  | .insert r i _ | .call r i _ | .move r i _ => some (.task r i)
  | .delete r | .lockNext r | .deleteCommits r => some (.cleaner r)
  | .start .. | .submit _ | .countDown .. | .leave _ | .deleteFails _ => none

/-- Whose connection goes back with it. -/
def Event.returns : Event → Option Holder
  | .client (.post t _ _ _) | .client (.finish t _ _ _) => some (.client t)
  | .insert r i _ | .countDown r i => some (.task r i)
  | .deleteCommits r | .deleteFails r => some (.cleaner r)
  | _ => none

namespace Pooled

inductive Event where
  | getConnection (h : Holder)
  /-- A client's operation ends, or fails. -/
  | close (t : ℕ)
  | operate (e : Benchmark.Event)

def Event.operation : Event → Option Benchmark.Event
  | .operate e => some e
  | .getConnection _ | .close _ => none

def step (p : Pooled) : Event → Option Pooled
  | .getConnection h =>
    if h ∉ p.out ∧ p.out.card < poolSize ∧ p.state.asks h then some { p with out := insert h p.out } else none
  | .close t =>
    if .client t ∈ p.out ∧ p.state.busy (.client t) = false then some { p with out := p.out.erase (.client t) } else none
  | .operate e =>
    if (∀ h ∈ e.uses, h ∈ p.out) ∧ ∀ h ∈ e.returns, p.state.busy h = false then
      (Benchmark.step p.state e).map fun state => { state, out := p.out \ e.returns.toFinset }
    else none

end Pooled

/-! ### Who has a connection -/

variable {s s' : State} {p q : Pooled} {x : Holder} {t : ℕ}

theorem tx_inj {x y : Holder} (same : x.tx = y.tx) : x = y := by
  cases x <;> cases y
  case task.task =>
    obtain ⟨rfl, rfl⟩ := taskTx_inj same
    rfl
  all_goals simp only [Holder.tx, clientTx, taskTx, cleanerTx] at same
  case client.client | cleaner.cleaner => congr; omega
  all_goals omega

/-- A step of another transaction, or one that does not begin it, leaves a transaction as far from its end. -/
theorem busy_before {e : DbEvent} {db : Db} (taken : s.db.step e = some db) (busy : ({ s with db } : State).busy x = true) :
    s.busy x = true ∨ ∃ k c, e = .begin x.tx k c := by
  unfold State.busy at busy ⊢
  by_cases mine : x.tx = e.tx
  · by_cases begins : ∃ t k c, e = .begin t k c
    · obtain ⟨t, k, c, rfl⟩ := begins
      exact .inr ⟨k, c, by rw [mine]; rfl⟩
    · rw [mine]
      exact .inl (RowLock.step_underway taken fun t k c same => begins ⟨t, k, c, same⟩)
  · exact .inl ((RowLock.step_others taken mine) ▸ busy)

theorem move_busy {m : Move} {db : Db} (taken : s.db.step (m.event t) = some db)
    (busy : ({ s with db } : State).busy x = true) : s.busy x = true := by
  rcases busy_before taken busy with before | ⟨k, c, same⟩
  · exact before
  · cases m <;> cases same

theorem added_busy {author : Option (ℕ × ℕ)} {id : String} (added : Added s author id s') : s'.busy x = s.busy x := by
  cases added <;> rfl

theorem client_busy {e : ClientEvent} (h : s.client e = some s') (busy : s'.busy x = true) :
    s.busy x = true ∨ x = e.holder ∧ (Event.client e).returns = none := by
  obtain ⟨t, id, type, now, rfl, added⟩ | ⟨db, taken, rfl, notPost⟩ := client_eq h
  · exact .inl (added_busy added ▸ busy)
  · cases e with
    | post t id type now => exact absurd rfl (notPost t id type now)
    | finish t id status now =>
      obtain ⟨-, rfl⟩ := RowLock.write_eq.mp taken
      exact .inl busy
    | call t id call =>
      have begun : s.db.step (.begin (clientTx t) id call) = some db := taken
      rcases busy_before begun busy with before | ⟨k, c, same⟩
      · exact .inl before
      · have here : Holder.tx (.client t) = x.tx := (RowLock.Event.begin.inj same).1
        exact .inr ⟨(tx_inj here).symm, rfl⟩
    | move t m => exact .inl (move_busy taken busy)

/-- Only the holder itself begins its transaction, and keeps its connection then. -/
theorem step_busy {e : Event} (h : step s e = some s') (busy : s'.busy x = true) :
    s.busy x = true ∨ e.uses = some x ∧ e.returns = none := by
  cases e with
  | client e => exact (client_busy h busy).imp_right fun ⟨same, keeps⟩ => ⟨congrArg some same.symm, keeps⟩
  | start r n virtual nano => obtain ⟨-, rfl⟩ := start_eq h; exact .inl busy
  | submit r => obtain ⟨b, -, -, -, rfl⟩ := submit_eq h; exact .inl busy
  | insert r i now =>
    obtain ⟨b, t, -, -, -, added, rfl⟩ := insert_eq h
    exact .inl (added_busy added ▸ busy)
  | call r i now =>
    obtain ⟨b, db, -, -, taken, rfl⟩ := call_eq h
    rcases busy_before taken busy with before | ⟨k, c, same⟩
    · exact .inl before
    · have here : Holder.tx (.task r i) = x.tx := (RowLock.Event.begin.inj same).1
      exact .inr ⟨congrArg some (tx_inj here), rfl⟩
  | move r i m =>
    obtain ⟨db, taken, rfl⟩ := Option.map_eq_some_iff.mp h
    exact .inl (move_busy taken busy)
  | countDown r i => obtain ⟨b, -, -, -, rfl⟩ := countDown_eq h; exact .inl busy
  | leave r => obtain ⟨b, -, -, rfl⟩ := leave_eq h; exact .inl busy
  | delete r => obtain ⟨b, -, -, rfl⟩ := delete_eq h; exact .inl busy
  | lockNext r =>
    obtain ⟨b, clean, e, pending, held, -, -, ⟨-, rfl⟩ | ⟨-, rfl⟩⟩ := lockNext_eq h
    · exact .inl busy
    · exact .inl busy
  | deleteCommits r => obtain ⟨b, clean, held, -, -, rfl⟩ := deleteCommits_eq h; exact .inl busy
  | deleteFails r => obtain ⟨b, -, rfl⟩ := deleteFails_eq h; exact .inl busy

namespace Pooled

theorem operate_eq {e : Benchmark.Event} (h : step p (.operate e) = some q) :
    (∀ h ∈ e.uses, h ∈ p.out) ∧ (∀ h ∈ e.returns, p.state.busy h = false) ∧
      Benchmark.step p.state e = some q.state ∧ q.out = p.out \ e.returns.toFinset := by
  obtain ⟨⟨uses, returns⟩, h⟩ := Option.ite_none_right_eq_some.mp h
  obtain ⟨state, taken, rfl⟩ := Option.map_eq_some_iff.mp h
  exact ⟨uses, returns, taken, rfl⟩

/-- The pool is never exceeded, and a transaction keeps its connection to its end. -/
structure Held (p : Pooled) : Prop where
  bounded : p.out.card ≤ poolSize
  busy : ∀ x, p.state.busy x = true → x ∈ p.out

theorem initial_held (rows : List Row) : Held (initial rows) := ⟨Nat.zero_le _, nofun⟩

theorem step_held {e : Event} (held : Held p) (h : step p e = some q) : Held q := by
  cases e with
  | getConnection x =>
    obtain ⟨⟨fresh, free, -⟩, h⟩ := Option.ite_none_right_eq_some.mp h
    obtain rfl := Option.some.inj h
    refine ⟨?_, fun y busy => Finset.mem_insert_of_mem (held.busy y busy)⟩
    rw [Finset.card_insert_of_notMem fresh]
    exact free
  | close t =>
    obtain ⟨⟨-, ended⟩, h⟩ := Option.ite_none_right_eq_some.mp h
    obtain rfl := Option.some.inj h
    refine ⟨(Finset.card_erase_le).trans held.bounded, fun y busy => Finset.mem_erase.mpr ⟨?_, held.busy y busy⟩⟩
    rintro rfl
    exact absurd (ended.symm.trans busy) Bool.false_ne_true
  | operate e =>
    obtain ⟨uses, returns, taken, out⟩ := operate_eq h
    refine ⟨?_, fun y busy => ?_⟩
    · rw [out]
      exact (Finset.card_le_card Finset.sdiff_subset).trans held.bounded
    · rw [out, Finset.mem_sdiff, Option.mem_toFinset]
      rcases step_busy taken busy with before | ⟨mine, keeps⟩
      · refine ⟨held.busy y before, fun back => ?_⟩
        exact absurd ((returns y back).symm.trans before) Bool.false_ne_true
      · exact ⟨uses y mine, by simp [keeps]⟩

/-- With the pool forgotten, a step is the operation's own. -/
theorem step_shows {e : Event} (h : step p e = some q) :
    run Benchmark.step p.state e.operation.toList = some q.state := by
  cases e with
  | getConnection x =>
    obtain ⟨-, h⟩ := Option.ite_none_right_eq_some.mp h
    obtain rfl := Option.some.inj h
    rfl
  | close t =>
    obtain ⟨-, h⟩ := Option.ite_none_right_eq_some.mp h
    obtain rfl := Option.some.inj h
    rfl
  | operate e => exact Transition.run_cons.mpr ⟨q.state, (operate_eq h).2.2.1, rfl⟩

/-- Every run with the pool is one without it. -/
theorem run_forgets {rows : List Row} {events : List Event} (h : run step (initial rows) events = some p) :
    run Benchmark.step (State.initial rows) (events.filterMap Event.operation) = some p.state := by
  have shows : ∀ (p : Pooled) (e : Event) (q : Pooled), True → step p e = some q →
      run Benchmark.step p.state e.operation.toList = some q.state := fun _ _ _ _ taken => step_shows taken
  exact Transition.run_filterMap (fun _ _ _ _ _ => trivial) shows trivial h

theorem run_held {rows : List Row} {events : List Event} (h : run step (initial rows) events = some p) : Held p :=
  Transition.run_invariant (fun _ _ _ held taken => step_held held taken) (initial_held rows) h

end Pooled

end PolyglotInfinity.Orders.Benchmark
