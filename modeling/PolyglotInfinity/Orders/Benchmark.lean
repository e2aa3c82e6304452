import Mathlib.Data.Finset.Card
import Mathlib.Data.Nat.Pairing
import PolyglotInfinity.Lib.Json
import PolyglotInfinity.Lib.Like
import PolyglotInfinity.Lib.RowView
import PolyglotInfinity.Orders.Store

/-!
# The benchmark

`runBenchmarkWith`: a thread submits `n` tasks, each of which inserts an order
and pays it, waits for their latch, and deletes what starts with the text that
it gave its ids. Any number of such runs go on at once, while clients post
orders and change their status.
-/

namespace PolyglotInfinity.Orders

/-- `INSERT ... 'ORDERED' ... ON CONFLICT (id) DO NOTHING RETURNING ...`. -/
def Db.insertOrder (db : Db) (id type : String) (now : Int) : Option (Db × Row) :=
  match db.table id with
  | none =>
    let row : Row := ⟨id, type, .ordered, now, now⟩
    some (db.put id row, row)
  | some _ => none

namespace Benchmark

open Transition (run)

/-- A version of a row. Whether a run's task inserted it is ghost history. -/
structure Tuple where
  id : String
  serial : ℕ
  author : Option (ℕ × ℕ)
  deriving DecidableEq

/-- `clean`: the latch was at zero when the DELETE began. That has the rows still
to come to, and those it holds. -/
inductive RunPhase where
  | working
  | leaving
  | deleting (clean : Bool) (pending held : List Tuple)
  | deleted (clean : Bool)
  | failed
  deriving DecidableEq

structure Run where
  n : ℕ
  virtual : Bool
  nano : Int
  submitted : ℕ
  latch : ℕ
  phase : RunPhase
  deriving DecidableEq

def Run.idPrefix (b : Run) : String := (if b.virtual then "vt" else "pt") ++ "-bench-" ++ toString b.nano ++ "-"

def Run.id (b : Run) (i : ℕ) : String := b.idPrefix ++ toString i

def Run.matched (b : Run) (e : Tuple) : Bool := Like.like (b.idPrefix ++ "%").toList e.id.toList

/-! ### Ids -/

variable {b b' : Run}

def kind (virtual : Bool) : List Char := if virtual then ['v', 't'] else ['p', 't']

theorem idPrefix_toList (b : Run) :
    b.idPrefix.toList = kind b.virtual ++ ("-bench-".toList ++ ((toString b.nano).toList ++ ['-'])) := by
  unfold Run.idPrefix kind
  cases b.virtual <;> simp

theorem digits_before {xs ys zs ws : List Char} (left : ∀ c ∈ xs, c.isDigit) (right : ∀ c ∈ ys, c.isDigit)
    (same : xs ++ '-' :: zs = ys ++ '-' :: ws) : xs = ys := by
  have ends : ∀ {xs zs : List Char}, (∀ c ∈ xs, c.isDigit) → (xs ++ '-' :: zs).takeWhile Char.isDigit = xs := by
    intro xs zs digits
    rw [List.takeWhile_append_of_pos digits, List.takeWhile_cons_of_neg (by decide), List.append_nil]
  rw [← @ends xs zs left, same, ends right]

theorem isDigit_toDigits {n : ℕ} : ∀ c ∈ Nat.toDigits 10 n, c.isDigit := fun _ =>
  Nat.isDigit_of_mem_toDigits (by decide) (by decide)

theorem digits_unsigned {n : ℕ} {xs ys : List Char} : Nat.toDigits 10 n ++ xs ≠ '-' :: ys := by
  intro same
  cases digits : Nat.toDigits 10 n with
  | nil => exact Nat.toDigits_ne_nil digits
  | cons c rest =>
    rw [digits, List.cons_append, List.cons.injEq] at same
    have digit := isDigit_toDigits c (by rw [digits]; exact List.mem_cons_self)
    rw [same.1] at digit
    exact absurd digit (by decide)

theorem number_before {k m : Int} {zs ws : List Char}
    (same : (toString k).toList ++ '-' :: zs = (toString m).toList ++ '-' :: ws) : k = m := by
  have texts : (toString k).toList = (toString m).toList := by
    rw [Json.toString_int, Json.toString_int] at same ⊢
    by_cases left : 0 ≤ k <;> by_cases right : 0 ≤ m <;> simp only [left, right, ↓reduceIte] at same ⊢
    · exact digits_before isDigit_toDigits isDigit_toDigits same
    · exact absurd same digits_unsigned
    · exact absurd same.symm digits_unsigned
    · exact congrArg ('-' :: ·) (digits_before isDigit_toDigits isDigit_toDigits (List.cons.inj same).2)
  have value := (Json.number_int k).symm.trans (texts ▸ Json.number_int m)
  exact_mod_cast Option.some.inj value

/-- An id starts as another run's ids do only if the two runs have one mode and one stamp. -/
theorem idPrefix_unique {i : ℕ} (front : b.idPrefix.toList <+: (b'.id i).toList) :
    b'.virtual = b.virtual ∧ b'.nano = b.nano := by
  obtain ⟨rest, same⟩ := front
  rw [Run.id, String.toList_append, idPrefix_toList, idPrefix_toList] at same
  simp only [List.append_assoc] at same
  obtain ⟨kinds, later⟩ := List.append_inj same (by cases b.virtual <;> cases b'.virtual <;> rfl)
  have stamps := number_before (List.append_cancel_left later)
  exact ⟨by revert kinds; cases b.virtual <;> cases b'.virtual <;> simp [kind], stamps.symm⟩

theorem plain_idPrefix (b : Run) : b.idPrefix.toList.all Like.plain := by
  have text : ∀ c ∈ (toString b.nano).toList, Like.plain c = true := by
    have digit : ∀ n : ℕ, ∀ c ∈ Nat.toDigits 10 n, Like.plain c = true := by
      intro n c member
      have := isDigit_toDigits c member
      simp only [Like.plain, Bool.and_eq_true, bne_iff_ne]
      refine ⟨⟨?_, ?_⟩, ?_⟩ <;> (rintro rfl; revert this; decide)
    rw [Json.toString_int]
    split
    · exact digit _
    · exact List.forall_mem_cons.mpr ⟨by decide, digit _⟩
  rw [idPrefix_toList, List.all_eq_true]
  intro c member
  simp only [List.mem_append, List.mem_singleton] at member
  obtain kinds | word | number | rfl := member
  · revert kinds; cases b.virtual <;> simp [kind] <;> rintro (rfl | rfl) <;> decide
  · have every : "-bench-".toList.all Like.plain = true := by decide
    exact List.all_eq_true.mp every c word
  · exact text c number
  · decide

theorem matched_iff {e : Tuple} : b.matched e = true ↔ b.idPrefix.toList <+: e.id.toList := by
  rw [Run.matched, String.toList_append]
  exact Like.like_front (plain_idPrefix b) _

/-- What starts as the ids of some run may. -/
def benchmarkId (id : String) : Bool :=
  "vt-bench-".toList.isPrefixOf id.toList || "pt-bench-".toList.isPrefixOf id.toList

theorem benchmarkId_of_front {id : String} (front : b.idPrefix.toList <+: id.toList) : benchmarkId id = true := by
  rw [idPrefix_toList, ← List.append_assoc] at front
  have start := (List.prefix_append _ _).trans front
  rw [benchmarkId, Bool.or_eq_true, List.isPrefixOf_iff_prefix, List.isPrefixOf_iff_prefix]
  cases virtual : b.virtual
  · exact .inr (by simpa [virtual, kind] using start)
  · exact .inl (by simpa [virtual, kind] using start)

theorem idPrefix_id (b : Run) (i : ℕ) : b.idPrefix.toList <+: (b.id i).toList := by
  rw [Run.id, String.toList_append]
  exact List.prefix_append _ _
inductive TaskPhase where
  | waiting | inserted | calling | done
  deriving DecidableEq

/-- The heap lists the rows of the table in the order that a scan meets them. -/
structure State where
  db : Db
  heap : List Tuple
  serial : ℕ
  runs : ℕ → Option Run := fun _ => none
  tasks : ℕ × ℕ → TaskPhase := fun _ => .waiting

def State.initial (rows : List Row) : State where
  db := .initial fun id => rows.find? (·.id == id)
  heap := rows.zipIdx.map fun (row, k) => ⟨row.id, k, none⟩
  serial := rows.length

/-! ### Who holds a lock -/

def clientTx (t : ℕ) : ℕ := 3 * t
def taskTx (r i : ℕ) : ℕ := 3 * Nat.pair r i + 1
def cleanerTx (r : ℕ) : ℕ := 3 * r + 2

def cleans (holder : ℕ) : Bool := holder % 3 == 2

inductive Move where
  | select | update | commit | abort

def Move.event (t : ℕ) : Move → DbEvent
  | select => .select t
  | update => .update t
  | commit => .commit t
  | abort => .abort t

/-! ### Clients -/

/-- A POST's insert, a saga's UPDATE, and a PUT's call of `applyTransition`, each with the number of
the operation. -/
inductive ClientEvent where
  | post (t : ℕ) (id type : String) (now : Int)
  | finish (t : ℕ) (id : String) (status : OrderStatus) (now : Int)
  | call (t : ℕ) (id : String) (call : TransitionCall)
  | move (t : ℕ) (m : Move)

def clientStep (db : Db) : ClientEvent → Option Db
  | .post _ id type now => some ((db.insertOrderPending id type now).elim db Prod.fst)
  | .finish _ id status now => db.updateOrderStatus id status now
  | .call t id call => db.step (.begin (clientTx t) id call)
  | .move t m => db.step (m.event (clientTx t))

/-- An insert on a row that is being deleted waits. -/
def State.add (s : State) (author : Option (ℕ × ℕ)) (id : String) : Option (Db × Row) → Option State
  | some (db, _) => some { s with db, heap := s.heap ++ [⟨id, s.serial, author⟩], serial := s.serial + 1 }
  | none => if (s.db.lock id).any cleans then none else some s

def State.client (s : State) : ClientEvent → Option State
  | .post _ id type now => s.add none id (s.db.insertOrderPending id type now)
  | e => (clientStep s.db e).map fun db => { s with db }

/-! ### Runs -/

def State.setRun (s : State) (r : ℕ) (b : Run) : State := { s with runs := Function.update s.runs r (some b) }

def State.setTask (s : State) (r i : ℕ) (p : TaskPhase) : State :=
  { s with tasks := Function.update s.tasks (r, i) p }

def State.start (s : State) (r n : ℕ) (virtual : Bool) (nano : Int) : Option State :=
  match s.runs r with
  | none => some (s.setRun r ⟨n, virtual, nano, 0, n, .working⟩)
  | some _ => none

def State.submit (s : State) (r : ℕ) : Option State :=
  (s.runs r).bind fun b =>
    match b.phase with
    | .working => if b.submitted < b.n then some (s.setRun r { b with submitted := b.submitted + 1 }) else none
    | _ => none

/-- `insertOrder`; a conflict is not looked at. -/
def State.insert (s : State) (r i : ℕ) (now : Int) : Option State :=
  (s.runs r).bind fun b =>
    if i < b.submitted ∧ s.tasks (r, i) = .waiting then
      (s.add (some (r, i)) (b.id i) (s.db.insertOrder (b.id i) "BUY" now)).map fun s' => s'.setTask r i .inserted
    else none

/-- `applyTransition(id, PAY)` begins. -/
def State.call (s : State) (r i : ℕ) (now : Int) : Option State :=
  (s.runs r).bind fun b =>
    if s.tasks (r, i) = .inserted then
      (s.db.step (.begin (taskTx r i) (b.id i) ⟨.pay, now⟩)).map fun db => { s with db }.setTask r i .calling
    else none

/-- A task's `finally`, after its statements or an exception. -/
def State.countDown (s : State) (r i : ℕ) : Option State :=
  (s.runs r).bind fun b =>
    if i < b.submitted ∧ s.tasks (r, i) ≠ .done then
      some ((s.setTask r i .done).setRun r { b with latch := b.latch - 1 })
    else none

/-- `await` returns or times out, or the block throws. -/
def State.leave (s : State) (r : ℕ) : Option State :=
  (s.runs r).bind fun b =>
    match b.phase with
    | .working => some (s.setRun r { b with phase := .leaving })
    | _ => none

/-- The DELETE sees the rows that are in the table when it begins. -/
def State.delete (s : State) (r : ℕ) : Option State :=
  (s.runs r).bind fun b =>
    match b.phase with
    | .leaving => some (s.setRun r { b with phase := .deleting (b.latch == 0) (s.heap.filter b.matched) [] })
    | _ => none

/-- It waits for the lock of each, and passes over one that is gone. -/
def State.lockNext (s : State) (r : ℕ) : Option State :=
  (s.runs r).bind fun b =>
    match b.phase with
    | .deleting clean (e :: pending) held =>
      if e ∈ s.heap then
        match s.db.lock e.id with
        | none => some ({ s with db := s.db.setLock e.id (some (cleanerTx r)) }.setRun r
            { b with phase := .deleting clean pending (held ++ [e]) })
        | some _ => none
      else some (s.setRun r { b with phase := .deleting clean pending held })
    | _ => none

def release (db : Db) (held : List Tuple) : Db :=
  { db with lock := fun k => if held.any (·.id == k) then none else db.lock k }

def erase (db : Db) (held : List Tuple) : Db :=
  { release db held with table := fun k => if held.any (·.id == k) then none else db.table k }

def State.deleteCommits (s : State) (r : ℕ) : Option State :=
  (s.runs r).bind fun b =>
    match b.phase with
    | .deleting clean [] held =>
      some ({ s with db := erase s.db held, heap := s.heap.filter (· ∉ held) }.setRun r
        { b with phase := .deleted clean })
    | _ => none

def State.deleteFails (s : State) (r : ℕ) : Option State :=
  (s.runs r).bind fun b =>
    match b.phase with
    | .leaving => some (s.setRun r { b with phase := .failed })
    | .deleting _ _ held => some ({ s with db := release s.db held }.setRun r { b with phase := .failed })
    | _ => none

inductive Event where
  | client (e : ClientEvent)
  | start (r n : ℕ) (virtual : Bool) (nano : Int)
  | submit (r : ℕ)
  | insert (r i : ℕ) (now : Int)
  | call (r i : ℕ) (now : Int)
  | move (r i : ℕ) (m : Move)
  | countDown (r i : ℕ)
  | leave (r : ℕ)
  | delete (r : ℕ)
  | lockNext (r : ℕ)
  | deleteCommits (r : ℕ)
  | deleteFails (r : ℕ)

def step (s : State) : Event → Option State
  | .client e => s.client e
  | .start r n virtual nano => s.start r n virtual nano
  | .submit r => s.submit r
  | .insert r i now => s.insert r i now
  | .call r i now => s.call r i now
  | .move r i m => (s.db.step (m.event (taskTx r i))).map fun db => { s with db }
  | .countDown r i => s.countDown r i
  | .leave r => s.leave r
  | .delete r => s.delete r
  | .lockNext r => s.lockNext r
  | .deleteCommits r => s.deleteCommits r
  | .deleteFails r => s.deleteFails r

/-! ### What a step can do -/

variable {s s' : State} {r i : ℕ}

@[simp] theorem setRun_db : (s.setRun r b).db = s.db := rfl
@[simp] theorem setRun_heap : (s.setRun r b).heap = s.heap := rfl
@[simp] theorem setRun_tasks : (s.setRun r b).tasks = s.tasks := rfl
@[simp] theorem setRun_runs : (s.setRun r b).runs = Function.update s.runs r (some b) := rfl
@[simp] theorem setTask_db {p : TaskPhase} : (s.setTask r i p).db = s.db := rfl
@[simp] theorem setTask_heap {p : TaskPhase} : (s.setTask r i p).heap = s.heap := rfl
@[simp] theorem setTask_runs {p : TaskPhase} : (s.setTask r i p).runs = s.runs := rfl
@[simp] theorem setTask_tasks {p : TaskPhase} : (s.setTask r i p).tasks = Function.update s.tasks (r, i) p := rfl

theorem insertOrderPending_cases (db : Db) (id type : String) (now : Int) :
    (∃ row, db.table id = none ∧ db.insertOrderPending id type now = some (db.put id row, row)) ∨
      db.table id ≠ none ∧ db.insertOrderPending id type now = none := by
  unfold Db.insertOrderPending
  cases row : db.table id with
  | none => exact .inl ⟨_, rfl, rfl⟩
  | some row => exact .inr ⟨nofun, rfl⟩

theorem insertOrder_cases (db : Db) (id type : String) (now : Int) :
    (∃ row, db.table id = none ∧ db.insertOrder id type now = some (db.put id row, row)) ∨
      db.table id ≠ none ∧ db.insertOrder id type now = none := by
  unfold Db.insertOrder
  cases row : db.table id with
  | none => exact .inl ⟨_, rfl, rfl⟩
  | some row => exact .inr ⟨nofun, rfl⟩

inductive Added (s : State) (author : Option (ℕ × ℕ)) (id : String) : State → Prop where
  | inserted {row : Row} (absent : s.db.table id = none) : Added s author id
    { s with db := s.db.put id row, heap := s.heap ++ [⟨id, s.serial, author⟩], serial := s.serial + 1 }
  | conflict (present : s.db.table id ≠ none) (unlocked : (s.db.lock id).any cleans = false) : Added s author id s

theorem add_added {author : Option (ℕ × ℕ)} {id : String} {made : Option (Db × Row)}
    (cases : (∃ row, s.db.table id = none ∧ made = some (s.db.put id row, row)) ∨ s.db.table id ≠ none ∧ made = none)
    (h : s.add author id made = some s') : Added s author id s' := by
  obtain ⟨row, absent, rfl⟩ | ⟨present, rfl⟩ := cases
  · obtain rfl := Option.some.inj h
    exact .inserted absent
  · simp only [State.add] at h
    split at h
    · cases h
    · rename_i unlocked
      obtain rfl := Option.some.inj h
      exact .conflict present (Bool.eq_false_iff.mpr unlocked)

theorem client_eq {e : ClientEvent} (h : s.client e = some s') :
    (∃ t id type now, e = .post t id type now ∧ Added s none id s') ∨
      ∃ db, clientStep s.db e = some db ∧ s' = { s with db } ∧ ∀ t id type now, e ≠ .post t id type now := by
  cases e with
  | post t id type now => exact .inl ⟨t, id, type, now, rfl, add_added (insertOrderPending_cases s.db id type now) h⟩
  | finish | call | move =>
    obtain ⟨db, taken, rfl⟩ := Option.map_eq_some_iff.mp h
    exact .inr ⟨db, taken, rfl, nofun⟩

theorem start_eq {n : ℕ} {virtual : Bool} {nano : Int} (h : s.start r n virtual nano = some s') :
    s.runs r = none ∧ s' = s.setRun r ⟨n, virtual, nano, 0, n, .working⟩ := by
  unfold State.start at h
  split at h
  · rename_i fresh
    exact ⟨fresh, (Option.some.inj h).symm⟩
  · cases h

theorem submit_eq (h : s.submit r = some s') : ∃ b, s.runs r = some b ∧ b.phase = .working ∧ b.submitted < b.n ∧
    s' = s.setRun r { b with submitted := b.submitted + 1 } := by
  obtain ⟨b, found, h⟩ := Option.bind_eq_some_iff.mp h
  split at h
  · rename_i phase
    obtain ⟨more, h⟩ := Option.ite_none_right_eq_some.mp h
    exact ⟨b, found, phase, more, (Option.some.inj h).symm⟩
  · cases h

theorem insert_eq {now : Int} (h : s.insert r i now = some s') : ∃ b t, s.runs r = some b ∧ i < b.submitted ∧
    s.tasks (r, i) = .waiting ∧ Added s (some (r, i)) (b.id i) t ∧ s' = t.setTask r i .inserted := by
  obtain ⟨b, found, h⟩ := Option.bind_eq_some_iff.mp h
  obtain ⟨⟨submitted, waiting⟩, h⟩ := Option.ite_none_right_eq_some.mp h
  obtain ⟨t, added, rfl⟩ := Option.map_eq_some_iff.mp h
  exact ⟨b, t, found, submitted, waiting, add_added (insertOrder_cases s.db (b.id i) "BUY" now) added, rfl⟩

theorem call_eq {now : Int} (h : s.call r i now = some s') : ∃ b db, s.runs r = some b ∧ s.tasks (r, i) = .inserted ∧
    s.db.step (.begin (taskTx r i) (b.id i) ⟨.pay, now⟩) = some db ∧
    s' = { s with db }.setTask r i .calling := by
  obtain ⟨b, found, h⟩ := Option.bind_eq_some_iff.mp h
  obtain ⟨inserted, h⟩ := Option.ite_none_right_eq_some.mp h
  obtain ⟨db, taken, rfl⟩ := Option.map_eq_some_iff.mp h
  exact ⟨b, db, found, inserted, taken, rfl⟩

theorem countDown_eq (h : s.countDown r i = some s') : ∃ b, s.runs r = some b ∧ i < b.submitted ∧
    s.tasks (r, i) ≠ .done ∧ s' = (s.setTask r i .done).setRun r { b with latch := b.latch - 1 } := by
  obtain ⟨b, found, h⟩ := Option.bind_eq_some_iff.mp h
  obtain ⟨⟨submitted, going⟩, h⟩ := Option.ite_none_right_eq_some.mp h
  exact ⟨b, found, submitted, going, (Option.some.inj h).symm⟩

theorem leave_eq (h : s.leave r = some s') : ∃ b, s.runs r = some b ∧ b.phase = .working ∧
    s' = s.setRun r { b with phase := .leaving } := by
  obtain ⟨b, found, h⟩ := Option.bind_eq_some_iff.mp h
  split at h
  · rename_i phase
    exact ⟨b, found, phase, (Option.some.inj h).symm⟩
  · cases h

theorem delete_eq (h : s.delete r = some s') : ∃ b, s.runs r = some b ∧ b.phase = .leaving ∧
    s' = s.setRun r { b with phase := .deleting (b.latch == 0) (s.heap.filter b.matched) [] } := by
  obtain ⟨b, found, h⟩ := Option.bind_eq_some_iff.mp h
  split at h
  · rename_i phase
    exact ⟨b, found, phase, (Option.some.inj h).symm⟩
  · cases h

theorem lockNext_eq (h : s.lockNext r = some s') : ∃ b clean e pending held, s.runs r = some b ∧
    b.phase = .deleting clean (e :: pending) held ∧
    (s.db.lock e.id = none ∧ s' = { s with db := s.db.setLock e.id (some (cleanerTx r)) }.setRun r
        { b with phase := .deleting clean pending (held ++ [e]) } ∨
      e ∉ s.heap ∧ s' = s.setRun r { b with phase := .deleting clean pending held }) := by
  obtain ⟨b, found, h⟩ := Option.bind_eq_some_iff.mp h
  split at h
  · rename_i clean e pending held phase
    refine ⟨b, clean, e, pending, held, found, phase, ?_⟩
    split at h
    · split at h
      · rename_i free
        exact .inl ⟨free, (Option.some.inj h).symm⟩
      · cases h
    · rename_i gone
      exact .inr ⟨gone, (Option.some.inj h).symm⟩
  · cases h

theorem deleteCommits_eq (h : s.deleteCommits r = some s') : ∃ b clean held, s.runs r = some b ∧
    b.phase = .deleting clean [] held ∧ s' = { s with db := erase s.db held, heap := s.heap.filter (· ∉ held) }.setRun r
      { b with phase := .deleted clean } := by
  obtain ⟨b, found, h⟩ := Option.bind_eq_some_iff.mp h
  split at h
  · rename_i clean held phase
    exact ⟨b, clean, held, found, phase, (Option.some.inj h).symm⟩
  · cases h

/-- The rows that the DELETE has seen, and those it holds. -/
def RunPhase.seen : RunPhase → List Tuple
  | deleting _ pending held => pending ++ held
  | _ => []

def RunPhase.held : RunPhase → List Tuple
  | deleting _ _ held => held
  | _ => []

theorem deleteFails_eq (h : s.deleteFails r = some s') : ∃ b, s.runs r = some b ∧
    s' = { s with db := release s.db b.phase.held }.setRun r { b with phase := .failed } := by
  obtain ⟨b, found, h⟩ := Option.bind_eq_some_iff.mp h
  split at h
  · rename_i phase
    refine ⟨b, found, (Option.some.inj h).symm.trans ?_⟩
    simp [phase, RunPhase.held, release]
  · rename_i phase
    exact ⟨b, found, by simpa [phase, RunPhase.held] using h.symm⟩
  · cases h

end Benchmark

end PolyglotInfinity.Orders
