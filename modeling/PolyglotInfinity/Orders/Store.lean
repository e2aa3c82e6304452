import PolyglotInfinity.Lib.RowLock
import PolyglotInfinity.Orders.Status

/-!
# The orders table

`DbStore`: a table of orders and the transaction `applyTransition`, which locks
the row with `SELECT ... FOR UPDATE` until it commits or rolls back.
-/

namespace PolyglotInfinity.Orders

open Transition (run)

structure Row where
  id : String
  type : String
  status : OrderStatus
  createdAt : Int
  updatedAt : Int
  deriving DecidableEq, Repr

/-- The arguments of one call of `applyTransition`. `now` is the clock reading
that its UPDATE stores. -/
structure TransitionCall where
  event : OrderEvent
  now : Int

/-- The check between SELECT and UPDATE, and the row that UPDATE writes. -/
def applyEvent (call : TransitionCall) (row : Row) : Option Row :=
  let next := call.event.targetStatus
  if row.status.canTransitionTo next then
    some { row with status := next, updatedAt := call.now }
  else none

abbrev Db := RowLock.Store String Row TransitionCall
abbrev DbEvent := RowLock.Event String TransitionCall

abbrev Db.step : Db → DbEvent → Option Db := RowLock.step applyEvent

def Db.initial (table : String → Option Row) : Db := { table }

/-- `INSERT ... ON CONFLICT (id) DO NOTHING RETURNING ...`; `none` on a conflict. -/
def Db.insertOrderPending (db : Db) (id type : String) (now : Int) : Option (Db × Row) :=
  match db.table id with
  | none =>
    let row : Row := ⟨id, type, .pending, now, now⟩
    some (db.put id row, row)
  | some _ => none

/-- The unconditional UPDATE. Like every UPDATE it waits for the row lock. -/
def Db.updateOrderStatus (db : Db) (id : String) (status : OrderStatus) (now : Int) : Option Db :=
  db.write id fun row => { row with status, updatedAt := now }

inductive TransitionResult where
  | ok (prev new : OrderStatus)
  | orderNotFound
  | invalidTransition (current next : OrderStatus)
  deriving DecidableEq, Repr

def TransitionResult.text : TransitionResult → String
  | ok prev new => "OK:" ++ prev.name ++ ":" ++ new.name
  | orderNotFound => "ORDER_NOT_FOUND"
  | invalidTransition current next => "INVALID_TRANSITION:" ++ current.name ++ "->" ++ next.name

def result : RowLock.Phase String Row TransitionCall → Option TransitionResult
  | .committed _ _ row row' => some (.ok row.status row'.status)
  | .notFound _ _ => some .orderNotFound
  | .refused _ call row => some (.invalidTransition row.status call.event.targetStatus)
  | _ => none

theorem applyEvent_eq {call : TransitionCall} {row row' : Row} (h : applyEvent call row = some row') :
    row.status.canTransitionTo row'.status = true ∧ row'.status = call.event.targetStatus := by
  simp only [applyEvent, Option.ite_none_right_eq_some, Option.some.injEq] at h
  obtain ⟨edge, rfl⟩ := h
  exact ⟨edge, rfl⟩

theorem applyEvent_none {call : TransitionCall} {row : Row} :
    applyEvent call row = none ↔ row.status.canTransitionTo call.event.targetStatus = false := by
  simp [applyEvent]

/-! ### Transition chains -/

/-- Previous and new statuses that follow each other along edges, from `s` to `t`. -/
def Chain : OrderStatus → List (OrderStatus × OrderStatus) → OrderStatus → Prop
  | s, [], t => s = t
  | s, (prev, new) :: rest, t => prev = s ∧ prev.canTransitionTo new = true ∧ Chain new rest t

theorem chain_length {s t : OrderStatus} {links : List (OrderStatus × OrderStatus)}
    (h : Chain s links t) : links.length + t.rank ≤ s.rank := by
  induction links generalizing s with
  | nil =>
    obtain rfl : s = t := h
    simp
  | cons link rest ih =>
    obtain ⟨rfl, edge, later⟩ := h
    have shorter := ih later
    have drop := OrderStatus.rank_lt edge
    simp only [List.length_cons]
    omega

def reported (c : RowLock.Commit String Row TransitionCall) : OrderStatus × OrderStatus :=
  (c.before.status, c.after.status)

theorem linked_chain {row row' : Row} {cs : List (RowLock.Commit String Row TransitionCall)}
    (h : RowLock.Linked applyEvent row cs row') : Chain row.status (cs.map reported) row'.status := by
  induction cs generalizing row with
  | nil =>
    obtain rfl : row = row' := h
    rfl
  | cons c cs ih =>
    obtain ⟨rfl, decided, rest⟩ := h
    exact ⟨rfl, (applyEvent_eq decided).1, ih rest⟩

/-! ### Concurrent transactions on one order -/

/-- The calls on order `id` that returned OK, in commit order, with what they reported. -/
def Db.oks (db : Db) (id : String) : List (Nat × OrderStatus × OrderStatus) :=
  (db.log.filter (fun c => c.key = id)).map (fun c => (c.tx, reported c))

def onOrder (id : String) : RowLock.Phase String Row TransitionCall → Prop
  | .idle => False
  | .begun k _ | .locked k _ _ | .updated k _ _ _ | .notFound k _ | .refused k _ _
  | .committed k _ _ _ | .aborted k _ => k = id

theorem ok_iff_committed {id : String} {prev new : OrderStatus}
    {phase : RowLock.Phase String Row TransitionCall} :
    (onOrder id phase ∧ result phase = some (.ok prev new)) ↔
      ∃ call row row', phase = .committed id call row row' ∧ row.status = prev ∧ row'.status = new := by
  cases phase with
  | committed k call row row' =>
    simp only [onOrder, result, Option.some.injEq, TransitionResult.ok.injEq, RowLock.Phase.committed.injEq]
    constructor
    · rintro ⟨rfl, same⟩
      exact ⟨call, row, row', ⟨rfl, rfl, rfl, rfl⟩, same⟩
    · rintro ⟨call', row₁, row₂, ⟨rfl, rfl, rfl, rfl⟩, same⟩
      exact ⟨rfl, same⟩
  | _ => simp [onOrder, result]

theorem mem_oks {db : Db} (logged : RowLock.Logged db) {id : String} {t : Nat} {prev new : OrderStatus} :
    (t, prev, new) ∈ db.oks id ↔
      onOrder id (db.txs t) ∧ result (db.txs t) = some (.ok prev new) := by
  rw [ok_iff_committed]
  constructor
  · intro member
    obtain ⟨⟨t, k, call, row, row'⟩, kept, same⟩ := List.mem_map.mp member
    obtain ⟨entry, key⟩ := List.mem_filter.mp kept
    simp only [reported, Prod.mk.injEq] at same
    obtain ⟨rfl, rfl, rfl⟩ := same
    obtain rfl : k = id := by simpa using key
    exact ⟨call, row, row', (logged.listed t k call row row').mpr entry, rfl, rfl⟩
  · rintro ⟨call, row, row', phase, rfl, rfl⟩
    have entry := (logged.listed t id call row row').mp phase
    exact List.mem_map.mpr ⟨_, List.mem_filter.mpr ⟨entry, by simp⟩, rfl⟩

theorem oks_once {db : Db} (logged : RowLock.Logged db) (id : String) :
    ((db.oks id).map Prod.fst).Nodup := by
  have sub : ((db.oks id).map Prod.fst).Sublist (db.log.map RowLock.Commit.tx) := by
    simpa [Db.oks, Function.comp_def] using List.filter_sublist.map RowLock.Commit.tx
  exact logged.once.sublist sub

theorem run_facts {table : String → Option Row} {events : List DbEvent} {db : Db}
    (h : run Db.step (Db.initial table) events = some db) (id : String) :
    RowLock.Safe applyEvent db ∧ RowLock.Logged db ∧
      RowLock.Chained applyEvent (table id) id db := by
  have keep : ∀ s e t, (RowLock.Safe applyEvent s ∧ RowLock.Logged s ∧
      RowLock.Chained applyEvent (table id) id s) → Db.step s e = some t →
      RowLock.Safe applyEvent t ∧ RowLock.Logged t ∧ RowLock.Chained applyEvent (table id) id t := by
    rintro s e t ⟨safe, logged, chained⟩ taken
    exact ⟨RowLock.step_safe safe taken, RowLock.step_logged logged taken,
      RowLock.step_chained safe chained taken⟩
  have chained : RowLock.Chained applyEvent (table id) id (Db.initial table) := by
    cases start : table id with
    | none => exact ⟨start, rfl⟩
    | some row => exact ⟨row, start, rfl⟩
  have facts := Transition.run_invariant keep ⟨RowLock.init_safe table, RowLock.init_logged table, chained⟩ h
  exact facts

/-- Any interleaving of transactions on an order: the calls that return OK form
a chain of edges from its first status to its last, there are at most four of
them, and a call that returns anything else changes no row. -/
theorem applyTransition_serial {table : String → Option Row} {events : List DbEvent} {db : Db}
    (h : run Db.step (Db.initial table) events = some db) (id : String) :
    (∀ row, table id = some row → ∃ row', db.table id = some row' ∧
      Chain row.status ((db.oks id).map Prod.snd) row'.status) ∧
    (db.oks id).length ≤ 4 ∧
    ((db.oks id).map Prod.fst).Nodup ∧
    (∀ t prev new, (t, prev, new) ∈ db.oks id ↔
      onOrder id (db.txs t) ∧ result (db.txs t) = some (.ok prev new)) ∧
    (∀ before e after s s', events = before ++ e :: after →
      run Db.step (Db.initial table) before = some s → Db.step s e = some s' →
      (∀ prev new, result (db.txs e.tx) ≠ some (.ok prev new)) → s'.table = s.table) := by
  obtain ⟨-, logged, chained⟩ := run_facts h id
  have links : (db.oks id).map Prod.snd = (db.log.filter (fun c => c.key = id)).map reported := by
    simp [Db.oks, Function.comp_def]
  refine ⟨?_, ?_, oks_once logged id, fun t prev new => mem_oks logged, ?_⟩
  · intro row start
    rw [start] at chained
    obtain ⟨row', last, linked⟩ := chained
    exact ⟨row', last, links ▸ linked_chain linked⟩
  · have same : (db.oks id).length = ((db.log.filter (fun c => c.key = id)).map reported).length := by
      rw [← links, List.length_map]
    cases start : table id with
    | none =>
      rw [start] at chained
      simp [same, chained.2]
    | some row =>
      rw [start] at chained
      obtain ⟨row', -, linked⟩ := chained
      have bound := chain_length (linked_chain linked)
      have := row.status.rank_le
      omega
  · rintro before e after s s' rfl reached taken rejected
    obtain ⟨x, first, rest⟩ := Transition.run_append.mp h
    obtain rfl := Option.some.inj (first.symm.trans reached)
    obtain ⟨y, one, later⟩ := Transition.run_cons.mp rest
    obtain rfl := Option.some.inj (one.symm.trans taken)
    obtain ⟨table, -⟩ | ⟨t, k, call, row, row', rfl, -, committed, -⟩ := RowLock.step_table taken
    · exact table
    · -- A step that changes the table is a commit, and its OK stays until the end of the run.
      have last : db.txs t = .committed k call row row' := RowLock.run_committed later committed
      exact absurd (by simp [RowLock.Event.tx, last, result]) (rejected row.status row'.status)

def race : Option Db :=
  run Db.step (Db.initial fun id => if id = "o1" then some ⟨"o1", "BUY", .ordered, 0, 0⟩ else none)
    [.begin 0 "o1" ⟨.pay, 1⟩, .begin 1 "o1" ⟨.cancel, 2⟩, .select 0, .update 0, .commit 0,
      .select 1, .update 1, .commit 1]

theorem applyTransition_serial_race : ∃ db, race = some db ∧
    (db.oks "o1").length ≤ 4 ∧ db.oks "o1" = [(0, .ordered, .paid), (1, .paid, .canceled)] := by
  have history : race.map (fun db => db.oks "o1") = some [(0, .ordered, .paid), (1, .paid, .canceled)] := by
    decide
  obtain ⟨db, h, oks⟩ := Option.map_eq_some_iff.mp history
  exact ⟨db, h, (applyTransition_serial h "o1").2.1, oks⟩

end PolyglotInfinity.Orders
