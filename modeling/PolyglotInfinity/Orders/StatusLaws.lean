import PolyglotInfinity.Orders.History

/-!
# The two laws of the state machine's comment

Every status change is an edge that its message reports, and only the saga
coordinator moves an order out of PENDING. Neither holds of every run: the PUT
handler takes a PENDING order wherever the graph allows, and the saga writes
over whatever it finds.
-/

namespace PolyglotInfinity.Orders

open Transition (run Along)

variable {s s' : State} {e : Event}

structure Consistent (s : State) : Prop where
  sound : Sound s
  history : History s

theorem init_consistent (table : String → Option Row) : Consistent (State.initial table) :=
  ⟨init_sound table, init_history table⟩

theorem step_consistent (inv : Consistent s) (h : step s e = some s') : Consistent s' :=
  ⟨step_sound inv.sound h, step_history inv.sound inv.history h⟩

/-! ### Changes are edges, and messages report them -/

/-- Every change is an edge, and what is published for it carries its statuses. -/
def EdgesReported (s : State) : Prop :=
  ∀ c ∈ s.changes, c.prev.canTransitionTo c.new = true ∧
    ∀ m ∈ s.published, m.writer = some c.writer →
      m.orderId = c.order ∧ m.prevStatus = c.prev.name ∧ m.newStatus = c.new.name

/-- A saga that writes finds its order PENDING, or already where it moves it. -/
def WritesInTime (s : State) : Event → Prop
  | .write i _ => ∀ o success row, s.sagas i = .resolved o success → s.db.table o.id = some row →
      row.status = .pending ∨ row.status = finalStatus success
  | _ => True

def FromPending (s : State) : Prop :=
  ∀ c ∈ s.changes, ∀ i, c.writer = .saga i → c.prev = .pending

theorem edge_to_final {p : OrderStatus} {success : Bool} (posted : p.posted = true)
    (edge : p.canTransitionTo (finalStatus success) = true) : p = .pending := by
  cases p <;> cases success <;>
    first | rfl | exact absurd posted (by decide) | exact absurd edge (by decide)

theorem pending_to_final (success : Bool) : OrderStatus.pending.canTransitionTo (finalStatus success) = true := by
  cases success <;> rfl

theorem put_reported (history : History s) {c : Change} {t : ℕ} (member : c ∈ s.changes)
    (writer : c.writer = .put t) : c.prev.canTransitionTo c.new = true ∧
    ∀ m ∈ s.published, m.writer = some c.writer →
      m.orderId = c.order ∧ m.prevStatus = c.prev.name ∧ m.newStatus = c.new.name := by
  have explained := history.changes c member
  rw [Change.Explained, writer] at explained
  obtain ⟨call, row, row', phase, decided, prev, new⟩ := explained
  refine ⟨by rw [prev, new]; exact (applyEvent_eq decided).1, fun m sent same => ?_⟩
  have source := history.messages m (.inr sent)
  rw [Message.Explained, same, writer] at source
  obtain ⟨id, type, evt, call', row₁, row₂, phase', rfl⟩ := source
  obtain ⟨rfl, -, rfl, rfl⟩ := RowLock.Phase.committed.inj (phase'.symm.trans phase)
  exact ⟨rfl, by rw [prev]; rfl, by rw [new]; rfl⟩

theorem edgesReported_iff (history : History s) : EdgesReported s ↔ FromPending s := by
  constructor
  · intro law c member i writer
    have explained := history.changes c member
    rw [Change.Explained, writer] at explained
    obtain ⟨o, success, -, -, new, posted⟩ := explained
    exact edge_to_final posted (new ▸ (law c member).1)
  · intro pending c member
    cases writer : c.writer with
    | put t => simpa only [writer] using put_reported history member writer
    | saga i =>
      have prev := pending c member i writer
      have explained := history.changes c member
      rw [Change.Explained, writer] at explained
      obtain ⟨o, success, wrote, order, new, -⟩ := explained
      refine ⟨by rw [prev, new]; exact pending_to_final success, fun m sent same => ?_⟩
      have source := history.messages m (.inr sent)
      rw [Message.Explained, same] at source
      obtain ⟨o', success', wrote', rfl⟩ := source
      obtain ⟨rfl, rfl⟩ := Prod.mk.inj (Option.some.inj (wrote'.symm.trans wrote))
      exact ⟨order.symm, by rw [prev]; rfl, by rw [new]; rfl⟩

theorem fromPending_snoc {c : Change} (changes : s'.changes = s.changes ++ [c]) :
    FromPending s' ↔ FromPending s ∧ ∀ i, c.writer = .saga i → c.prev = .pending := by
  simp [FromPending, changes, or_imp, forall_and]

theorem step_fromPending (sound : Sound s) (before : FromPending s) (h : step s e = some s') :
    FromPending s' ↔ WritesInTime s e := by
  obtain changes | ⟨t, id, call, row, row', rfl, -, -, changes⟩ |
    ⟨i, now, o, success, row, rfl, phase, found, -, moved, -, changes⟩ := step_changes sound h
  · refine iff_of_true (by simpa only [FromPending, changes] using before) ?_
    cases e with
    | write i now =>
      intro o success row phase found
      obtain ⟨o', success', phase', -, rfl⟩ := write_eq h
      obtain ⟨rfl, rfl⟩ := SagaPhase.resolved.inj (phase.symm.trans phase')
      -- No change is recorded, so the saga finds its order where it moves it.
      refine .inr ?_
      by_contra differs
      simp [statusChange, found, differs] at changes
    | _ => trivial
  · rw [fromPending_snoc changes]
    have noSaga : ∀ i, Writer.put t = .saga i → row.status = .pending := by simp
    exact iff_of_true ⟨before, noSaga⟩ trivial
  · rw [fromPending_snoc changes]
    constructor
    · rintro ⟨-, pending⟩ o' success' row₁ phase' found'
      obtain ⟨rfl, rfl⟩ := SagaPhase.resolved.inj (phase.symm.trans phase')
      obtain rfl := Option.some.inj (found.symm.trans found')
      exact .inl (pending i rfl)
    · intro inTime
      refine ⟨before, fun _ _ => ?_⟩
      exact (inTime o success row phase found).resolve_right moved

theorem changes_kept {c : Change} (h : step s e = some s') (member : c ∈ s.changes) : c ∈ s'.changes := by
  cases step_effect h with
  | same _ _ changes => exact changes ▸ member
  | statement _ _ _ _ changes => exact changes ▸ member
  | insert _ _ _ changes => exact changes ▸ member
  | commit _ _ _ changes => exact changes ▸ List.mem_append_left _ member
  | write _ _ _ _ changes => exact changes ▸ List.mem_append_left _ member

/-- Every change of a run is an edge that its message reports exactly if each
saga that writes finds its order PENDING or already where it moves it. -/
theorem changes_are_reported_edges {table : String → Option Row} {events : List Event} {s : State}
    (h : run step (State.initial table) events = some s) :
    EdgesReported s ↔ Along step WritesInTime (State.initial table) events := by
  have inv := Transition.run_invariant (fun _ _ _ => step_consistent) (init_consistent table) h
  rw [edgesReported_iff inv.history]
  exact Transition.last_iff_along (fun _ _ _ => step_consistent)
    (fun _ _ _ taken later c member => later c (changes_kept taken member))
    (fun _ _ _ inv before taken => step_fromPending inv.sound before taken)
    (init_consistent table) (by simp [FromPending, State.initial]) h

def canceledEarly : List Event :=
  [.post 0 ⟨"id=o1", "c0"⟩ 1, .respond 0 true, .announce 0, .executeSaga 0,
    .put 0 ⟨"id=o1&event=CANCEL", "c1"⟩ 2, .select 0, .update 0, .commit 0]

def undisturbed : List Event :=
  [.post 0 ⟨"id=o1", "c0"⟩ 1, .respond 0 true, .announce 0, .executeSaga 0, .resolve 0 true, .write 0 3,
    .publishSaga 0 true]

theorem changes_are_reported_edges_undisturbed : ∃ s, run step (State.initial fun _ => none) undisturbed = some s ∧
    s.changes.length = 1 ∧ s.published.length = 1 ∧ EdgesReported s ∧
    Along step WritesInTime (State.initial fun _ => none) undisturbed := by
  have history : (run step (State.initial fun _ => none) undisturbed).map (fun s => (s.changes, s.published)) =
      some ([⟨"o1", .saga 0, .pending, .completed⟩],
        [⟨"o1", "BUY", "PENDING", "COMPLETED", "SAGA_COMPLETE", some (.saga 0)⟩]) := by decide +kernel
  obtain ⟨s, h, facts⟩ := Option.map_eq_some_iff.mp history
  obtain ⟨changes, published⟩ := Prod.mk.inj facts
  have law : EdgesReported s := by
    simp only [EdgesReported, changes, published]
    decide
  exact ⟨s, h, by rw [changes]; rfl, by rw [published]; rfl, law, (changes_are_reported_edges h).mp law⟩

/-- The saga then moves the order from CANCELED to COMPLETED and reports a move from PENDING. -/
theorem overwritten_change_unreported : ¬ ∀ s,
    run step (State.initial fun _ => none)
      (canceledEarly ++ [.resolve 0 true, .write 0 3, .publishSaga 0 true]) = some s → EdgesReported s := by
  intro law
  have history : (run step (State.initial fun _ => none)
      (canceledEarly ++ [.resolve 0 true, .write 0 3, .publishSaga 0 true])).map (fun s => s.changes) = some [
        ⟨"o1", .put 0, .pending, .canceled⟩, ⟨"o1", .saga 0, .canceled, .completed⟩] := by decide +kernel
  obtain ⟨s, h, changes⟩ := Option.map_eq_some_iff.mp history
  have edge := (law s h ⟨"o1", .saga 0, .canceled, .completed⟩ (by rw [changes]; decide)).1
  revert edge
  decide

/-! ### Out of PENDING -/

/-- No PUT has changed the status of a PENDING order. -/
def SagaOnly (s : State) : Prop :=
  ∀ c ∈ s.changes, ∀ t, c.writer = .put t → c.prev ≠ .pending

/-- What a PUT may read: a PENDING row only for events that the graph refuses there. -/
def Spares (call : TransitionCall) (row : Row) : Prop :=
  row.status = .pending → call.event ≠ .cancel ∧ call.event ≠ .complete

instance (call : TransitionCall) (row : Row) : Decidable (Spares call row) :=
  inferInstanceAs (Decidable (_ → _))

def Event.selects : Event → Option ℕ
  | select t => some t
  | _ => none

/-- A PUT whose event is CANCEL or COMPLETE does not find its order PENDING. -/
def ReadsSettled (s : State) (e : Event) : Prop :=
  ∀ t ∈ e.selects, ∀ asked ∈ (s.db.txs t).asks, ∀ row ∈ s.db.table asked.1, Spares asked.2 row

instance (s : State) (e : Event) : Decidable (ReadsSettled s e) :=
  inferInstanceAs (Decidable (∀ t ∈ e.selects, _))

theorem step_reads (reads : RowLock.Reads Spares s.db) (settled : ReadsSettled s e) (h : step s e = some s') :
    RowLock.Reads Spares s'.db := by
  cases step_effect h with
  | same db => exact db ▸ reads
  | @statement _ q taken _ read =>
    refine RowLock.step_reads reads (fun t id call row same begun found => ?_) taken
    obtain rfl := read t same
    exact settled t rfl (id, call) (by simp [begun, RowLock.Phase.asks]) row found
  | insert _ db =>
    rw [db]
    exact ⟨reads.locked, reads.updated, reads.committed⟩
  | commit _ taken => exact RowLock.step_reads reads (by simp) taken
  | write _ taken =>
    obtain ⟨-, db⟩ := RowLock.write_eq.mp taken
    rw [db]
    exact ⟨reads.locked, reads.updated, reads.committed⟩

theorem spares_not_applied {call : TransitionCall} {row row' : Row} (spares : Spares call row)
    (decided : applyEvent call row = some row') : row.status ≠ .pending := by
  intro pending
  obtain ⟨edge, target⟩ := applyEvent_eq decided
  rw [pending, target] at edge
  obtain cancel | complete := OrderEvent.pending_accepts.mp edge
  · exact (spares pending).1 cancel
  · exact (spares pending).2 complete

theorem sagaOnly_of_reads (history : History s) (reads : RowLock.Reads Spares s.db) : SagaOnly s := by
  intro c member t writer
  have explained := history.changes c member
  rw [Change.Explained, writer] at explained
  obtain ⟨call, row, row', phase, decided, prev, -⟩ := explained
  rw [prev]
  exact spares_not_applied (reads.committed t c.order call row row' phase) decided

theorem applied_of_not_spares {call : TransitionCall} {row : Row} (bad : ¬ Spares call row) :
    row.status = .pending ∧
      applyEvent call row = some { row with status := call.event.targetStatus, updatedAt := call.now } := by
  simp only [Spares, Classical.not_imp, not_and_or, not_not] at bad
  obtain ⟨pending, event⟩ := bad
  have edge := OrderEvent.pending_accepts.mpr event
  exact ⟨pending, by simp [applyEvent, pending, edge]⟩

theorem locked_commits {t : ℕ} {id : String} {call : TransitionCall} {row row' : Row}
    (phase : s.db.txs t = .locked id call row) (found : s.db.table id = some row)
    (decided : applyEvent call row = some row') (moved : row.status ≠ row'.status) :
    ∃ s', run step s [.update t, .commit t] = some s' ∧
      s'.changes = s.changes ++ [⟨id, .put t, row.status, row'.status⟩] := by
  set db := s.db.enter t (.updated id call row row')
  have updated : s.db.step (.update t) = some db :=
    RowLock.update_eq.mpr ⟨id, call, row, phase, .inr ⟨row', decided, rfl⟩⟩
  have ready : db.txs t = .updated id call row row' := Function.update_self _ _ _
  have here : db.table id = some row := found
  obtain ⟨last, committed⟩ : ∃ last, Db.step db (.commit t) = some last :=
    ⟨_, RowLock.commit_eq.mpr ⟨id, call, row, row', ready, rfl⟩⟩
  exact ⟨{ s with db := last, changes := s.changes ++ [⟨id, .put t, row.status, row'.status⟩] },
    by simp [run, step, State.statement, State.commit, statusChange, updated, ready, committed, here, moved],
    rfl⟩

/-- A PUT that reads a PENDING row with CANCEL or COMPLETE breaks the law by its next two steps. -/
theorem unsettled_breaks {t : ℕ} (unsettled : ¬ ReadsSettled s (.select t)) (h : step s (.select t) = some s') :
    ∃ s'', run step s' [.update t, .commit t] = some s'' ∧ ¬ SagaOnly s'' := by
  simp only [ReadsSettled, Classical.not_forall] at unsettled
  obtain ⟨t', same, asked, asks, row, found, bad⟩ := unsettled
  obtain rfl : t = t' := Option.some.inj same
  obtain ⟨pending, decided⟩ := applied_of_not_spares bad
  obtain ⟨db, taken, same⟩ := statement_eq h
  obtain ⟨k, r, begun, ⟨absent, -⟩ | ⟨v, found', -, rfl⟩⟩ := RowLock.select_eq.mp taken
  all_goals obtain rfl : (k, r) = asked := by simpa [begun, RowLock.Phase.asks] using asks
  · simp [absent] at found
  · obtain rfl : v = row := Option.some.inj (found'.symm.trans found)
    have phase : s'.db.txs t = .locked k r v := by rw [same]; exact Function.update_self _ _ _
    have here : s'.db.table k = some v := by rw [same]; exact found
    have moved : v.status ≠ r.event.targetStatus := by
      rw [pending]
      cases r.event <;> decide
    obtain ⟨s'', continued, changes⟩ := locked_commits phase here decided moved
    refine ⟨s'', continued, fun law => law ⟨k, .put t, v.status, r.event.targetStatus⟩ ?_ t rfl pending⟩
    simp [changes]

/-- No PUT moves an order out of PENDING in a run whose CANCEL and COMPLETE
requests all read settled orders, and every other request of that kind can break
the rule. -/
theorem only_saga_leaves_pending {table : String → Option Row} {events : List Event} {s : State}
    (h : run step (State.initial table) events = some s) :
    (Along step ReadsSettled (State.initial table) events → SagaOnly s) ∧
    ∀ t s', step s (.select t) = some s' → ¬ ReadsSettled s (.select t) →
      ∃ s'', run step s' [.update t, .commit t] = some s'' ∧ ¬ SagaOnly s'' := by
  refine ⟨fun along => ?_, fun t s' taken unsettled => unsettled_breaks unsettled taken⟩
  have start : Consistent (State.initial table) ∧ RowLock.Reads Spares (State.initial table).db :=
    ⟨init_consistent table, by constructor <;> simp [State.initial, Db.initial]⟩
  obtain ⟨inv, reads⟩ := Transition.run_along
    (fun x _ _ (both : Consistent x ∧ RowLock.Reads Spares x.db) settled taken =>
      ⟨step_consistent both.1 taken, step_reads both.2 settled taken⟩) start along h
  exact sagaOnly_of_reads inv.history reads

def settledPuts : List Event :=
  [.post 0 ⟨"id=o1", "c0"⟩ 1, .respond 0 true, .put 0 ⟨"id=o1&event=PAY", "c1"⟩ 2, .select 0, .update 0,
    .announce 0, .executeSaga 0, .resolve 0 false, .write 0 3, .put 1 ⟨"id=o1&event=REFUND", "c2"⟩ 4, .select 1,
    .update 1, .commit 1]

theorem only_saga_leaves_pending_settledPuts : ∃ s, run step (State.initial fun _ => none) settledPuts = some s ∧
    s.changes.length = 2 ∧ SagaOnly s := by
  have history : (run step (State.initial fun _ => none) settledPuts).map (fun s => s.changes) =
      some [⟨"o1", .saga 0, .pending, .canceled⟩, ⟨"o1", .put 1, .canceled, .refunded⟩] := by decide +kernel
  obtain ⟨s, h, changes⟩ := Option.map_eq_some_iff.mp history
  exact ⟨s, h, by rw [changes]; rfl, (only_saga_leaves_pending h).1 (by decide +kernel)⟩

/-- A CANCEL of a PENDING order is applied. -/
theorem put_cancels_pending :
    ¬ ∀ s, run step (State.initial fun _ => none) canceledEarly = some s → SagaOnly s := by
  intro law
  have history : (run step (State.initial fun _ => none) canceledEarly).map (fun s => s.changes) =
      some [⟨"o1", .put 0, .pending, .canceled⟩] := by decide +kernel
  obtain ⟨s, h, changes⟩ := Option.map_eq_some_iff.mp history
  exact law s h ⟨"o1", .put 0, .pending, .canceled⟩ (by rw [changes]; decide) 0 rfl rfl

end PolyglotInfinity.Orders
