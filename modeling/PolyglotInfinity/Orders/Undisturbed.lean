import PolyglotInfinity.Orders.ConnectionPool

/-!
# The clients during a benchmark

A benchmark writes, locks and deletes only what starts as its ids do, so the
other orders go through exactly what the clients alone would take them through.
What it shares with their operations is the pool of connections.
-/

namespace PolyglotInfinity.Orders.Benchmark

open Transition (run)

variable {s s' : State} {b : Run} {r i : ℕ}

def elsewhere (id : String) : Bool := !benchmarkId id

/-- The orders table as far as no benchmark can have to do with it. -/
def view (s : State) : Db := s.db.restrict elsewhere

def Event.ofClient : Event → Option ClientEvent
  | .client e => some e
  | _ => none

theorem not_elsewhere {id : String} (front : b.idPrefix.toList <+: id.toList) : elsewhere id = false := by
  rw [elsewhere, benchmarkId_of_front front, Bool.not_true]

theorem view_statement {e : DbEvent} {db : Db} {k : String} (on : e.key s.db = some k) (mine : elsewhere k = false)
    (taken : s.db.step e = some db) : db.restrict elsewhere = view s :=
  RowLock.restrict_dropped on mine taken

theorem view_added {author : Option (ℕ × ℕ)} {id : String} (mine : elsewhere id = false) (added : Added s author id s') :
    view s' = view s := by
  cases added with
  | conflict => rfl
  | inserted => rw [view, RowLock.restrict_put, if_neg (by simp [mine])]; rfl

theorem kept_without {α : Type} {held : List Tuple} (mine : ∀ e ∈ held, elsewhere e.id = false) (f : String → Option α) :
    RowLock.kept elsewhere (fun k => if held.any (·.id == k) then none else f k) = RowLock.kept elsewhere f := by
  funext k
  unfold RowLock.kept
  split
  · rename_i out
    apply if_neg
    intro any
    obtain ⟨e, member, at_k⟩ := List.any_eq_true.mp any
    rw [← beq_iff_eq.mp at_k, mine e member] at out
    cases out
  · rfl

theorem restrict_release {db : Db} {held : List Tuple} (mine : ∀ e ∈ held, elsewhere e.id = false) :
    (release db held).restrict elsewhere = db.restrict elsewhere := by
  simp only [RowLock.Store.restrict, release, kept_without mine]
  rfl

theorem restrict_erase {db : Db} {held : List Tuple} (mine : ∀ e ∈ held, elsewhere e.id = false) :
    (erase db held).restrict elsewhere = db.restrict elsewhere := by
  simp only [RowLock.Store.restrict, erase, release, kept_without mine]
  rfl

theorem insertOrderPending_view {id : String} (out : elsewhere id = true) (db : Db) (type : String) (now : Int) :
    Db.insertOrderPending (db.restrict elsewhere) id type now =
      (db.insertOrderPending id type now).map fun made => (made.1.restrict elsewhere, made.2) := by
  unfold Db.insertOrderPending
  rw [(RowLock.restrict_at out).1]
  cases db.table id with
  | none => simp [RowLock.restrict_put, out]
  | some row => rfl

theorem view_client {e : ClientEvent} (h : s.client e = some s') :
    view s' = view s ∨ clientStep (view s) e = some (view s') := by
  obtain ⟨t, id, type, now, rfl, added⟩ | ⟨db, taken, rfl, notPost⟩ := client_eq h
  · cases out : elsewhere id with
    | false => exact .inl (view_added out added)
    | true =>
      refine .inr (congrArg some ?_)
      have seen := insertOrderPending_view out s.db type now
      have h : s.add none id (s.db.insertOrderPending id type now) = some s' := h
      cases made : s.db.insertOrderPending id type now with
      | none =>
        rw [made] at seen h
        obtain rfl : s = s' := Option.some.inj (Option.ite_none_left_eq_some.mp h).2
        rw [view, seen]
        rfl
      | some pair =>
        rw [made] at seen h
        obtain rfl := Option.some.inj h
        rw [view, seen]
        rfl
  · have follows : ∀ {e : DbEvent}, s.db.step e = some db →
        view { s with db } = view s ∨ (view s).step e = some (view { s with db }) := by
      intro e taken
      obtain ⟨k, on⟩ := RowLock.step_on taken
      cases out : elsewhere k with
      | false => exact .inl (view_statement on out taken)
      | true => exact .inr (RowLock.restrict_kept on out taken)
    cases e with
    | post t id type now => exact absurd rfl (notPost t id type now)
    | finish t id status now =>
      cases out : elsewhere id with
      | false => exact .inl (RowLock.write_dropped out taken)
      | true =>
        have taken : s.db.write id _ = some db := taken
        exact .inr ((RowLock.write_kept out).trans (by rw [taken]; rfl))
    | call t id call => exact follows (e := .begin (clientTx t) id call) taken
    | move t m => exact follows taken

theorem view_step {e : Event} (sound : Sound s) (h : step s e = some s') :
    view s' = view s ∨ ∃ k, e.ofClient = some k ∧ clientStep (view s) k = some (view s') := by
  -- A task's transaction is on the id that its run gave it.
  have call_mine : ∀ {q j k}, (s.db.txs (taskTx q j)).key = some k → elsewhere k = false := by
    intro q j k on
    obtain ⟨b, -, rfl⟩ := sound.calls q j k on
    exact not_elsewhere (idPrefix_id b j)
  cases e with
  | client e =>
    obtain same | taken := view_client h
    · exact .inl same
    · exact .inr ⟨e, rfl, taken⟩
  | start r n virtual nano => obtain ⟨-, rfl⟩ := start_eq h; exact .inl rfl
  | submit r => obtain ⟨b, -, -, -, rfl⟩ := submit_eq h; exact .inl rfl
  | insert r i now =>
    obtain ⟨b, t, -, -, -, added, rfl⟩ := insert_eq h
    exact .inl (show view t = view s from view_added (not_elsewhere (idPrefix_id b i)) added)
  | call r i now =>
    obtain ⟨b, db, -, -, taken, rfl⟩ := call_eq h
    exact .inl (view_statement rfl (not_elsewhere (idPrefix_id b i)) taken)
  | move r i m =>
    obtain ⟨db, taken, rfl⟩ := Option.map_eq_some_iff.mp h
    obtain ⟨k, on⟩ := RowLock.step_on taken
    exact .inl (view_statement on (call_mine (event_key _ m _ ▸ on)) taken)
  | countDown r i => obtain ⟨b, -, -, -, rfl⟩ := countDown_eq h; exact .inl rfl
  | leave r => obtain ⟨b, -, -, rfl⟩ := leave_eq h; exact .inl rfl
  | delete r => obtain ⟨b, -, -, rfl⟩ := delete_eq h; exact .inl rfl
  | lockNext r =>
    obtain ⟨b, clean, e, pending, held, found, phase, ⟨-, rfl⟩ | ⟨-, rfl⟩⟩ := lockNext_eq h
    · have mine := not_elsewhere ((sound.runs r b found).matched e (by simp [phase, RunPhase.seen]))
      exact .inl ((RowLock.restrict_setLock _ _).trans (if_neg (by simp [mine])))
    · exact .inl rfl
  | deleteCommits r =>
    obtain ⟨b, clean, held, found, phase, rfl⟩ := deleteCommits_eq h
    exact .inl (restrict_erase fun e member =>
      not_elsewhere ((sound.runs r b found).matched e (by simpa [phase, RunPhase.seen] using member)))
  | deleteFails r =>
    obtain ⟨b, found, rfl⟩ := deleteFails_eq h
    refine .inl (restrict_release fun e member => not_elsewhere ((sound.runs r b found).matched e ?_))
    cases phase : b.phase with
    | deleting clean pending held => exact List.mem_append_right _ (by simpa [phase, RunPhase.held] using member)
    | _ => simp [phase, RunPhase.held] at member

/-- The client's event names an order that no benchmark can have, under a number not yet used. -/
def Apart (s : State) : ClientEvent → Prop
  | .post _ id _ _ | .finish _ id _ _ => elsewhere id = true
  | .call t id _ => s.db.txs (clientTx t) = .idle ∧ elsewhere id = true
  | .move _ _ => True

/-- An operation that is not under way yet has taken its connection. -/
def Connected (p : Pooled) : ClientEvent → Prop
  | .post t _ _ _ | .finish t _ _ _ => .client t ∈ p.out ∧ p.state.busy (.client t) = false
  | .call t _ _ => .client t ∈ p.out
  | .move _ _ => True

theorem cleans_iff {holder : ℕ} (cleaner : cleans holder = true) : holder = cleanerTx (holder / 3) := by
  simp only [cleans, beq_iff_eq] at cleaner
  unfold cleanerTx
  omega

theorem unlocked_elsewhere (sound : Sound s) {id : String} (out : elsewhere id = true) :
    (s.db.lock id).any cleans = false := by
  cases held : s.db.lock id with
  | none => rfl
  | some holder =>
    refine Bool.eq_false_iff.mpr fun cleaner => ?_
    rw [cleans_iff cleaner] at held
    obtain ⟨b, -, front⟩ := sound.locks id _ held
    cases (not_elsewhere front).symm.trans out

theorem client_possible (sound : Sound s) {e : ClientEvent} {d : Db} (apart : Apart s e)
    (h : clientStep (view s) e = some d) : ∃ s', s.client e = some s' ∧ view s' = d := by
  have moves : ∀ {e : DbEvent}, (∀ t k call, e = .begin t k call → s.db.txs t = .idle ∧ elsewhere k = true) →
      (view s).step e = some d → ∃ db, s.db.step e = some db ∧ view { s with db } = d := fun fresh taken =>
    RowLock.restrict_enabled fresh taken
  cases e with
  | post t id type now =>
    obtain rfl := Option.some.inj h
    have seen := insertOrderPending_view apart s.db type now
    cases made : s.db.insertOrderPending id type now with
    | none =>
      have free : s.add none id none = some s := if_neg (by simp [unlocked_elsewhere sound apart])
      refine ⟨s, by rw [State.client, made, free], ?_⟩
      rw [view, seen, made]
      rfl
    | some pair =>
      refine ⟨_, by rw [State.client, made, State.add], ?_⟩
      rw [view, view, seen, made]
      rfl
  | finish t id status now =>
    have written := RowLock.write_kept (s := s.db) (f := fun row => { row with status, updatedAt := now }) apart
    obtain ⟨db, taken, rfl⟩ := Option.map_eq_some_iff.mp (written.symm.trans h)
    exact ⟨{ s with db }, Option.map_eq_some_iff.mpr ⟨db, taken, rfl⟩, rfl⟩
  | call t id call =>
    obtain ⟨db, taken, rfl⟩ := moves (e := .begin (clientTx t) id call)
      (by rintro _ _ _ ⟨rfl, rfl, rfl⟩; exact apart) h
    exact ⟨{ s with db }, Option.map_eq_some_iff.mpr ⟨db, taken, rfl⟩, rfl⟩
  | move t m =>
    obtain ⟨db, taken, rfl⟩ := moves (by rintro _ _ _ begun; cases m <;> cases begun) h
    exact ⟨{ s with db }, Option.map_eq_some_iff.mpr ⟨db, taken, rfl⟩, rfl⟩

/-- An operation that is under way in the view is so in the table, and has its connection. -/
theorem move_held {p : Pooled} (held : p.Held) {t : ℕ} {m : Move} {d : Db}
    (h : clientStep (view p.state) (.move t m) = some d) : .client t ∈ p.out := by
  apply held.busy
  have underway := RowLock.step_underway h fun u k c begins => by cases m <;> cases begins
  rw [event_tx] at underway
  obtain ⟨k, on⟩ : ∃ k, ((view p.state).txs (clientTx t)).key = some k := by
    cases phase : (view p.state).txs (clientTx t) with
    | idle => rw [phase] at underway; cases underway
    | _ => exact ⟨_, rfl⟩
  rw [State.busy, Holder.tx, (RowLock.restrict_phase rfl on).1]
  exact underway

/-- The orders that are not the benchmark's are where a run of the clients' own events takes them. What
the clients alone could do next they can do with the connection they have, which an operation keeps to
its end; and as long as fewer than twenty are out, there is one for the next operation. -/
theorem clients_undisturbed {rows : List Row} {events : List Pooled.Event} {p : Pooled}
    (h : run Pooled.step (.initial rows) events = some p) :
    (∃ calls, calls.Sublist ((events.filterMap Pooled.Event.operation).filterMap Event.ofClient) ∧
      run clientStep (view (.initial rows)) calls = some (view p.state)) ∧
    (∀ e d, Apart p.state e → Connected p e → clientStep (view p.state) e = some d →
      ∃ q, p.step (.operate (.client e)) = some q ∧ view q.state = d) ∧
    p.Held ∧
    ∀ t, .client t ∉ p.out → p.out.card < poolSize →
      ∃ q, p.step (.getConnection (.client t)) = some q ∧ q.state = p.state ∧ .client t ∈ q.out := by
  have forgets := Pooled.run_forgets h
  have held := Pooled.run_held h
  refine ⟨Transition.run_sublist (fun _ _ _ sound taken => step_sound sound taken)
    (fun _ _ _ sound taken => view_step sound taken) (initial_sound rows) forgets, ?_, held, ?_⟩
  · intro e d apart connected taken
    obtain ⟨s', possible, same⟩ := client_possible (run_sound forgets) apart taken
    have has : e.holder ∈ p.out := by
      cases e with
      | post | finish => exact connected.1
      | call => exact connected
      | move => exact move_held held taken
    have ended : ∀ x ∈ (Event.client e).returns, p.state.busy x = false := by
      cases e with
      | post | finish =>
        rintro x ⟨rfl⟩
        exact connected.2
      | call | move => nofun
    refine ⟨⟨s', p.out \ (Event.client e).returns.toFinset⟩, ?_, same⟩
    have meets : (∀ x ∈ (Event.client e).uses, x ∈ p.out) ∧ ∀ x ∈ (Event.client e).returns, p.state.busy x = false := by
      refine ⟨?_, ended⟩
      rintro x ⟨rfl⟩
      exact has
    rw [Pooled.step, if_pos meets, step, possible]
    rfl
  · intro t fresh free
    exact ⟨_, if_pos ⟨fresh, free, trivial⟩, rfl, Finset.mem_insert_self _ _⟩

/-- A client posts an order and has a connection for its next call, while one task of a run holds the
lock of its row and another has just begun. -/
def pooledSession : List Pooled.Event :=
  [.operate (.start 0 2 false 5), .operate (.submit 0), .getConnection (.task 0 0), .getConnection (.client 0),
    .operate (.insert 0 0 1), .operate (.client (.post 0 "o1" "SELL" 2)), .operate (.submit 0),
    .getConnection (.task 0 0), .operate (.call 0 0 3), .getConnection (.client 1), .operate (.move 0 0 .select),
    .getConnection (.task 0 1)]

theorem clients_undisturbed_session : ∃ p, run Pooled.step (.initial []) pooledSession = some p ∧
    p.out = {.task 0 0, .client 1, .task 0 1} ∧
    (∃ calls, calls.Sublist ((pooledSession.filterMap Pooled.Event.operation).filterMap Event.ofClient) ∧
      run clientStep (view (.initial [])) calls = some (view p.state)) ∧
    (∃ d q, clientStep (view p.state) (.call 1 "o1" ⟨.cancel, 4⟩) = some d ∧
      p.step (.operate (.client (.call 1 "o1" ⟨.cancel, 4⟩))) = some q ∧ view q.state = d) ∧
    ∃ q, p.step (.getConnection (.client 2)) = some q ∧ q.state = p.state ∧ .client 2 ∈ q.out := by
  have history : (run Pooled.step (.initial []) pooledSession).map (fun p =>
      (p.out, (p.state.db.txs (clientTx 1)).key, (clientStep (view p.state) (.call 1 "o1" ⟨.cancel, 4⟩)).isSome)) =
      some ({.task 0 0, .client 1, .task 0 1}, none, true) := by
    decide +kernel
  obtain ⟨p, h, last⟩ := Option.map_eq_some_iff.mp history
  obtain ⟨out, last⟩ := Prod.mk.inj last
  obtain ⟨key, possible⟩ := Prod.mk.inj last
  have idle : p.state.db.txs (clientTx 1) = .idle := by
    cases phase : p.state.db.txs (clientTx 1) with
    | idle => rfl
    | _ => simp [phase, RowLock.Phase.key] at key
  obtain ⟨d, taken⟩ := Option.isSome_iff_exists.mp possible
  obtain ⟨calls, operations, -, connections⟩ := clients_undisturbed h
  have apart : Apart p.state (.call 1 "o1" ⟨.cancel, 4⟩) := ⟨idle, by decide⟩
  have connected : Connected p (.call 1 "o1" ⟨.cancel, 4⟩) := by simp [Connected, out]
  obtain ⟨q, step, same⟩ := operations _ d apart connected taken
  exact ⟨p, h, out, calls, ⟨d, q, taken, step, same⟩, connections 2 (by simp [out]) (by simp [out, poolSize])⟩

end PolyglotInfinity.Orders.Benchmark
