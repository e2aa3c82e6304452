import PolyglotInfinity.Orders.Threads

/-!
# Status changes and their messages

Where every recorded change and every message comes from: a PUT's from its
committed transaction, a saga's from the status it wrote.
-/

namespace PolyglotInfinity.Orders

variable {s s' : State} {e : Event}

/-! ### The saga threads -/

inductive SagaMove (i : ℕ) : Event → SagaPhase → SagaPhase → Prop where
  | stay {e : Event} {p : SagaPhase} : SagaMove i e p p
  | start {o : NewOrder} : SagaMove i (.executeSaga i) .absent (.running o)
  | resolve {o : NewOrder} {success : Bool} : SagaMove i (.resolve i success) (.running o) (.resolved o success)
  | write {o : NewOrder} {success : Bool} {now : Int} :
      SagaMove i (.write i now) (.resolved o success) (.written o success)
  | fail {o : NewOrder} {success : Bool} : SagaMove i (.writeFails i) (.resolved o success) (.failed o success)
  | publish {o : NewOrder} {success sent : Bool} :
      SagaMove i (.publishSaga i sent) (.written o success) (.published o success)

theorem setSaga_move {j : ℕ} {p : SagaPhase} (move : SagaMove j e (s.sagas j) p) (i : ℕ) :
    SagaMove i e (s.sagas i) ((s.setSaga j p).sagas i) := by
  by_cases mine : i = j
  · subst i; simpa [State.setSaga] using move
  · simpa [State.setSaga, mine] using SagaMove.stay

theorem Threads.absent (threads : Threads s) {i : ℕ} (before : ∀ req o reply, s.posts i ≠ .coordinated req o reply) :
    s.sagas i = .absent := by
  cases phase : s.sagas i with
  | absent => rfl
  | _ =>
    obtain ⟨req, reply, done⟩ := threads.started i _ (threads.running i _ (by rw [phase]; rfl))
    exact absurd done (before req _ reply)

theorem step_saga (threads : Threads s) (h : step s e = some s') (i : ℕ) :
    SagaMove i e (s.sagas i) (s'.sagas i) := by
  cases e with
  | post j req now =>
    obtain ⟨-, ⟨reply, -, rfl⟩ | ⟨o, -, -, rfl⟩ | ⟨o, -, -, rfl⟩⟩ := post_eq h <;> exact .stay
  | postFails j req fault => obtain ⟨-, rfl⟩ := postFails_eq h; exact .stay
  | respond j sent => obtain ⟨req, o, row, -, rfl⟩ := respond_eq h; exact .stay
  | announce j => obtain ⟨req, o, reply, -, rfl⟩ := announce_eq h; exact .stay
  | executeSaga j =>
    obtain ⟨req, o, reply, phase, rfl⟩ := executeSaga_eq h
    exact setSaga_move (threads.absent (i := j) (by simp [phase]) ▸ .start) i
  | resolve j success => obtain ⟨o, phase, rfl⟩ := resolve_eq h; exact setSaga_move (phase ▸ .resolve) i
  | write j now => obtain ⟨o, success, phase, -, rfl⟩ := write_eq h; exact setSaga_move (phase ▸ .write) i
  | writeFails j => obtain ⟨o, success, phase, rfl⟩ := writeFails_eq h; exact setSaga_move (phase ▸ .fail) i
  | publishSaga j sent =>
    obtain ⟨o, success, phase, rfl⟩ := publishSaga_eq h
    exact setSaga_move (phase ▸ .publish) i
  | put t req now =>
    obtain ⟨-, ⟨reply, -, rfl⟩ | ⟨id, event, evt, db, -, -, rfl⟩⟩ := put_eq h <;> exact .stay
  | select t => obtain ⟨db, -, rfl⟩ := statement_eq h; exact .stay
  | update t => obtain ⟨db, -, rfl⟩ := statement_eq h; exact .stay
  | commit t => obtain ⟨id, call, row, row', db, -, -, rfl⟩ := commit_eq h; exact .stay
  | abort t => obtain ⟨db, -, rfl⟩ := statement_eq h; exact .stay
  | reply t =>
    obtain ⟨reply, rfl | ⟨req, id, call, row, row', updated, -, -, -, rfl⟩⟩ := reply_eq h <;> exact .stay
  | replyFails t fault => obtain rfl := replyFails_eq h; exact .stay
  | publish m sent => obtain ⟨-, rfl⟩ := publish_eq h; exact .stay

theorem SagaMove.wrote {i : ℕ} {p q : SagaPhase} {w : NewOrder × Bool} (move : SagaMove i e p q)
    (wrote : p.wrote = some w) : q.wrote = some w := by
  cases move with
  | stay => exact wrote
  | publish => exact wrote
  | _ => cases wrote

/-! ### Where changes and messages come from -/

def Change.Explained (s : State) (c : Change) : Prop :=
  match c.writer with
  | .saga i => ∃ o success, (s.sagas i).wrote = some (o, success) ∧ c.order = o.id ∧
      c.new = finalStatus success ∧ c.prev.posted = true
  | .put t => ∃ call row row', s.db.txs t = .committed c.order call row row' ∧
      applyEvent call row = some row' ∧ c.prev = row.status ∧ c.new = row'.status

def Message.Explained (s : State) (m : Message) : Prop :=
  match m.writer with
  | none => True
  | some (.saga i) => ∃ o success, (s.sagas i).wrote = some (o, success) ∧ m = sagaMessage i o success
  | some (.put t) => ∃ id type evt call row row', s.db.txs t = .committed id call row row' ∧
      m = putMessage t id type evt row row'

structure History (s : State) : Prop where
  changes : ∀ c ∈ s.changes, c.Explained s
  messages : ∀ m, m ∈ s.outbox ∨ m ∈ s.published → m.Explained s

theorem Change.Explained.step {c : Change} (threads : Threads s) (explained : c.Explained s)
    (h : step s e = some s') : c.Explained s' := by
  unfold Change.Explained at explained ⊢
  split
  · rename_i i writer
    rw [writer] at explained
    obtain ⟨o, success, wrote, rest⟩ := explained
    exact ⟨o, success, (step_saga threads h i).wrote wrote, rest⟩
  · rename_i t writer
    rw [writer] at explained
    obtain ⟨call, row, row', phase, rest⟩ := explained
    exact ⟨call, row, row', committed_stable h phase, rest⟩

theorem Message.Explained.step {m : Message} (threads : Threads s) (explained : m.Explained s)
    (h : step s e = some s') : m.Explained s' := by
  unfold Message.Explained at explained ⊢
  split
  · trivial
  · rename_i i writer
    rw [writer] at explained
    obtain ⟨o, success, wrote, same⟩ := explained
    exact ⟨o, success, (step_saga threads h i).wrote wrote, same⟩
  · rename_i t writer
    rw [writer] at explained
    obtain ⟨id, type, evt, call, row, row', phase, same⟩ := explained
    exact ⟨id, type, evt, call, row, row', committed_stable h phase, same⟩

theorem step_changes (sound : Sound s) (h : step s e = some s') :
    s'.changes = s.changes ∨
    (∃ t id call row row', e = .commit t ∧ s'.db.txs t = .committed id call row row' ∧
      applyEvent call row = some row' ∧ s'.changes = s.changes ++ [⟨id, .put t, row.status, row'.status⟩]) ∨
    ∃ i now o success row, e = .write i now ∧ s.sagas i = .resolved o success ∧
      s.db.table o.id = some row ∧ row.status.posted = true ∧ row.status ≠ finalStatus success ∧
      s'.sagas i = .written o success ∧
      s'.changes = s.changes ++ [⟨o.id, .saga i, row.status, finalStatus success⟩] := by
  cases step_effect h with
  | same _ _ changes => exact .inl changes
  | statement _ _ _ _ changes => exact .inl changes
  | insert _ _ _ changes => exact .inl changes
  | @commit t id call row row' phase taken _ changes =>
    obtain ⟨found, decided, -, committed⟩ := commit_row sound.safe phase taken
    have moved : row.status ≠ row'.status := by
      intro same
      have edge := (applyEvent_eq decided).1
      rw [← same] at edge
      cases status : row.status <;> simp [status, OrderStatus.canTransitionTo] at edge
    rw [statusChange, found] at changes
    simp only [if_neg moved] at changes
    exact .inr (.inl ⟨t, id, call, row, row', rfl, committed, decided, changes⟩)
  | @write i now o success phase _ wrote _ changes =>
    obtain ⟨row, found, ok⟩ : ∃ row, s.db.table o.id = some row ∧ row.status.posted = true := by
      obtain ⟨req, reply, done⟩ := sound.threads.started i o (sound.threads.running i o (by rw [phase]; rfl))
      exact sound.posted i o.id (sound.threads.accepted i req o (by rw [done]; rfl)).2
    rw [statusChange, found] at changes
    by_cases same : row.status = finalStatus success
    · simp only [if_pos same, List.append_nil] at changes
      exact .inl changes
    · simp only [if_neg same] at changes
      exact .inr (.inr ⟨i, now, o, success, row, rfl, phase, found, ok, same, wrote, changes⟩)

/-- What a message that a step adds is about. -/
inductive Message.Said (s : State) : Message → Prop where
  | insert {i : ℕ} {req : Request} {o : NewOrder} {reply : Reply} (phase : s.posts i = .answered req o reply) :
      Said s (insertMessage o)
  | saga {i : ℕ} {o : NewOrder} {success : Bool} (phase : s.sagas i = .written o success) :
      Said s (sagaMessage i o success)
  | put {t : ℕ} {req : Request} {id : String} {call : TransitionCall} {row row' updated : Row}
      (sent : s.puts t = some req) (phase : s.db.txs t = .committed id call row row')
      (found : s.db.table id = some updated) :
      Said s (putMessage t id updated.type ((req.param "event").getD "") row row')

theorem step_messages {m : Message} (h : step s e = some s') (member : m ∈ s'.outbox ∨ m ∈ s'.published) :
    (m ∈ s.outbox ∨ m ∈ s.published) ∨ m.Said s := by
  cases e with
  | post i req now =>
    obtain ⟨-, ⟨reply, -, rfl⟩ | ⟨o, -, -, rfl⟩ | ⟨o, -, -, rfl⟩⟩ := post_eq h <;> exact .inl member
  | postFails i req fault => obtain ⟨-, rfl⟩ := postFails_eq h; exact .inl member
  | respond i sent => obtain ⟨req, o, row, -, rfl⟩ := respond_eq h; exact .inl member
  | announce i =>
    obtain ⟨req, o, reply, phase, rfl⟩ := announce_eq h
    simp only [List.mem_append, List.mem_singleton] at member
    obtain (old | rfl) | old := member
    · exact .inl (.inl old)
    · exact .inr (.insert phase)
    · exact .inl (.inr old)
  | executeSaga i => obtain ⟨req, o, reply, -, rfl⟩ := executeSaga_eq h; exact .inl member
  | resolve i success => obtain ⟨o, -, rfl⟩ := resolve_eq h; exact .inl member
  | write i now => obtain ⟨o, success, -, -, rfl⟩ := write_eq h; exact .inl member
  | writeFails i => obtain ⟨o, success, -, rfl⟩ := writeFails_eq h; exact .inl member
  | publishSaga i sent =>
    obtain ⟨o, success, phase, rfl⟩ := publishSaga_eq h
    cases sent with
    | false => exact .inl member
    | true =>
      simp only [if_true, List.mem_append, List.mem_singleton] at member
      obtain old | old | rfl := member
      · exact .inl (.inl old)
      · exact .inl (.inr old)
      · exact .inr (.saga phase)
  | put t req now =>
    obtain ⟨-, ⟨reply, -, rfl⟩ | ⟨id, event, evt, db, -, -, rfl⟩⟩ := put_eq h <;> exact .inl member
  | select t => obtain ⟨db, -, rfl⟩ := statement_eq h; exact .inl member
  | update t => obtain ⟨db, -, rfl⟩ := statement_eq h; exact .inl member
  | commit t => obtain ⟨id, call, row, row', db, -, -, rfl⟩ := commit_eq h; exact .inl member
  | abort t => obtain ⟨db, -, rfl⟩ := statement_eq h; exact .inl member
  | reply t =>
    obtain ⟨reply, rfl | ⟨req, id, call, row, row', updated, sent, phase, found, rfl⟩⟩ := reply_eq h
    · exact .inl member
    · simp only [List.mem_append, List.mem_singleton] at member
      obtain (old | rfl) | old := member
      · exact .inl (.inl old)
      · exact .inr (.put sent phase found)
      · exact .inl (.inr old)
  | replyFails t fault => obtain rfl := replyFails_eq h; exact .inl member
  | publish m' sent =>
    obtain ⟨waiting, rfl⟩ := publish_eq h
    refine .inl ?_
    obtain left | sentOut := member
    · exact .inl (List.mem_of_mem_erase left)
    · cases sent with
      | false => exact .inr sentOut
      | true =>
        obtain old | rfl := by simpa using sentOut
        · exact .inr old
        · exact .inl waiting

theorem step_history (sound : Sound s) (history : History s) (h : step s e = some s') : History s' := by
  constructor
  · intro c member
    have old : c ∈ s.changes → c.Explained s' := fun known => (history.changes c known).step sound.threads h
    obtain changes | ⟨t, id, call, row, row', -, committed, decided, changes⟩ |
      ⟨i, now, o, success, row, -, -, -, ok, -, wrote, changes⟩ := step_changes sound h
    · exact old (changes ▸ member)
    · rw [changes, List.mem_append, List.mem_singleton] at member
      obtain known | rfl := member
      · exact old known
      · exact ⟨call, row, row', committed, decided, rfl, rfl⟩
    · rw [changes, List.mem_append, List.mem_singleton] at member
      obtain known | rfl := member
      · exact old known
      · exact ⟨o, success, by rw [wrote]; rfl, rfl, rfl, ok⟩
  · intro m member
    obtain old | said := step_messages h member
    · exact (history.messages m old).step sound.threads h
    · cases said with
      | insert phase => exact trivial
      | @saga i o success phase =>
        exact ⟨o, success, (step_saga sound.threads h i).wrote (by rw [phase]; rfl), rfl⟩
      | put sent phase found => exact ⟨_, _, _, _, _, _, committed_stable h phase, rfl⟩

theorem init_history (table : String → Option Row) : History (State.initial table) := by
  constructor <;> simp [State.initial]

end PolyglotInfinity.Orders
