import PolyglotInfinity.Orders.Service

/-!
# Steps of the order service

What one step of a thread does. `Effect` sums up its effect on the orders table
and the ghost history, and everything said about rows later rests on it.
-/

namespace PolyglotInfinity.Orders

variable {s s' : State}

/-! ### The handlers -/

def pendingRow (o : NewOrder) (now : Int) : Row := ⟨o.id, o.type, .pending, now, now⟩

def conflict (o : NewOrder) : Reply := ⟨409, errorBodyFor "order already exists" o.id⟩

theorem post_eq {i : ℕ} {req : Request} {now : Int} (h : s.post i req now = some s') :
    s.posts i = .idle ∧
      ((∃ reply, parsePost req = .error reply ∧ s' = s.setPost i (.rejected req reply)) ∨
      (∃ o, parsePost req = .ok o ∧ s.db.table o.id ≠ none ∧
        s' = s.setPost i (.rejected req (conflict o))) ∨
      (∃ o, parsePost req = .ok o ∧ s.db.table o.id = none ∧
        s' = { s.setPost i (.inserted req o (pendingRow o now)) with
          db := s.db.put o.id (pendingRow o now), inserts := s.inserts ++ [(i, o.id)] })) := by
  unfold State.post Db.insertOrderPending at h
  cases phase : s.posts i with
  | idle =>
    refine ⟨rfl, ?_⟩
    rw [phase] at h
    cases parsed : parsePost req with
    | error reply =>
      rw [parsed] at h
      exact .inl ⟨reply, rfl, (Option.some.inj h).symm⟩
    | ok o =>
      rw [parsed] at h
      cases row : s.db.table o.id with
      | some row' =>
        simp only [row] at h
        exact .inr (.inl ⟨o, rfl, by simp [row], (Option.some.inj h).symm⟩)
      | none =>
        simp only [row] at h
        exact .inr (.inr ⟨o, rfl, row, (Option.some.inj h).symm⟩)
  | _ => simp [phase] at h

theorem postFails_eq {i : ℕ} {req : Request} {fault : String} (h : s.postFails i req fault = some s') :
    s.posts i = .idle ∧ s' = s.setPost i (.rejected req ⟨500, errorBody fault⟩) := by
  unfold State.postFails at h
  split at h
  · rename_i phase _
    exact ⟨phase, (Option.some.inj h).symm⟩
  · cases h

theorem respond_eq {i : ℕ} {sent : Bool} (h : s.respond i sent = some s') :
    ∃ req o row, s.posts i = .inserted req o row ∧
      s' = s.setPost i (if sent then .answered req o ⟨202, row.toJson⟩ else .broken req o) := by
  unfold State.respond at h
  split at h
  · rename_i req o row phase
    exact ⟨req, o, row, phase, (Option.some.inj h).symm⟩
  · cases h

def insertMessage (o : NewOrder) : Message := ⟨o.id, o.type, "", "PENDING", "INSERT", none⟩

theorem announce_eq {i : ℕ} (h : s.announce i = some s') :
    ∃ req o reply, s.posts i = .answered req o reply ∧
      s' = { s.setPost i (.announced req o reply) with outbox := s.outbox ++ [insertMessage o] } := by
  unfold State.announce at h
  split at h
  · rename_i req o reply phase
    exact ⟨req, o, reply, phase, (Option.some.inj h).symm⟩
  · cases h

theorem executeSaga_eq {i : ℕ} (h : s.executeSaga i = some s') :
    ∃ req o reply, s.posts i = .announced req o reply ∧
      s' = { (s.setPost i (.coordinated req o reply)).setSaga i (.running o) with
        started := s.started ++ [(i, o)] } := by
  unfold State.executeSaga at h
  split at h
  · rename_i req o reply phase
    exact ⟨req, o, reply, phase, (Option.some.inj h).symm⟩
  · cases h

theorem resolve_eq {i : ℕ} {success : Bool} (h : s.resolve i success = some s') :
    ∃ o, s.sagas i = .running o ∧ s' = s.setSaga i (.resolved o success) := by
  unfold State.resolve at h
  split at h
  · rename_i o phase
    exact ⟨o, phase, (Option.some.inj h).symm⟩
  · cases h

theorem write_eq {i : ℕ} {now : Int} (h : s.write i now = some s') :
    ∃ o success, s.sagas i = .resolved o success ∧ s.db.lock o.id = none ∧
      s' = { s.setSaga i (.written o success) with
        db := { s.db with table := Function.update s.db.table o.id ((s.db.table o.id).map fun row =>
          { row with status := finalStatus success, updatedAt := now }) }
        changes := s.changes ++ statusChange s.db o.id (.saga i) (finalStatus success) } := by
  unfold State.write Db.updateOrderStatus at h
  cases phase : s.sagas i with
  | resolved o success =>
    rw [phase] at h
    refine ⟨o, success, rfl, ?_⟩
    cases written : s.db.write o.id (fun row => { row with status := finalStatus success, updatedAt := now }) with
    | none => simp [written] at h
    | some db =>
      obtain ⟨free, rfl⟩ := RowLock.write_eq.mp written
      simp only [written] at h
      exact ⟨free, (Option.some.inj h).symm⟩
  | _ => simp [phase] at h

theorem writeFails_eq {i : ℕ} (h : s.writeFails i = some s') :
    ∃ o success, s.sagas i = .resolved o success ∧ s' = s.setSaga i (.failed o success) := by
  unfold State.writeFails at h
  split at h
  · rename_i o success phase
    exact ⟨o, success, phase, (Option.some.inj h).symm⟩
  · cases h

theorem publishSaga_eq {i : ℕ} {sent : Bool} (h : s.publishSaga i sent = some s') :
    ∃ o success, s.sagas i = .written o success ∧
      s' = { s.setSaga i (.published o success) with
        published := if sent then s.published ++ [sagaMessage i o success] else s.published } := by
  unfold State.publishSaga at h
  split at h
  · rename_i o success phase
    exact ⟨o, success, phase, (Option.some.inj h).symm⟩
  · cases h

theorem commit_eq {t : ℕ} (h : s.commit t = some s') :
    ∃ id call row row' db, s.db.txs t = .updated id call row row' ∧
      s.db.step (.commit t) = some db ∧
      s' = { s with db, changes := s.changes ++ statusChange s.db id (.put t) row'.status } := by
  unfold State.commit at h
  cases phase : s.db.txs t with
  | updated id call row row' =>
    rw [phase] at h
    obtain ⟨db, taken, rfl⟩ := Option.map_eq_some_iff.mp h
    exact ⟨id, call, row, row', db, rfl, taken, rfl⟩
  | _ => simp [phase] at h

theorem statement_eq {e : DbEvent} (h : s.statement e = some s') :
    ∃ db, s.db.step e = some db ∧ s' = { s with db } := by
  obtain ⟨db, taken, rfl⟩ := Option.map_eq_some_iff.mp h
  exact ⟨db, taken, rfl⟩

theorem put_eq {t : ℕ} {req : Request} {now : Int} (h : s.put t req now = some s') :
    s.puts t = none ∧
      ((∃ reply, parsePut req = .error reply ∧
        s' = { s with
          puts := Function.update s.puts t (some req)
          replies := Function.update s.replies t (some reply) }) ∨
      ∃ id event evt db, parsePut req = .ok (id, event, evt) ∧
        s.db.step (.begin t id ⟨event, now⟩) = some db ∧
        s' = { s with puts := Function.update s.puts t (some req), db }) := by
  unfold State.put at h
  cases fresh : s.puts t with
  | some _ => simp [fresh] at h
  | none =>
    rw [fresh] at h
    refine ⟨rfl, ?_⟩
    rcases parsed : parsePut req with reply | ⟨id, event, evt⟩
    · simp only [parsed] at h
      exact .inl ⟨reply, rfl, (Option.some.inj h).symm⟩
    · simp only [parsed] at h
      obtain ⟨db, taken, rfl⟩ := Option.map_eq_some_iff.mp h
      exact .inr ⟨id, event, evt, db, rfl, taken, rfl⟩

/-- The message of a PUT that has committed; `type` is the row's by then. -/
def putMessage (t : ℕ) (id type evt : String) (row row' : Row) : Message :=
  ⟨id, type, row.status.name, row'.status.name, evt, some (.put t)⟩

theorem reply_eq {t : ℕ} (h : s.reply t = some s') :
    ∃ reply, s' = s.answer t reply ∨
      ∃ req id call row row' updated, s.puts t = some req ∧ s.db.txs t = .committed id call row row' ∧
        s.db.table id = some updated ∧ s' = { s.answer t reply with
          outbox := s.outbox ++ [putMessage t id updated.type ((req.param "event").getD "") row row'] } := by
  unfold State.reply at h
  split at h
  · rename_i req _ sent
    split at h
    · rename_i id call row row' phase
      split at h
      · exact ⟨_, .inl (Option.some.inj h).symm⟩
      · rename_i updated found
        exact ⟨_, .inr ⟨req, id, call, row, row', updated, sent, phase, found, (Option.some.inj h).symm⟩⟩
    · exact ⟨_, .inl (Option.some.inj h).symm⟩
    · exact ⟨_, .inl (Option.some.inj h).symm⟩
    · cases h
  · cases h

theorem replyFails_eq {t : ℕ} {fault : String} (h : s.replyFails t fault = some s') :
    s' = s.answer t ⟨500, errorBody fault⟩ := by
  unfold State.replyFails at h
  split at h
  case h_5 => cases h
  all_goals exact (Option.some.inj h).symm

theorem publish_eq {m : Message} {sent : Bool} (h : s.publish m sent = some s') :
    m ∈ s.outbox ∧ s' = { s with
      outbox := s.outbox.erase m
      published := if sent then s.published ++ [m] else s.published } := by
  simp only [State.publish, Option.ite_none_right_eq_some, Option.some.injEq] at h
  exact ⟨h.1, h.2.symm⟩

/-! ### Rows -/

/-- What a step does to the table, with the insert or the change it records. -/
inductive Effect (s s' : State) : Event → Prop where
  | same {e : Event} (db : s'.db = s.db) (inserts : s'.inserts = s.inserts)
      (changes : s'.changes = s.changes) : Effect s s' e
  | statement {e : Event} {q : DbEvent} (taken : s.db.step q = some s'.db) (rest : ∀ t, q ≠ .commit t)
      (read : ∀ t, q = .select t → e = .select t) (inserts : s'.inserts = s.inserts)
      (changes : s'.changes = s.changes) : Effect s s' e
  | insert {i : ℕ} {req : Request} {o : NewOrder} {now : Int} (absent : s.db.table o.id = none)
      (db : s'.db = s.db.put o.id (pendingRow o now)) (inserts : s'.inserts = s.inserts ++ [(i, o.id)])
      (changes : s'.changes = s.changes) : Effect s s' (.post i req now)
  | commit {t : ℕ} {id : String} {call : TransitionCall} {row row' : Row}
      (phase : s.db.txs t = .updated id call row row') (taken : s.db.step (.commit t) = some s'.db)
      (inserts : s'.inserts = s.inserts)
      (changes : s'.changes = s.changes ++ statusChange s.db id (.put t) row'.status) :
      Effect s s' (.commit t)
  | write {i : ℕ} {now : Int} {o : NewOrder} {success : Bool} (phase : s.sagas i = .resolved o success)
      (taken : s.db.updateOrderStatus o.id (finalStatus success) now = some s'.db)
      (wrote : s'.sagas i = .written o success) (inserts : s'.inserts = s.inserts)
      (changes : s'.changes = s.changes ++ statusChange s.db o.id (.saga i) (finalStatus success)) :
      Effect s s' (.write i now)

theorem statement_effect {e : Event} {q : DbEvent} (rest : ∀ t, q ≠ .commit t)
    (read : ∀ t, q = .select t → e = .select t) (h : s.statement q = some s') : Effect s s' e := by
  obtain ⟨db, taken, rfl⟩ := statement_eq h
  exact .statement taken rest read rfl rfl

theorem step_effect {e : Event} (h : step s e = some s') : Effect s s' e := by
  cases e with
  | post i req now =>
    obtain ⟨-, ⟨reply, -, rfl⟩ | ⟨o, -, -, rfl⟩ | ⟨o, -, absent, rfl⟩⟩ := post_eq h
    · exact .same rfl rfl rfl
    · exact .same rfl rfl rfl
    · exact .insert absent rfl rfl rfl
  | postFails i req fault => obtain ⟨-, rfl⟩ := postFails_eq h; exact .same rfl rfl rfl
  | respond i sent => obtain ⟨req, o, row, -, rfl⟩ := respond_eq h; exact .same rfl rfl rfl
  | announce i => obtain ⟨req, o, reply, -, rfl⟩ := announce_eq h; exact .same rfl rfl rfl
  | executeSaga i => obtain ⟨req, o, reply, -, rfl⟩ := executeSaga_eq h; exact .same rfl rfl rfl
  | resolve i success => obtain ⟨o, -, rfl⟩ := resolve_eq h; exact .same rfl rfl rfl
  | write i now =>
    obtain ⟨o, success, phase, free, rfl⟩ := write_eq h
    exact .write phase (RowLock.write_eq.mpr ⟨free, rfl⟩) (Function.update_self _ _ _) rfl rfl
  | writeFails i => obtain ⟨o, success, -, rfl⟩ := writeFails_eq h; exact .same rfl rfl rfl
  | publishSaga i sent => obtain ⟨o, success, -, rfl⟩ := publishSaga_eq h; exact .same rfl rfl rfl
  | put t req now =>
    obtain ⟨-, ⟨reply, -, rfl⟩ | ⟨id, event, evt, db, -, taken, rfl⟩⟩ := put_eq h
    · exact .same rfl rfl rfl
    · exact .statement taken (by simp) (by simp) rfl rfl
  | select t => exact statement_effect (by simp) (by simp) h
  | update t => exact statement_effect (by simp) (by simp) h
  | commit t =>
    obtain ⟨id, call, row, row', db, phase, taken, rfl⟩ := commit_eq h
    exact .commit phase taken rfl rfl
  | abort t => exact statement_effect (by simp) (by simp) h
  | reply t =>
    obtain ⟨reply, rfl | ⟨req, id, call, row, row', updated, -, -, -, rfl⟩⟩ := reply_eq h
    · exact .same rfl rfl rfl
    · exact .same rfl rfl rfl
  | replyFails t fault => obtain rfl := replyFails_eq h; exact .same rfl rfl rfl
  | publish m sent => obtain ⟨-, rfl⟩ := publish_eq h; exact .same rfl rfl rfl

theorem step_safe {e : Event} (safe : RowLock.Safe applyEvent s.db) (h : step s e = some s') :
    RowLock.Safe applyEvent s'.db := by
  cases step_effect h with
  | same db => exact db ▸ safe
  | statement taken => exact RowLock.step_safe safe taken
  | insert absent db => exact db ▸ safe.insert absent _
  | commit _ taken => exact RowLock.step_safe safe taken
  | write _ taken => exact safe.write taken

theorem committed_stable {e : Event} {t : ℕ} {id : String} {call : TransitionCall} {row row' : Row}
    (h : step s e = some s') (phase : s.db.txs t = .committed id call row row') :
    s'.db.txs t = .committed id call row row' := by
  cases step_effect h with
  | same db => exact db ▸ phase
  | statement taken => exact RowLock.committed_stable taken phase
  | insert _ db => exact db ▸ phase
  | commit _ taken => exact RowLock.committed_stable taken phase
  | write _ taken =>
    obtain ⟨-, db⟩ := RowLock.write_eq.mp taken
    exact db ▸ phase

theorem commit_row {t : ℕ} {id : String} {call : TransitionCall} {row row' : Row} {db : Db}
    (safe : RowLock.Safe applyEvent s.db) (phase : s.db.txs t = .updated id call row row')
    (taken : s.db.step (.commit t) = some db) :
    s.db.table id = some row ∧ applyEvent call row = some row' ∧
      db.table = Function.update s.db.table id (some row') ∧ db.txs t = .committed id call row row' := by
  obtain ⟨-, found, decided⟩ := safe.updated t id call row row' phase
  obtain ⟨k, r, v, v', phase', rfl⟩ := RowLock.commit_eq.mp taken
  obtain ⟨rfl, rfl, rfl, rfl⟩ := RowLock.Phase.updated.inj (phase.symm.trans phase')
  exact ⟨found, decided, rfl, Function.update_self _ _ _⟩

/-- What every transition and every saga keeps of a row, all steps keep. -/
theorem step_row {P : Row → Prop} {e : Event} {id : String} (safe : RowLock.Safe applyEvent s.db)
    (applies : ∀ call row row', applyEvent call row = some row' → P row → P row')
    (writes : ∀ row success now, P row → P { row with status := finalStatus success, updatedAt := now })
    (before : ∃ row, s.db.table id = some row ∧ P row) (h : step s e = some s') :
    ∃ row, s'.db.table id = some row ∧ P row := by
  obtain ⟨old, here, ok⟩ := before
  cases step_effect h with
  | same db => exact ⟨old, db ▸ here, ok⟩
  | @statement _ q taken rest =>
    obtain ⟨table, -⟩ | ⟨t, k, r, v, v', rfl, -⟩ := RowLock.step_table taken
    · exact ⟨old, table ▸ here, ok⟩
    · exact absurd rfl (rest t)
  | @insert j req o now absent db =>
    have other : id ≠ o.id := by rintro rfl; simp [absent] at here
    exact ⟨old, by simpa [db, RowLock.Store.put, other] using here, ok⟩
  | @commit t k call row row' phase taken =>
    obtain ⟨found, decided, table, -⟩ := commit_row safe phase taken
    by_cases same : id = k
    · subst k
      obtain rfl : old = row := Option.some.inj (here.symm.trans found)
      exact ⟨row', by simp [table], applies call old row' decided ok⟩
    · exact ⟨old, by simpa [table, same] using here, ok⟩
  | @write j now o success phase taken =>
    obtain ⟨-, db⟩ := RowLock.write_eq.mp taken
    by_cases same : id = o.id
    · subst id
      exact ⟨{ old with status := finalStatus success, updatedAt := now }, by simp [db, here], writes old success now ok⟩
    · exact ⟨old, by simpa [db, same] using here, ok⟩

end PolyglotInfinity.Orders
