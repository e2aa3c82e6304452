import Mathlib.Data.List.Nodup
import PolyglotInfinity.Orders.Steps

/-!
# Posted orders

Which POST thread created which order, which saga belongs to it, and the
statuses such an order can have.
-/

namespace PolyglotInfinity.Orders

open Transition (run)

variable {s s' : State} {e : Event}

def OrderStatus.posted : OrderStatus → Bool
  | pending | completed | canceled | refunded => true
  | _ => false

theorem posted_closed {p q : OrderStatus} (posted : p.posted = true) (edge : p.canTransitionTo q = true) :
    q.posted = true := by
  cases p <;> cases q <;> first | rfl | exact absurd posted (by decide) | exact absurd edge (by decide)

theorem finalStatus_posted (success : Bool) : (finalStatus success).posted = true := by
  cases success <;> rfl

theorem posted_refuses {p : OrderStatus} {event : OrderEvent} (posted : p.posted = true)
    (fulfils : event.fulfils = true) : p.canTransitionTo event.targetStatus = false := by
  cases p <;> cases event <;>
    first | rfl | exact absurd posted (by decide) | exact absurd fulfils (by decide)

def PostPhase.accepted : PostPhase → Option (Request × NewOrder)
  | inserted req o _ | answered req o _ | announced req o _ | coordinated req o _ | broken req o =>
    some (req, o)
  | idle | rejected _ _ => none

/-! ### Invariants -/

def Posted (s : State) : Prop :=
  ∀ i id, (i, id) ∈ s.inserts → ∃ row, s.db.table id = some row ∧ row.status.posted = true

/-- A POST thread that passed its insert is the only one for its order, and a
saga runs for the order that its POST thread accepted. -/
structure Threads (s : State) : Prop where
  accepted : ∀ i req o, (s.posts i).accepted = some (req, o) → parsePost req = .ok o ∧ (i, o.id) ∈ s.inserts
  inserted : ∀ i id, (i, id) ∈ s.inserts → ∃ req o, (s.posts i).accepted = some (req, o) ∧ o.id = id
  once : (s.inserts.map Prod.snd).Nodup
  running : ∀ i o, (s.sagas i).order = some o → (i, o) ∈ s.started
  started : ∀ i o, (i, o) ∈ s.started → ∃ req reply, s.posts i = .coordinated req o reply
  startedOnce : (s.started.map fun p => p.2.id).Nodup

theorem owner_unique {owners : List (ℕ × String)} (once : (owners.map Prod.snd).Nodup) {i j : ℕ} {id : String}
    (left : (i, id) ∈ owners) (right : (j, id) ∈ owners) : i = j :=
  congrArg Prod.fst (List.inj_on_of_nodup_map once left right rfl)

theorem step_posted (safe : RowLock.Safe applyEvent s.db) (posted : Posted s) (h : step s e = some s') :
    Posted s' := by
  intro i id member
  have kept (old : (i, id) ∈ s.inserts) : ∃ row, s'.db.table id = some row ∧ row.status.posted = true :=
    step_row safe (fun _ _ _ decided ok => posted_closed ok (applyEvent_eq decided).1)
      (fun _ success _ _ => finalStatus_posted success) (posted i id old) h
  cases step_effect h with
  | same _ inserts => exact kept (inserts ▸ member)
  | statement _ _ _ inserts => exact kept (inserts ▸ member)
  | commit _ _ inserts => exact kept (inserts ▸ member)
  | write _ _ _ inserts => exact kept (inserts ▸ member)
  | @insert j req o now absent db inserts =>
    rw [inserts, List.mem_append, List.mem_singleton, Prod.mk.injEq] at member
    obtain old | ⟨-, rfl⟩ := member
    · exact kept old
    · exact ⟨pendingRow o now, by simp [db, RowLock.Store.put], rfl⟩

theorem Threads.setPost (threads : Threads s) {i : ℕ} {p : PostPhase}
    (same : p.accepted = (s.posts i).accepted) (before : ∀ req o reply, s.posts i ≠ .coordinated req o reply) :
    Threads (s.setPost i p) := by
  have accepted : ∀ j, ((s.setPost i p).posts j).accepted = (s.posts j).accepted := by
    intro j
    by_cases mine : j = i
    · subst j; simp [State.setPost, same]
    · simp [State.setPost, mine]
  refine { threads with accepted := ?_, inserted := ?_, started := ?_ }
  · intro j req o; rw [accepted]; exact threads.accepted j req o
  · intro j id member; rw [accepted]; exact threads.inserted j id member
  · intro j o member
    obtain ⟨req, reply, phase⟩ := threads.started j o member
    have other : j ≠ i := by rintro rfl; exact before req o reply phase
    exact ⟨req, reply, by simpa [State.setPost, other] using phase⟩

theorem Threads.setSaga (threads : Threads s) {i : ℕ} {p : SagaPhase} (same : p.order = (s.sagas i).order) :
    Threads (s.setSaga i p) := by
  refine { threads with running := fun j o order => threads.running j o ?_ }
  by_cases mine : j = i
  · subst j; simpa [State.setSaga, same] using order
  · simpa [State.setSaga, mine] using order

theorem Threads.insert (threads : Threads s) (posted : Posted s) {i : ℕ} {req : Request} {o : NewOrder}
    {row : Row} {db : Db} (fresh : s.posts i = .idle) (parsed : parsePost req = .ok o)
    (absent : s.db.table o.id = none) :
    Threads { s.setPost i (.inserted req o row) with db, inserts := s.inserts ++ [(i, o.id)] } := by
  refine { threads with accepted := ?_, inserted := ?_, once := ?_, started := ?_ }
  · intro j req' o' phase
    rw [List.mem_append, List.mem_singleton]
    by_cases mine : j = i
    · subst j
      obtain ⟨rfl, rfl⟩ : req = req' ∧ o = o' := by simpa [State.setPost, PostPhase.accepted] using phase
      exact ⟨parsed, .inr rfl⟩
    · replace phase : (s.posts j).accepted = some (req', o') := by simpa [State.setPost, mine] using phase
      exact ⟨(threads.accepted j req' o' phase).1, .inl (threads.accepted j req' o' phase).2⟩
  · intro j id member
    rw [List.mem_append, List.mem_singleton, Prod.mk.injEq] at member
    obtain old | ⟨rfl, rfl⟩ := member
    · obtain ⟨req', o', phase, name⟩ := threads.inserted j id old
      have mine : j ≠ i := by rintro rfl; simp [fresh, PostPhase.accepted] at phase
      exact ⟨req', o', by simpa [State.setPost, mine] using phase, name⟩
    · exact ⟨req, o, by simp [State.setPost, PostPhase.accepted], rfl⟩
  · rw [List.map_append, List.nodup_append]
    refine ⟨threads.once, by simp, ?_⟩
    rintro id old id' new rfl
    obtain rfl : id = o.id := by simpa using new
    obtain ⟨⟨j, id⟩, member, rfl⟩ := List.mem_map.mp old
    obtain ⟨row, found, -⟩ := posted j _ member
    simp [absent] at found
  · intro j o' member
    obtain ⟨req', reply, phase⟩ := threads.started j o' member
    have mine : j ≠ i := by rintro rfl; simp [fresh] at phase
    exact ⟨req', reply, by simpa [State.setPost, mine] using phase⟩

theorem Threads.start (threads : Threads s) {i : ℕ} {req : Request} {o : NewOrder} {reply : Reply}
    (phase : s.posts i = .announced req o reply) :
    Threads { (s.setPost i (.coordinated req o reply)).setSaga i (.running o) with
      started := s.started ++ [(i, o)] } := by
  have mine : (i, o.id) ∈ s.inserts := (threads.accepted i req o (by simp [phase, PostPhase.accepted])).2
  -- Thread `i` has not started its saga yet: that would be past `announced`.
  have others : ∀ j o', (j, o') ∈ s.started → j ≠ i := by
    rintro j o' member rfl
    obtain ⟨req', reply', phase'⟩ := threads.started j o' member
    simp [phase] at phase'
  have accepted : ∀ j, ((s.setPost i (.coordinated req o reply)).posts j).accepted = (s.posts j).accepted := by
    intro j
    by_cases same : j = i
    · subst j; simp [State.setPost, phase, PostPhase.accepted]
    · simp [State.setPost, same]
  refine ⟨?_, ?_, threads.once, ?_, ?_, ?_⟩
  · intro j req' o' phase'; exact threads.accepted j req' o' ((accepted j).symm.trans phase')
  · intro j id member
    obtain ⟨req', o', phase', name⟩ := threads.inserted j id member
    exact ⟨req', o', (accepted j).trans phase', name⟩
  · intro j o' order
    rw [List.mem_append, List.mem_singleton, Prod.mk.injEq]
    by_cases same : j = i
    · subst j
      simp only [State.setSaga, Function.update_self, SagaPhase.order, Option.some.injEq] at order
      exact .inr ⟨rfl, order.symm⟩
    · simp only [State.setSaga, Function.update_of_ne same] at order
      exact .inl (threads.running j o' order)
  · intro j o' member
    rw [List.mem_append, List.mem_singleton, Prod.mk.injEq] at member
    obtain old | ⟨rfl, rfl⟩ := member
    · obtain ⟨req', reply', phase'⟩ := threads.started j o' old
      exact ⟨req', reply', by simpa [State.setSaga, State.setPost, others j o' old] using phase'⟩
    · exact ⟨req, reply, by simp [State.setSaga, State.setPost]⟩
  · rw [List.map_append, List.nodup_append]
    refine ⟨threads.startedOnce, by simp, ?_⟩
    rintro id old id' new rfl
    obtain rfl : id = o.id := by simpa using new
    obtain ⟨⟨j, o'⟩, member, name⟩ := List.mem_map.mp old
    obtain ⟨req', reply', phase'⟩ := threads.started j o' member
    have theirs := (threads.accepted j req' o' (by simp [phase', PostPhase.accepted])).2
    exact others j o' member (owner_unique threads.once (name ▸ theirs) mine)

theorem step_threads (posted : Posted s) (threads : Threads s) (h : step s e = some s') : Threads s' := by
  cases e with
  | post i req now =>
    obtain ⟨fresh, ⟨reply, -, rfl⟩ | ⟨o, -, -, rfl⟩ | ⟨o, parsed, absent, rfl⟩⟩ := post_eq h
    · exact threads.setPost (by simp [fresh, PostPhase.accepted]) (by simp [fresh])
    · exact threads.setPost (by simp [fresh, PostPhase.accepted]) (by simp [fresh])
    · exact threads.insert posted fresh parsed absent
  | postFails i req fault =>
    obtain ⟨fresh, rfl⟩ := postFails_eq h
    exact threads.setPost (by simp [fresh, PostPhase.accepted]) (by simp [fresh])
  | respond i sent =>
    obtain ⟨req, o, row, phase, rfl⟩ := respond_eq h
    exact threads.setPost (by cases sent <;> simp [phase, PostPhase.accepted]) (by simp [phase])
  | announce i =>
    obtain ⟨req, o, reply, phase, rfl⟩ := announce_eq h
    exact { threads.setPost (p := .announced req o reply) (by simp [phase, PostPhase.accepted])
      (by simp [phase]) with }
  | executeSaga i => obtain ⟨req, o, reply, phase, rfl⟩ := executeSaga_eq h; exact threads.start phase
  | resolve i success =>
    obtain ⟨o, phase, rfl⟩ := resolve_eq h
    exact threads.setSaga (by simp [phase, SagaPhase.order])
  | write i now =>
    obtain ⟨o, success, phase, -, rfl⟩ := write_eq h
    exact { threads.setSaga (p := .written o success) (by simp [phase, SagaPhase.order]) with }
  | writeFails i =>
    obtain ⟨o, success, phase, rfl⟩ := writeFails_eq h
    exact threads.setSaga (by simp [phase, SagaPhase.order])
  | publishSaga i sent =>
    obtain ⟨o, success, phase, rfl⟩ := publishSaga_eq h
    exact { threads.setSaga (p := .published o success) (by simp [phase, SagaPhase.order]) with }
  | put t req now =>
    obtain ⟨-, ⟨reply, -, rfl⟩ | ⟨id, event, evt, db, -, -, rfl⟩⟩ := put_eq h
    · exact { threads with }
    · exact { threads with }
  | select t => obtain ⟨db, -, rfl⟩ := statement_eq h; exact { threads with }
  | update t => obtain ⟨db, -, rfl⟩ := statement_eq h; exact { threads with }
  | commit t => obtain ⟨id, call, row, row', db, -, -, rfl⟩ := commit_eq h; exact { threads with }
  | abort t => obtain ⟨db, -, rfl⟩ := statement_eq h; exact { threads with }
  | reply t =>
    obtain ⟨reply, rfl | ⟨req, id, call, row, row', updated, -, -, -, rfl⟩⟩ := reply_eq h
    · exact { threads with }
    · exact { threads with }
  | replyFails t fault => obtain rfl := replyFails_eq h; exact { threads with }
  | publish m sent => obtain ⟨-, rfl⟩ := publish_eq h; exact { threads with }

structure Sound (s : State) : Prop where
  safe : RowLock.Safe applyEvent s.db
  posted : Posted s
  threads : Threads s

theorem init_sound (table : String → Option Row) : Sound (State.initial table) where
  safe := RowLock.init_safe table
  posted := by simp [Posted, State.initial]
  threads := by constructor <;> simp [State.initial, PostPhase.accepted, SagaPhase.order]

theorem step_sound (sound : Sound s) (h : step s e = some s') : Sound s' where
  safe := step_safe sound.safe h
  posted := step_posted sound.safe sound.posted h
  threads := step_threads sound.posted sound.threads h

theorem run_sound {events : List Event} (sound : Sound s) (h : run step s events = some s') : Sound s' :=
  Transition.run_invariant (fun _ _ _ => step_sound) sound h

theorem step_inserts {p : ℕ × String} (h : step s e = some s') (member : p ∈ s.inserts) : p ∈ s'.inserts := by
  cases step_effect h with
  | same _ inserts => exact inserts ▸ member
  | statement _ _ _ inserts => exact inserts ▸ member
  | insert _ _ inserts => exact inserts ▸ List.mem_append_left _ member
  | commit _ _ inserts => exact inserts ▸ member
  | write _ _ _ inserts => exact inserts ▸ member

/-! ### Fulfilment events -/

/-- A committed call found its row, and on a posted order it was none of the
fulfilment events. -/
def Refused (s : State) : Prop :=
  ∀ t id call row row', s.db.txs t = .committed id call row row' → s.db.table id ≠ none ∧
    ∀ i, (i, id) ∈ s.inserts → call.event.fulfils = false

theorem step_refused (sound : Sound s) (refused : Refused s) (h : step s e = some s') : Refused s' := by
  intro t id call row row' phase
  cases step_effect h with
  | same db inserts => rw [db] at phase ⊢; rw [inserts]; exact refused t id call row row' phase
  | @statement _ q taken rest _ inserts =>
    obtain ⟨table, -⟩ | ⟨u, k, r, v, v', rfl, -⟩ := RowLock.step_table taken
    · obtain phase | ⟨rfl, -⟩ := RowLock.committed_from taken phase
      · rw [table, inserts]; exact refused t id call row row' phase
      · exact absurd rfl (rest t)
    · exact absurd rfl (rest u)
  | @insert j req o now absent db inserts =>
    rw [db] at phase
    obtain ⟨present, never⟩ := refused t id call row row' phase
    have other : id ≠ o.id := by rintro rfl; exact present absent
    refine ⟨by simpa [db, RowLock.Store.put, other] using present, fun i member => never i ?_⟩
    simpa [inserts, other] using member
  | @commit u k call' row₁ row₂ running taken inserts =>
    obtain ⟨found, decided, table, committed⟩ := commit_row sound.safe running taken
    rw [inserts]
    obtain phase | ⟨same, updated⟩ := RowLock.committed_from taken phase
    · obtain ⟨present, never⟩ := refused t id call row row' phase
      refine ⟨?_, never⟩
      by_cases mine : id = k
      · simp [table, mine]
      · simpa [table, mine] using present
    · obtain rfl : u = t := RowLock.Event.commit.inj same
      obtain ⟨rfl, rfl, rfl, rfl⟩ := RowLock.Phase.updated.inj (running.symm.trans updated)
      refine ⟨by simp [table], fun i member => ?_⟩
      obtain ⟨old, here, ok⟩ := sound.posted i k member
      obtain rfl : old = row₁ := Option.some.inj (here.symm.trans found)
      obtain ⟨edge, target⟩ := applyEvent_eq decided
      by_contra fulfils
      rw [target, posted_refuses ok (by simpa using fulfils)] at edge
      cases edge
  | @write j now o success _ taken _ inserts =>
    obtain ⟨-, db⟩ := RowLock.write_eq.mp taken
    rw [db] at phase
    obtain ⟨present, never⟩ := refused t id call row row' phase
    refine ⟨?_, inserts ▸ never⟩
    by_cases mine : id = o.id
    · subst id; simpa [db] using present
    · simpa [db, mine] using present

/-- An order created by POST is PENDING, COMPLETED, CANCELED or REFUNDED in every
reachable state, the check of `applyTransition` fails there for PAY, PROCESS, SHIP
and DELIVER, and no call with such an event ever returns OK for it. -/
theorem posted_order_statuses {table : String → Option Row} {events : List Event} {s : State}
    (h : run step (State.initial table) events = some s) {i : ℕ} {id : String} (created : (i, id) ∈ s.inserts) :
    (∃ row, s.db.table id = some row ∧ row.status ∈ [.pending, .completed, .canceled, .refunded] ∧
      ∀ call : TransitionCall, call.event.fulfils = true → applyEvent call row = none) ∧
    ∀ t call row row', s.db.txs t = .committed id call row row' → call.event.fulfils = false := by
  have start : Sound (State.initial table) ∧ Refused (State.initial table) :=
    ⟨init_sound table, by simp [Refused, State.initial, Db.initial]⟩
  obtain ⟨sound, refused⟩ := Transition.run_invariant
    (fun x _ _ (both : Sound x ∧ Refused x) taken =>
      ⟨step_sound both.1 taken, step_refused both.1 both.2 taken⟩) start h
  obtain ⟨row, found, ok⟩ := sound.posted i id created
  refine ⟨⟨row, found, ?_, fun call fulfils => applyEvent_none.mpr (posted_refuses ok fulfils)⟩, ?_⟩
  · cases status : row.status <;> simp [status, OrderStatus.posted] at ok <;> simp
  · exact fun t call row row' phase => (refused t id call row row' phase).2 i created

def duplicate : Option State :=
  run step (State.initial fun _ => none)
    [.post 0 ⟨"id=o1&amount=20", "c0"⟩ 1, .post 1 ⟨"id=o1&amount=30", "c1"⟩ 2, .respond 0 true, .announce 0,
      .executeSaga 0, .put 0 ⟨"id=o1&event=pay", "c2"⟩ 3, .select 0, .update 0, .reply 0]

theorem posted_order_statuses_duplicate : ∃ s, duplicate = some s ∧ (0, "o1") ∈ s.inserts ∧
    ∃ row, s.db.table "o1" = some row ∧ row.status ∈ [.pending, .completed, .canceled, .refunded] ∧
      applyEvent ⟨.pay, 3⟩ row = none := by
  have history : duplicate.map (fun s => s.inserts) = some [(0, "o1")] := by decide +kernel
  obtain ⟨s, h, inserts⟩ := Option.map_eq_some_iff.mp history
  have created : (0, "o1") ∈ s.inserts := by rw [inserts]; decide
  obtain ⟨⟨row, found, status, refused⟩, -⟩ := posted_order_statuses h created
  exact ⟨s, h, created, row, found, status, refused ⟨.pay, 3⟩ rfl⟩

/-! ### One saga for each order -/

def Event.poster : Event → Option ℕ
  | post i _ _ | postFails i _ _ | respond i _ | announce i | executeSaga i => some i
  | _ => none

theorem unaccepted_step {i : ℕ} (threads : Threads s) (h : step s e = some s') (poster : e.poster = some i)
    (none : ∀ id, (i, id) ∉ s'.inserts) : s'.db = s.db ∧ s'.sagas = s.sagas := by
  have before : ∀ req o, (s.posts i).accepted ≠ some (req, o) := fun req o phase =>
    none o.id (step_inserts h (threads.accepted i req o phase).2)
  cases e with
  | post j req now =>
    obtain rfl : j = i := Option.some.inj poster
    obtain ⟨-, ⟨reply, -, rfl⟩ | ⟨o, -, -, rfl⟩ | ⟨o, -, -, rfl⟩⟩ := post_eq h
    · exact ⟨rfl, rfl⟩
    · exact ⟨rfl, rfl⟩
    · exact absurd (List.mem_append_right _ (List.mem_singleton.mpr rfl)) (none o.id)
  | postFails j req fault => obtain ⟨-, rfl⟩ := postFails_eq h; exact ⟨rfl, rfl⟩
  | respond j sent => obtain ⟨req, o, row, -, rfl⟩ := respond_eq h; exact ⟨rfl, rfl⟩
  | announce j => obtain ⟨req, o, reply, -, rfl⟩ := announce_eq h; exact ⟨rfl, rfl⟩
  | executeSaga j =>
    obtain rfl : j = i := Option.some.inj poster
    obtain ⟨req, o, reply, phase, rfl⟩ := executeSaga_eq h
    exact absurd (by simp [phase, PostPhase.accepted]) (before req o)
  | _ => cases poster

/-- At most one saga is started for each order id, with the data of the request
whose insert succeeded. A POST answered 409 changes no row and starts no saga. -/
theorem one_saga_per_order {table : String → Option Row} {events : List Event} {s : State}
    (h : run step (State.initial table) events = some s) :
    (s.started.map fun p => p.2.id).Nodup ∧
    (∀ i o, (i, o) ∈ s.started → (i, o.id) ∈ s.inserts ∧ (∀ j, (j, o.id) ∈ s.inserts → j = i) ∧
      ∃ req, (s.posts i).accepted = some (req, o) ∧ parsePost req = .ok o) ∧
    ∀ i req reply, s.posts i = .rejected req reply → reply.code = 409 →
      (∀ o, (i, o) ∉ s.started) ∧
      ∀ before e after x x', events = before ++ e :: after →
        run step (State.initial table) before = some x → step x e = some x' → e.poster = some i →
        x'.db = x.db ∧ x'.sagas = x.sagas := by
  have sound := run_sound (init_sound table) h
  refine ⟨sound.threads.startedOnce, ?_, ?_⟩
  · intro i o member
    obtain ⟨req, reply, phase⟩ := sound.threads.started i o member
    have accepted : (s.posts i).accepted = some (req, o) := by simp [phase, PostPhase.accepted]
    obtain ⟨parsed, mine⟩ := sound.threads.accepted i req o accepted
    exact ⟨mine, fun j theirs => owner_unique sound.threads.once theirs mine, req, accepted, parsed⟩
  · rintro i req reply phase -
    have none : ∀ id, (i, id) ∉ s.inserts := by
      intro id member
      obtain ⟨req', o, accepted, -⟩ := sound.threads.inserted i id member
      simp [phase, PostPhase.accepted] at accepted
    refine ⟨fun o member => ?_, ?_⟩
    · obtain ⟨req', reply', other⟩ := sound.threads.started i o member
      simp [phase] at other
    · rintro before e after x x' rfl reached taken poster
      obtain ⟨y, first, rest⟩ := Transition.run_append.mp h
      obtain rfl := Option.some.inj (first.symm.trans reached)
      obtain ⟨z, one, later⟩ := Transition.run_cons.mp rest
      obtain rfl := Option.some.inj (one.symm.trans taken)
      refine unaccepted_step (run_sound (init_sound table) first).threads taken poster fun id member => ?_
      have stays := Transition.run_invariant
        (fun x _ _ (member : (i, id) ∈ x.inserts) taken => step_inserts taken member) member later
      exact none id stays

theorem one_saga_per_order_duplicate : ∃ s, duplicate = some s ∧
    (s.started.map fun p => p.2.id).Nodup ∧ s.started.map Prod.fst = [0] ∧ ∀ o, (1, o) ∉ s.started := by
  have history : duplicate.map (fun s => (s.started.map Prod.fst, s.posts 1)) =
      some ([0], .rejected ⟨"id=o1&amount=30", "c1"⟩ ⟨409, errorBodyFor "order already exists" "o1"⟩) := by
    decide +kernel
  obtain ⟨s, h, facts⟩ := Option.map_eq_some_iff.mp history
  obtain ⟨started, conflict⟩ := Prod.mk.inj facts
  obtain ⟨once, -, rejected⟩ := one_saga_per_order h
  exact ⟨s, h, once, started, (rejected 1 _ _ conflict rfl).1⟩

end PolyglotInfinity.Orders
