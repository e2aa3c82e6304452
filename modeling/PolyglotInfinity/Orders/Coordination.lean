import PolyglotInfinity.Orders.Threads

/-!
# Orders without a coordinator

Which committed inserts end without a saga, when sending the 202 may fail.
-/

namespace PolyglotInfinity.Orders

open Transition (run Along)

variable {s s' : State} {e : Event} {i : ℕ}

/-- POST thread `i` can take no step any more. -/
def Finished (s : State) (i : ℕ) : Prop := ∀ e, Event.poster e = some i → step s e = none

/-- Every order whose POST handler has ended has had its saga started. -/
def Coordinated (s : State) : Prop :=
  ∀ i id, (i, id) ∈ s.inserts → Finished s i → ∃ o, (i, o) ∈ s.started ∧ o.id = id

/-- Sending the 202 does not throw. -/
def Delivered (_ : State) : Event → Prop
  | .respond _ sent => sent = true
  | _ => True

def PostPhase.isBroken : PostPhase → Bool
  | broken _ _ => true
  | _ => false

def Unbroken (s : State) : Prop := ∀ i, (s.posts i).isBroken = false

/-- A POST thread that is past its last step started its saga there. -/
def Starts (s : State) : Prop := ∀ i req o reply, s.posts i = .coordinated req o reply → (i, o) ∈ s.started

/-- What a step does to the POST threads. -/
inductive PostEffect (s s' : State) : Event → Prop where
  | same {e : Event} (delivered : Delivered s e) (posts : s'.posts = s.posts) (started : s'.started = s.started) :
    PostEffect s s' e
  | moved {e : Event} {i : ℕ} {p : PostPhase} (delivered : Delivered s e) (before : (s.posts i).isBroken = false)
    (after : p.isBroken = false) (short : ∀ req o reply, p ≠ .coordinated req o reply)
    (posts : s'.posts = Function.update s.posts i p) (started : s'.started = s.started) : PostEffect s s' e
  | broke {i : ℕ} {req : Request} {o : NewOrder} (posts : s'.posts = Function.update s.posts i (.broken req o))
    (started : s'.started = s.started) : PostEffect s s' (.respond i false)
  | coordinated {i : ℕ} {req : Request} {o : NewOrder} {reply : Reply} (before : (s.posts i).isBroken = false)
    (posts : s'.posts = Function.update s.posts i (.coordinated req o reply))
    (started : s'.started = s.started ++ [(i, o)]) : PostEffect s s' (.executeSaga i)

theorem step_posts (h : step s e = some s') : PostEffect s s' e := by
  cases e with
  | post i req now =>
    obtain ⟨fresh, ⟨reply, -, rfl⟩ | ⟨o, -, -, rfl⟩ | ⟨o, -, -, rfl⟩⟩ := post_eq h
    · exact .moved trivial (by rw [fresh]; rfl) rfl (by simp) rfl rfl
    · exact .moved trivial (by rw [fresh]; rfl) rfl (by simp) rfl rfl
    · exact .moved trivial (by rw [fresh]; rfl) rfl (by simp) rfl rfl
  | postFails i req fault =>
    obtain ⟨fresh, rfl⟩ := postFails_eq h
    exact .moved trivial (by rw [fresh]; rfl) rfl (by simp) rfl rfl
  | respond i sent =>
    obtain ⟨req, o, row, phase, rfl⟩ := respond_eq h
    cases sent with
    | true => exact .moved rfl (by rw [phase]; rfl) rfl (by simp) rfl rfl
    | false => exact .broke rfl rfl
  | announce i =>
    obtain ⟨req, o, reply, phase, rfl⟩ := announce_eq h
    exact .moved trivial (by rw [phase]; rfl) rfl (by simp) rfl rfl
  | executeSaga i =>
    obtain ⟨req, o, reply, phase, rfl⟩ := executeSaga_eq h
    exact .coordinated (by rw [phase]; rfl) rfl rfl
  | resolve i success => obtain ⟨o, -, rfl⟩ := resolve_eq h; exact .same trivial rfl rfl
  | write i now => obtain ⟨o, success, -, -, rfl⟩ := write_eq h; exact .same trivial rfl rfl
  | writeFails i => obtain ⟨o, success, -, rfl⟩ := writeFails_eq h; exact .same trivial rfl rfl
  | publishSaga i sent => obtain ⟨o, success, -, rfl⟩ := publishSaga_eq h; exact .same trivial rfl rfl
  | put t req now =>
    obtain ⟨-, ⟨reply, -, rfl⟩ | ⟨id, event, evt, db, -, -, rfl⟩⟩ := put_eq h
    · exact .same trivial rfl rfl
    · exact .same trivial rfl rfl
  | select t => obtain ⟨db, -, rfl⟩ := statement_eq h; exact .same trivial rfl rfl
  | update t => obtain ⟨db, -, rfl⟩ := statement_eq h; exact .same trivial rfl rfl
  | commit t => obtain ⟨id, call, row, row', db, -, -, rfl⟩ := commit_eq h; exact .same trivial rfl rfl
  | abort t => obtain ⟨db, -, rfl⟩ := statement_eq h; exact .same trivial rfl rfl
  | reply t =>
    obtain ⟨reply, rfl | ⟨req, id, call, row, row', updated, -, -, -, rfl⟩⟩ := reply_eq h
    · exact .same trivial rfl rfl
    · exact .same trivial rfl rfl
  | replyFails t fault => obtain rfl := replyFails_eq h; exact .same trivial rfl rfl
  | publish m sent => obtain ⟨-, rfl⟩ := publish_eq h; exact .same trivial rfl rfl

theorem step_starts (starts : Starts s) (h : step s e = some s') : Starts s' := by
  intro j req o reply phase
  cases step_posts h with
  | same _ posts started =>
    rw [posts] at phase
    exact started ▸ starts j req o reply phase
  | @moved _ i p _ _ _ short posts started =>
    rw [posts] at phase
    by_cases mine : j = i
    · subst j
      exact absurd (by simpa using phase) (short req o reply)
    · rw [Function.update_of_ne mine] at phase
      exact started ▸ starts j req o reply phase
  | @broke i req' o' posts started =>
    rw [posts] at phase
    by_cases mine : j = i
    · subst j
      simp at phase
    · rw [Function.update_of_ne mine] at phase
      exact started ▸ starts j req o reply phase
  | @coordinated i req' o' reply' _ posts started =>
    rw [posts] at phase
    rw [started, List.mem_append, List.mem_singleton]
    by_cases mine : j = i
    · subst j
      simp only [Function.update_self, PostPhase.coordinated.injEq] at phase
      exact .inr (by rw [phase.2.1])
    · rw [Function.update_of_ne mine] at phase
      exact .inl (starts j req o reply phase)

theorem update_unbroken {p : PostPhase} (posts : s'.posts = Function.update s.posts i p) (alive : p.isBroken = false)
    (before : (s.posts i).isBroken = false) : Unbroken s' ↔ Unbroken s := by
  refine forall_congr' fun j => ?_
  rw [posts]
  by_cases mine : j = i
  · subst j
    simp [alive, before]
  · rw [Function.update_of_ne mine]

theorem step_unbroken (h : step s e = some s') : (Unbroken s' → Unbroken s) ∧
    (Unbroken s → (Unbroken s' ↔ Delivered s e)) := by
  cases step_posts h with
  | same delivered posts =>
    have same : Unbroken s' ↔ Unbroken s := by rw [Unbroken, posts, Unbroken]
    exact ⟨same.mp, fun unbroken => iff_of_true (same.mpr unbroken) delivered⟩
  | moved delivered before after _ posts =>
    have same := update_unbroken posts after before
    exact ⟨same.mp, fun unbroken => iff_of_true (same.mpr unbroken) delivered⟩
  | @broke i _ _ posts =>
    have broken : ¬ Unbroken s' := fun unbroken => by simpa [posts, PostPhase.isBroken] using unbroken i
    exact ⟨fun unbroken => absurd unbroken broken, fun _ => iff_of_false broken Bool.false_ne_true⟩
  | coordinated before posts =>
    have same := update_unbroken posts rfl before
    exact ⟨same.mp, fun unbroken => iff_of_true (same.mpr unbroken) trivial⟩

theorem broken_finished {req : Request} {o : NewOrder} (phase : s.posts i = .broken req o) : Finished s i := by
  intro e poster
  cases e with
  | post j | postFails j | respond j | announce j | executeSaga j =>
    obtain rfl : j = i := Option.some.inj poster
    simp [step, State.post, State.postFails, State.respond, State.announce, State.executeSaga, phase]
  | _ => cases poster

theorem finished_phase {req : Request} {o : NewOrder} (accepted : (s.posts i).accepted = some (req, o))
    (finished : Finished s i) : (s.posts i).isBroken = true ∨ ∃ reply, s.posts i = .coordinated req o reply := by
  cases phase : s.posts i with
  | inserted req' o' row => simpa [step, State.respond, phase] using finished (.respond i true) rfl
  | answered req' o' reply => simpa [step, State.announce, phase] using finished (.announce i) rfl
  | announced req' o' reply => simpa [step, State.executeSaga, phase] using finished (.executeSaga i) rfl
  | coordinated req' o' reply =>
    obtain ⟨rfl, rfl⟩ : req' = req ∧ o' = o := by simpa [phase, PostPhase.accepted] using accepted
    exact .inr ⟨reply, rfl⟩
  | broken => exact .inl rfl
  | idle | rejected => simp [phase, PostPhase.accepted] at accepted

theorem coordinated_iff_unbroken (threads : Threads s) (starts : Starts s) : Coordinated s ↔ Unbroken s := by
  constructor
  · intro coordinated i
    cases phase : s.posts i with
    | broken req o =>
      obtain ⟨-, mine⟩ := threads.accepted i req o (by simp [phase, PostPhase.accepted])
      obtain ⟨o', started, -⟩ := coordinated i o.id mine (broken_finished phase)
      obtain ⟨req', reply, other⟩ := threads.started i o' started
      cases phase.symm.trans other
    | _ => rfl
  · intro unbroken i id member finished
    obtain ⟨req, o, accepted, name⟩ := threads.inserted i id member
    rcases finished_phase accepted finished with broken | ⟨reply, phase⟩
    · cases (unbroken i).symm.trans broken
    · exact ⟨o, starts i req o reply phase, name⟩

/-- Every order whose handler has ended has had its saga started, exactly if no
handler was cut off while it sent its 202. -/
theorem coordinated_iff_delivered {table : String → Option Row} {events : List Event} {s : State}
    (h : run step (State.initial table) events = some s) :
    Coordinated s ↔ Along step Delivered (State.initial table) events := by
  have starts : Starts s := by
    refine Transition.run_invariant (fun _ _ _ starts taken => step_starts starts taken) ?_ h
    simp [Starts, State.initial]
  have fresh : Unbroken (State.initial table) := fun _ => rfl
  rw [coordinated_iff_unbroken (run_sound (init_sound table) h).threads starts]
  exact Transition.last_iff_along (fun _ _ _ _ _ => trivial) (fun _ _ _ taken => (step_unbroken taken).1)
    (fun _ _ _ _ unbroken taken => (step_unbroken taken).2 unbroken) trivial fresh h

def answered : List Event :=
  [.post 0 ⟨"id=o1&amount=20", "c0"⟩ 1, .respond 0 true, .announce 0, .executeSaga 0]

theorem coordinated_iff_delivered_answered : ∃ s, run step (State.initial fun _ => none) answered = some s ∧
    (0, "o1") ∈ s.inserts ∧ Coordinated s := by
  have history : (run step (State.initial fun _ => none) answered).map State.inserts = some [(0, "o1")] := by
    decide +kernel
  obtain ⟨s, h, inserts⟩ := Option.map_eq_some_iff.mp history
  have delivered : Along step Delivered (State.initial fun _ => none) answered :=
    fun _ _ => ⟨trivial, fun _ _ => ⟨rfl, fun _ _ => ⟨trivial, fun _ _ => ⟨trivial, trivial⟩⟩⟩⟩
  exact ⟨s, h, by simp [inserts], (coordinated_iff_delivered h).mpr delivered⟩

/-- The client goes away before its 202. -/
def unanswered : List Event := [.post 0 ⟨"id=o1&amount=20", "c0"⟩ 1, .respond 0 false]

theorem unanswered_order_uncoordinated : ¬ ∀ s, run step (State.initial fun _ => none) unanswered = some s →
    Coordinated s := by
  intro law
  have history : (run step (State.initial fun _ => none) unanswered).map
      (fun s => (s.inserts, s.started, s.posts 0)) =
      some ([(0, "o1")], [], .broken ⟨"id=o1&amount=20", "c0"⟩ ⟨"o1", "BUY", "ACC-001", "ACC-002", .fin 20, "c0"⟩) := by
    decide +kernel
  obtain ⟨s, h, shown⟩ := Option.map_eq_some_iff.mp history
  obtain ⟨inserts, rest⟩ := Prod.mk.inj shown
  obtain ⟨started, phase⟩ := Prod.mk.inj rest
  obtain ⟨o, member, -⟩ := law s h 0 "o1" (by simp [inserts]) (broken_finished phase)
  simp [started] at member

end PolyglotInfinity.Orders
