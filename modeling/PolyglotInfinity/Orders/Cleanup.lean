import PolyglotInfinity.Orders.Benchmark

/-!
# What a benchmark leaves behind

No task of a run inserts anything once the run's latch is at zero, so a DELETE
that begins then sees every row the run has inserted.
-/

namespace PolyglotInfinity.Orders.Benchmark

open Transition (run)

variable {s s' : State} {b b' : Run} {r i : ℕ}

/-- The latch was at zero when the DELETE saw the table. -/
def RunPhase.clean : RunPhase → Bool
  | deleting clean _ _ | deleted clean => clean
  | _ => false

def outstanding (tasks : ℕ × ℕ → TaskPhase) (r n : ℕ) : Finset ℕ :=
  (Finset.range n).filter fun i => tasks (r, i) ≠ .done

structure RunSound (s : State) (r : ℕ) (b : Run) : Prop where
  bound : b.submitted ≤ b.n
  latch : b.latch = (outstanding s.tasks r b.n).card
  clean : b.phase.clean = true → b.latch = 0
  matched : ∀ e ∈ b.phase.seen, b.idPrefix.toList <+: e.id.toList
  held : ∀ e ∈ b.phase.held, s.db.lock e.id = some (cleanerTx r)
  swept : b.phase.clean = true → ∀ e ∈ s.heap, ∀ i, e.author = some (r, i) → e ∈ b.phase.seen

structure Sound (s : State) : Prop where
  safe : RowLock.Safe applyEvent s.db
  listed : ∀ id row, s.db.table id = some row → ∃ e ∈ s.heap, e.id = id
  calls : ∀ r i k, (s.db.txs (taskTx r i)).key = some k → ∃ b, s.runs r = some b ∧ k = b.id i
  author : ∀ e ∈ s.heap, ∀ r i, e.author = some (r, i) → ∃ b, s.runs r = some b ∧ e.id = b.id i
  locks : ∀ id r, s.db.lock id = some (cleanerTx r) → ∃ b, s.runs r = some b ∧ b.idPrefix.toList <+: id.toList
  cleaners : ∀ r, s.db.txs (cleanerTx r) = .idle
  fresh : ∀ r, s.runs r = none → ∀ i, s.tasks (r, i) = .waiting
  runs : ∀ r b, s.runs r = some b → RunSound s r b

theorem initial_sound (rows : List Row) : Sound (State.initial rows) where
  safe := RowLock.init_safe _
  listed id row found := by
    have found : rows.find? (·.id == id) = some row := found
    obtain ⟨k, bound, here⟩ := List.mem_iff_getElem.mp (List.mem_of_find?_eq_some found)
    refine ⟨⟨row.id, k, none⟩, ?_, by simpa using List.find?_some found⟩
    exact List.mem_map.mpr ⟨(row, k), List.mem_zipIdx_iff_getElem?.mpr (by simp [bound, here]), rfl⟩
  calls r i k on := by simp [State.initial, Db.initial, RowLock.Phase.key] at on
  author e member r i wrote := by
    obtain ⟨x, -, rfl⟩ := List.mem_map.mp member
    cases wrote
  locks id r held := by simp [State.initial, Db.initial] at held
  cleaners r := rfl
  fresh r _ i := rfl
  runs r b found := by cases found

theorem clientTx_ne_cleanerTx (t r : ℕ) : clientTx t ≠ cleanerTx r := by unfold clientTx cleanerTx; omega

theorem taskTx_ne_cleanerTx (r i q : ℕ) : taskTx r i ≠ cleanerTx q := by unfold taskTx cleanerTx; omega

theorem clientTx_ne_taskTx (t r i : ℕ) : clientTx t ≠ taskTx r i := by unfold clientTx taskTx; omega

theorem taskTx_inj {q j : ℕ} (same : taskTx r i = taskTx q j) : r = q ∧ i = j := by
  unfold taskTx at same
  exact Nat.pair_eq_pair.mp (by omega)

@[simp] theorem event_tx (t : ℕ) (m : Move) : (m.event t).tx = t := by cases m <;> rfl

@[simp] theorem event_key (t : ℕ) (m : Move) (db : Db) : (m.event t).key db = (db.txs t).key := by cases m <;> rfl

/-! ### Steps -/

theorem Sound.statement {e : DbEvent} {db : Db} (sound : Sound s) (taken : s.db.step e = some db)
    (owned : ∀ r i k, e.tx = taskTx r i → e.key s.db = some k → ∃ b, s.runs r = some b ∧ k = b.id i)
    (other : ∀ r, e.tx ≠ cleanerTx r) : Sound { s with db } where
  safe := RowLock.step_safe sound.safe taken
  listed id row found := by
    obtain ⟨table, -⟩ | ⟨t, k, call, old, new, -, phase, -, table, -⟩ := RowLock.step_table taken
    · exact sound.listed id row (table ▸ found)
    · by_cases same : id = k
      · subst id
        exact sound.listed k old (sound.safe.updated t k call old new phase).2.1
      · rw [show ({ s with db } : State).db.table = _ from table, Function.update_of_ne same] at found
        exact sound.listed id row found
  calls r i k on := by
    by_cases mine : e.tx = taskTx r i
    · exact owned r i k mine (by rw [← RowLock.step_key taken, mine]; exact on)
    · exact sound.calls r i k (RowLock.step_others taken (Ne.symm mine) ▸ on)
  author := sound.author
  locks id r held := sound.locks id r ((sound.safe.step_lock taken (Ne.symm (other r))).mp held)
  cleaners r := (RowLock.step_others taken (Ne.symm (other r))).trans (sound.cleaners r)
  fresh := sound.fresh
  runs r b found :=
    have before := sound.runs r b found
    { before with
      held := fun e member => (sound.safe.step_lock taken (Ne.symm (other r))).mpr (before.held e member) }

theorem Sound.write {db : Db} {id : String} {f : Row → Row} (sound : Sound s) (taken : s.db.write id f = some db) :
    Sound { s with db } := by
  have safe := sound.safe.write taken
  obtain ⟨-, rfl⟩ := RowLock.write_eq.mp taken
  refine { sound with
    safe
    listed := fun k row found => ?_
    runs := fun r b found => { sound.runs r b found with } }
  by_cases same : k = id
  · subst k
    cases old : s.db.table id with
    | none => simp [old] at found
    | some row' => exact sound.listed id row' old
  · exact sound.listed k row (by simpa [same] using found)

theorem Sound.added {author : Option (ℕ × ℕ)} {id : String} (sound : Sound s)
    (mine : ∀ r i, author = some (r, i) → ∃ b, s.runs r = some b ∧ id = b.id i ∧ b.phase.clean = false)
    (added : Added s author id s') : Sound s' := by
  cases added with
  | conflict => exact sound
  | @inserted row absent =>
    refine { sound with
      safe := sound.safe.insert absent row
      listed := fun k row' found => ?_
      author := fun e member r i wrote => ?_
      runs := fun r b found => { sound.runs r b found with swept := fun swept e member i wrote => ?_ } }
    · by_cases same : k = id
      · subst k
        exact ⟨_, List.mem_append_right _ (List.mem_singleton_self _), rfl⟩
      · obtain ⟨e, member, at_id⟩ := sound.listed k row' (by simpa [RowLock.Store.put, same] using found)
        exact ⟨e, List.mem_append_left _ member, at_id⟩
    · rw [List.mem_append, List.mem_singleton] at member
      obtain old | rfl := member
      · exact sound.author e old r i wrote
      · obtain ⟨b, found, at_id, -⟩ := mine r i wrote
        exact ⟨b, found, at_id⟩
    · rw [List.mem_append, List.mem_singleton] at member
      obtain old | rfl := member
      · exact (sound.runs r b found).swept swept e old i wrote
      · obtain ⟨b', found', -, unswept⟩ := mine r i wrote
        obtain rfl := Option.some.inj (found.symm.trans found')
        exact absurd swept (by simp [unswept])

/-- A task goes on, and is not done. -/
theorem Sound.setTask {p : TaskPhase} (sound : Sound s) (started : s.runs r = some b)
    (before : s.tasks (r, i) ≠ .done) (after : p ≠ .done) : Sound (s.setTask r i p) where
  safe := sound.safe
  listed := sound.listed
  calls := sound.calls
  author := sound.author
  locks := sound.locks
  cleaners := sound.cleaners
  fresh q none j := by
    have other : q ≠ r := by rintro rfl; cases started.symm.trans none
    simpa [other] using sound.fresh q none j
  runs q b found := by
    have same : outstanding (s.setTask r i p).tasks q b.n = outstanding s.tasks q b.n := by
      refine Finset.filter_congr fun j _ => ?_
      by_cases here : (q, j) = (r, i)
      · simp [here, before, after]
      · simp [here]
    exact { sound.runs q b found with latch := same ▸ (sound.runs q b found).latch }

/-- A run that is written again under its ids is still there. -/
theorem runs_kept {q : ℕ} (same : ∀ b', s.runs r = some b' → b.idPrefix = b'.idPrefix) (found : s.runs q = some b') :
    ∃ c, Function.update s.runs r (some b) q = some c ∧ c.idPrefix = b'.idPrefix := by
  by_cases mine : q = r
  · subst q
    exact ⟨b, Function.update_self _ _ _, same b' found⟩
  · exact ⟨b', (Function.update_of_ne mine _ _).trans found, rfl⟩

theorem named_kept {q j : ℕ} {k : String} (same : ∀ b', s.runs r = some b' → b.idPrefix = b'.idPrefix)
    (named : ∃ b', s.runs q = some b' ∧ k = b'.id j) :
    ∃ c, Function.update s.runs r (some b) q = some c ∧ k = c.id j := by
  obtain ⟨b', found, rfl⟩ := named
  obtain ⟨c, found, front⟩ := runs_kept same found
  exact ⟨c, found, by rw [Run.id, Run.id, front]⟩

theorem front_kept {q : ℕ} {k : String} (same : ∀ b', s.runs r = some b' → b.idPrefix = b'.idPrefix)
    (front : ∃ b', s.runs q = some b' ∧ b'.idPrefix.toList <+: k.toList) :
    ∃ c, Function.update s.runs r (some b) q = some c ∧ c.idPrefix.toList <+: k.toList := by
  obtain ⟨b', found, front⟩ := front
  obtain ⟨c, found, same⟩ := runs_kept same found
  exact ⟨c, found, same ▸ front⟩

theorem same_front (found : s.runs r = some b) (same : b'.idPrefix = b.idPrefix) :
    ∀ c, s.runs r = some c → b'.idPrefix = c.idPrefix := fun c here => by
  obtain rfl := Option.some.inj (found.symm.trans here)
  exact same

theorem Sound.update {tasks : ℕ × ℕ → TaskPhase} (sound : Sound s)
    (same : ∀ b', s.runs r = some b' → b.idPrefix = b'.idPrefix)
    (others : ∀ q ≠ r, ∀ j, tasks (q, j) = s.tasks (q, j)) (ok : RunSound { s with tasks } r b) :
    Sound ({ s with tasks }.setRun r b) := by
  refine
    { safe := sound.safe
      listed := sound.listed
      calls := fun q j k on => named_kept same (sound.calls q j k on)
      author := fun e member q j wrote => named_kept same (sound.author e member q j wrote)
      locks := fun id q held => front_kept same (sound.locks id q held)
      cleaners := sound.cleaners
      fresh := fun q none j => ?_
      runs := fun q c found => ?_ }
  · by_cases mine : q = r
    · subst q
      simp at none
    · exact (others q mine j).trans (sound.fresh q (by simpa [mine] using none) j)
  · by_cases mine : q = r
    · subst q
      obtain rfl : b = c := by simpa using found
      exact { ok with }
    · have before := sound.runs q c (by simpa [mine] using found)
      have going : outstanding tasks q c.n = outstanding s.tasks q c.n :=
        Finset.filter_congr fun j _ => by rw [others q mine j]
      exact { before with latch := before.latch.trans (congrArg Finset.card going.symm) }

theorem Sound.setRun (sound : Sound s) (same : ∀ b', s.runs r = some b' → b.idPrefix = b'.idPrefix)
    (ok : RunSound s r b) : Sound (s.setRun r b) :=
  sound.update same (fun _ _ _ => rfl) ok

theorem RunSound.all_done (ok : RunSound s r b) (clean : b.phase.clean = true) (task : i < b.n) :
    s.tasks (r, i) = .done := by
  have none : outstanding s.tasks r b.n = ∅ := Finset.card_eq_zero.mp (ok.latch.symm.trans (ok.clean clean))
  by_contra going
  have member : i ∈ outstanding s.tasks r b.n := Finset.mem_filter.mpr ⟨Finset.mem_range.mpr task, going⟩
  simp [none] at member

theorem Sound.lock {id : String} (sound : Sound s) (found : s.runs r = some b) (front : b.idPrefix.toList <+: id.toList)
    (free : s.db.lock id = none) : Sound { s with db := s.db.setLock id (some (cleanerTx r)) } := by
  have kept : ∀ {k u}, s.db.lock k = some u → (s.db.setLock id (some (cleanerTx r))).lock k = some u := by
    intro k u held
    have other : k ≠ id := by rintro rfl; simp [free] at held
    simpa [RowLock.Store.setLock, other] using held
  have idle : ∀ {p}, (s.db.setLock id (some (cleanerTx r))).txs (cleanerTx r) = p → p = .idle := by
    intro p phase
    exact phase.symm.trans (sound.cleaners r)
  refine { sound with
    safe := sound.safe.frame (cleanerTx r) (fun _ _ => rfl) (fun _ _ _ held => ⟨kept held, rfl⟩)
      (fun _ _ _ phase => absurd (idle phase) (by simp)) fun _ _ _ _ phase => absurd (idle phase) (by simp)
    locks := fun k q held => ?_
    runs := fun q c found =>
      have before := sound.runs q c found
      { before with held := fun e member => kept (before.held e member) } }
  by_cases same : k = id
  · subst k
    have mine : cleanerTx r = cleanerTx q := by simpa [RowLock.Store.setLock] using held
    obtain rfl : r = q := by unfold cleanerTx at mine; omega
    exact ⟨b, found, front⟩
  · exact sound.locks k q (by simpa [RowLock.Store.setLock, same] using held)

theorem release_lock {db : Db} {held : List Tuple} {t u : ℕ} {k : String} (every : ∀ e ∈ held, db.lock e.id = some t)
    (other : u ≠ t) : (release db held).lock k = some u ↔ db.lock k = some u := by
  simp only [release, Option.ite_none_left_eq_some, and_iff_right_iff_imp]
  intro locked mine
  obtain ⟨e, member, at_k⟩ := List.any_eq_true.mp mine
  have taken := every e member
  rw [beq_iff_eq.mp at_k, locked, Option.some.injEq] at taken
  exact other taken

/-- The DELETE ends and lets go of its locks. -/
theorem Sound.ends {db : Db} {heap : List Tuple} {p : RunPhase} (sound : Sound s) (found : s.runs r = some b)
    (lock : db.lock = (release s.db b.phase.held).lock) (txs : db.txs = s.db.txs)
    (table : ∀ k u, u ≠ cleanerTx r → s.db.lock k = some u → db.table k = s.db.table k)
    (listed : ∀ id row, db.table id = some row → ∃ e ∈ heap, e.id = id) (fewer : ∀ e ∈ heap, e ∈ s.heap)
    (empty : p.seen = [] ∧ p.held = []) (clean : p.clean = true → b.phase.clean = true)
    (gone : p.clean = true → ∀ e ∈ heap, ∀ i, e.author ≠ some (r, i)) :
    Sound ({ s with db, heap }.setRun r { b with phase := p }) := by
  have mine := sound.runs r b found
  have freed : ∀ {k u}, u ≠ cleanerTx r → (db.lock k = some u ↔ s.db.lock k = some u) := fun other => by
    rw [lock]
    exact release_lock mine.held other
  have idle : ∀ {q}, db.txs (cleanerTx r) = q → q = .idle := fun phase => by
    rw [← phase, txs]
    exact sound.cleaners r
  have same : ∀ b', s.runs r = some b' → { b with phase := p }.idPrefix = b'.idPrefix := same_front found rfl
  have distinct : ∀ {q}, q ≠ r → cleanerTx q ≠ cleanerTx r := fun other => by unfold cleanerTx; omega
  refine
    { safe := sound.safe.frame (cleanerTx r) (fun _ _ => congrFun txs _)
        (fun k u other held => ⟨(freed other).mpr held, table k u other held⟩)
        (fun _ _ _ phase => absurd (idle phase) (by simp)) fun _ _ _ _ phase => absurd (idle phase) (by simp)
      listed
      calls := fun q j k on => named_kept same (sound.calls q j k (by rw [← txs]; exact on))
      author := fun e member q j wrote => named_kept same (sound.author e (fewer e member) q j wrote)
      locks := fun id q held => front_kept same (sound.locks id q ?_)
      cleaners := fun q => (congrFun txs _).trans (sound.cleaners q)
      fresh := fun q none j => ?_
      runs := fun q c here => ?_ }
  · by_cases same : q = r
    · subst q
      have held : (release s.db b.phase.held).lock id = some (cleanerTx r) := by rw [← lock]; exact held
      exact (Option.ite_none_left_eq_some.mp held).2
    · exact (freed (distinct same)).mp held
  · have other : q ≠ r := by rintro rfl; simp at none
    exact sound.fresh q (by simpa [other] using none) j
  · by_cases same : q = r
    · subst q
      obtain rfl : { b with phase := p } = c := by simpa using here
      exact
        { bound := mine.bound
          latch := mine.latch
          clean := fun ended => mine.clean (clean ended)
          matched := by simp [empty]
          held := by simp [empty]
          swept := fun swept e member i wrote => absurd wrote (gone swept e member i) }
    · have before := sound.runs q c (by simpa [same] using here)
      exact
        { before with
          held := fun e member => (freed (distinct same)).mpr (before.held e member)
          swept := fun swept e member i wrote => before.swept swept e (fewer e member) i wrote }

theorem Sound.countDown (sound : Sound s) (h : s.countDown r i = some s') : Sound s' := by
  obtain ⟨b, found, submitted, going, rfl⟩ := countDown_eq h
  have ok := sound.runs r b found
  have mine : i ∈ outstanding s.tasks r b.n :=
    Finset.mem_filter.mpr ⟨Finset.mem_range.mpr (submitted.trans_le ok.bound), going⟩
  have rest : outstanding (s.setTask r i .done).tasks r b.n = (outstanding s.tasks r b.n).erase i := by
    ext j
    simp only [outstanding, Finset.mem_erase, Finset.mem_filter, setTask_tasks, Function.update_apply, Prod.mk.injEq,
      true_and]
    by_cases same : j = i <;> simp [same]
  refine sound.update (same_front found rfl) (fun q other j => by simp [other]) { ok with latch := ?_, clean := ?_ }
  · rw [show ({ s with tasks := _ } : State).tasks = (s.setTask r i .done).tasks from rfl, rest,
      Finset.card_erase_of_mem mine, ← ok.latch]
  · exact fun clean => Nat.sub_eq_zero_of_le ((ok.clean clean).trans_le (Nat.zero_le 1))

theorem Sound.client {e : ClientEvent} (sound : Sound s) (h : s.client e = some s') : Sound s' := by
  obtain ⟨t, id, type, now, rfl, added⟩ | ⟨db, taken, rfl, notPost⟩ := client_eq h
  · exact sound.added (fun _ _ wrote => by cases wrote) added
  · have mine : ∀ {e : DbEvent} {t : ℕ}, e.tx = clientTx t → s.db.step e = some db → Sound { s with db } :=
      fun client taken => sound.statement taken
        (fun r i k task => absurd (client.symm.trans task) (clientTx_ne_taskTx _ r i))
        fun r => client.trans_ne (clientTx_ne_cleanerTx _ r)
    cases e with
    | post t id type now => exact absurd rfl (notPost t id type now)
    | finish t id status now => exact sound.write taken
    | call t id call => exact mine (e := .begin (clientTx t) id call) rfl taken
    | move t m => exact mine (event_tx _ m) taken

theorem Sound.insert {now : ℤ} (sound : Sound s) (h : s.insert r i now = some s') : Sound s' := by
  obtain ⟨b, t, found, submitted, waiting, added, rfl⟩ := insert_eq h
  have ok := sound.runs r b found
  -- The task has not counted down, so a DELETE that follows from a latch at zero is not under way.
  have unswept : b.phase.clean = false := by
    rw [Bool.eq_false_iff]
    intro swept
    cases waiting.symm.trans (ok.all_done swept (submitted.trans_le ok.bound))
  have next := sound.added (fun q j wrote => by
    obtain ⟨rfl, rfl⟩ : r = q ∧ i = j := by simpa using wrote
    exact ⟨b, found, rfl, unswept⟩) added
  have same : t.runs = s.runs ∧ t.tasks = s.tasks := by cases added <;> exact ⟨rfl, rfl⟩
  exact next.setTask (same.1 ▸ found) (by simp [same.2, waiting]) (by simp)

theorem Sound.call {now : ℤ} (sound : Sound s) (h : s.call r i now = some s') : Sound s' := by
  obtain ⟨b, db, found, inserted, taken, rfl⟩ := call_eq h
  have next := sound.statement taken
    (fun q j k task on => by
      obtain ⟨rfl, rfl⟩ := taskTx_inj task
      exact ⟨b, found, (Option.some.inj on).symm⟩)
    fun q => taskTx_ne_cleanerTx r i q
  exact next.setTask found (by simp [inserted]) (by simp)

theorem Sound.delete (sound : Sound s) (h : s.delete r = some s') : Sound s' := by
  obtain ⟨b, found, phase, rfl⟩ := delete_eq h
  have ok := sound.runs r b found
  refine sound.setRun (same_front found rfl)
    { ok with
      clean := fun ended => beq_iff_eq.mp ended
      matched := fun e seen => ?_
      held := nofun
      swept := fun _ e member i wrote => ?_ }
  · rw [RunPhase.seen, List.append_nil] at seen
    exact matched_iff.mp (List.mem_filter.mp seen).2
  -- The scan meets every row in the heap, and the ids of the run match its pattern.
  · obtain ⟨b', here, at_id⟩ := sound.author e member r i wrote
    obtain rfl := Option.some.inj (found.symm.trans here)
    rw [RunPhase.seen, List.append_nil]
    exact List.mem_filter.mpr ⟨member, matched_iff.mpr (at_id ▸ idPrefix_id b i)⟩

theorem Sound.lockNext (sound : Sound s) (h : s.lockNext r = some s') : Sound s' := by
  obtain ⟨b, clean, e, pending, held, found, phase, ⟨free, rfl⟩ | ⟨gone, rfl⟩⟩ := lockNext_eq h
  -- The row moves from those that are still to come to those that are held.
  · have front := (sound.runs r b found).matched e (by simp [phase, RunPhase.seen])
    have next := sound.lock found front free
    have ok := next.runs r b found
    have seen : ∀ x, x ∈ (RunPhase.deleting clean pending (held ++ [e])).seen ↔ x ∈ b.phase.seen := by
      intro x
      simp only [phase, RunPhase.seen, List.mem_append, List.mem_cons, List.not_mem_nil, or_false]
      tauto
    refine next.setRun (same_front found rfl)
      { ok with
        clean := fun ended => ok.clean (by rw [phase]; exact ended)
        matched := fun x member => ok.matched x ((seen x).mp member)
        held := fun x member => ?_
        swept := fun swept x member i wrote =>
          (seen x).mpr (ok.swept (by rw [phase]; exact swept) x member i wrote) }
    rw [RunPhase.held, List.mem_append, List.mem_singleton] at member
    obtain old | rfl := member
    · exact ok.held x (by rw [phase]; exact old)
    · exact Function.update_self _ _ _
  -- The row is gone from the heap, so it is none that the run would have to delete.
  · have ok := sound.runs r b found
    refine sound.setRun (same_front found rfl)
      { ok with
        clean := fun ended => ok.clean (by rw [phase]; exact ended)
        matched := fun x member => ok.matched x (by
          rw [phase, RunPhase.seen, List.cons_append]
          exact List.mem_cons_of_mem _ member)
        held := fun x member => ok.held x (by rw [phase]; exact member)
        swept := fun swept x member i wrote => ?_ }
    have seen := ok.swept (by rw [phase]; exact swept) x member i wrote
    rw [phase, RunPhase.seen, List.cons_append, List.mem_cons] at seen
    obtain rfl | later := seen
    · exact absurd member gone
    · exact later

theorem Sound.deleteCommits (sound : Sound s) (h : s.deleteCommits r = some s') : Sound s' := by
  obtain ⟨b, clean, held, found, phase, rfl⟩ := deleteCommits_eq h
  have ok := sound.runs r b found
  have mine : ∀ k, held.any (·.id == k) = true → s.db.lock k = some (cleanerTx r) := by
    intro k any
    obtain ⟨e, member, at_k⟩ := List.any_eq_true.mp any
    exact beq_iff_eq.mp at_k ▸ ok.held e (by rw [phase]; exact member)
  refine sound.ends found (by rw [phase]; rfl) rfl (fun k u other locked => ?_) (fun id row here => ?_)
    (fun e member => (List.mem_filter.mp member).1) ⟨rfl, rfl⟩ (fun ended => by rw [phase]; exact ended)
    fun swept e member i wrote => ?_
  · refine if_neg fun any => other ?_
    exact Option.some.inj (locked.symm.trans (mine k any))
  · obtain ⟨others, here⟩ := Option.ite_none_left_eq_some.mp here
    obtain ⟨e, member, rfl⟩ := sound.listed id row here
    refine ⟨e, List.mem_filter.mpr ⟨member, ?_⟩, rfl⟩
    simp only [decide_eq_true_eq]
    exact fun inside => others (List.any_eq_true.mpr ⟨e, inside, by simp⟩)
  -- What the run inserted was seen, and what was seen is now held and deleted.
  · obtain ⟨there, kept⟩ := List.mem_filter.mp member
    have seen := ok.swept (by rw [phase]; exact swept) e there i wrote
    rw [phase, RunPhase.seen, List.nil_append] at seen
    exact (of_decide_eq_true kept) seen

theorem step_sound {e : Event} (sound : Sound s) (h : step s e = some s') : Sound s' := by
  cases e with
  | client e => exact sound.client h
  | start r n virtual nano =>
    obtain ⟨fresh, rfl⟩ := start_eq h
    have waiting : outstanding s.tasks r n = Finset.range n :=
      Finset.filter_true_of_mem fun j _ => by simp [sound.fresh r fresh j]
    exact sound.setRun (fun b' here => nomatch fresh.symm.trans here)
      { bound := Nat.zero_le n
        latch := by rw [waiting, Finset.card_range]
        clean := nofun
        matched := nofun
        held := nofun
        swept := nofun }
  | submit r =>
    obtain ⟨b, found, phase, more, rfl⟩ := submit_eq h
    exact sound.setRun (same_front found rfl) { sound.runs r b found with bound := more }
  | insert r i now => exact sound.insert h
  | call r i now => exact sound.call h
  | move r i m =>
    obtain ⟨db, taken, rfl⟩ := Option.map_eq_some_iff.mp h
    refine sound.statement taken (fun q j k task on => ?_) fun q => ?_
    · rw [event_tx] at task
      obtain ⟨rfl, rfl⟩ := taskTx_inj task
      rw [event_key] at on
      exact sound.calls _ _ k on
    · rw [event_tx]
      exact taskTx_ne_cleanerTx r i q
  | countDown r i => exact sound.countDown h
  | leave r =>
    obtain ⟨b, found, phase, rfl⟩ := leave_eq h
    exact sound.setRun (same_front found rfl)
      { sound.runs r b found with
        clean := nofun
        matched := nofun
        held := nofun
        swept := nofun }
  | delete r => exact sound.delete h
  | lockNext r => exact sound.lockNext h
  | deleteCommits r => exact sound.deleteCommits h
  | deleteFails r =>
    obtain ⟨b, found, rfl⟩ := deleteFails_eq h
    exact sound.ends found rfl rfl (fun _ _ _ _ => rfl) sound.listed (fun _ member => member) ⟨rfl, rfl⟩
      (fun clean => absurd clean Bool.false_ne_true) fun swept => absurd swept Bool.false_ne_true

theorem run_sound {rows : List Row} {events : List Event} (h : run step (State.initial rows) events = some s) :
    Sound s :=
  Transition.run_invariant (fun _ _ _ sound taken => step_sound sound taken) (initial_sound rows) h

/-- Once a run whose latch was at zero before its DELETE has had that, a row with an id like
its own is not of its making, and not of another run's with another mode or stamp. -/
theorem benchmark_cleans_up {rows : List Row} {events : List Event}
    (h : run step (State.initial rows) events = some s) (started : s.runs r = some b) (ended : b.phase = .deleted true)
    {id : String} {row : Row} (found : s.db.table id = some row) (front : b.idPrefix.toList <+: id.toList) :
    (∃ e ∈ s.heap, e.id = id) ∧ ∀ e ∈ s.heap, e.id = id → ∀ q i, e.author = some (q, i) →
      q ≠ r ∧ ∃ c, s.runs q = some c ∧ c.virtual = b.virtual ∧ c.nano = b.nano := by
  have sound := run_sound h
  refine ⟨sound.listed id row found, ?_⟩
  rintro e member rfl q i wrote
  constructor
  · rintro rfl
    have seen := (sound.runs q b started).swept (by rw [ended]; rfl) e member i wrote
    simp [ended, RunPhase.seen] at seen
  · obtain ⟨c, here, at_id⟩ := sound.author e member q i wrote
    exact ⟨c, here, idPrefix_unique (at_id ▸ front)⟩

/-- A run of two tasks, left by the timeout before the last one ends, and a second run with its stamp. -/
def session : List Event :=
  [.start 0 2 false 5, .submit 0, .insert 0 0 1, .submit 0, .call 0 0 2, .client (.post 0 "o1" "SELL" 3),
    .move 0 0 .select, .insert 0 1 3, .move 0 0 .update, .move 0 0 .commit, .countDown 0 0, .leave 0, .countDown 0 1,
    .delete 0, .lockNext 0, .lockNext 0, .deleteCommits 0, .start 1 1 false 5, .submit 1, .insert 1 0 4]

theorem benchmark_cleans_up_session : ∃ s b row, run step (State.initial []) session = some s ∧ s.runs 0 = some b ∧
    s.db.table "pt-bench-5-0" = some row ∧ (∃ e ∈ s.heap, e.id = "pt-bench-5-0" ∧ e.author = some (1, 0)) ∧
    (∃ e ∈ s.heap, e.id = "pt-bench-5-0") ∧ ∀ e ∈ s.heap, e.id = "pt-bench-5-0" → ∀ q i, e.author = some (q, i) →
      q ≠ 0 ∧ ∃ c, s.runs q = some c ∧ c.virtual = b.virtual ∧ c.nano = b.nano := by
  let b : Run := ⟨2, false, 5, 2, 0, .deleted true⟩
  let row : Row := ⟨"pt-bench-5-0", "BUY", .ordered, 4, 4⟩
  have history : (run step (State.initial []) session).map (fun s =>
      (s.runs 0, s.db.table "pt-bench-5-0", s.heap)) =
      some (some b, some row, [⟨"o1", 1, none⟩, ⟨"pt-bench-5-0", 3, some (1, 0)⟩]) := by
    decide +kernel
  obtain ⟨s, h, last⟩ := Option.map_eq_some_iff.mp history
  obtain ⟨started, last⟩ := Prod.mk.inj last
  obtain ⟨found, heap⟩ := Prod.mk.inj last
  have front : b.idPrefix.toList <+: "pt-bench-5-0".toList := by decide +kernel
  have again : ⟨"pt-bench-5-0", 3, some (1, 0)⟩ ∈ s.heap := by simp [heap]
  exact ⟨s, b, row, h, started, found, ⟨_, again, rfl, rfl⟩, benchmark_cleans_up h started rfl found front⟩

/-- Left by the timeout, the same run inserts after its DELETE has begun. -/
example : (run step (State.initial []) [.start 0 1 false 5, .submit 0, .leave 0, .delete 0, .insert 0 0 1,
    .deleteCommits 0]).map (fun s => s.heap) = some [⟨"pt-bench-5-0", 0, some (0, 0)⟩] := by
  decide +kernel

end PolyglotInfinity.Orders.Benchmark
