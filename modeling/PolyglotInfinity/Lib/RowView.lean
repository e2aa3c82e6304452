import PolyglotInfinity.Lib.RowLock

/-!
# A store seen through some of its rows

`Store.restrict` forgets every row that is not kept, with its lock, the
transactions on it and their commits. No transaction reads or locks a row other
than its own, so a store restricted is a store of its own: what happens on the
kept rows happens there, step by step, and what happens on the others is not
seen.
-/

namespace RowLock

variable {Key Val Req : Type}

def Phase.key : Phase Key Val Req → Option Key
  | idle => none
  | begun k _ | locked k _ _ | updated k _ _ _ | notFound k _ | refused k _ _ | committed k _ _ _
  | aborted k _ => some k

def kept {α : Type} (keep : Key → Bool) (f : Key → Option α) : Key → Option α :=
  fun k => if keep k then f k else none

def Store.restrict (keep : Key → Bool) (s : Store Key Val Req) : Store Key Val Req where
  table := kept keep s.table
  lock := kept keep s.lock
  txs t := if (s.txs t).key.any keep then s.txs t else .idle
  log := s.log.filter fun c => keep c.key

def Event.key (s : Store Key Val Req) : Event Key Req → Option Key
  | .begin _ k _ => some k
  | .select t | .update t | .commit t | .abort t => (s.txs t).key

variable [DecidableEq Key] {keep : Key → Bool} {next : Req → Val → Option Val} {s s' : Store Key Val Req}

/-! ### What a step leaves alone -/

theorem step_key {e : Event Key Req} (h : step next s e = some s') : (s'.txs e.tx).key = e.key s := by
  cases e with
  | begin t k r => obtain ⟨-, rfl⟩ := begin_eq.mp h; simp [Event.tx, Event.key, Phase.key]
  | select t =>
    obtain ⟨k, r, phase, ⟨-, rfl⟩ | ⟨v, -, -, rfl⟩⟩ := select_eq.mp h <;>
      simp [Event.tx, Event.key, phase, Phase.key]
  | update t =>
    obtain ⟨k, r, v, phase, ⟨-, rfl⟩ | ⟨v', -, rfl⟩⟩ := update_eq.mp h <;>
      simp [Event.tx, Event.key, phase, Phase.key]
  | commit t =>
    obtain ⟨k, r, v, v', phase, rfl⟩ := commit_eq.mp h
    simp [Event.tx, Event.key, phase, Phase.key]
  | abort t =>
    obtain ⟨k, r, phase, rfl⟩ | ⟨k, r, v, phase | ⟨v', phase⟩, rfl⟩ := abort_eq.mp h <;>
      simp [Event.tx, Event.key, phase, Phase.key]

theorem step_on {e : Event Key Req} (h : step next s e = some s') : ∃ k, e.key s = some k := by
  cases e with
  | begin t k r => exact ⟨k, rfl⟩
  | select t => obtain ⟨k, r, phase, -⟩ := select_eq.mp h; exact ⟨k, by simp [Event.key, phase, Phase.key]⟩
  | update t => obtain ⟨k, r, v, phase, -⟩ := update_eq.mp h; exact ⟨k, by simp [Event.key, phase, Phase.key]⟩
  | commit t => obtain ⟨k, r, v, v', phase, -⟩ := commit_eq.mp h; exact ⟨k, by simp [Event.key, phase, Phase.key]⟩
  | abort t =>
    obtain ⟨k, r, phase, -⟩ | ⟨k, r, v, phase | ⟨v', phase⟩, -⟩ := abort_eq.mp h <;>
      exact ⟨k, by simp [Event.key, phase, Phase.key]⟩

/-- A lock stays with its holder until a step of the holder's own. -/
theorem Safe.step_lock {e : Event Key Req} {k : Key} {u : Nat} (safe : Safe next s) (h : step next s e = some s')
    (ne : u ≠ e.tx) : s'.lock k = some u ↔ s.lock k = some u := by
  have freed : ∀ {j t}, s.lock j = some t → u ≠ t →
      ((s.setLock j none).lock k = some u ↔ s.lock k = some u) := by
    intro j t held other
    by_cases same : k = j
    · subst k
      simp [Store.setLock, held, Ne.symm other]
    · simp [Store.setLock, same]
  cases e with
  | begin t j r => obtain ⟨-, rfl⟩ := begin_eq.mp h; rfl
  | select t =>
    obtain ⟨j, r, -, ⟨-, rfl⟩ | ⟨v, -, free, rfl⟩⟩ := select_eq.mp h
    · rfl
    · by_cases same : k = j
      · subst k
        have other : t ≠ u := Ne.symm ne
        simp [Store.enter, Store.setLock, free, other]
      · simp [Store.enter, Store.setLock, same]
  | update t =>
    obtain ⟨j, r, v, phase, ⟨-, rfl⟩ | ⟨v', -, rfl⟩⟩ := update_eq.mp h
    · exact freed (safe.locked t j r v phase).1 ne
    · rfl
  | commit t =>
    obtain ⟨j, r, v, v', phase, rfl⟩ := commit_eq.mp h
    exact freed (safe.updated t j r v v' phase).1 ne
  | abort t =>
    obtain ⟨j, r, -, rfl⟩ | ⟨j, r, v, phase | ⟨v', phase⟩, rfl⟩ := abort_eq.mp h
    · rfl
    · exact freed (safe.locked t j r v phase).1 ne
    · exact freed (safe.updated t j r v v' phase).1 ne

/-! ### The restricted store -/

omit [DecidableEq Key] in
theorem restrict_enter (t : Nat) (p : Phase Key Val Req) :
    (s.enter t p).restrict keep = (s.restrict keep).enter t (if p.key.any keep then p else .idle) := by
  simp only [Store.enter, Store.restrict, Store.mk.injEq, true_and, and_true]
  funext u
  by_cases same : u = t
  · subst u; simp
  · simp [same]

theorem kept_update {α : Type} (f : Key → Option α) (k : Key) (v : Option α) :
    kept keep (Function.update f k v) = if keep k then Function.update (kept keep f) k v else kept keep f := by
  funext j
  by_cases same : j = k
  · subst j
    cases held : keep k <;> simp [kept, held]
  · split <;> simp [kept, same]

theorem restrict_setLock (k : Key) (holder : Option Nat) : (s.setLock k holder).restrict keep =
    if keep k then (s.restrict keep).setLock k holder else s.restrict keep := by
  simp only [Store.setLock, Store.restrict, kept_update]
  split <;> rfl

theorem restrict_table (k : Key) (v : Option Val) :
    ({ s with table := Function.update s.table k v } : Store Key Val Req).restrict keep =
      if keep k then { s.restrict keep with table := Function.update (s.restrict keep).table k v }
      else s.restrict keep := by
  simp only [Store.restrict, kept_update]
  split <;> rfl

omit [DecidableEq Key] in
theorem restrict_log (c : Commit Key Val Req) :
    ({ s with log := s.log ++ [c] } : Store Key Val Req).restrict keep =
      if keep c.key then { s.restrict keep with log := (s.restrict keep).log ++ [c] } else s.restrict keep := by
  cases held : keep c.key <;> simp [Store.restrict, held]

omit [DecidableEq Key] in
theorem restrict_txs {t : Nat} {k : Key} (on : (s.txs t).key = some k) :
    (s.restrict keep).txs t = if keep k then s.txs t else .idle := by
  simp [Store.restrict, on]

omit [DecidableEq Key] in
theorem enter_idle {t : Nat} (idle : s.txs t = .idle) : s.enter t .idle = s := by
  rw [Store.enter, ← idle, Function.update_eq_self]

theorem restrict_kept {e : Event Key Req} {k : Key} (on : e.key s = some k) (held : keep k = true)
    (h : step next s e = some s') : step next (s.restrict keep) e = some (s'.restrict keep) := by
  cases e with
  | begin t j r =>
    obtain ⟨idle, rfl⟩ := begin_eq.mp h
    obtain rfl : j = k := Option.some.inj on
    rw [begin_eq, restrict_enter]
    exact ⟨by simp [Store.restrict, idle, Phase.key], by simp [Phase.key, held]⟩
  | select t =>
    obtain ⟨j, r, phase, cases⟩ := select_eq.mp h
    obtain rfl : j = k := by simpa [Event.key, phase, Phase.key] using on
    have seen : (s.restrict keep).txs t = .begun j r := by rw [restrict_txs on, if_pos held, phase]
    refine select_eq.mpr ⟨j, r, seen, ?_⟩
    obtain ⟨absent, rfl⟩ | ⟨v, row, free, rfl⟩ := cases
    · exact .inl ⟨by simp [Store.restrict, kept, absent], by simp [restrict_enter, Phase.key, held]⟩
    · exact .inr ⟨v, by simp [Store.restrict, kept, held, row], by simp [Store.restrict, kept, free],
        by simp [restrict_enter, restrict_setLock, Phase.key, held]⟩
  | update t =>
    obtain ⟨j, r, v, phase, cases⟩ := update_eq.mp h
    obtain rfl : j = k := by simpa [Event.key, phase, Phase.key] using on
    have seen : (s.restrict keep).txs t = .locked j r v := by rw [restrict_txs on, if_pos held, phase]
    refine update_eq.mpr ⟨j, r, v, seen, ?_⟩
    obtain ⟨refused, rfl⟩ | ⟨v', decided, rfl⟩ := cases
    · exact .inl ⟨refused, by simp [restrict_enter, restrict_setLock, Phase.key, held]⟩
    · exact .inr ⟨v', decided, by simp [restrict_enter, Phase.key, held]⟩
  | commit t =>
    obtain ⟨j, r, v, v', phase, rfl⟩ := commit_eq.mp h
    obtain rfl : j = k := by simpa [Event.key, phase, Phase.key] using on
    have seen : (s.restrict keep).txs t = .updated j r v v' := by rw [restrict_txs on, if_pos held, phase]
    refine commit_eq.mpr ⟨j, r, v, v', seen, ?_⟩
    rw [show s.log = (((s.put j v').setLock j none).enter t (.committed j r v v')).log from rfl, restrict_log]
    simp [restrict_enter, restrict_setLock, Store.put, restrict_table, Phase.key, held]
    rfl
  | abort t =>
    apply abort_eq.mpr
    obtain ⟨j, r, phase, rfl⟩ | ⟨j, r, v, phase, rfl⟩ := abort_eq.mp h
    · obtain rfl : j = k := by simpa [Event.key, phase, Phase.key] using on
      exact .inl ⟨j, r, by rw [restrict_txs on, if_pos held, phase], by simp [restrict_enter, Phase.key, held]⟩
    · obtain rfl : j = k := by
        obtain phase | ⟨v', phase⟩ := phase <;> simpa [Event.key, phase, Phase.key] using on
      refine .inr ⟨j, r, v, ?_, by simp [restrict_enter, restrict_setLock, Phase.key, held]⟩
      rw [restrict_txs on, if_pos held]
      exact phase

theorem restrict_dropped {e : Event Key Req} {k : Key} (on : e.key s = some k) (dropped : keep k = false)
    (h : step next s e = some s') : s'.restrict keep = s.restrict keep := by
  -- A transaction on a key that is left out looks like one that has not begun.
  have idle : ∀ t, (s.txs t).key = some k → (s.restrict keep).txs t = .idle := by
    intro t key
    rw [restrict_txs key, if_neg (by simp [dropped])]
  cases e with
  | begin t j r =>
    obtain ⟨fresh, rfl⟩ := begin_eq.mp h
    obtain rfl : j = k := Option.some.inj on
    have unseen : (s.restrict keep).txs t = .idle := by simp [Store.restrict, fresh]
    simp [restrict_enter, Phase.key, dropped, enter_idle unseen]
  | select t =>
    obtain ⟨j, r, phase, cases⟩ := select_eq.mp h
    obtain rfl : j = k := by simpa [Event.key, phase, Phase.key] using on
    obtain ⟨-, rfl⟩ | ⟨v, -, -, rfl⟩ := cases
    · simp [restrict_enter, Phase.key, dropped, enter_idle (idle t on)]
    · simp [restrict_enter, restrict_setLock, Phase.key, dropped, enter_idle (idle t on)]
  | update t =>
    obtain ⟨j, r, v, phase, cases⟩ := update_eq.mp h
    obtain rfl : j = k := by simpa [Event.key, phase, Phase.key] using on
    obtain ⟨-, rfl⟩ | ⟨v', -, rfl⟩ := cases
    · simp [restrict_enter, restrict_setLock, Phase.key, dropped, enter_idle (idle t on)]
    · simp [restrict_enter, Phase.key, dropped, enter_idle (idle t on)]
  | commit t =>
    obtain ⟨j, r, v, v', phase, rfl⟩ := commit_eq.mp h
    obtain rfl : j = k := by simpa [Event.key, phase, Phase.key] using on
    rw [show s.log = (((s.put j v').setLock j none).enter t (.committed j r v v')).log from rfl, restrict_log]
    simp [restrict_enter, restrict_setLock, Store.put, restrict_table, Phase.key, dropped, enter_idle (idle t on)]
  | abort t =>
    obtain ⟨j, r, phase, rfl⟩ | ⟨j, r, v, phase, rfl⟩ := abort_eq.mp h
    · obtain rfl : j = k := by simpa [Event.key, phase, Phase.key] using on
      simp [restrict_enter, Phase.key, dropped, enter_idle (idle t on)]
    · obtain rfl : j = k := by
        obtain phase | ⟨v', phase⟩ := phase <;> simpa [Event.key, phase, Phase.key] using on
      simp [restrict_enter, restrict_setLock, Phase.key, dropped, enter_idle (idle t on)]

omit [DecidableEq Key] in
theorem restrict_phase {t : Nat} {p : Phase Key Val Req} {k : Key} (seen : (s.restrict keep).txs t = p)
    (on : p.key = some k) : s.txs t = p ∧ keep k = true := by
  simp only [Store.restrict] at seen
  split at seen
  · rename_i any
    subst p
    exact ⟨rfl, by simpa [on] using any⟩
  · subst p
    simp [Phase.key] at on

/-- What is possible in the restricted store is possible in the store itself. -/
theorem restrict_enabled {e : Event Key Req} {d : Store Key Val Req}
    (fresh : ∀ t k r, e = .begin t k r → s.txs t = .idle ∧ keep k = true)
    (h : step next (s.restrict keep) e = some d) : ∃ s', step next s e = some s' ∧ s'.restrict keep = d := by
  have follows : ∀ k s', e.key s = some k → keep k = true → step next s e = some s' →
      ∃ s', step next s e = some s' ∧ s'.restrict keep = d := fun k s' on held taken =>
    ⟨s', taken, Option.some.inj ((restrict_kept on held taken).symm.trans h)⟩
  cases e with
  | begin t k r =>
    obtain ⟨idle, held⟩ := fresh t k r rfl
    exact follows k _ rfl held (begin_eq.mpr ⟨idle, rfl⟩)
  | select t =>
    obtain ⟨k, r, seen, cases⟩ := select_eq.mp h
    obtain ⟨phase, held⟩ := restrict_phase seen rfl
    have on : (Event.select t : Event Key Req).key s = some k := by simp [Event.key, phase, Phase.key]
    obtain ⟨absent, -⟩ | ⟨v, row, free, -⟩ := cases
    · have absent : s.table k = none := by simpa [Store.restrict, kept, held] using absent
      exact follows k _ on held (select_eq.mpr ⟨k, r, phase, .inl ⟨absent, rfl⟩⟩)
    · have row : s.table k = some v := by simpa [Store.restrict, kept, held] using row
      have free : s.lock k = none := by simpa [Store.restrict, kept, held] using free
      exact follows k _ on held (select_eq.mpr ⟨k, r, phase, .inr ⟨v, row, free, rfl⟩⟩)
  | update t =>
    obtain ⟨k, r, v, seen, cases⟩ := update_eq.mp h
    obtain ⟨phase, held⟩ := restrict_phase seen rfl
    have on : (Event.update t : Event Key Req).key s = some k := by simp [Event.key, phase, Phase.key]
    obtain ⟨refused, -⟩ | ⟨v', decided, -⟩ := cases
    · exact follows k _ on held (update_eq.mpr ⟨k, r, v, phase, .inl ⟨refused, rfl⟩⟩)
    · exact follows k _ on held (update_eq.mpr ⟨k, r, v, phase, .inr ⟨v', decided, rfl⟩⟩)
  | commit t =>
    obtain ⟨k, r, v, v', seen, -⟩ := commit_eq.mp h
    obtain ⟨phase, held⟩ := restrict_phase seen rfl
    exact follows k _ (by simp [Event.key, phase, Phase.key]) held (commit_eq.mpr ⟨k, r, v, v', phase, rfl⟩)
  | abort t =>
    obtain ⟨k, r, seen, -⟩ | ⟨k, r, v, seen, -⟩ := abort_eq.mp h
    · obtain ⟨phase, held⟩ := restrict_phase seen rfl
      exact follows k _ (by simp [Event.key, phase, Phase.key]) held (abort_eq.mpr (.inl ⟨k, r, phase, rfl⟩))
    · obtain seen | ⟨v', seen⟩ := seen
      · obtain ⟨phase, held⟩ := restrict_phase seen rfl
        exact follows k _ (by simp [Event.key, phase, Phase.key]) held
          (abort_eq.mpr (.inr ⟨k, r, v, .inl phase, rfl⟩))
      · obtain ⟨phase, held⟩ := restrict_phase seen rfl
        exact follows k _ (by simp [Event.key, phase, Phase.key]) held
          (abort_eq.mpr (.inr ⟨k, r, v, .inr ⟨v', phase⟩, rfl⟩))

/-! ### Inserts and writes outside a transaction -/

theorem restrict_put (k : Key) (v : Val) : (s.put k v).restrict keep =
    if keep k then (s.restrict keep).put k v else s.restrict keep :=
  restrict_table k (some v)

omit [DecidableEq Key] in
theorem restrict_at {k : Key} (held : keep k = true) :
    (s.restrict keep).table k = s.table k ∧ (s.restrict keep).lock k = s.lock k := by
  simp [Store.restrict, kept, held]

theorem write_kept {k : Key} {f : Val → Val} (held : keep k = true) :
    (s.restrict keep).write k f = (s.write k f).map (Store.restrict keep) := by
  obtain ⟨table, lock⟩ := restrict_at (s := s) held
  unfold Store.write
  rw [lock]
  cases s.lock k with
  | none => simp [restrict_table, table, held]
  | some t => rfl

theorem write_dropped {k : Key} {f : Val → Val} (dropped : keep k = false) (h : s.write k f = some s') :
    s'.restrict keep = s.restrict keep := by
  obtain ⟨-, rfl⟩ := write_eq.mp h
  rw [restrict_table, if_neg (by simp [dropped])]

end RowLock
