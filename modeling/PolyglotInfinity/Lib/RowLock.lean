import Mathlib.Logic.Function.Basic
import PolyglotInfinity.Lib.Transition

/-!
# Row-locked read-check-update transactions

A table of rows and any number of transactions, each of which locks one row,
reads it, decides from its request what to write and commits, or rolls back.
The lock is held from the read to the end of the transaction. `Linked` is what
follows: the commits on a row form one chain from its first value to its last.
-/

namespace RowLock

variable {Key Val Req : Type}

/-- Where a transaction stands; the last four are its possible ends. -/
inductive Phase (Key Val Req : Type) where
  | idle
  | begun (k : Key) (r : Req)
  | locked (k : Key) (r : Req) (v : Val)
  | updated (k : Key) (r : Req) (v v' : Val)
  | notFound (k : Key) (r : Req)
  | refused (k : Key) (r : Req) (v : Val)
  | committed (k : Key) (r : Req) (v v' : Val)
  | aborted (k : Key) (r : Req)

def Phase.asks : Phase Key Val Req → Option (Key × Req)
  | begun k r => some (k, r)
  | _ => none

structure Commit (Key Val Req : Type) where
  tx : Nat
  key : Key
  req : Req
  before : Val
  after : Val

/-- The log is ghost history, in commit order. -/
structure Store (Key Val Req : Type) where
  table : Key → Option Val
  lock : Key → Option Nat := fun _ => none
  txs : Nat → Phase Key Val Req := fun _ => .idle
  log : List (Commit Key Val Req) := []

inductive Event (Key Req : Type) where
  | begin (t : Nat) (k : Key) (r : Req)
  | select (t : Nat)
  | update (t : Nat)
  | commit (t : Nat)
  | abort (t : Nat)

def Event.tx : Event Key Req → Nat
  | .begin t _ _ | .select t | .update t | .commit t | .abort t => t

variable [DecidableEq Key]

def Store.enter (s : Store Key Val Req) (t : Nat) (p : Phase Key Val Req) : Store Key Val Req :=
  { s with txs := Function.update s.txs t p }

omit [DecidableEq Key] in
@[simp] theorem Store.enter_self (s : Store Key Val Req) (t : Nat) (p : Phase Key Val Req) :
    (s.enter t p).txs t = p :=
  Function.update_self _ _ _

omit [DecidableEq Key] in
theorem Store.enter_other (s : Store Key Val Req) {t u : Nat} (p : Phase Key Val Req) (ne : u ≠ t) :
    (s.enter t p).txs u = s.txs u :=
  Function.update_of_ne ne _ _

def Store.setLock (s : Store Key Val Req) (k : Key) (holder : Option Nat) : Store Key Val Req :=
  { s with lock := Function.update s.lock k holder }

def Store.put (s : Store Key Val Req) (k : Key) (v : Val) : Store Key Val Req :=
  { s with table := Function.update s.table k (some v) }

/-- `next r v` is the row that request `r` writes over `v`, if it accepts `v`. A
`select` on a locked row waits; one on an absent row locks nothing. -/
def step (next : Req → Val → Option Val) (s : Store Key Val Req) :
    Event Key Req → Option (Store Key Val Req)
  | .begin t k r =>
    match s.txs t with
    | .idle => some (s.enter t (.begun k r))
    | _ => none
  | .select t =>
    match s.txs t with
    | .begun k r =>
      match s.table k, s.lock k with
      | none, _ => some (s.enter t (.notFound k r))
      | some v, none => some ((s.setLock k (some t)).enter t (.locked k r v))
      | some _, some _ => none
    | _ => none
  | .update t =>
    match s.txs t with
    | .locked k r v =>
      match next r v with
      | none => some ((s.setLock k none).enter t (.refused k r v))
      | some v' => some (s.enter t (.updated k r v v'))
    | _ => none
  | .commit t =>
    match s.txs t with
    | .updated k r v v' =>
      some { ((s.put k v').setLock k none).enter t (.committed k r v v') with
        log := s.log ++ [⟨t, k, r, v, v'⟩] }
    | _ => none
  | .abort t =>
    match s.txs t with
    | .begun k r => some (s.enter t (.aborted k r))
    | .locked k r _ | .updated k r _ _ => some ((s.setLock k none).enter t (.aborted k r))
    | _ => none

/-- A write outside any transaction; it waits for the row lock and does nothing
on an absent row. -/
def Store.write (s : Store Key Val Req) (k : Key) (f : Val → Val) : Option (Store Key Val Req) :=
  match s.lock k with
  | none => some { s with table := Function.update s.table k ((s.table k).map f) }
  | some _ => none

/-! ### What a step can do -/

variable {next : Req → Val → Option Val} {s s' : Store Key Val Req}

theorem begin_eq {t : Nat} {k : Key} {r : Req} :
    step next s (.begin t k r) = some s' ↔ s.txs t = .idle ∧ s' = s.enter t (.begun k r) := by
  cases phase : s.txs t <;> simp [step, phase, @eq_comm _ _ s']

theorem select_eq {t : Nat} :
    step next s (.select t) = some s' ↔ ∃ k r, s.txs t = .begun k r ∧
      ((s.table k = none ∧ s' = s.enter t (.notFound k r)) ∨
        ∃ v, s.table k = some v ∧ s.lock k = none ∧
          s' = (s.setLock k (some t)).enter t (.locked k r v)) := by
  cases phase : s.txs t with
  | begun k r =>
    cases row : s.table k <;> cases free : s.lock k <;> simp [step, phase, row, free, and_assoc, @eq_comm _ _ s']
  | _ => simp [step, phase]

theorem update_eq {t : Nat} :
    step next s (.update t) = some s' ↔ ∃ k r v, s.txs t = .locked k r v ∧
      ((next r v = none ∧ s' = (s.setLock k none).enter t (.refused k r v)) ∨
        ∃ v', next r v = some v' ∧ s' = s.enter t (.updated k r v v')) := by
  cases phase : s.txs t with
  | locked k r v => cases decided : next r v <;> simp [step, phase, decided, and_assoc, @eq_comm _ _ s']
  | _ => simp [step, phase]

theorem commit_eq {t : Nat} :
    step next s (.commit t) = some s' ↔ ∃ k r v v', s.txs t = .updated k r v v' ∧
      s' = { ((s.put k v').setLock k none).enter t (.committed k r v v') with
        log := s.log ++ [⟨t, k, r, v, v'⟩] } := by
  cases phase : s.txs t <;> simp [step, phase, and_assoc, @eq_comm _ _ s']

theorem abort_eq {t : Nat} :
    step next s (.abort t) = some s' ↔
      (∃ k r, s.txs t = .begun k r ∧ s' = s.enter t (.aborted k r)) ∨
      ∃ k r v, (s.txs t = .locked k r v ∨ ∃ v', s.txs t = .updated k r v v') ∧
        s' = (s.setLock k none).enter t (.aborted k r) := by
  cases phase : s.txs t <;> simp [step, phase, and_assoc, @eq_comm _ _ s']

theorem write_eq {k : Key} {f : Val → Val} :
    s.write k f = some s' ↔
      s.lock k = none ∧ s' = { s with table := Function.update s.table k ((s.table k).map f) } := by
  cases free : s.lock k <;> simp [Store.write, free, eq_comm]

theorem step_others {e : Event Key Req} {u : Nat} (h : step next s e = some s') (ne : u ≠ e.tx) :
    s'.txs u = s.txs u := by
  cases e with
  | begin t k r => obtain ⟨-, rfl⟩ := begin_eq.mp h; exact Store.enter_other _ _ ne
  | select t =>
    obtain ⟨k, r, -, ⟨-, rfl⟩ | ⟨v, -, -, rfl⟩⟩ := select_eq.mp h <;> exact Store.enter_other _ _ ne
  | update t =>
    obtain ⟨k, r, v, -, ⟨-, rfl⟩ | ⟨v', -, rfl⟩⟩ := update_eq.mp h <;> exact Store.enter_other _ _ ne
  | commit t => obtain ⟨k, r, v, v', -, rfl⟩ := commit_eq.mp h; exact Store.enter_other _ _ ne
  | abort t =>
    obtain ⟨k, r, -, rfl⟩ | ⟨k, r, v, -, rfl⟩ := abort_eq.mp h <;> exact Store.enter_other _ _ ne

/-- Between its beginning and its end. -/
def Phase.underway : Phase Key Val Req → Bool
  | begun _ _ | locked _ _ _ | updated _ _ _ _ => true
  | idle | notFound _ _ | refused _ _ _ | committed _ _ _ _ | aborted _ _ => false

theorem step_underway {e : Event Key Req} (h : step next s e = some s') (later : ∀ t k r, e ≠ .begin t k r) :
    (s.txs e.tx).underway = true := by
  cases e with
  | begin t k r => exact absurd rfl (later t k r)
  | select t => obtain ⟨k, r, phase, -⟩ := select_eq.mp h; simp [Event.tx, phase, Phase.underway]
  | update t => obtain ⟨k, r, v, phase, -⟩ := update_eq.mp h; simp [Event.tx, phase, Phase.underway]
  | commit t => obtain ⟨k, r, v, v', phase, -⟩ := commit_eq.mp h; simp [Event.tx, phase, Phase.underway]
  | abort t =>
    obtain ⟨k, r, phase, -⟩ | ⟨k, r, v, phase | ⟨v', phase⟩, -⟩ := abort_eq.mp h <;>
      simp [Event.tx, phase, Phase.underway]

/-- Only `begin` wakes an idle transaction. -/
theorem step_idle {e : Event Key Req} {u : Nat} (h : step next s e = some s') (idle : s.txs u = .idle)
    (later : ∀ k r, e ≠ .begin u k r) : s'.txs u = .idle := by
  by_cases mine : u = e.tx
  · subst mine
    cases e with
    | begin t k r => exact absurd rfl (later k r)
    | select t => simp [step, show s.txs t = .idle from idle] at h
    | update t => simp [step, show s.txs t = .idle from idle] at h
    | commit t => simp [step, show s.txs t = .idle from idle] at h
    | abort t => simp [step, show s.txs t = .idle from idle] at h
  · rw [step_others h mine, idle]

/-! ### The lock invariant -/

/-- A transaction between its read and its end holds the lock of its row, and
the row still is what it read. -/
structure Safe (next : Req → Val → Option Val) (s : Store Key Val Req) : Prop where
  locked : ∀ t k r v, s.txs t = .locked k r v → s.lock k = some t ∧ s.table k = some v
  updated : ∀ t k r v v', s.txs t = .updated k r v v' →
    s.lock k = some t ∧ s.table k = some v ∧ next r v = some v'

omit [DecidableEq Key] in
theorem init_safe (table : Key → Option Val) : Safe next ({ table } : Store Key Val Req) := by
  constructor <;> simp

omit [DecidableEq Key] in
/-- A change of the table or of the locks that no other transaction in progress
can see, together with a move of `t` itself. -/
theorem Safe.frame (safe : Safe next s) (t : Nat)
    (txs : ∀ u ≠ t, s'.txs u = s.txs u)
    (rows : ∀ k u, u ≠ t → s.lock k = some u → s'.lock k = some u ∧ s'.table k = s.table k)
    (lockedHere : ∀ k r v, s'.txs t = .locked k r v → s'.lock k = some t ∧ s'.table k = some v)
    (updatedHere : ∀ k r v v', s'.txs t = .updated k r v v' →
      s'.lock k = some t ∧ s'.table k = some v ∧ next r v = some v') : Safe next s' := by
  constructor
  · intro u k r v phase
    by_cases same : u = t
    · subst u; exact lockedHere k r v phase
    · rw [txs u same] at phase
      obtain ⟨lock, row⟩ := safe.locked u k r v phase
      exact ⟨(rows k u same lock).1, (rows k u same lock).2.trans row⟩
  · intro u k r v v' phase
    by_cases same : u = t
    · subst u; exact updatedHere k r v v' phase
    · rw [txs u same] at phase
      obtain ⟨lock, row, decided⟩ := safe.updated u k r v v' phase
      exact ⟨(rows k u same lock).1, (rows k u same lock).2.trans row, decided⟩

theorem release {t u : Nat} {k k' : Key} (held : s.lock k = some t) (ne : u ≠ t)
    (lock : s.lock k' = some u) : (s.setLock k none).lock k' = some u := by
  have other : k' ≠ k := by rintro rfl; exact ne (Option.some.inj (lock.symm.trans held))
  simpa [Store.setLock, other] using lock

theorem step_safe {e : Event Key Req} (safe : Safe next s) (h : step next s e = some s') :
    Safe next s' := by
  have others : ∀ u ≠ e.tx, s'.txs u = s.txs u := fun u ne => step_others h ne
  cases e with
  | begin t k r =>
    obtain ⟨-, rfl⟩ := begin_eq.mp h
    exact safe.frame t others (fun _ _ _ lock => ⟨lock, rfl⟩)
      (by simp) (by simp)
  | select t =>
    obtain ⟨k, r, -, ⟨-, rfl⟩ | ⟨v, row, free, rfl⟩⟩ := select_eq.mp h
    · exact safe.frame t others (fun _ _ _ lock => ⟨lock, rfl⟩)
        (by simp) (by simp)
    · refine safe.frame t others (fun k' u _ lock => ⟨?_, rfl⟩) ?_ (by simp)
      · have other : k' ≠ k := by rintro rfl; simp [free] at lock
        simpa [Store.enter, Store.setLock, other] using lock
      · simp only [Store.enter_self, Phase.locked.injEq]
        rintro k' r' v' ⟨rfl, rfl, rfl⟩
        exact ⟨Function.update_self _ _ _, row⟩
  | update t =>
    obtain ⟨k, r, v, phase, ⟨-, rfl⟩ | ⟨v', decided, rfl⟩⟩ := update_eq.mp h
    · obtain ⟨held, -⟩ := safe.locked t k r v phase
      exact safe.frame t others (fun k' u ne lock => ⟨release held ne lock, rfl⟩)
        (by simp) (by simp)
    · obtain ⟨held, row⟩ := safe.locked t k r v phase
      refine safe.frame t others (fun _ _ _ lock => ⟨lock, rfl⟩) (by simp) ?_
      simp only [Store.enter_self, Phase.updated.injEq]
      rintro k' r' v₁ v₂ ⟨rfl, rfl, rfl, rfl⟩
      exact ⟨held, row, decided⟩
  | commit t =>
    obtain ⟨k, r, v, v', phase, rfl⟩ := commit_eq.mp h
    obtain ⟨held, -, -⟩ := safe.updated t k r v v' phase
    refine safe.frame t others (fun k' u ne lock => ⟨release held ne lock, ?_⟩)
      (by simp) (by simp)
    -- No other transaction holds the row that is replaced.
    have other : k' ≠ k := by rintro rfl; exact ne (Option.some.inj (lock.symm.trans held))
    simp [Store.enter, Store.setLock, Store.put, other]
  | abort t =>
    obtain ⟨k, r, -, rfl⟩ | ⟨k, r, v, phase, rfl⟩ := abort_eq.mp h
    · exact safe.frame t others (fun _ _ _ lock => ⟨lock, rfl⟩)
        (by simp) (by simp)
    · have held : s.lock k = some t := by
        obtain phase | ⟨v', phase⟩ := phase
        · exact (safe.locked t k r v phase).1
        · exact (safe.updated t k r v v' phase).1
      exact safe.frame t others (fun k' u ne lock => ⟨release held ne lock, rfl⟩)
        (by simp) (by simp)

theorem Safe.insert {k : Key} (safe : Safe next s) (absent : s.table k = none) (v : Val) :
    Safe next (s.put k v) := by
  have other : ∀ {k' v'}, s.table k' = some v' → k' ≠ k := by
    rintro k' v' row rfl
    simp [absent] at row
  constructor
  · intro t k' r v' phase
    obtain ⟨lock, row⟩ := safe.locked t k' r v' phase
    exact ⟨lock, by simpa [Store.put, other row] using row⟩
  · intro t k' r v₁ v₂ phase
    obtain ⟨lock, row, decided⟩ := safe.updated t k' r v₁ v₂ phase
    exact ⟨lock, by simpa [Store.put, other row] using row, decided⟩

theorem Safe.write {k : Key} {f : Val → Val} (safe : Safe next s) (h : s.write k f = some s') :
    Safe next s' := by
  obtain ⟨free, rfl⟩ := write_eq.mp h
  have other : ∀ {k' t}, s.lock k' = some t → k' ≠ k := by
    rintro k' t lock rfl
    simp [free] at lock
  constructor
  · intro t k' r v phase
    obtain ⟨lock, row⟩ := safe.locked t k' r v phase
    exact ⟨lock, by simpa [other lock] using row⟩
  · intro t k' r v v' phase
    obtain ⟨lock, row, decided⟩ := safe.updated t k' r v v' phase
    exact ⟨lock, by simpa [other lock] using row, decided⟩

/-! ### Commits -/

theorem step_table {e : Event Key Req} (h : step next s e = some s') :
    (s'.table = s.table ∧ s'.log = s.log) ∨
      ∃ t k r v v', e = .commit t ∧ s.txs t = .updated k r v v' ∧
        s'.txs t = .committed k r v v' ∧ s'.table = Function.update s.table k (some v') ∧
        s'.log = s.log ++ [⟨t, k, r, v, v'⟩] := by
  cases e with
  | begin t k r => obtain ⟨-, rfl⟩ := begin_eq.mp h; exact .inl ⟨rfl, rfl⟩
  | select t => obtain ⟨k, r, -, ⟨-, rfl⟩ | ⟨v, -, -, rfl⟩⟩ := select_eq.mp h <;> exact .inl ⟨rfl, rfl⟩
  | update t =>
    obtain ⟨k, r, v, -, ⟨-, rfl⟩ | ⟨v', -, rfl⟩⟩ := update_eq.mp h <;> exact .inl ⟨rfl, rfl⟩
  | commit t =>
    obtain ⟨k, r, v, v', phase, rfl⟩ := commit_eq.mp h
    exact .inr ⟨t, k, r, v, v', rfl, phase, Store.enter_self _ _ _, rfl, rfl⟩
  | abort t =>
    obtain ⟨k, r, -, rfl⟩ | ⟨k, r, v, -, rfl⟩ := abort_eq.mp h <;> exact .inl ⟨rfl, rfl⟩

theorem committed_stable {e : Event Key Req} {t : Nat} {k : Key} {r : Req} {v v' : Val}
    (h : step next s e = some s') (phase : s.txs t = .committed k r v v') :
    s'.txs t = .committed k r v v' := by
  by_cases mine : t = e.tx
  · subst t
    cases e <;> simp [step, Event.tx] at h phase <;> simp [phase] at h
  · rw [step_others h mine, phase]

theorem committed_from {e : Event Key Req} {t : Nat} {k : Key} {r : Req} {v v' : Val}
    (h : step next s e = some s') (after : s'.txs t = .committed k r v v') :
    s.txs t = .committed k r v v' ∨ (e = .commit t ∧ s.txs t = .updated k r v v') := by
  by_cases mine : t = e.tx
  · subst t
    cases e with
    | begin t k r => obtain ⟨-, rfl⟩ := begin_eq.mp h; simp [Event.tx] at after
    | select t =>
      obtain ⟨k, r, -, ⟨-, rfl⟩ | ⟨v, -, -, rfl⟩⟩ := select_eq.mp h <;>
        simp [Event.tx] at after
    | update t =>
      obtain ⟨k, r, v, -, ⟨-, rfl⟩ | ⟨v', -, rfl⟩⟩ := update_eq.mp h <;>
        simp [Event.tx] at after
    | commit t =>
      obtain ⟨k, r, v, v', phase, rfl⟩ := commit_eq.mp h
      simp only [Store.enter_self, Event.tx, Phase.committed.injEq] at after
      obtain ⟨rfl, rfl, rfl, rfl⟩ := after
      exact .inr ⟨rfl, phase⟩
    | abort t =>
      obtain ⟨k, r, -, rfl⟩ | ⟨k, r, v, -, rfl⟩ := abort_eq.mp h <;>
        simp [Event.tx] at after
  · exact .inl ((step_others h mine).symm.trans after)

theorem run_committed {es : List (Event Key Req)} {t : Nat} {k : Key} {r : Req} {v v' : Val}
    (h : Transition.run (step next) s es = some s') (phase : s.txs t = .committed k r v v') :
    s'.txs t = .committed k r v v' := by
  have stays : ∀ x e y, x.txs t = .committed k r v v' → step next x e = some y →
      y.txs t = .committed k r v v' := fun _ _ _ stays taken => committed_stable taken stays
  have last := Transition.run_invariant stays phase h
  exact last

/-- What `R` says of a request and the row it reads, for every transaction that
has read a row it may write. -/
structure Reads (R : Req → Val → Prop) (s : Store Key Val Req) : Prop where
  locked : ∀ t k r v, s.txs t = .locked k r v → R r v
  updated : ∀ t k r v v', s.txs t = .updated k r v v' → R r v
  committed : ∀ t k r v v', s.txs t = .committed k r v v' → R r v

omit [DecidableEq Key] in
theorem Reads.frame {R : Req → Val → Prop} (reads : Reads R s) (t : Nat) (txs : ∀ u ≠ t, s'.txs u = s.txs u)
    (lockedHere : ∀ k r v, s'.txs t = .locked k r v → R r v)
    (updatedHere : ∀ k r v v', s'.txs t = .updated k r v v' → R r v)
    (committedHere : ∀ k r v v', s'.txs t = .committed k r v v' → R r v) : Reads R s' := by
  constructor
  · intro u k r v phase
    by_cases same : u = t
    · subst u; exact lockedHere k r v phase
    · exact reads.locked u k r v (txs u same ▸ phase)
  · intro u k r v v' phase
    by_cases same : u = t
    · subst u; exact updatedHere k r v v' phase
    · exact reads.updated u k r v v' (txs u same ▸ phase)
  · intro u k r v v' phase
    by_cases same : u = t
    · subst u; exact committedHere k r v v' phase
    · exact reads.committed u k r v v' (txs u same ▸ phase)

theorem step_reads {R : Req → Val → Prop} {e : Event Key Req} (reads : Reads R s)
    (checked : ∀ t k r v, e = .select t → s.txs t = .begun k r → s.table k = some v → R r v)
    (h : step next s e = some s') : Reads R s' := by
  have others : ∀ u ≠ e.tx, s'.txs u = s.txs u := fun u ne => step_others h ne
  cases e with
  | begin t k r =>
    obtain ⟨-, rfl⟩ := begin_eq.mp h
    exact reads.frame t others (by simp) (by simp) (by simp)
  | select t =>
    obtain ⟨k, r, begun, ⟨-, rfl⟩ | ⟨v, row, -, rfl⟩⟩ := select_eq.mp h
    · exact reads.frame t others (by simp) (by simp) (by simp)
    · refine reads.frame t others ?_ (by simp) (by simp)
      simp only [Store.enter_self, Phase.locked.injEq]
      rintro k' r' v' ⟨rfl, rfl, rfl⟩
      exact checked t k r v rfl begun row
  | update t =>
    obtain ⟨k, r, v, phase, ⟨-, rfl⟩ | ⟨v', -, rfl⟩⟩ := update_eq.mp h
    · exact reads.frame t others (by simp) (by simp) (by simp)
    · refine reads.frame t others (by simp) ?_ (by simp)
      simp only [Store.enter_self, Phase.updated.injEq]
      rintro k' r' v₁ v₂ ⟨rfl, rfl, rfl, rfl⟩
      exact reads.locked t k r v phase
  | commit t =>
    obtain ⟨k, r, v, v', phase, rfl⟩ := commit_eq.mp h
    refine reads.frame t others (by simp) (by simp) ?_
    simp only [Store.enter_self, Phase.committed.injEq]
    rintro k' r' v₁ v₂ ⟨rfl, rfl, rfl, rfl⟩
    exact reads.updated t k r v v' phase
  | abort t =>
    obtain ⟨k, r, -, rfl⟩ | ⟨k, r, v, -, rfl⟩ := abort_eq.mp h
    · exact reads.frame t others (by simp) (by simp) (by simp)
    · exact reads.frame t others (by simp) (by simp) (by simp)

structure Logged (s : Store Key Val Req) : Prop where
  listed : ∀ t k r v v', s.txs t = .committed k r v v' ↔ ⟨t, k, r, v, v'⟩ ∈ s.log
  once : (s.log.map Commit.tx).Nodup

omit [DecidableEq Key] in
theorem init_logged (table : Key → Option Val) : Logged ({ table } : Store Key Val Req) := by
  constructor <;> simp

theorem step_logged {e : Event Key Req} (logged : Logged s) (h : step next s e = some s') :
    Logged s' := by
  obtain ⟨listed, once⟩ := logged
  obtain ⟨-, log⟩ | ⟨t', k', r', v₁, v₂, rfl, updated, committed, -, log⟩ := step_table h
  · refine ⟨fun t k r v v' => ?_, by rwa [log]⟩
    rw [log, ← listed]
    refine ⟨fun after => ?_, committed_stable h⟩
    obtain before | ⟨rfl, updated⟩ := committed_from h after
    · exact before
    · obtain ⟨k', r', v₁, v₂, -, rfl⟩ := commit_eq.mp h
      simp at log
  · constructor
    · intro t k r v v'
      rw [log, List.mem_append, ← listed, List.mem_singleton, Commit.mk.injEq]
      constructor
      · intro after
        obtain before | ⟨same, -⟩ := committed_from h after
        · exact .inl before
        · obtain rfl : t' = t := Event.commit.inj same
          rw [committed] at after
          exact .inr (by simpa [eq_comm] using after)
      · rintro (before | ⟨rfl, rfl, rfl, rfl, rfl⟩)
        · exact committed_stable h before
        · exact committed
    · -- A transaction in the log is `committed` already and takes no step.
      have fresh : t' ∉ s.log.map Commit.tx := by
        intro member
        obtain ⟨⟨t, k, r, v, v'⟩, entry, rfl⟩ := List.mem_map.mp member
        have done := (listed t k r v v').mpr entry
        simp [updated] at done
      rw [log, List.map_append, List.nodup_append]
      refine ⟨once, by simp, ?_⟩
      rintro t old t'' new rfl
      obtain rfl : t = t' := by simpa using new
      exact fresh old

/-- The commits of one row read in turn, from its value `v` to its value `w`. -/
def Linked (next : Req → Val → Option Val) : Val → List (Commit Key Val Req) → Val → Prop
  | v, [], w => v = w
  | v, c :: cs, w => c.before = v ∧ next c.req v = some c.after ∧ Linked next c.after cs w

omit [DecidableEq Key] in
theorem linked_snoc {v w : Val} {cs : List (Commit Key Val Req)} {c : Commit Key Val Req}
    (linked : Linked next v cs w) (reads : c.before = w) (writes : next c.req w = some c.after) :
    Linked next v (cs ++ [c]) c.after := by
  induction cs generalizing v with
  | nil =>
    obtain rfl : v = w := linked
    exact ⟨reads, writes, rfl⟩
  | cons d ds ih =>
    obtain ⟨first, decided, rest⟩ := linked
    exact ⟨first, decided, ih rest⟩

def Chained (next : Req → Val → Option Val) (start : Option Val) (k : Key) (s : Store Key Val Req) : Prop :=
  match start with
  | none => s.table k = none ∧ s.log.filter (fun c => c.key = k) = []
  | some v => ∃ w, s.table k = some w ∧ Linked next v (s.log.filter (fun c => c.key = k)) w

theorem step_chained {e : Event Key Req} {start : Option Val} {k : Key} (safe : Safe next s)
    (chained : Chained next start k s) (h : step next s e = some s') : Chained next start k s' := by
  obtain ⟨table, log⟩ | ⟨t, k', r, v, v', rfl, phase, -, table, log⟩ := step_table h
  · simpa only [Chained, table, log] using chained
  obtain ⟨-, row, decided⟩ := safe.updated t k' r v v' phase
  by_cases same : k' = k
  · subst k'
    cases start with
    | none => simp [chained.1] at row
    | some v₀ =>
      obtain ⟨w, here, linked⟩ := chained
      obtain rfl : w = v := Option.some.inj (here.symm.trans row)
      refine ⟨v', by simp [table], ?_⟩
      simpa [log] using linked_snoc (c := ⟨t, k, r, w, v'⟩) linked rfl decided
  · have row' : s'.table k = s.table k := by simp [table, Ne.symm same]
    have log' : s'.log.filter (fun c => c.key = k) = s.log.filter (fun c => c.key = k) := by
      simp [log, same]
    cases start with
    | none => exact ⟨row'.trans chained.1, log'.trans chained.2⟩
    | some v₀ =>
      obtain ⟨w, here, linked⟩ := chained
      exact ⟨w, row'.trans here, log' ▸ linked⟩

end RowLock
