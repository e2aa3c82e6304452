import Mathlib.Data.List.AList
import Mathlib.Data.Nat.Notation
import PolyglotInfinity.Lib.Transition

/-!
# Double-checked creation

Calls look a key up under a read lock and, where it is missing, again under the
write lock before they make a new object. Each locked section is one step. An
object is known by its place in the heap.
-/

namespace DoubleChecked

variable {K V : Type*} [DecidableEq K]

inductive Call (K : Type*) where
  | waiting
  | missed (k : K)
  | returned (k : K) (p : ℕ)

structure State (K V : Type*) where
  table : AList fun _ : K => ℕ := ∅
  heap : List V := []
  calls : ℕ → Call K := fun _ => .waiting

inductive Event (K : Type*) where
  | read (t : ℕ) (k : K)
  | write (t : ℕ)

def State.enter (s : State K V) (t : ℕ) (c : Call K) : State K V := { s with calls := Function.update s.calls t c }

def step (make : K → V) (s : State K V) : Event K → Option (State K V)
  | .read t k =>
    match s.calls t with
    | .waiting =>
      match s.table.lookup k with
      | some p => some (s.enter t (.returned k p))
      | none => some (s.enter t (.missed k))
    | _ => none
  | .write t =>
    match s.calls t with
    | .missed k =>
      match s.table.lookup k with
      | some p => some (s.enter t (.returned k p))
      | none =>
        let p := s.heap.length
        some { s.enter t (.returned k p) with table := s.table.insert k p, heap := s.heap ++ [make k] }
    | _ => none

/-- What a step can do: a call finds its key, misses it, or makes the object. -/
inductive Effect (make : K → V) (s : State K V) : State K V → Prop where
  | found (t : ℕ) (k : K) (p : ℕ) (here : s.table.lookup k = some p) : Effect make s (s.enter t (.returned k p))
  | missed (t : ℕ) (k : K) : Effect make s (s.enter t (.missed k))
  | made (t : ℕ) (k : K) (absent : s.table.lookup k = none) :
    Effect make s { s.enter t (.returned k s.heap.length) with
      table := s.table.insert k s.heap.length, heap := s.heap ++ [make k] }

variable {make : K → V} {name : V → K} {s s' : State K V} {e : Event K} {k : K} {p q : ℕ}

theorem step_effect (h : step make s e = some s') : Effect make s s' := by
  cases e with
  | read t k =>
    cases call : s.calls t with
    | waiting =>
      cases here : s.table.lookup k with
      | some p =>
        obtain rfl : s.enter t (.returned k p) = s' := by simpa [step, call, here] using h
        exact .found t k p here
      | none =>
        obtain rfl : s.enter t (.missed k) = s' := by simpa [step, call, here] using h
        exact .missed t k
    | _ => simp [step, call] at h
  | write t =>
    cases call : s.calls t with
    | missed k =>
      cases here : s.table.lookup k with
      | some p =>
        obtain rfl : s.enter t (.returned k p) = s' := by simpa [step, call, here] using h
        exact .found t k p here
      | none =>
        simp only [step, call, here, Option.some.injEq] at h
        exact h ▸ .made t k here
    | _ => simp [step, call] at h

/-- The table lists every object of the heap under its name, and the calls have
returned what the table lists. -/
structure Shares (name : V → K) (s : State K V) : Prop where
  listed : ∀ k p, s.table.lookup k = some p ↔ ∃ v, s.heap[p]? = some v ∧ name v = k
  returned : ∀ t k p, s.calls t = .returned k p → s.table.lookup k = some p

theorem init_shares : Shares name ({} : State K V) := by
  constructor
  · simp
  · exact fun t k p call => by cases call

theorem Shares.enter (shares : Shares name s) {t : ℕ} {c : Call K}
    (listed : ∀ k p, c = .returned k p → s.table.lookup k = some p) : Shares name (s.enter t c) := by
  refine ⟨shares.listed, fun u k p call => ?_⟩
  by_cases mine : u = t
  · subst u
    exact listed k p (by simpa [State.enter] using call)
  · exact shares.returned u k p (by simpa [State.enter, Function.update_of_ne mine] using call)

theorem getElem?_snoc {heap : List V} {x v : V} :
    (heap ++ [x])[p]? = some v ↔ heap[p]? = some v ∨ p = heap.length ∧ x = v := by
  rcases Nat.lt_trichotomy p heap.length with inside | last | outside
  · simp [List.getElem?_append_left inside, Nat.ne_of_lt inside]
  · simp [last]
  · have beyond : (heap ++ [x])[p]? = none := by
      apply List.getElem?_eq_none
      rw [List.length_append, List.length_singleton]
      omega
    simp [beyond, List.getElem?_eq_none (Nat.le_of_lt outside), Nat.ne_of_gt outside]

theorem insert_keeps {table : AList fun _ : K => ℕ} (absent : table.lookup k = none) {j : K}
    (here : table.lookup j = some q) : (table.insert k p).lookup j = some q := by
  have apart : j ≠ k := by
    rintro rfl
    cases absent.symm.trans here
  rw [AList.lookup_insert_ne apart, here]

theorem step_keeps (here : s.table.lookup k = some p) (h : step make s e = some s') :
    s'.table.lookup k = some p := by
  cases step_effect h with
  | found => exact here
  | missed => exact here
  | made _ _ absent => exact insert_keeps absent here

theorem step_shares (named : ∀ k, name (make k) = k) (shares : Shares name s) (h : step make s e = some s') :
    Shares name s' := by
  cases step_effect h with
  | found t k p here =>
    refine shares.enter fun j q same => ?_
    cases same
    exact here
  | missed t k => exact shares.enter fun j q same => by cases same
  | made t k absent =>
    refine ⟨fun j q => ?_, fun u j q call => ?_⟩
    · by_cases same : j = k
      · subst j
        have unlisted : ¬ ∃ v, s.heap[q]? = some v ∧ name v = k := fun listed => by
          simp [(shares.listed k q).mpr listed] at absent
        simp only [AList.lookup_insert, getElem?_snoc, Option.some.injEq]
        constructor
        · rintro rfl
          exact ⟨make k, .inr ⟨rfl, rfl⟩, named k⟩
        · rintro ⟨v, here | ⟨last, -⟩, mine⟩
          · exact absurd ⟨v, here, mine⟩ unlisted
          · exact last.symm
      · have other : ∀ v, name v = j → make k ≠ v := by
          rintro v mine rfl
          exact same (mine.symm.trans (named k))
        rw [AList.lookup_insert_ne same, shares.listed]
        refine exists_congr fun v => and_congr_left fun mine => ?_
        rw [getElem?_snoc]
        exact ⟨.inl, fun here => here.resolve_right fun made => other v mine made.2⟩
    · by_cases mine : u = t
      · subst u
        simp only [State.enter, Function.update_self, Call.returned.injEq] at call
        obtain ⟨rfl, rfl⟩ := call
        exact AList.lookup_insert _
      · simp only [State.enter, Function.update_of_ne mine] at call
        exact insert_keeps absent (shares.returned u j q call)

theorem run_shares (named : ∀ k, name (make k) = k) {events : List (Event K)}
    (h : Transition.run (step make) {} events = some s) : Shares name s :=
  Transition.run_invariant (fun _ _ _ shares h => step_shares named shares h) init_shares h

theorem run_keeps {events : List (Event K)} (here : s.table.lookup k = some p)
    (h : Transition.run (step make) s events = some s') : s'.table.lookup k = some p := by
  induction events generalizing s with
  | nil => exact Option.some.inj h ▸ here
  | cons e events ih =>
    obtain ⟨x, first, rest⟩ := Transition.run_cons.mp h
    exact ih (step_keeps here first) rest

theorem Shares.one_object (shares : Shares name s) {v w : V} (left : s.heap[p]? = some v)
    (right : s.heap[q]? = some w) (same : name v = name w) : p = q := by
  have here := (shares.listed _ p).mpr ⟨v, left, same⟩
  have there := (shares.listed _ q).mpr ⟨w, right, rfl⟩
  exact Option.some.inj (here.symm.trans there)

theorem Shares.one_return (shares : Shares name s) {t u : ℕ} (left : s.calls t = .returned k p)
    (right : s.calls u = .returned k q) : p = q :=
  Option.some.inj ((shares.returned t k p left).symm.trans (shares.returned u k q right))

end DoubleChecked
