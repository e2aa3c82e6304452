import PolyglotInfinity.Ledger.Reconcile
import PolyglotInfinity.Lib.Transition

/-!
# The total that is reported

`total-balance` reads the refs one after another and outside of a transaction,
so transfers commit between its reads.
-/

namespace PolyglotInfinity.Ledger

open Transition (run)

variable {α : Type}

/-- A call of `total-balance`: the refs it has still to read and the balances it has read. -/
structure Reading (α : Type) where
  ledger : State α
  unread : List Ref := Ref.keys
  seen : List α := []

inductive ReadEvent (α : Type) where
  | deref
  | commit (fromId toId : String) (amount : α) (now : Int)

def Reading.step [Add α] [Sub α] [LE α] [DecidableLE α] (s : Reading α) : ReadEvent α → Option (Reading α)
  | .deref =>
    match s.unread with
    | [] => none
    | r :: unread => some { s with unread, seen := s.seen ++ [(s.ledger.refs r).balance] }
  | .commit fromId toId amount now =>
    (transfer s.ledger fromId toId amount now).map fun ledger => { s with ledger }

/-- What the call returns, once it has read every ref. -/
def Reading.result [Add α] [Zero α] (s : Reading α) : Option α :=
  if s.unread = [] then some s.seen.sum else none

/-- What a transfer takes from the accounts that have been read already. -/
def withdrawn [Zero α] [Sub α] (unread : List Ref) (fromId toId : String) (amount : α) : α :=
  let portion (id : String) : α := if ∃ r ∈ unread, accounts id = some r then 0 else amount
  portion fromId - portion toId

/-- What the transfers take together from accounts that have been read to accounts that have not. -/
def skew [Zero α] [Add α] [Sub α] : List Ref → List (ReadEvent α) → α
  | _, [] => 0
  | unread, .deref :: events => skew unread.tail events
  | unread, .commit fromId toId amount _ :: events => withdrawn unread fromId toId amount + skew unread events

variable [AddCommGroupWithOne α]

/-- The balances that have been read and those that have not, as they are now. -/
def Reading.inSight (s : Reading α) : α := s.seen.sum + (s.unread.map fun r => (s.ledger.refs r).balance).sum

theorem alter_sum (s : State α) (q : Ref) (f : α → α) {refs : List Ref} (nodup : refs.Nodup) :
    (refs.map fun r => ((s.alter q f).refs r).balance).sum = (refs.map fun r => (s.refs r).balance).sum +
      if q ∈ refs then f (s.refs q).balance - (s.refs q).balance else 0 := by
  induction refs with
  | nil => simp
  | cons r refs ih =>
    obtain ⟨fresh, nodup⟩ := List.nodup_cons.mp nodup
    rw [List.map_cons, List.map_cons, List.sum_cons, List.sum_cons, ih nodup]
    by_cases same : q = r
    · subst r
      rw [alter_self, if_neg fresh, if_pos List.mem_cons_self]
      abel
    · rw [alter_other _ _ (Ne.symm same)]
      simp [same, add_assoc]

variable [LE α] [DecidableLE α]

theorem step_inSight {s s' : Reading α} {e : ReadEvent α} (nodup : s.unread.Nodup) (h : s.step e = some s')
    (events : List (ReadEvent α)) : s'.unread.Nodup ∧
      s'.inSight + skew s'.unread events = s.inSight + skew s.unread (e :: events) := by
  cases e with
  | deref =>
    simp only [Reading.step] at h
    split at h
    · cases h
    · rename_i r unread next
      obtain rfl := Option.some.inj h
      rw [next] at nodup
      refine ⟨nodup.of_cons, ?_⟩
      simp [Reading.inSight, skew, next, add_assoc]
  | commit fromId toId amount now =>
    obtain ⟨ledger, done, rfl⟩ := Option.map_eq_some_iff.mp h
    refine ⟨nodup, ?_⟩
    obtain ⟨src, dst, sender, receiver, -, rfl⟩ := transfer_eq.mp done
    simp only [Reading.inSight, skew, withdrawn, sender, receiver, Option.some.injEq]
    rw [alter_sum _ _ _ nodup, alter_sum _ _ _ nodup]
    by_cases debited : src ∈ s.unread <;> by_cases credited : dst ∈ s.unread <;> simp [debited, credited] <;> abel

theorem run_inSight {s s' : Reading α} {events : List (ReadEvent α)} (nodup : s.unread.Nodup)
    (h : run Reading.step s events = some s') : s'.inSight = s.inSight + skew s.unread events := by
  induction events generalizing s with
  | nil =>
    obtain rfl := Option.some.inj h
    simp [skew]
  | cons e events ih =>
    obtain ⟨x, first, rest⟩ := Transition.run_cons.mp h
    obtain ⟨nodup', same⟩ := step_inSight nodup first events
    rw [ih nodup' rest, same]

omit [LE α] [DecidableLE α] in
theorem start_inSight (ledger : State α) : ({ ledger } : Reading α).inSight = totalBalance ledger := by
  simp [Reading.inSight, Ref.keys, totalBalance, add_assoc]

omit [LE α] [DecidableLE α] in
theorem Reading.result_inSight {s : Reading α} {total : α} (done : s.result = some total) : total = s.inSight := by
  simp only [Reading.result, Option.ite_none_right_eq_some, Option.some.injEq] at done
  obtain ⟨all, rfl⟩ := done
  simp [Reading.inSight, all]

/-- Reads that no transfer comes between return what `totalBalance` says. -/
theorem totalBalance_alone (ledger : State α) :
    (run Reading.step { ledger } [.deref, .deref, .deref, .deref]).bind Reading.result = some (totalBalance ledger) := by
  simp [run, Reading.step, Ref.keys, Reading.result, totalBalance, add_assoc]

/-- After any history, with any transfers committed during the reads, the value
returned is the conserved total exactly if those transfers take as much from
accounts that have been read as they bring there. -/
theorem total_conserved_iff (history : List (Txn α)) {events : List (ReadEvent α)} {s : Reading α}
    (h : run Reading.step { ledger := history.foldl commit .initial } events = some s) {total : α}
    (done : s.result = some total) : total = 36500 ↔ skew Ref.keys events = 0 := by
  have nodup : Ref.keys.Nodup := by decide
  have conserved := reconciled_total (run_reconciled (reset_reconciled (State.initial : State α)) history)
  rw [s.result_inSight done, run_inSight nodup h, start_inSight]
  exact conserved ▸ add_eq_left

/-- A transfer to and fro after the first read. -/
def toAndFro : List (ReadEvent ℤ) :=
  [.deref, .commit "ACC-001" "ACC-002" 500 0, .commit "ACC-002" "ACC-001" 500 1, .deref, .deref, .deref]

theorem total_conserved_iff_toAndFro : ∃ s total, run Reading.step { ledger := .initial } toAndFro = some s ∧
    s.result = some total ∧ total = 36500 := by
  have reads : ((run Reading.step { ledger := .initial } toAndFro).bind Reading.result).isSome := by decide +kernel
  obtain ⟨total, read⟩ := Option.isSome_iff_exists.mp reads
  obtain ⟨s, h, done⟩ := Option.bind_eq_some_iff.mp read
  exact ⟨s, total, h, done, (total_conserved_iff [] h done).mpr (by decide +kernel)⟩

/-- ACC-001 has been read when it receives 500. -/
theorem transfer_between_reads_missed : ¬ ∀ (s : Reading ℤ) total,
    run Reading.step { ledger := .initial }
      [.deref, .commit "ACC-002" "ACC-001" 500 0, .deref, .deref, .deref] = some s →
    s.result = some total → total = 36500 := by
  intro law
  have read : (run Reading.step ({ ledger := .initial } : Reading ℤ)
      [.deref, .commit "ACC-002" "ACC-001" 500 0, .deref, .deref, .deref]).bind Reading.result = some 36000 := by
    decide +kernel
  obtain ⟨s, h, done⟩ := Option.bind_eq_some_iff.mp read
  exact absurd (law s 36000 h done) (by decide)

end PolyglotInfinity.Ledger
