import Mathlib.Algebra.BigOperators.Group.Finset.Piecewise
import PolyglotInfinity.Ledger.Stm

/-!
# Reconciliation

With exact arithmetic the ledger balances against its own transfer log after
every history of transfers and resets: each balance is the initial one plus what
the log credits and minus what it debits. The total is a consequence.
-/

namespace PolyglotInfinity.Ledger

variable {α : Type} [AddCommGroupWithOne α]

/-- The amounts of the entries whose `side` names the account. -/
def posted (side : Entry α → String) (log : List (Entry α)) (r : Ref) : α :=
  ((log.filter fun e => side e = r.id).map Entry.amount).sum

theorem posted_nil (side : Entry α → String) (r : Ref) : posted side [] r = 0 := rfl

theorem posted_snoc (side : Entry α → String) (log : List (Entry α)) (e : Entry α) (r : Ref) :
    posted side (log ++ [e]) r = posted side log r + if side e = r.id then e.amount else 0 := by
  by_cases here : side e = r.id <;> simp [posted, here]

theorem posted_total (side : Entry α → String) {log : List (Entry α)}
    (known : ∀ e ∈ log, ∃ r, accounts (side e) = some r) :
    ∑ r, posted side log r = (log.map Entry.amount).sum := by
  induction log using List.reverseRecOn with
  | nil => simp [posted_nil]
  | append_singleton log e ih =>
    obtain ⟨r, named⟩ := known e (by simp)
    have same : ∀ q : Ref, side e = q.id ↔ q = r := by
      intro q
      rw [← accounts_id, named, Option.some.injEq, eq_comm]
    have earlier := ih fun e member => known e (List.mem_append_left _ member)
    simp [posted_snoc, Finset.sum_add_distrib, earlier, same]

structure Reconciled (s : State α) : Prop where
  balances : ∀ r, (s.refs r).balance =
    (initialBalances r).balance + posted Entry.toId s.transferLog r - posted Entry.fromId s.transferLog r
  count : s.totalTransfers = s.transferLog.length
  senders : ∀ e ∈ s.transferLog, ∃ r, accounts e.fromId = some r
  receivers : ∀ e ∈ s.transferLog, ∃ r, accounts e.toId = some r

theorem reset_reconciled (s : State α) : Reconciled (resetAccounts s) := by
  constructor <;> simp [resetAccounts, posted_nil]

variable [LE α] [DecidableLE α]

theorem transfer_reconciled {s s' : State α} {fromId toId : String} {amount : α} {now : Int}
    (ok : Reconciled s) (h : transfer s fromId toId amount now = some s') : Reconciled s' := by
  obtain ⟨src, dst, sender, receiver, -, rfl⟩ := transfer_eq.mp h
  obtain rfl := accounts_id.mp sender
  obtain rfl := accounts_id.mp receiver
  have named : ∀ {q r : Ref}, q.id = r.id ↔ r = q := by
    intro q r
    rw [← accounts_id, accounts_id.mpr rfl, Option.some.injEq, eq_comm]
  constructor
  · intro r
    rw [posted_snoc, posted_snoc]
    simp only [named]
    have before := ok.balances r
    -- A transfer to the same account alters its ref twice.
    by_cases credited : r = dst
    · subst r
      rw [alter_self]
      by_cases debited : dst = src
      · subst dst; rw [alter_self, before]; simp; abel
      · rw [alter_other _ _ debited, before]; simp [debited]; abel
    · rw [alter_other _ _ credited]
      by_cases debited : r = src
      · subst r; rw [alter_self, before]; simp [credited]; abel
      · rw [alter_other _ _ debited, before]; simp [credited, debited]
  · simp [ok.count]
  · intro e member
    rcases List.mem_append.mp member with old | new
    · exact ok.senders e old
    · obtain rfl := List.mem_singleton.mp new; exact ⟨src, sender⟩
  · intro e member
    rcases List.mem_append.mp member with old | new
    · exact ok.receivers e old
    · obtain rfl := List.mem_singleton.mp new; exact ⟨dst, receiver⟩

theorem commit_reconciled {s : State α} (ok : Reconciled s) (txn : Txn α) : Reconciled (commit s txn) := by
  cases txn with
  | transfer fromId toId amount now =>
    cases done : transfer s fromId toId amount now with
    | none => simpa [commit, done] using ok
    | some s' => simpa [commit, done] using transfer_reconciled ok done
  | reset => exact reset_reconciled s

theorem run_reconciled {s : State α} (ok : Reconciled s) (txns : List (Txn α)) :
    Reconciled (txns.foldl commit s) := by
  induction txns generalizing s with
  | nil => exact ok
  | cons txn txns ih => exact ih (commit_reconciled ok txn)

omit [LE α] [DecidableLE α] in
theorem totalBalance_eq (s : State α) : totalBalance s = ∑ r, (s.refs r).balance := by
  have all : (Finset.univ : Finset Ref) = {.acc001, .acc002, .acc003, .acc004} := rfl
  simp [all, totalBalance, add_assoc]

omit [LE α] [DecidableLE α] in
theorem reconciled_total {s : State α} (ok : Reconciled s) : totalBalance s = 36500 := by
  have credits := posted_total Entry.toId ok.receivers
  have debits := posted_total Entry.fromId ok.senders
  have start : ∑ r, ((State.initial : State α).refs r).balance = 36500 := by
    rw [← totalBalance_eq]
    simp only [totalBalance, State.initial, initialBalances]
    norm_cast
  calc totalBalance s = ∑ r, (s.refs r).balance := totalBalance_eq s
    _ = ∑ r, ((initialBalances r).balance + posted Entry.toId s.transferLog r -
          posted Entry.fromId s.transferLog r) := Finset.sum_congr rfl fun r _ => ok.balances r
    _ = 36500 := by
      rw [Finset.sum_sub_distrib, Finset.sum_add_distrib, credits, debits, add_sub_cancel_right]
      exact start

/-- After any history of transfers and resets, in any order, every balance is
accounted for by the log and the total is 36500. -/
theorem ledger_reconciled (txns : List (Txn α)) :
    let s := txns.foldl commit (State.initial : State α)
    (∀ r, (s.refs r).balance = (initialBalances r).balance +
      posted Entry.toId s.transferLog r - posted Entry.fromId s.transferLog r) ∧
    s.totalTransfers = s.transferLog.length ∧ totalBalance s = 36500 := by
  have ok := run_reconciled (reset_reconciled (State.initial : State α)) txns
  exact ⟨ok.balances, ok.count, reconciled_total ok⟩

end PolyglotInfinity.Ledger
