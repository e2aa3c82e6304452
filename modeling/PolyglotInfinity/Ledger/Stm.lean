import Mathlib.Algebra.BigOperators.Group.Finset.Basic
import Mathlib.Data.Fintype.Basic
import Mathlib.Data.Int.Cast.Lemmas
import Mathlib.Tactic.Abel
import Mathlib.Tactic.NormNum

/-!
# The account ledger

The refs of the STM ledger and its transactions `transfer!` and
`reset-accounts!`. A `dosync` block commits as one step, so a run is the list of
committed transactions. The type of amounts is left open.
-/

namespace PolyglotInfinity.Ledger

variable {α : Type}

structure Account (α : Type) where
  name : String
  balance : α

/-- The refs of `accounts`, one for each key of `INITIAL_BALANCES`. -/
inductive Ref where
  | acc001 | acc002 | acc003 | acc004
  deriving DecidableEq, Repr

namespace Ref

instance : Fintype Ref where
  elems := {acc001, acc002, acc003, acc004}
  complete r := by cases r <;> decide

def id : Ref → String
  | acc001 => "ACC-001"
  | acc002 => "ACC-002"
  | acc003 => "ACC-003"
  | acc004 => "ACC-004"

def keys : List Ref := [acc001, acc002, acc003, acc004]

end Ref

def accounts (id : String) : Option Ref := Ref.keys.find? fun r => r.id = id

def initialBalances [NatCast α] : Ref → Account α
  | .acc001 => ⟨"Alpha Fund", (10000 : ℕ)⟩
  | .acc002 => ⟨"Beta Corp", (8500 : ℕ)⟩
  | .acc003 => ⟨"Gamma Inc", (12000 : ℕ)⟩
  | .acc004 => ⟨"Delta Ltd", (6000 : ℕ)⟩

structure Entry (α : Type) where
  fromId : String
  toId : String
  amount : α
  ts : Int

structure State (α : Type) where
  refs : Ref → Account α
  totalTransfers : ℕ
  transferLog : List (Entry α)

def State.initial [NatCast α] : State α := ⟨initialBalances, 0, []⟩

/-- `(alter ref update :balance f)`. -/
def State.alter (s : State α) (r : Ref) (f : α → α) : State α :=
  { s with refs := fun q => if q = r then { s.refs q with balance := f (s.refs q).balance } else s.refs q }

/-- `transfer!`. `none` is the `nil` of a refused transfer, which commits nothing. -/
def transfer [Add α] [Sub α] [LE α] [DecidableLE α] (s : State α) (fromId toId : String) (amount : α)
    (now : Int) : Option (State α) :=
  match accounts fromId, accounts toId with
  | some src, some dst =>
    if amount ≤ (s.refs src).balance then
      let s := s.alter src (· - amount)
      let s := s.alter dst (· + amount)
      some { s with
        totalTransfers := s.totalTransfers + 1
        transferLog := s.transferLog ++ [⟨fromId, toId, amount, now⟩] }
    else none
  | _, _ => none

def resetAccounts [NatCast α] (_ : State α) : State α :=
  { refs := initialBalances, transferLog := [], totalTransfers := 0 }

def totalBalance [Add α] (s : State α) : α :=
  (s.refs .acc001).balance + (s.refs .acc002).balance + (s.refs .acc003).balance + (s.refs .acc004).balance

/-- A committed `dosync` transaction. -/
inductive Txn (α : Type) where
  | transfer (fromId toId : String) (amount : α) (now : Int)
  | reset

def commit [NatCast α] [Add α] [Sub α] [LE α] [DecidableLE α] (s : State α) : Txn α → State α
  | .transfer fromId toId amount now => (transfer s fromId toId amount now).getD s
  | .reset => resetAccounts s

/-! ### What a transfer does -/

theorem accounts_id {id : String} {r : Ref} : accounts id = some r ↔ id = r.id := by
  constructor
  · intro found
    have := List.find?_some found
    exact (of_decide_eq_true this).symm
  · rintro rfl
    cases r <;> decide

@[simp] theorem alter_self (s : State α) (r : Ref) (f : α → α) :
    ((s.alter r f).refs r).balance = f (s.refs r).balance := by
  simp [State.alter]

theorem alter_other (s : State α) {r q : Ref} (f : α → α) (ne : q ≠ r) :
    ((s.alter r f).refs q).balance = (s.refs q).balance := by
  simp [State.alter, ne]

section
variable [Add α] [Sub α] [LE α] [DecidableLE α]

theorem transfer_eq {s s' : State α} {fromId toId : String} {amount : α} {now : Int} :
    transfer s fromId toId amount now = some s' ↔
      ∃ src dst, accounts fromId = some src ∧ accounts toId = some dst ∧
        amount ≤ (s.refs src).balance ∧
        s' = { (s.alter src (· - amount)).alter dst (· + amount) with
          totalTransfers := s.totalTransfers + 1
          transferLog := s.transferLog ++ [⟨fromId, toId, amount, now⟩] } := by
  cases source : accounts fromId <;> cases target : accounts toId <;>
    simp [transfer, source, target, State.alter, @eq_comm _ _ s']

/-- The guard of `transfer!`: both accounts exist and the balance covers the amount. -/
def Admits (s : State α) (fromId toId : String) (amount : α) : Prop :=
  ∃ src dst, accounts fromId = some src ∧ accounts toId = some dst ∧ amount ≤ (s.refs src).balance

instance (s : State α) (fromId toId : String) (amount : α) : Decidable (Admits s fromId toId amount) :=
  inferInstanceAs (Decidable (∃ _, _))

theorem transfer_isSome {s : State α} {fromId toId : String} {amount : α} {now : Int} :
    (transfer s fromId toId amount now).isSome ↔ Admits s fromId toId amount := by
  cases source : accounts fromId <;> cases target : accounts toId <;>
    simp [Admits, transfer, source, target]

end

end PolyglotInfinity.Ledger
