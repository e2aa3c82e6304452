import Mathlib.Tactic.Positivity
import PolyglotInfinity.Ledger.Stm
import PolyglotInfinity.Lib.ParseDouble
import PolyglotInfinity.Lib.Query
import PolyglotInfinity.Lib.Transition

/-!
# The ledger's HTTP server

The routes that write: `/api/clojure/transfer` and `/api/clojure/stress`. Both
answer 200 whatever happened, because `send-json!` knows no other status.
Amounts are doubles, with finite values computed exactly.
-/

namespace PolyglotInfinity.Ledger

def parseQs (qs : String) : List (String × String) := Query.pairs (fun k => !k.isEmpty) qs

def param (qs key default : String) : String := (Query.get (parseQs qs) key).getD default

structure TransferArgs where
  fromId : String
  toId : String
  amount : Extended
  deriving DecidableEq

/-- What the transfer route reads from the query; `none` when `Double/parseDouble` throws. -/
def transferArgs (qs : String) : Option TransferArgs :=
  (ParseDouble.parseDouble (param qs "amount" "100.0")).map fun amount =>
    ⟨param qs "from" "ACC-001", param qs "to" "ACC-002", amount⟩

inductive Body where
  | transfer (status fromId toId : String) (amount totalBalance : Extended) (totalTransfers : ℕ)
  | error (message : String)

structure Response where
  code : ℕ
  body : Body

def sendJson (body : Body) : Response := ⟨200, body⟩

/-- `GET /api/clojure/transfer?qs`, the handler's catch-all included. -/
def handleTransfer (s : State Extended) (qs : String) (now : Int) : State Extended × Response :=
  match transferArgs qs with
  | none => (s, sendJson (.error (ParseDouble.message (param qs "amount" "100.0"))))
  | some args =>
    let done := transfer s args.fromId args.toId args.amount now
    let s' := done.getD s
    (s', sendJson (.transfer (if done.isSome then "ok" else "insufficient-funds")
      args.fromId args.toId args.amount (totalBalance s') s'.totalTransfers))

theorem handleTransfer_code (s : State Extended) (qs : String) (now : Int) :
    (handleTransfer s qs now).2.code = 200 := by
  unfold handleTransfer
  split <;> rfl

theorem handleTransfer_ledger (s : State Extended) (qs : String) (now : Int) :
    (handleTransfer s qs now).1 =
      ((transferArgs qs).bind fun args => transfer s args.fromId args.toId args.amount now).getD s := by
  unfold handleTransfer
  cases transferArgs qs <;> rfl

theorem handleTransfer_commits {s : State Extended} {qs : String} {args : TransferArgs} (now : Int)
    (read : transferArgs qs = some args) (admits : Admits s args.fromId args.toId args.amount) :
    (handleTransfer s qs now).1.transferLog = s.transferLog ++ [⟨args.fromId, args.toId, args.amount, now⟩] := by
  have passes : (transfer s args.fromId args.toId args.amount now).isSome := transfer_isSome.mpr admits
  obtain ⟨after, done⟩ := Option.isSome_iff_exists.mp passes
  obtain ⟨src, dst, -, -, -, same⟩ := transfer_eq.mp done
  rw [handleTransfer_ledger, read, Option.bind_some, done, same]
  rfl

theorem handleTransfer_refused {s : State Extended} {qs : String} (now : Int)
    (refused : ∀ args, transferArgs qs = some args → ¬ Admits s args.fromId args.toId args.amount) :
    (handleTransfer s qs now).1 = s := by
  rw [handleTransfer_ledger]
  cases read : transferArgs qs with
  | none => rfl
  | some args =>
    have nothing : transfer s args.fromId args.toId args.amount now = none := by
      rw [← Option.not_isSome_iff_eq_none, transfer_isSome]
      exact refused args read
    rw [Option.bind_some, nothing, Option.getD_none]

/-- The transfer of the `i`-th future of `run-stress!`. -/
def stressTransfer (i : ℕ) : TransferArgs :=
  let ids := Ref.keys.map Ref.id
  ⟨ids.getD (i % ids.length) "", ids.getD ((i + 1) % ids.length) "", .fin (10 + (i % 90 : ℕ))⟩

/-- `futures` are the transfers that running stress tests have still to commit. -/
structure Server where
  ledger : State Extended
  futures : List ℕ := []

def Server.initial : Server := { ledger := .initial }

inductive Request where
  | transfer (qs : String) (now : Int)
  /-- `/api/clojure/stress`; `n` is the parsed parameter. -/
  | stress (n : Int)
  | future (i : ℕ) (now : Int)

/-- A stress test resets the accounts and starts its futures, which commit in
any order among all other requests. -/
def Server.step (s : Server) : Request → Option Server
  | .transfer qs now => some { s with ledger := (handleTransfer s.ledger qs now).1 }
  | .stress n =>
    some { ledger := resetAccounts s.ledger, futures := s.futures ++ List.range (max 10 (min n 1000)).toNat }
  | .future i now =>
    if i ∈ s.futures then
      let args := stressTransfer i
      some { ledger := (transfer s.ledger args.fromId args.toId args.amount now).getD s.ledger
             futures := s.futures.erase i }
    else none

/-! ### Negative balances -/

def NoNegative (s : State Extended) : Prop := ∀ r, ¬ (s.refs r).balance < 0

/-- The guard passes, and the amount is negative beyond what the receiver, another account, has. -/
def Overdraws (s : State Extended) (args : TransferArgs) : Prop :=
  ∃ src dst, accounts args.fromId = some src ∧ accounts args.toId = some dst ∧
    args.amount ≤ (s.refs src).balance ∧ src ≠ dst ∧ (s.refs dst).balance + args.amount < 0

theorem transfer_noNegative {s s' : State Extended} {args : TransferArgs} {now : Int}
    (ok : NoNegative s) (h : transfer s args.fromId args.toId args.amount now = some s') :
    NoNegative s' ↔ ¬ Overdraws s args := by
  obtain ⟨src, dst, sender, receiver, covered, rfl⟩ := transfer_eq.mp h
  constructor
  · rintro after ⟨src', dst', sender', receiver', -, apart, below⟩
    obtain rfl := Option.some.inj (sender.symm.trans sender')
    obtain rfl := Option.some.inj (receiver.symm.trans receiver')
    have credited := after dst
    rw [alter_self, alter_other _ _ (Ne.symm apart)] at credited
    exact credited below
  · intro fine r
    by_cases credited : r = dst
    · subst r
      rw [alter_self]
      by_cases same : dst = src
      · -- To the same account the amount comes back, whatever its sign.
        subst dst
        rw [alter_self]
        exact Extended.sub_add_not_neg covered (ok src)
      · rw [alter_other _ _ same]
        exact fun below => fine ⟨src, dst, sender, receiver, covered, Ne.symm same, below⟩
    · rw [alter_other _ _ credited]
      by_cases debited : r = src
      · subst r; rw [alter_self]; exact Extended.sub_not_neg covered (ok src)
      · rw [alter_other _ _ debited]; exact ok r

theorem initial_noNegative : NoNegative State.initial := by
  intro r
  cases r <;> decide +kernel

theorem stress_not_overdraws {s : State Extended} (ok : NoNegative s) (i : ℕ) :
    ¬ Overdraws s (stressTransfer i) := by
  rintro ⟨-, dst, -, -, -, -, below⟩
  refine Extended.add_not_neg (ok dst) ?_ below
  simp only [stressTransfer, Extended.zero_def, Extended.fin_lt_fin, not_lt]
  positivity

def Solvent (s : Server) : Request → Prop
  | .transfer qs _ => ∀ args, transferArgs qs = some args → ¬ Overdraws s.ledger args
  | _ => True

theorem step_noNegative {s s' : Server} {e : Request} (ok : NoNegative s.ledger)
    (h : s.step e = some s') : NoNegative s'.ledger ↔ Solvent s e := by
  cases e with
  | transfer qs now =>
    obtain rfl := Option.some.inj h
    simp only [Solvent, handleTransfer_ledger]
    cases read : transferArgs qs with
    | none => simpa using ok
    | some args =>
      simp only [Option.some.injEq, forall_eq', Option.bind_some]
      cases done : transfer s.ledger args.fromId args.toId args.amount now with
      | some l => simpa using transfer_noNegative ok done
      | none =>
        have refused : ¬ Overdraws s.ledger args := by
          rintro ⟨src, dst, sender, receiver, covered, -⟩
          have passes : (transfer s.ledger args.fromId args.toId args.amount now).isSome :=
            transfer_isSome.mpr ⟨src, dst, sender, receiver, covered⟩
          simp [done] at passes
        simpa [refused] using ok
  | stress n =>
    obtain rfl := Option.some.inj h
    exact iff_of_true initial_noNegative trivial
  | future i now =>
    simp only [Server.step, Option.ite_none_right_eq_some, Option.some.injEq] at h
    obtain ⟨-, rfl⟩ := h
    refine iff_of_true ?_ trivial
    cases done : transfer s.ledger (stressTransfer i).fromId (stressTransfer i).toId
        (stressTransfer i).amount now with
    | none => simpa [done] using ok
    | some l => simpa [done] using (transfer_noNegative ok done).mpr (stress_not_overdraws ok i)

/-- A run never shows a negative balance exactly if no transfer request credits
another account with a negative amount beyond that account's balance. -/
theorem balances_noNegative (requests : List Request) :
    Transition.Always Server.step (fun s => NoNegative s.ledger) Server.initial requests ↔
      Transition.Along Server.step Solvent Server.initial requests :=
  Transition.always_iff_along (fun _ _ _ (_ : True) _ _ => trivial)
    (fun _ _ _ _ ok taken => step_noNegative ok taken) trivial initial_noNegative

/-- The guard compares a negative amount with the sender's balance and lets it pass. -/
theorem negative_amount_overdraws :
    ¬ Transition.Always Server.step (fun s => NoNegative s.ledger) Server.initial
      [.transfer "from=ACC-001&to=ACC-002&amount=-9000" 0] := by
  rintro ⟨-, later⟩
  exact later _ rfl .acc002 (by decide +kernel)

end PolyglotInfinity.Ledger
