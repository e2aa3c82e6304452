import Mathlib.Data.Nat.Notation
import Mathlib.Logic.Function.Basic
import PolyglotInfinity.Lib.Extended
import PolyglotInfinity.Lib.Transition

/-!
# The actor portfolio

The actor runs one call at a time, so each call of `reset`, `trade` and `state`
is one step. Between two calls of a request those of any other may run.
-/

namespace PolyglotInfinity.ActorSwift

open Transition (run)

structure PortfolioLedger where
  /-- No symbol twice. -/
  positions : List (String × Extended) := []
  tradeCount : ℕ := 0
  totalNotional : Extended := 0

def addQty (sym : String) (qty : Extended) : List (String × Extended) → List (String × Extended)
  | [] => [(sym, 0 + qty)]
  | (key, held) :: rest => if key = sym then (key, held + qty) :: rest else (key, held) :: addQty sym qty rest

def PortfolioLedger.trade (l : PortfolioLedger) (sym : String) (qty price : Extended) : PortfolioLedger where
  positions := addQty sym qty l.positions
  tradeCount := l.tradeCount + 1
  totalNotional := l.totalNotional + Extended.abs (qty * price)

def PortfolioLedger.reset (_ : PortfolioLedger) : PortfolioLedger := {}

structure Report where
  expectedTrades : ℕ
  actualTrades : ℕ
  dataRaceDetected : Bool
  totalNotional : Extended
  positions : List (String × Extended)

inductive Answer where
  | status (totalTrades : ℕ) (totalNotional : Extended) (positions : List (String × Extended))
  | traded (totalTrades : ℕ)
  | concurrent (r : ℕ) (report : Report)

/-- A call of `runConcurrentTrades` that has reset the ledger. -/
structure Group where
  n : ℕ
  tasks : List ℕ

structure Server where
  ledger : PortfolioLedger := {}
  groups : ℕ → Option Group := fun _ => none
  /-- Trade requests between their two calls. -/
  trading : ℕ := 0
  answers : List Answer := []

inductive Event where
  /-- Request `r` for `/api/swift/concurrent` begins, with the number in its query, if any. -/
  | reset (r : ℕ) (asked : Option ℤ)
  | task (r i : ℕ)
  | report (r : ℕ)
  /-- The first call of a trade request, with what its query gives. -/
  | trade (sym : Option String) (qty price : Option Extended)
  | traded
  | status

/-- How many tasks the handler starts. -/
def taskCount (asked : Option ℤ) : ℕ := (max 1 (min (asked.getD 100) 500)).toNat

def symbols : List String := ["AAPL", "NVDA", "MSFT", "TSLA", "GOOG"]

def PortfolioLedger.task (l : PortfolioLedger) (i : ℕ) : PortfolioLedger :=
  let qty : Extended := ((i % 10 + 1 : ℕ) : Extended) * (5 : ℕ)
  let price : Extended := (100 : ℕ) + ((i % 200 : ℕ) : Extended)
  l.trade (symbols.getD (i % symbols.length) "") qty price

def PortfolioLedger.sorted (l : PortfolioLedger) : List (String × Extended) :=
  l.positions.mergeSort fun a b => a.1 ≤ b.1

def PortfolioLedger.reportOf (l : PortfolioLedger) (n : ℕ) : Report where
  expectedTrades := n
  actualTrades := l.tradeCount
  dataRaceDetected := l.tradeCount ≠ n
  totalNotional := l.totalNotional
  positions := l.sorted

def Server.answer (s : Server) (a : Answer) : Server := { s with answers := s.answers ++ [a] }

def Server.step (s : Server) : Event → Option Server
  | .reset r asked =>
    match s.groups r with
    | none =>
      let n := taskCount asked
      some { s with
        ledger := s.ledger.reset
        groups := Function.update s.groups r (some ⟨n, List.range n⟩) }
    | some _ => none
  | .task r i =>
    match s.groups r with
    | some group =>
      if i ∈ group.tasks then
        some { s with
          ledger := s.ledger.task i
          groups := Function.update s.groups r (some { group with tasks := group.tasks.erase i }) }
      else none
    | none => none
  | .report r =>
    match s.groups r with
    | some group =>
      if group.tasks = [] then
        some ({ s with groups := Function.update s.groups r none }.answer
          (.concurrent r (s.ledger.reportOf group.n)))
      else none
    | none => none
  | .trade sym qty price =>
    some { s with
      ledger := s.ledger.trade (sym.getD "AAPL") (qty.getD (.fin 10)) (price.getD (.fin 150))
      trading := s.trading + 1 }
  | .traded =>
    match s.trading with
    | 0 => none
    | trading + 1 => some ({ s with trading }.answer (.traded s.ledger.tradeCount))
  | .status => some (s.answer (.status s.ledger.tradeCount s.ledger.totalNotional s.ledger.sorted))

/-! ### What a request's count is made of -/

/-- The trades since the reset of one request: its own, and what the others have
added to the count or taken from it. -/
structure Share where
  own : ℤ := 0
  others : ℤ := 0

def Share.count (r : ℕ) (share : Share) : Event → Share
  | .reset q _ => if q = r then {} else { share with others := -share.own }
  | .task q _ => if q = r then { share with own := share.own + 1 } else { share with others := share.others + 1 }
  | .trade _ _ _ => { share with others := share.others + 1 }
  | .report _ | .traded | .status => share

def share (r : ℕ) (events : List Event) : Share := events.foldl (Share.count r) {}

/-- The trades of others since the last reset, less the own trades which that reset erased. -/
def disturbance (r : ℕ) (events : List Event) : ℤ := (share r events).others

/-- The ledger counts a request's own trades and those of the others. -/
def Shared (r : ℕ) (share : Share) (s : Server) : Prop :=
  ∀ group, s.groups r = some group →
    s.ledger.tradeCount = share.own + share.others ∧ share.own + group.tasks.length = group.n

theorem trade_tradeCount (l : PortfolioLedger) (sym : String) (qty price : Extended) :
    (l.trade sym qty price).tradeCount = l.tradeCount + 1 := rfl

theorem task_tradeCount (l : PortfolioLedger) (i : ℕ) : (l.task i).tradeCount = l.tradeCount + 1 := rfl

variable {s s' : Server} {r : ℕ}

theorem reset_eq {asked : Option ℤ} (h : s.step (.reset r asked) = some s') :
    s' = { s with
      ledger := {}
      groups := Function.update s.groups r (some ⟨taskCount asked, List.range (taskCount asked)⟩) } := by
  unfold Server.step at h
  cases under : s.groups r <;> simp [under] at h
  exact h.symm

theorem task_eq {i : ℕ} (h : s.step (.task r i) = some s') : ∃ group, s.groups r = some group ∧ i ∈ group.tasks ∧
    s' = { s with
      ledger := s.ledger.task i
      groups := Function.update s.groups r (some { group with tasks := group.tasks.erase i }) } := by
  unfold Server.step at h
  cases under : s.groups r with
  | none => simp [under] at h
  | some group =>
    simp only [under] at h
    obtain ⟨waiting, h⟩ := Option.ite_none_right_eq_some.mp h
    exact ⟨group, rfl, waiting, (Option.some.inj h).symm⟩

theorem report_eq (h : s.step (.report r) = some s') : ∃ group, s.groups r = some group ∧ group.tasks = [] ∧
    s'.ledger = s.ledger ∧ s'.groups = Function.update s.groups r none ∧
    s'.answers = s.answers ++ [.concurrent r (s.ledger.reportOf group.n)] := by
  unfold Server.step at h
  cases under : s.groups r with
  | none => simp [under] at h
  | some group =>
    simp only [under] at h
    obtain ⟨finished, rfl⟩ := Option.ite_some_none_eq_some.mp h
    exact ⟨group, rfl, finished, rfl, rfl, rfl⟩

theorem traded_eq (h : s.step .traded = some s') : s'.ledger = s.ledger ∧ s'.groups = s.groups := by
  unfold Server.step at h
  cases waiting : s.trading <;> simp [waiting] at h
  subst h
  exact ⟨rfl, rfl⟩

theorem step_shared {share : Share} {e : Event} (shared : Shared r share s) (h : s.step e = some s') :
    Shared r (share.count r e) s' := by
  intro group under
  cases e with
  | reset q asked =>
    obtain rfl := reset_eq h
    by_cases own : q = r
    · subst own
      simp only [Function.update_self, Option.some.injEq] at under
      subst under
      simp [Share.count]
    · simp only [Function.update_of_ne (Ne.symm own)] at under
      have before := shared group under
      simp [Share.count, own, before.2]
  | task q i =>
    obtain ⟨running, there, waiting, rfl⟩ := task_eq h
    by_cases own : q = r
    · subst own
      have before := shared running there
      have left := List.length_pos_of_mem waiting
      simp only [Function.update_self, Option.some.injEq] at under
      subst under
      simp only [Share.count, ↓reduceIte, task_tradeCount, List.length_erase_of_mem waiting]
      omega
    · simp only [Function.update_of_ne (Ne.symm own)] at under
      have before := shared group under
      simp only [Share.count, own, ↓reduceIte, task_tradeCount]
      omega
  | report q =>
    obtain ⟨running, -, -, ledger, groups, -⟩ := report_eq h
    by_cases own : q = r
    · simp [groups, own] at under
    · rw [groups, Function.update_of_ne (Ne.symm own)] at under
      rw [ledger]
      exact shared group under
  | trade sym qty price =>
    obtain rfl := Option.some.inj h
    have before := shared group under
    simp only [Share.count, trade_tradeCount]
    omega
  | traded =>
    obtain ⟨ledger, groups⟩ := traded_eq h
    rw [groups] at under
    rw [ledger]
    exact shared group under
  | status =>
    obtain rfl := Option.some.inj h
    exact shared group under

theorem run_shared {events : List Event} {share : Share} (shared : Shared r share s)
    (h : run Server.step s events = some s') : Shared r (events.foldl (Share.count r) share) s' := by
  induction events generalizing s share with
  | nil =>
    obtain rfl := Option.some.inj h
    exact shared
  | cons e events ih =>
    obtain ⟨x, first, rest⟩ := Transition.run_cons.mp h
    exact ih (step_shared shared first) rest

/-- A request reports its own number of trades, and no data race, exactly if the
trades of others since the last reset make up for the own trades which it erased. -/
theorem report_exact_iff {events : List Event} {group : Group} (h : run Server.step {} events = some s)
    (under : s.groups r = some group) (read : s.step (.report r) = some s') :
    ∃ report, s'.answers = s.answers ++ [.concurrent r report] ∧
      (report.actualTrades = group.n ∧ report.dataRaceDetected = false ↔ disturbance r events = 0) := by
  have start : Shared r {} {} := by simp [Shared]
  obtain ⟨_, there, finished, -, -, answers⟩ := report_eq read
  obtain rfl := Option.some.inj (under.symm.trans there)
  have counted := run_shared start h group under
  refine ⟨s.ledger.reportOf group.n, answers, ?_⟩
  rw [finished, List.length_nil] at counted
  simp only [PortfolioLedger.reportOf, ne_eq, decide_not, Bool.not_eq_false', decide_eq_true_eq, and_self]
  show _ ↔ (events.foldl (Share.count r) {}).others = 0
  omega

/-- A request for two tasks beside trades that come before its reset and after its report. -/
def inTurn : List Event :=
  [.trade none none none, .reset 0 (some 2), .traded, .task 0 1, .status, .task 0 0]

theorem report_exact_iff_inTurn : ∃ s s', run Server.step {} inTurn = some s ∧ s.step (.report 0) = some s' ∧
    ∃ report, s'.answers = s.answers ++ [.concurrent 0 report] ∧
      report.actualTrades = 2 ∧ report.dataRaceDetected = false := by
  refine ⟨_, _, rfl, rfl, ?_⟩
  obtain ⟨report, last, exact⟩ := @report_exact_iff _ _ 0 inTurn ⟨2, []⟩ rfl rfl rfl
  exact ⟨report, last, exact.mpr (by decide)⟩

/-- Another client's trade comes between the reset and the report. -/
def crowded : List Event := [.reset 0 (some 1), .trade (some "TSLA") none none, .task 0 0]

theorem crowded_detects_race : ¬ ∀ s s' group report, run Server.step {} crowded = some s →
    s.groups 0 = some group → s.step (.report 0) = some s' →
    s'.answers = s.answers ++ [.concurrent 0 report] →
    report.actualTrades = group.n ∧ report.dataRaceDetected = false := by
  intro law
  have exact := law _ _ ⟨1, []⟩ (PortfolioLedger.reportOf _ 1) rfl rfl rfl rfl
  exact absurd exact.1 (by decide)

/-- The events that change the count on behalf of anyone but request `r`. -/
def Foreign (r : ℕ) : Event → Prop
  | .reset q _ | .task q _ => q ≠ r
  | .trade _ _ _ => True
  | .report _ | .traded | .status => False

/-- What runs before a request's reset does not reach its report. -/
theorem undisturbed {before during : List Event} {asked : Option ℤ} (alone : ∀ e ∈ during, ¬ Foreign r e) :
    disturbance r (before ++ .reset r asked :: during) = 0 := by
  have none (share : Share) (clean : share.others = 0) : (during.foldl (Share.count r) share).others = 0 := by
    induction during generalizing share with
    | nil => exact clean
    | cons e during ih =>
      apply ih fun e member => alone e (List.mem_cons_of_mem _ member)
      have own := alone e List.mem_cons_self
      cases e <;> simp_all [Share.count, Foreign]
  unfold disturbance share
  rw [List.foldl_append, List.foldl_cons]
  exact none _ (by simp [Share.count])

end PolyglotInfinity.ActorSwift
