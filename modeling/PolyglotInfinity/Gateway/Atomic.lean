import Mathlib.Logic.Function.Basic
import PolyglotInfinity.Gateway.Breaker
import PolyglotInfinity.Lib.Transition

/-!
# The breaker step by step

Any number of goroutines in calls of `Allow`, `RecordSuccess` and
`RecordFailure` on one breaker. Each atomic access and each locked block is one
step, and the steps of different calls interleave freely.
-/

namespace PolyglotInfinity.Gateway

/-- Where a goroutine stands. A call of `Allow` that is done leaves it idle. -/
inductive Call where
  | idle
  /-- `Allow` has loaded Open and goes for the lock. -/
  | locking
  /-- `RecordSuccess` has reset the counter. -/
  | cleared
  | added
  /-- `RecordFailure` has counted, with `f` as the new count. -/
  | counted (f : Int32)
  | opening
  deriving DecidableEq

structure Shared where
  cb : CircuitBreaker := {}
  calls : ℕ → Call := fun _ => .idle

/-- One step of goroutine `t`. -/
inductive Access where
  | load (t : ℕ)
  | lock (t : ℕ) (now : ℤ)
  | resetFailures (t : ℕ)
  | addSuccess (t : ℕ)
  | storeClosed (t : ℕ)
  | addFailure (t : ℕ)
  | setLastFailure (t : ℕ) (now : ℤ)
  | storeOpen (t : ℕ)

def Shared.enter (s : Shared) (t : ℕ) (c : Call) : Shared := { s with calls := Function.update s.calls t c }

@[simp] theorem Shared.enter_self (s : Shared) (t : ℕ) (c : Call) : (s.enter t c).calls t = c :=
  Function.update_self _ _ _

theorem Shared.enter_other (s : Shared) {t u : ℕ} (c : Call) (ne : u ≠ t) : (s.enter t c).calls u = s.calls u :=
  Function.update_of_ne ne _ _

/-- What `Allow` returns at this step, if a call of it ends here. -/
def Shared.returned (s : Shared) : Access → Option Bool
  | .load _ => if s.cb.state = .open then none else some true
  | .lock _ now => some (now - s.cb.lastFailure > s.cb.resetAfter)
  | _ => none

def Shared.step (s : Shared) : Access → Option Shared
  | .load t =>
    match s.calls t with
    | .idle =>
      if s.cb.state = .open then some (s.enter t .locking)
      else some s
    | _ => none
  | .lock t now =>
    match s.calls t with
    | .locking =>
      if now - s.cb.lastFailure > s.cb.resetAfter then
        some { s.enter t .idle with cb := { s.cb with state := .halfOpen } }
      else some (s.enter t .idle)
    | _ => none
  | .resetFailures t =>
    match s.calls t with
    | .idle => some { s.enter t .cleared with cb := { s.cb with failures := 0 } }
    | _ => none
  | .addSuccess t =>
    match s.calls t with
    | .cleared => some { s.enter t .added with cb := { s.cb with successes := s.cb.successes + 1 } }
    | _ => none
  | .storeClosed t =>
    match s.calls t with
    | .added => some { s.enter t .idle with cb := { s.cb with state := .closed } }
    | _ => none
  | .addFailure t =>
    match s.calls t with
    | .idle =>
      let f := s.cb.failures + 1
      some { s.enter t (.counted f) with cb := { s.cb with failures := f } }
    | _ => none
  | .setLastFailure t now =>
    match s.calls t with
    | .counted f =>
      let cb := { s.cb with lastFailure := now }
      if f ≥ s.cb.threshold then some { s.enter t .opening with cb }
      else some { s.enter t .idle with cb }
    | _ => none
  | .storeOpen t =>
    match s.calls t with
    | .opening => some { s.enter t .idle with cb := { s.cb with state := .open } }
    | _ => none

/-! ### What a step can do -/

variable {s s' : Shared} {t : ℕ} {now : ℤ}

theorem load_eq : s.step (.load t) = some s' ↔ s.calls t = .idle ∧
    ((s.cb.state = .open ∧ s' = s.enter t .locking) ∨
      (s.cb.state ≠ .open ∧ s' = s)) := by
  cases call : s.calls t with
  | idle => by_cases shown : s.cb.state = .open <;> simp [Shared.step, call, shown, eq_comm]
  | _ => simp [Shared.step, call]

theorem lock_eq : s.step (.lock t now) = some s' ↔ s.calls t = .locking ∧
    ((s.cb.resetAfter < now - s.cb.lastFailure ∧
        s' = { s.enter t .idle with cb := { s.cb with state := .halfOpen } }) ∨
      (¬ s.cb.resetAfter < now - s.cb.lastFailure ∧ s' = s.enter t .idle)) := by
  cases call : s.calls t with
  | locking => by_cases late : s.cb.resetAfter < now - s.cb.lastFailure <;> simp [Shared.step, call, late, eq_comm]
  | _ => simp [Shared.step, call]

theorem resetFailures_eq : s.step (.resetFailures t) = some s' ↔ s.calls t = .idle ∧
    s' = { s.enter t .cleared with cb := { s.cb with failures := 0 } } := by
  cases call : s.calls t <;> simp [Shared.step, call, eq_comm]

theorem addSuccess_eq : s.step (.addSuccess t) = some s' ↔ s.calls t = .cleared ∧
    s' = { s.enter t .added with cb := { s.cb with successes := s.cb.successes + 1 } } := by
  cases call : s.calls t <;> simp [Shared.step, call, eq_comm]

theorem storeClosed_eq : s.step (.storeClosed t) = some s' ↔ s.calls t = .added ∧
    s' = { s.enter t .idle with cb := { s.cb with state := .closed } } := by
  cases call : s.calls t <;> simp [Shared.step, call, eq_comm]

theorem addFailure_eq : s.step (.addFailure t) = some s' ↔ s.calls t = .idle ∧
    s' = { s.enter t (.counted (s.cb.failures + 1)) with cb := { s.cb with failures := s.cb.failures + 1 } } := by
  cases call : s.calls t <;> simp [Shared.step, call, eq_comm]

theorem setLastFailure_eq : s.step (.setLastFailure t now) = some s' ↔ ∃ f, s.calls t = .counted f ∧
    ((s.cb.threshold ≤ f ∧ s' = { s.enter t .opening with cb := { s.cb with lastFailure := now } }) ∨
      (f < s.cb.threshold ∧
        s' = { s.enter t .idle with cb := { s.cb with lastFailure := now } })) := by
  cases call : s.calls t with
  | counted f =>
    by_cases reached : s.cb.threshold ≤ f
    · simp [Shared.step, call, reached, Int32.not_lt.mpr reached, eq_comm]
    · simp [Shared.step, call, reached, Int32.not_le.mp reached, eq_comm]
  | _ => simp [Shared.step, call]

theorem storeOpen_eq : s.step (.storeOpen t) = some s' ↔ s.calls t = .opening ∧
    s' = { s.enter t .idle with cb := { s.cb with state := .open } } := by
  cases call : s.calls t <;> simp [Shared.step, call, eq_comm]

/-! ### Calls that are left alone -/

def recordSuccessSteps (t : ℕ) : List Access := [.resetFailures t, .addSuccess t, .storeClosed t]

def recordFailureSteps (cb : CircuitBreaker) (t : ℕ) (now : ℤ) : List Access :=
  [.addFailure t, .setLastFailure t now] ++ if cb.failures + 1 ≥ cb.threshold then [.storeOpen t] else []

def allowSteps (cb : CircuitBreaker) (t : ℕ) (now : ℤ) : List Access :=
  .load t :: if cb.state = .open then [.lock t now] else []

theorem recordSuccess_alone (idle : s.calls t = .idle) :
    Transition.run Shared.step s (recordSuccessSteps t) = some { s with cb := s.cb.recordSuccess } := by
  simp [recordSuccessSteps, Transition.run, Shared.step, idle, Shared.enter, CircuitBreaker.recordSuccess]

theorem recordFailure_alone (idle : s.calls t = .idle) (now : ℤ) :
    Transition.run Shared.step s (recordFailureSteps s.cb t now) = some { s with cb := s.cb.recordFailure now } := by
  by_cases reached : s.cb.threshold ≤ s.cb.failures + 1 <;>
    simp [recordFailureSteps, Transition.run, Shared.step, idle, Shared.enter, CircuitBreaker.recordFailure, reached]

/-- A call of `Allow` that no other step comes between does what `allow` says
and returns at its last step. -/
theorem allow_alone (idle : s.calls t = .idle) (now : ℤ) :
    Transition.run Shared.step s (allowSteps s.cb t now) = some { s with cb := (s.cb.allow now).1 } ∧
      s.returned ((allowSteps s.cb t now).getLastD (.load t)) = some (s.cb.allow now).2 := by
  cases shown : s.cb.state with
  | «open» =>
    by_cases late : s.cb.resetAfter < now - s.cb.lastFailure <;>
      simp [allowSteps, Transition.run, Shared.step, Shared.returned, idle, Shared.enter, CircuitBreaker.allow,
        shown, late]
  | _ =>
    simp [allowSteps, Transition.run, Shared.step, Shared.returned, idle, CircuitBreaker.allow, shown]

end PolyglotInfinity.Gateway
