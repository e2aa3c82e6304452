import PolyglotInfinity.Gateway.Atomic
import PolyglotInfinity.Gateway.Requests

/-!
# Clients that share one backend's breaker

Any number of requests through `newCBProxy` to one backend, each handled by a
goroutine of its own, and the requests whose clients go away.
-/

namespace PolyglotInfinity.Gateway

open Transition (run Along Always)

/-- Why the transport failed. `ErrorHandler` does not look at it. -/
inductive Cause where
  | clientCanceled
  | deadline
  | connection
  deriving DecidableEq

inductive Stage where
  | new
  /-- `Allow` has loaded Open and has not returned. -/
  | asking
  | forwarded
  | refused
  /-- One of the two callbacks has been called. -/
  | ended
  deriving DecidableEq

structure Proxied where
  shared : Shared := {}
  stage : ℕ → Stage := fun _ => .new

/-- A step for request `r`, whose goroutine has the same number. -/
inductive ProxyEvent where
  | arrives (r : ℕ)
  | locks (r : ℕ) (now : ℤ)
  | responds (r : ℕ) (status : ℕ)
  | fails (r : ℕ) (cause : Cause)
  | records (r : ℕ) (now : ℤ)

def Proxied.access (p : Proxied) (r : ℕ) (a : Access) (stage : Stage) : Option Proxied :=
  (p.shared.step a).map fun shared => { shared, stage := Function.update p.stage r stage }

/-- What a call of `RecordSuccess` or `RecordFailure` does next. -/
def Call.next (t : ℕ) (now : ℤ) : Call → Option Access
  | cleared => some (.addSuccess t)
  | added => some (.storeClosed t)
  | counted _ => some (.setLastFailure t now)
  | opening => some (.storeOpen t)
  | idle | locking => none

def Proxied.step (p : Proxied) : ProxyEvent → Option Proxied
  | .arrives r =>
    if p.stage r = .new then
      p.access r (.load r) (if p.shared.returned (.load r) = some true then .forwarded else .asking)
    else none
  | .locks r now =>
    if p.stage r = .asking then
      p.access r (.lock r now) (if p.shared.returned (.lock r now) = some true then .forwarded else .refused)
    else none
  | .responds r status =>
    if p.stage r = .forwarded then
      p.access r (if status ≥ 500 then .addFailure r else .resetFailures r) .ended
    else none
  | .fails r _ => if p.stage r = .forwarded then p.access r (.addFailure r) .ended else none
  | .records r now => do
    let a ← (p.shared.calls r).next r now
    p.access r a (p.stage r)

/-! ### A request that is left alone -/

def arrivalSteps (cb : CircuitBreaker) (r : ℕ) (now : ℤ) : List ProxyEvent :=
  .arrives r :: if cb.state = .open then [.locks r now] else []

def outcomeSteps (cb : CircuitBreaker) (r : ℕ) (a : Attempt) : List ProxyEvent :=
  let failed := .records r a.later :: if cb.failures + 1 ≥ cb.threshold then [.records r a.later] else []
  match a.outcome with
  | .error _ => .fails r .connection :: failed
  | .response status => .responds r status :: if status ≥ 500 then failed else [.records r a.later, .records r a.later]

section
variable {p : Proxied} {r : ℕ}

theorem arrival_alone (new : p.stage r = .new) (idle : p.shared.calls r = .idle) (now : ℤ) :
    ∃ p', run Proxied.step p (arrivalSteps p.shared.cb r now) = some p' ∧
      p'.shared = { p.shared with cb := (p.shared.cb.allow now).1 } ∧
      p'.stage r = if (p.shared.cb.allow now).2 then .forwarded else .refused := by
  cases shown : p.shared.cb.state with
  | «open» =>
    by_cases late : p.shared.cb.resetAfter < now - p.shared.cb.lastFailure <;>
      simp [arrivalSteps, Transition.run, Proxied.step, Proxied.access, Shared.step, Shared.returned, new, idle,
        Shared.enter, CircuitBreaker.allow, shown, late]
  | _ =>
    simp [arrivalSteps, Transition.run, Proxied.step, Proxied.access, Shared.step, Shared.returned, new, idle,
      CircuitBreaker.allow, shown]

theorem records_eq (now : ℤ) : p.step (.records r now) =
    ((p.shared.calls r).next r now).bind fun a => p.access r a (p.stage r) := rfl

/-- The step that counts a failure, and those that record it. -/
theorem failure_alone {e : ProxyEvent} (counts : p.step e = p.access r (.addFailure r) .ended)
    (idle : p.shared.calls r = .idle) (now : ℤ) :
    ∃ p', run Proxied.step p (e :: .records r now ::
        if p.shared.cb.failures + 1 ≥ p.shared.cb.threshold then [.records r now] else []) = some p' ∧
      p'.shared = { p.shared with cb := p.shared.cb.recordFailure now } := by
  by_cases reached : p.shared.cb.threshold ≤ p.shared.cb.failures + 1 <;>
    simp [Transition.run, counts, records_eq, Proxied.access, Call.next, Shared.step, idle,
      Shared.enter, CircuitBreaker.recordFailure, reached]

theorem success_alone {e : ProxyEvent} (resets : p.step e = p.access r (.resetFailures r) .ended)
    (idle : p.shared.calls r = .idle) (now : ℤ) :
    ∃ p', run Proxied.step p [e, .records r now, .records r now] = some p' ∧
      p'.shared = { p.shared with cb := p.shared.cb.recordSuccess } := by
  simp [Transition.run, resets, records_eq, Proxied.access, Call.next, Shared.step, idle,
    Shared.enter, CircuitBreaker.recordSuccess]

theorem outcome_alone (forwarded : p.stage r = .forwarded) (idle : p.shared.calls r = .idle) (a : Attempt) :
    ∃ p', run Proxied.step p (outcomeSteps p.shared.cb r a) = some p' ∧
      p'.shared = { p.shared with cb := p.shared.cb.record a.outcome.below500 a.later } := by
  unfold outcomeSteps
  cases outcome : a.outcome with
  | error text =>
    apply failure_alone _ idle
    rw [Proxied.step, if_pos forwarded]
  | response status =>
    by_cases failed : 500 ≤ status
    · have counts : p.step (.responds r status) = p.access r (.addFailure r) .ended := by
        rw [Proxied.step, if_pos forwarded, if_pos failed]
      simpa [failed, Nat.not_lt.mpr failed, Outcome.below500, CircuitBreaker.record] using
        failure_alone counts idle a.later
    · have resets : p.step (.responds r status) = p.access r (.resetFailures r) .ended := by
        rw [Proxied.step, if_pos forwarded, if_neg failed]
      simpa [failed, not_le.mp failed, Outcome.below500, CircuitBreaker.record] using
        success_alone resets idle a.later

/-- A request that no other comes between does to the breaker what `newCBProxy` says. -/
theorem newCBProxy_alone (new : p.stage r = .new) (idle : p.shared.calls r = .idle) {v : Visit}
    (passed : ¬ v.Stranded) : ∃ events p', run Proxied.step p events = some p' ∧
      p'.shared = { p.shared with cb := (newCBProxy p.shared.cb v).1 } := by
  obtain ⟨asked, taken, shared, answer⟩ := arrival_alone new idle v.now
  rw [newCBProxy_guarded _ passed, CircuitBreaker.guarded]
  cases allowed : (p.shared.cb.allow v.now).2 with
  | false => exact ⟨_, asked, taken, by simpa [allowed] using shared⟩
  | true =>
    rw [allowed, if_pos rfl] at answer
    have rest := outcome_alone answer (by rw [shared]; exact idle) ⟨v.now, v.upstream.roundTrip, v.later⟩
    rw [shared] at rest
    obtain ⟨last, recorded, shared'⟩ := rest
    exact ⟨_, last, Transition.run_append.mpr ⟨asked, taken, recorded⟩, by simpa [allowed] using shared'⟩

end

/-! ### Cancellations -/

/-- The backend answers below 500 within the deadline, unless the client cancels first. -/
def Healthy (_ : Proxied) : ProxyEvent → Prop
  | .responds _ status => status < 500
  | .fails _ cause => cause = .clientCanceled
  | _ => True

/-- A client that cancels does not bring the count to the threshold. -/
def Spared (p : Proxied) : ProxyEvent → Prop
  | .fails _ .clientCanceled => p.shared.cb.failures + 1 < p.shared.cb.threshold
  | _ => True

instance (p : Proxied) : (e : ProxyEvent) → Decidable (Healthy p e)
  | .responds _ status => inferInstanceAs (Decidable (status < 500))
  | .fails _ cause => inferInstanceAs (Decidable (cause = .clientCanceled))
  | .arrives _ | .locks _ _ | .records _ _ => .isTrue trivial

instance (p : Proxied) : (e : ProxyEvent) → Decidable (Spared p e)
  | .fails _ .clientCanceled => inferInstanceAs (Decidable (_ < _))
  | .fails _ .deadline | .fails _ .connection => .isTrue trivial
  | .arrives _ | .locks _ _ | .records _ _ | .responds _ _ => .isTrue trivial

/-- The breaker is not open and no request has been refused. -/
def Unharmed (p : Proxied) : Prop := p.shared.cb.state ≠ .open ∧ ∀ r, p.stage r ≠ .refused

/-- The breaker is not open, and no call is on its way to Open or HalfOpen. -/
structure Calm (s : Shared) : Prop where
  shut : s.cb.state ≠ .open
  calls : ∀ t, s.calls t ≠ .locking ∧ s.calls t ≠ .opening ∧ ∀ f, s.calls t = .counted f → f < s.cb.threshold

theorem Calm.enter {s s' : Shared} {t : ℕ} (calm : Calm s) (c : Call) (moved : s'.calls = Function.update s.calls t c)
    (threshold : s'.cb.threshold = s.cb.threshold) (shut : s'.cb.state ≠ .open)
    (safe : c ≠ .locking ∧ c ≠ .opening ∧ ∀ f, c = .counted f → f < s.cb.threshold) : Calm s' := by
  refine ⟨shut, fun u => ?_⟩
  rw [moved, threshold]
  by_cases mine : u = t
  · subst u
    simpa using safe
  · rw [Function.update_of_ne mine]
    exact calm.calls u

theorem step_calm {s s' : Shared} {a : Access} (calm : Calm s)
    (spared : ∀ t, a = .addFailure t → s.cb.failures + 1 < s.cb.threshold) (h : s.step a = some s') : Calm s' := by
  cases a with
  | load t =>
    obtain ⟨-, ⟨shown, -⟩ | ⟨-, rfl⟩⟩ := load_eq.mp h
    · exact absurd shown calm.shut
    · exact calm
  | lock t now => exact absurd (lock_eq.mp h).1 (calm.calls t).1
  | resetFailures t =>
    obtain ⟨-, rfl⟩ := resetFailures_eq.mp h
    exact calm.enter .cleared rfl rfl calm.shut (by simp)
  | addSuccess t =>
    obtain ⟨-, rfl⟩ := addSuccess_eq.mp h
    exact calm.enter .added rfl rfl calm.shut (by simp)
  | storeClosed t =>
    obtain ⟨-, rfl⟩ := storeClosed_eq.mp h
    exact calm.enter .idle rfl rfl (by simp) (by simp)
  | addFailure t =>
    obtain ⟨-, rfl⟩ := addFailure_eq.mp h
    exact calm.enter (.counted _) rfl rfl calm.shut (by simpa using spared t rfl)
  | setLastFailure t now =>
    obtain ⟨f, counted, ⟨reached, -⟩ | ⟨-, rfl⟩⟩ := setLastFailure_eq.mp h
    · exact absurd ((calm.calls t).2.2 f counted) (Int32.not_lt.mpr reached)
    · exact calm.enter .idle rfl rfl calm.shut (by simp)
  | storeOpen t => exact absurd (storeOpen_eq.mp h).1 (calm.calls t).2.1

/-- What keeps the clients from harm. -/
structure Untripped (p : Proxied) : Prop where
  calm : Calm p.shared
  unrefused : ∀ r, p.stage r ≠ .refused

theorem Untripped.unharmed {p : Proxied} (untripped : Untripped p) : Unharmed p :=
  ⟨untripped.calm.shut, untripped.unrefused⟩

theorem access_untripped {p p' : Proxied} {r : ℕ} {a : Access} {stage : Stage} (untripped : Untripped p)
    (spared : ∀ t, a = .addFailure t → p.shared.cb.failures + 1 < p.shared.cb.threshold)
    (stays : stage ≠ .refused) (h : p.access r a stage = some p') : Untripped p' := by
  obtain ⟨shared, taken, rfl⟩ := Option.map_eq_some_iff.mp h
  refine ⟨step_calm untripped.calm spared taken, fun u => ?_⟩
  by_cases mine : u = r
  · subst u
    simpa using stays
  · simpa [Function.update_of_ne mine] using untripped.unrefused u

theorem Call.next_access {c : Call} {t : ℕ} {now : ℤ} {a : Access} (h : c.next t now = some a) (u : ℕ) :
    a ≠ .addFailure u := by
  cases c <;> cases h <;> simp

theorem step_untripped {p p' : Proxied} {e : ProxyEvent} (untripped : Untripped p)
    (ok : Healthy p e ∧ Spared p e) (h : p.step e = some p') : Untripped p' := by
  obtain ⟨healthy, spared⟩ := ok
  cases e with
  | arrives r =>
    obtain ⟨-, h⟩ := Option.ite_none_right_eq_some.mp h
    exact access_untripped untripped (by simp) (by split <;> simp) h
  | locks r now =>
    obtain ⟨-, h⟩ := Option.ite_none_right_eq_some.mp h
    obtain ⟨shared, taken, -⟩ := Option.map_eq_some_iff.mp h
    exact absurd (lock_eq.mp taken).1 (untripped.calm.calls r).1
  | responds r status =>
    obtain ⟨-, h⟩ := Option.ite_none_right_eq_some.mp h
    rw [if_neg (Nat.not_le.mpr healthy)] at h
    exact access_untripped untripped (by simp) (by simp) h
  | fails r cause =>
    obtain rfl : cause = .clientCanceled := healthy
    obtain ⟨-, h⟩ := Option.ite_none_right_eq_some.mp h
    exact access_untripped untripped (fun _ _ => spared) (by simp) h
  | records r now =>
    obtain ⟨a, next, h⟩ := Option.bind_eq_some_iff.mp h
    exact access_untripped untripped (fun t same => absurd same (Call.next_access next t)) (untripped.unrefused r) h

/-- Three clients that go away, and a fourth that does not. -/
def impatient : List ProxyEvent := [.arrives 0, .fails 0 .clientCanceled, .records 0 1,
  .arrives 1, .fails 1 .clientCanceled, .records 1 2,
  .arrives 2, .fails 2 .clientCanceled, .records 2 3, .records 2 3,
  .arrives 3, .locks 3 4]

end PolyglotInfinity.Gateway
