import Mathlib.Algebra.Order.Ring.Int

/-!
# The gateway's circuit breaker

`CircuitBreaker` and the reverse proxy that it guards. Clock readings are
inputs, in nanoseconds. The proxy answers 200 also where it has no reply of its
backend.
-/

namespace PolyglotInfinity.Gateway

inductive CbState where
  | closed | open | halfOpen
  deriving DecidableEq, Repr

structure CircuitBreaker where
  state : CbState := .closed
  failures : Int32 := 0
  successes : Int32 := 0
  lastFailure : ℤ := 0
  threshold : Int32 := 3
  resetAfter : ℤ := 30 * 1000000000
  deriving DecidableEq

/-- A breaker as `getOrCreateCB` makes it, which has the default values here. -/
def fresh (threshold : Int32) (resetAfter : ℤ) : CircuitBreaker := { threshold, resetAfter }

def CircuitBreaker.allow (cb : CircuitBreaker) (now : ℤ) : CircuitBreaker × Bool :=
  match cb.state with
  | .closed => (cb, true)
  | .open => if now - cb.lastFailure > cb.resetAfter then ({ cb with state := .halfOpen }, true) else (cb, false)
  | .halfOpen => (cb, true)

def CircuitBreaker.recordSuccess (cb : CircuitBreaker) : CircuitBreaker :=
  { cb with failures := 0, successes := cb.successes + 1, state := .closed }

def CircuitBreaker.recordFailure (cb : CircuitBreaker) (now : ℤ) : CircuitBreaker :=
  let f := cb.failures + 1
  let cb := { cb with failures := f, lastFailure := now }
  if f ≥ cb.threshold then { cb with state := .open } else cb

/-- `ModifyResponse` of `newCBProxy`: a reply is classified by its status. -/
def CircuitBreaker.modifyResponse (cb : CircuitBreaker) (status : ℕ) (now : ℤ) : CircuitBreaker :=
  if status ≥ 500 then cb.recordFailure now else cb.recordSuccess

theorem allow_refused {cb : CircuitBreaker} {now : ℤ} (refused : (cb.allow now).2 = false) :
    (cb.allow now).1 = cb := by
  unfold CircuitBreaker.allow at refused ⊢
  split at refused
  · cases refused
  · split at refused
    · cases refused
    · rename_i early
      simp [early]
  · cases refused

theorem allow_state (cb : CircuitBreaker) (now : ℤ) :
    ∃ state, (cb.allow now).1 = { cb with state } ∧ (state = .closed ↔ cb.state = .closed) := by
  unfold CircuitBreaker.allow
  split
  · exact ⟨cb.state, rfl, Iff.rfl⟩
  · rename_i shown
    split
    · exact ⟨.halfOpen, rfl, by simp [shown]⟩
    · exact ⟨cb.state, rfl, Iff.rfl⟩
  · exact ⟨cb.state, rfl, Iff.rfl⟩

theorem toInt_succ {x : Int32} (room : x.toInt < 2 ^ 31 - 1) : (x + 1).toInt = x.toInt + 1 := by
  have low := Int32.le_toInt x
  have one : (1 : Int32).toInt = 1 := by decide
  rw [Int32.toInt_add, one]
  exact Int.bmod_eq_of_le (by omega) (by omega)

theorem succ_below {x y : Int32} (below : x + 1 < y) (room : x ≠ Int32.maxValue) : x < y := by
  have apart : x.toInt ≠ 2 ^ 31 - 1 := fun same => room (Int32.toInt_inj.mp same)
  have high := Int32.toInt_lt x
  rw [Int32.lt_iff_toInt_lt, toInt_succ (by omega)] at below
  rw [Int32.lt_iff_toInt_lt]
  omega

/-- The status of `writeFallback`, for an open breaker and for a transport error. -/
def fallbackStatus : ℕ := 200

/-- A call of one of the breaker's methods by some other request. -/
inductive CbCall where
  | allow (now : ℤ)
  | recordSuccess
  | recordFailure (now : ℤ)

def CircuitBreaker.call (cb : CircuitBreaker) : CbCall → CircuitBreaker
  | .allow now => (cb.allow now).1
  | .recordSuccess => cb.recordSuccess
  | .recordFailure now => cb.recordFailure now

end PolyglotInfinity.Gateway
