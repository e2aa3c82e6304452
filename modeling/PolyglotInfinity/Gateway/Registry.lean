import PolyglotInfinity.Gateway.Breaker
import PolyglotInfinity.Lib.DoubleChecked

/-!
# The breaker of each service

`getOrCreateCB`, called by any number of goroutines with any service names.
-/

namespace PolyglotInfinity.Gateway

open Transition (run)
open DoubleChecked (State Event)

structure NamedBreaker where
  name : String
  cb : CircuitBreaker
  deriving DecidableEq

/-- A new breaker: threshold 3, 30 seconds to reset. -/
def newBreaker (name : String) : NamedBreaker := { name, cb := fresh 3 (30 * 1000000000) }

def getOrCreateCB : State String NamedBreaker → Event String → Option (State String NamedBreaker) :=
  DoubleChecked.step newBreaker

/-- Calls with one name return one breaker, no two breakers are made for a name,
the map lists each under its name, and no later call replaces it. -/
theorem one_breaker_per_name {events : List (Event String)} {s : State String NamedBreaker}
    (h : run getOrCreateCB {} events = some s) :
    (∀ t u name p q, s.calls t = .returned name p → s.calls u = .returned name q → p = q) ∧
      (∀ (p q : ℕ) a b, s.heap[p]? = some a → s.heap[q]? = some b → a.name = b.name → p = q) ∧
      (∀ name p, s.table.lookup name = some p ↔ ∃ a, s.heap[p]? = some a ∧ a.name = name) ∧
      ∀ later s', run getOrCreateCB s later = some s' →
        ∀ name p, s.table.lookup name = some p → s'.table.lookup name = some p := by
  have shares : DoubleChecked.Shares NamedBreaker.name s := DoubleChecked.run_shares (fun _ => rfl) h
  exact ⟨fun _ _ _ _ _ => shares.one_return, fun _ _ _ _ => shares.one_object, shares.listed,
    fun _ _ rest _ _ here => DoubleChecked.run_keeps here rest⟩

/-- Two calls miss the same name before either takes the write lock. -/
def raced : List (Event String) :=
  [.read 0 "clojure-stm", .read 1 "clojure-stm", .write 1, .read 2 "java-loom", .write 2, .write 0]

theorem one_breaker_per_name_raced : ∃ s, run getOrCreateCB {} raced = some s ∧ s.heap.length = 2 ∧
    ∀ p q, s.calls 0 = .returned "clojure-stm" p → s.calls 1 = .returned "clojure-stm" q → p = q := by
  have made : (run getOrCreateCB {} raced).map (fun s => s.heap.length) = some 2 := by decide +kernel
  obtain ⟨s, h, two⟩ := Option.map_eq_some_iff.mp made
  exact ⟨s, h, two, (one_breaker_per_name h).1 0 1 "clojure-stm"⟩

end PolyglotInfinity.Gateway
