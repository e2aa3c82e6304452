import Mathlib.Data.List.Nodup
import PolyglotInfinity.Lib.Transition

/-!
# Workers with places of their own

Each worker writes its place of a list and ends, and the main routine waits for all of them. The
list in the end does not depend on the order in which they end.
-/

namespace Slots

open Transition (run)

variable {β : Type*}

structure State (β : Type*) where
  slots : List β
  running : List ℕ

def start (zero : β) (n : ℕ) : State β := ⟨List.replicate n zero, List.range n⟩

/-- Worker `i` ends. -/
def step (value : ℕ → β) (s : State β) (i : ℕ) : Option (State β) :=
  if i ∈ s.running then some ⟨s.slots.set i (value i), s.running.erase i⟩ else none

/-- The workers that have ended have written their values. -/
structure Written (n : ℕ) (value : ℕ → β) (s : State β) : Prop where
  length : s.slots.length = n
  distinct : s.running.Nodup
  ended : ∀ i < n, i ∉ s.running → s.slots[i]? = some (value i)

variable {n i : ℕ} {zero : β} {value : ℕ → β} {s t : State β} {is : List ℕ}

theorem start_written : Written n value (start zero n) :=
  ⟨List.length_replicate, List.nodup_range, fun _ i_lt absent => absurd (List.mem_range.mpr i_lt) absent⟩

theorem step_written (written : Written n value s) (taken : step value s i = some t) : Written n value t := by
  unfold step at taken
  split at taken
  · obtain rfl := Option.some.inj taken
    obtain ⟨length, distinct, ended⟩ := written
    refine ⟨by rw [List.length_set, length], distinct.erase i, fun j j_lt absent => ?_⟩
    rcases eq_or_ne i j with rfl | ne
    · exact List.getElem?_set_self (length ▸ j_lt)
    · rw [List.getElem?_set_ne ne]
      exact ended j j_lt fun running => absent ((List.mem_erase_of_ne ne.symm).mpr running)
  · contradiction

theorem run_written (ran : run (step value) (start zero n) is = some s) : Written n value s :=
  Transition.run_invariant (fun _ _ _ written taken => step_written written taken) start_written ran

theorem Written.done (written : Written n value s) (none : s.running = []) :
    s.slots = (List.range n).map value := by
  apply List.ext_getElem?
  intro i
  rcases Nat.lt_or_ge i n with i_lt | i_ge
  · rw [written.ended i i_lt (by rw [none]; exact List.not_mem_nil)]
    simp [i_lt]
  · rw [List.getElem?_eq_none (written.length ▸ i_ge), List.getElem?_eq_none (by simpa using i_ge)]

end Slots
