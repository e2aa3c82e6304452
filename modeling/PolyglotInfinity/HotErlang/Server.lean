import Mathlib.Algebra.Group.Nat.Even
import PolyglotInfinity.Lib.Transition

/-!
# The hot swap server

Any number of requests for `/api/erlang/hotswap`, each handled by a process of
its own. Every operation on the ETS table is one step, and the steps of different
requests interleave freely. The other routes only read the table.
-/

namespace PolyglotInfinity.HotErlang

open Transition (run tally)

/-- The ETS table `hot_state`. -/
structure HotState where
  logicVersion : ℕ := 1
  swapCount : ℕ := 0

structure Swap where
  oldV : ℕ
  newV : ℕ
  deriving DecidableEq

structure Reply where
  oldVersion : ℕ
  newVersion : ℕ
  oldLogic : String
  newLogic : String
  swapCount : ℕ

/-- Requests wait in the list of the last operation that each has done. -/
structure Server where
  table : HotState := {}
  looked : List ℕ := []
  inserted : List Swap := []
  counted : List Swap := []
  replies : List Reply := []

inductive Op where
  | lookupVersion
  | insert (oldV : ℕ)
  | updateCounter (swap : Swap)
  | lookupCount (swap : Swap)

/-- What `risk_score` names the version's logic. -/
def logicName : ℕ → String
  | 2 => "nonlinear_v2"
  | _ => "linear_v1"

def toggle (oldV : ℕ) : ℕ := oldV % 2 + 1

def Server.step (s : Server) : Op → Option Server
  | .lookupVersion => some { s with looked := s.looked ++ [s.table.logicVersion] }
  | .insert oldV =>
    if oldV ∈ s.looked then
      some { s with
        table := { s.table with logicVersion := toggle oldV }
        looked := s.looked.erase oldV
        inserted := s.inserted ++ [⟨oldV, toggle oldV⟩] }
    else none
  | .updateCounter swap =>
    if swap ∈ s.inserted then
      some { s with
        table := { s.table with swapCount := s.table.swapCount + 1 }
        inserted := s.inserted.erase swap
        counted := s.counted ++ [swap] }
    else none
  | .lookupCount swap =>
    if swap ∈ s.counted then
      some { s with
        counted := s.counted.erase swap
        replies := s.replies ++
          [⟨swap.oldV, swap.newV, logicName swap.oldV, logicName swap.newV, s.table.swapCount⟩] }
    else none

def Server.Idle (s : Server) : Prop := s.looked = [] ∧ s.inserted = [] ∧ s.counted = []

/-- An insert whose request has looked up another version than the table has by now. -/
def Overtaken (s : Server) : Op → Prop
  | .insert oldV => s.table.logicVersion ≠ oldV
  | _ => False

instance (s : Server) : (op : Op) → Decidable (Overtaken s op)
  | .insert _ => inferInstanceAs (Decidable (_ ≠ _))
  | .lookupVersion | .updateCounter _ | .lookupCount _ => .isFalse id

/-- The version keeps the parity of the swaps that have been inserted, but for `lost` of them. -/
structure Paired (lost : ℕ) (s : Server) : Prop where
  version : s.table.logicVersion = 1 ∨ s.table.logicVersion = 2
  looked : ∀ oldV ∈ s.looked, oldV = 1 ∨ oldV = 2
  parity : (s.table.logicVersion + s.table.swapCount + s.inserted.length + lost) % 2 = 1

theorem step_paired {lost : ℕ} {s s' : Server} {op : Op} (paired : Paired lost s) (h : s.step op = some s') :
    Paired (lost + if Overtaken s op then 1 else 0) s' := by
  obtain ⟨version, looked, parity⟩ := paired
  cases op with
  | lookupVersion =>
    obtain rfl := Option.some.inj h
    refine ⟨version, ?_, parity⟩
    intro oldV member
    rcases List.mem_append.mp member with before | now
    · exact looked oldV before
    · rw [List.mem_singleton.mp now]
      exact version
  | insert oldV =>
    obtain ⟨held, rfl⟩ := Option.ite_some_none_eq_some.mp h
    have old := looked oldV held
    refine ⟨?_, fun v member => looked v (List.mem_of_mem_erase member), ?_⟩
    · rcases old with rfl | rfl <;> simp [toggle]
    · simp only [Overtaken, List.length_append, List.length_singleton]
      rcases old with rfl | rfl <;> rcases version with one | two <;> simp_all [toggle] <;> omega
  | updateCounter swap =>
    obtain ⟨held, rfl⟩ := Option.ite_some_none_eq_some.mp h
    refine ⟨version, looked, ?_⟩
    have waiting := List.length_pos_of_mem held
    have none : (if Overtaken s (.updateCounter swap) then 1 else 0) = 0 := rfl
    simp only [none, List.length_erase_of_mem held]
    omega
  | lookupCount swap =>
    obtain ⟨-, rfl⟩ := Option.ite_some_none_eq_some.mp h
    exact ⟨version, looked, parity⟩

/-- When no request is in progress, the version agrees with the count of swaps
exactly if an even number of inserts came from an outdated lookup. -/
theorem version_agrees_iff {ops : List Op} {s : Server} (h : run Server.step {} ops = some s) (idle : s.Idle) :
    s.table.logicVersion = 1 + s.table.swapCount % 2 ↔ Even (tally Server.step Overtaken {} ops) := by
  have start : Paired 0 {} := ⟨.inl rfl, by simp, rfl⟩
  obtain ⟨version, -, parity⟩ := Transition.run_tally (fun _ _ _ _ => step_paired) start h
  rw [idle.2.1, List.length_nil] at parity
  rw [Nat.even_iff]
  omega

def oneByOne : List Op := [.lookupVersion, .insert 1, .updateCounter ⟨1, 2⟩, .lookupCount ⟨1, 2⟩,
  .lookupVersion, .insert 2, .updateCounter ⟨2, 1⟩, .lookupCount ⟨2, 1⟩]

theorem version_agrees_iff_oneByOne : ∃ s, run Server.step {} oneByOne = some s ∧ s.table.swapCount = 2 ∧
    s.table.logicVersion = 1 + s.table.swapCount % 2 :=
  ⟨_, rfl, rfl, (@version_agrees_iff oneByOne _ rfl ⟨rfl, rfl, rfl⟩).mpr (by decide)⟩

def atOnce : List Op := [.lookupVersion, .lookupVersion, .insert 1, .insert 1,
  .updateCounter ⟨1, 2⟩, .updateCounter ⟨1, 2⟩, .lookupCount ⟨1, 2⟩, .lookupCount ⟨1, 2⟩]

theorem atOnce_loses_swap : ¬ ∀ s, run Server.step {} atOnce = some s → s.Idle →
    s.table.logicVersion = 1 + s.table.swapCount % 2 := by
  intro law
  exact absurd (law _ rfl ⟨rfl, rfl, rfl⟩) (by decide)

end PolyglotInfinity.HotErlang
