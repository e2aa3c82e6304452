import Mathlib.Data.List.Basic
import Mathlib.Order.Defs.PartialOrder

/-!
# Depth-first search with choice points

A goal gives the solutions of one call, in the order in which the program finds them. A branch
is what is left to prove of a clause, with the bindings made so far, and the branches not yet
looked at form a stack. The search stops at the first branch with nothing left to prove.
-/

namespace Backtracking

variable {α β : Type*}

abbrev Goal (β : Type*) := β → List β

structure Branch (β : Type*) where
  goals : List (Goal β)
  bindings : β

inductive Answer (β : Type*) where
  | found (bindings : β) (left : List (Branch β))
  | failed

def Answer.bindings : Answer β → Option β
  | found b _ => some b
  | failed => none

def search : ℕ → List (Branch β) → Option (Answer β)
  | 0, _ => none
  | _ + 1, [] => some .failed
  | _ + 1, ⟨[], b⟩ :: left => some (.found b left)
  | n + 1, ⟨goal :: goals, b⟩ :: left => search n ((goal b).map (Branch.mk goals) ++ left)

/-- All solutions, in the order in which backtracking meets them. -/
def solutions : List (Goal β) → β → List β
  | [], b => [b]
  | goal :: goals, b => (goal b).flatMap (solutions goals)

/-- `member(X, xs)` with a fresh `X`, which is then kept by `set`. -/
def choose (xs : List α) (set : β → α → β) : Goal β := fun b => xs.map (set b)

def test (p : β → Prop) [DecidablePred p] : Goal β := fun b => if p b then [b] else []

variable {goal : Goal β} {goals : List (Goal β)} {b c : β} {xs : List α} {set : β → α → β} {left : List (Branch β)}

/-- What the search makes of one branch: it comes to its first solution, or leaves the stack below it. -/
def Explores (stack left : List (Branch β)) (found : List β) : Prop :=
  ∃ n, (found = [] ∧ ∀ m, search (n + m) stack = search m left) ∨
    ∃ x rest, found.head? = some x ∧ ∀ m, search (n + m) stack = some (.found x rest)

theorem explores_all (each : ∀ b left, Explores (⟨goals, b⟩ :: left) left (solutions goals b)) (bs : List β)
    (left : List (Branch β)) : Explores (bs.map (Branch.mk goals) ++ left) left (bs.flatMap (solutions goals)) := by
  induction bs with
  | nil => exact ⟨0, .inl ⟨rfl, fun m => by rw [Nat.zero_add]; rfl⟩⟩
  | cons b bs ih =>
    rw [List.map_cons, List.cons_append, List.flatMap_cons]
    obtain ⟨n, ⟨none, past⟩ | ⟨x, rest, first, found⟩⟩ := each b (bs.map (Branch.mk goals) ++ left)
    · rw [none, List.nil_append]
      obtain ⟨k, ⟨none, later⟩ | ⟨x, rest, first, found⟩⟩ := ih
      · exact ⟨n + k, .inl ⟨none, fun m => by rw [Nat.add_assoc, past, later]⟩⟩
      · exact ⟨n + k, .inr ⟨x, rest, first, fun m => by rw [Nat.add_assoc, past, found]⟩⟩
    · exact ⟨n, .inr ⟨x, rest, by rw [List.head?_append, first]; rfl, found⟩⟩

theorem explores (goals : List (Goal β)) (b : β) (left : List (Branch β)) :
    Explores (⟨goals, b⟩ :: left) left (solutions goals b) := by
  induction goals generalizing b left with
  | nil => exact ⟨1, .inr ⟨b, left, rfl, fun m => by rw [Nat.add_comm]; rfl⟩⟩
  | cons goal goals ih =>
    have step (m : ℕ) : search (m + 1) (⟨goal :: goals, b⟩ :: left) =
        search m ((goal b).map (Branch.mk goals) ++ left) := rfl
    obtain ⟨n, ⟨none, past⟩ | ⟨x, rest, first, found⟩⟩ := explores_all ih (goal b) left
    · exact ⟨n + 1, .inl ⟨none, fun m => by rw [Nat.add_right_comm, step, past]⟩⟩
    · exact ⟨n + 1, .inr ⟨x, rest, first, fun m => by rw [Nat.add_right_comm, step, found]⟩⟩

/-- With enough fuel the search ends, at the first solution if there is one. -/
theorem search_first (goals : List (Goal β)) (b : β) : ∃ n answer,
    (∀ m, search (n + m) [⟨goals, b⟩] = some answer) ∧ answer.bindings = (solutions goals b).head? := by
  obtain ⟨n, ⟨none, past⟩ | ⟨x, rest, first, found⟩⟩ := explores goals b []
  · exact ⟨n + 1, .failed, fun m => by rw [Nat.add_assoc, past, Nat.add_comm]; rfl, by rw [none]; rfl⟩
  · exact ⟨n, .found x rest, found, first.symm⟩

@[simp] theorem mem_solutions_nil : c ∈ solutions [] b ↔ c = b := List.mem_singleton

theorem mem_solutions_cons : c ∈ solutions (goal :: goals) b ↔ ∃ d ∈ goal b, c ∈ solutions goals d := List.mem_flatMap

@[simp] theorem mem_solutions_choose :
    c ∈ solutions (choose xs set :: goals) b ↔ ∃ x ∈ xs, c ∈ solutions goals (set b x) := by
  simp [solutions, choose]

@[simp] theorem mem_solutions_test {p : β → Prop} [DecidablePred p] :
    c ∈ solutions (test p :: goals) b ↔ p b ∧ c ∈ solutions goals b := by
  by_cases holds : p b <;> simp [solutions, test, holds]

/-- Choices from an ascending list give their solutions in lexicographic order. -/
theorem choose_pairwise [Preorder α] {key : β → α} {R : β → β → Prop} (ascending : xs.Pairwise (· < ·))
    (kept : ∀ x ∈ xs, ∀ c ∈ solutions goals (set b x), key c = x)
    (inner : ∀ x ∈ xs, (solutions goals (set b x)).Pairwise R) :
    (solutions (choose xs set :: goals) b).Pairwise fun c d => key c < key d ∨ key c = key d ∧ R c d := by
  rw [solutions, choose, List.flatMap_map, List.pairwise_flatMap]
  constructor
  · intro x member
    refine (inner x member).imp_of_mem fun first second related => .inr ⟨?_, related⟩
    rw [kept x member _ first, kept x member _ second]
  · refine ascending.imp_of_mem fun first second below c inFirst d inSecond => .inl ?_
    rw [kept _ first c inFirst, kept _ second d inSecond]
    exact below

theorem test_pairwise {R : β → β → Prop} {p : β → Prop} [DecidablePred p] (inner : (solutions goals b).Pairwise R) :
    (solutions (test p :: goals) b).Pairwise R := by
  by_cases holds : p b <;> simp [solutions, test, holds, inner]

end Backtracking
