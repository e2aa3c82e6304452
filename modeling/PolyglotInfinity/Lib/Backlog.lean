import Mathlib.Algebra.BigOperators.Group.List.Basic
import Mathlib.Algebra.Order.Ring.Int
import Mathlib.Data.List.Infix

/-!
# Backlogs

A counter that every event changes and that never falls below zero, such as the
length of a queue. What it has come to is the largest sum of its latest changes.
-/

namespace Backlog

variable {ε : Type*} {change : ε → ℤ} {events : List ε} {e : ε} {bound : ℤ}

def level (change : ε → ℤ) (events : List ε) : ℤ := events.foldl (fun l e => max 0 (l + change e)) 0

theorem level_concat : level change (events ++ [e]) = max 0 (level change events + change e) := by
  simp [level]

/-- The empty stretch has the sum 0. -/
theorem level_le_iff :
    level change events ≤ bound ↔ ∀ latest, latest <:+ events → (latest.map change).sum ≤ bound := by
  induction events using List.reverseRecOn generalizing bound with
  | nil => simp [level]
  | append_singleton events e ih =>
    have shifted : level change events + change e ≤ bound ↔ level change events ≤ bound - change e := by omega
    rw [level_concat, max_le_iff, shifted, ih]
    constructor
    · rintro ⟨low, sums⟩ latest within
      rcases List.suffix_concat_iff.mp within with rfl | ⟨earlier, rfl, before⟩
      · simpa using low
      · have sum := sums earlier before
        simp only [List.map_append, List.sum_append, List.map_cons, List.map_nil, List.sum_cons, List.sum_nil]
        omega
    · intro sums
      refine ⟨by simpa using sums [] (List.nil_suffix), fun earlier before => ?_⟩
      have sum := sums (earlier ++ [e]) (List.suffix_concat_iff.mpr (.inr ⟨earlier, rfl, before⟩))
      simp only [List.map_append, List.sum_append, List.map_cons, List.map_nil, List.sum_cons, List.sum_nil] at sum
      omega

/-- The counter stays within its bound exactly if the changes of no stretch add up to more. -/
theorem levels_le_iff : (∀ earlier, earlier <+: events → level change earlier ≤ bound) ↔
    ∀ stretch, stretch <:+: events → (stretch.map change).sum ≤ bound := by
  constructor
  · intro levels stretch within
    obtain ⟨earlier, latest, before⟩ := List.infix_iff_suffix_prefix.mp within
    exact level_le_iff.mp (levels earlier before) stretch latest
  · intro sums earlier before
    apply level_le_iff.mpr
    intro latest within
    exact sums latest (List.infix_iff_suffix_prefix.mpr ⟨earlier, within, before⟩)

end Backlog
