import PolyglotInfinity.HubGleam.Pipeline
import PolyglotInfinity.Lib.Drawdown

/-!
# The drawdown of the risk report

In exact arithmetic the one pass over the running sums finds the largest loss that any
segment of the returns adds up to.
-/

namespace PolyglotInfinity.HubGleam

open Drawdown (drops Tracks Grows foldl_keeps)

variable {F : Type} [Field F] {xs : List F}

/-! ### Segments -/

/-- A segment is what lies between two times. -/
theorem drops_segments : drops (· - ·) (fun k => (xs.take k).sum) xs.length =
    insert 0 {d | ∃ segment, segment ≠ [] ∧ segment <:+: xs ∧ -segment.sum = d} := by
  ext d
  constructor
  · rintro ⟨i, j, i_le, j_le, rfl⟩
    rcases i_le.eq_or_lt with rfl | before
    · exact .inl (sub_self _)
    · refine .inr ⟨(xs.take j).drop i, ?_, ⟨(xs.take j).take i, xs.drop j, ?_⟩, ?_⟩
      · rw [ne_eq, List.drop_eq_nil_iff, List.length_take_of_le j_le]
        exact not_le.mpr before
      · rw [List.take_append_drop, List.take_append_drop]
      · have split := congrArg List.sum (List.take_append_drop i (xs.take j))
        rw [List.sum_append, List.take_take, min_eq_left i_le] at split
        show -_ = (xs.take i).sum - (xs.take j).sum
        rw [← split]
        ring
  · rintro (rfl | ⟨segment, -, ⟨before, after, rfl⟩, rfl⟩)
    · exact ⟨0, 0, le_rfl, Nat.zero_le _, sub_self _⟩
    · refine ⟨before.length, before.length + segment.length, Nat.le_add_right _ _, ?_, ?_⟩
      · rw [List.length_append, List.length_append]
        exact Nat.le_add_right _ _
      · show ((before ++ segment ++ after).take before.length).sum -
          ((before ++ segment ++ after).take (before.length + segment.length)).sum = _
        rw [← List.length_append, List.take_left, List.append_assoc, List.take_left, List.sum_append]
        ring

variable [LinearOrder F] {sqrt : F → F}

/-! ### The two folds -/

theorem exactly_cumsumFrom (acc : F) (xs : List F) : ∃ cum, cumsumFrom (.exactly sqrt) acc xs = .ok cum ∧
    cum.length = xs.length ∧ ∀ k, (inside : k < cum.length) → cum[k] = acc + (xs.take (k + 1)).sum := by
  induction xs generalizing acc with
  | nil => exact ⟨[], rfl, rfl, fun k inside => absurd inside (Nat.not_lt_zero k)⟩
  | cons x xs ih =>
    obtain ⟨cum, rest, size, sums⟩ := ih (acc + x)
    refine ⟨(acc + x) :: cum, ?_, by rw [List.length_cons, List.length_cons, size], fun k inside => ?_⟩
    · show (do return (acc + x) :: (← cumsumFrom (.exactly sqrt) (acc + x) xs)) = _
      rw [rest]
      rfl
    · rw [List.take_succ_cons, List.sum_cons, ← add_assoc]
      cases k with
      | zero => simp
      | succ k => exact sums k (Nat.lt_of_succ_lt_succ inside)

/-- One round of `max_drawdown`, of the peak and the drawdown. -/
def deepen (s : F × F) (cr : F) : F × F := (max s.1 cr, max s.2 (max s.1 cr - cr))

theorem exactly_maxDrawdown (cum : List F) : maxDrawdown (.exactly sqrt) cum = .ok (cum.foldl deepen (0, 0)).2 := by
  have larger (a b : F) : (if a < b then b else a) = max a b := by
    rw [max_def_lt]
  unfold maxDrawdown
  simp only [larger]
  show (do
    let s ← cum.foldlM (fun s cr => (pure (deepen s cr) : Run (F × F))) (0, 0)
    return s.2) = _
  rw [List.foldlM_pure]
  rfl

/-! ### The drawdown -/

variable [IsStrictOrderedRing F]

/-- The drawdown of the running sums: zero, or the largest loss of a segment. -/
theorem maxDrawdown_cumsum (sqrt : F → F) (xs : List F) :
    ∃ d, (do maxDrawdown (.exactly sqrt) (← cumsum (.exactly sqrt) xs)) = .ok d ∧
      IsGreatest (insert 0 {d | ∃ segment, segment ≠ [] ∧ segment <:+: xs ∧ -segment.sum = d}) d := by
  obtain ⟨cum, summed, size, sums⟩ := @exactly_cumsumFrom _ _ _ sqrt 0 xs
  have drawdown : (do maxDrawdown (.exactly sqrt) (← cumsum (.exactly sqrt) xs)) =
      maxDrawdown (.exactly sqrt) cum := by
    rw [cumsum, summed]
    rfl
  have grows : Grows (· - ·) (fun k => (xs.take k).sum) xs.length :=
    fun i j k _ _ _ higher => sub_le_sub_right higher _
  have start : Tracks (· - ·) (fun k => (xs.take k).sum) 0 (0 : F) 0 := by
    have zero : Tracks (· - ·) (fun k => (xs.take k).sum) 0 (0 : F) (0 - 0) := Tracks.zero
    rwa [sub_self] at zero
  have tracks : Tracks (· - ·) (fun k => (xs.take k).sum) cum.length (cum.foldl deepen (0, 0)).1
      (cum.foldl deepen (0, 0)).2 := by
    refine foldl_keeps (I := fun k (s : F × F) => Tracks (· - ·) (fun k => (xs.take k).sum) k s.1 s.2) start ?_
    intro k s inside good
    rw [sums k inside, zero_add]
    exact good.succ (grows.mono (by omega))
  refine ⟨_, drawdown.trans (exactly_maxDrawdown cum), ?_⟩
  rw [← drops_segments, ← size]
  exact tracks.greatest

theorem maxDrawdown_cumsum_loss : IsStrictOrderedRing ℚ ∧
    ∃ d, (do maxDrawdown (.exactly id) (← cumsum (.exactly id) [-3, 1, -2, 5])) = .ok d ∧
      IsGreatest (insert 0 {d : ℚ | ∃ segment, segment ≠ [] ∧ segment <:+: [-3, 1, -2, 5] ∧ -segment.sum = d}) d :=
  ⟨inferInstance, maxDrawdown_cumsum id [-3, 1, -2, 5]⟩

end PolyglotInfinity.HubGleam
