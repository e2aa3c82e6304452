import Mathlib.Algebra.Order.Field.Basic
import Mathlib.Data.List.Infix
import Mathlib.Order.Bounds.Basic
import Mathlib.Order.MinMax

/-!
# Drawdowns

The worst drop of a path is a maximum over all pairs of times. One pass finds it from the
highest level so far, if a drop is the larger the higher it starts.
-/

namespace Drawdown

variable {α β : Type*} [LinearOrder β] {drop : α → α → β} {path : ℕ → α} {n : ℕ} {peak : α} {worst : β}

def drops (drop : α → α → β) (path : ℕ → α) (n : ℕ) : Set β := {d | ∃ i j, i ≤ j ∧ j ≤ n ∧ drop (path i) (path j) = d}

theorem drops_zero : IsGreatest (drops drop path 0) (drop (path 0) (path 0)) := by
  refine ⟨⟨0, 0, le_rfl, le_rfl, rfl⟩, ?_⟩
  rintro _ ⟨i, j, i_le, j_le, rfl⟩
  obtain rfl := Nat.le_zero.mp j_le
  rw [Nat.le_zero.mp i_le]

/-- The worst drop up to `n` is the worst one up to `n + 1` if some drop up to `n` is as bad as those at the end. -/
theorem drops_last (greatest : IsGreatest (drops drop path n) worst) : IsGreatest (drops drop path (n + 1)) worst ↔
    ∃ i j, i ≤ j ∧ j < n + 1 ∧ ∀ k ≤ n + 1, drop (path k) (path (n + 1)) ≤ drop (path i) (path j) := by
  constructor
  · intro last
    obtain ⟨i, j, i_le, j_le, rfl⟩ := greatest.1
    exact ⟨i, j, i_le, Nat.lt_succ_of_le j_le, fun k k_le => last.2 ⟨k, n + 1, k_le, le_rfl, rfl⟩⟩
  · rintro ⟨i, j, i_le, j_lt, bound⟩
    obtain ⟨i', j', i'_le, j'_le, attained⟩ := greatest.1
    refine ⟨⟨i', j', i'_le, by omega, attained⟩, ?_⟩
    rintro _ ⟨k, l, k_le, l_le, rfl⟩
    rcases Nat.le_succ_iff.mp l_le with before | rfl
    · exact greatest.2 ⟨k, l, k_le, before, rfl⟩
    · exact (bound k k_le).trans (greatest.2 ⟨i, j, i_le, Nat.le_of_lt_succ j_lt, rfl⟩)

variable [LinearOrder α]

def levels (path : ℕ → α) (n : ℕ) : Set α := {x | ∃ i ≤ n, path i = x}

/-- From a higher level the drop to a level of the path is no smaller. -/
def Grows (drop : α → α → β) (path : ℕ → α) (n : ℕ) : Prop :=
  ∀ i j k, i ≤ n → j ≤ n → k ≤ n → path i ≤ path j → drop (path i) (path k) ≤ drop (path j) (path k)

theorem Grows.mono {m : ℕ} (grows : Grows drop path n) (le : m ≤ n) : Grows drop path m :=
  fun i j k i_le j_le k_le => grows i j k (i_le.trans le) (j_le.trans le) (k_le.trans le)

theorem levels_zero : IsGreatest (levels path 0) (path 0) := by
  refine ⟨⟨0, le_rfl, rfl⟩, ?_⟩
  rintro _ ⟨i, i_le, rfl⟩
  rw [Nat.le_zero.mp i_le]

theorem levels_succ (highest : IsGreatest (levels path n) peak) :
    IsGreatest (levels path (n + 1)) (max peak (path (n + 1))) := by
  obtain ⟨⟨i, i_le, rfl⟩, above⟩ := highest
  constructor
  · rcases max_choice (path i) (path (n + 1)) with same | same
    · exact ⟨i, by omega, same.symm⟩
    · exact ⟨n + 1, le_rfl, same.symm⟩
  · rintro _ ⟨j, j_le, rfl⟩
    rcases Nat.le_succ_iff.mp j_le with before | rfl
    · exact (above ⟨j, before, rfl⟩).trans (le_max_left _ _)
    · exact le_max_right _ _

/-- A drop up to `n + 1` is one up to `n`, or no larger than the one from the peak to `n + 1`. -/
theorem drops_succ (grows : Grows drop path (n + 1)) (highest : IsGreatest (levels path (n + 1)) peak)
    (greatest : IsGreatest (drops drop path n) worst) :
    IsGreatest (drops drop path (n + 1)) (max worst (drop peak (path (n + 1)))) := by
  obtain ⟨⟨top, top_le, rfl⟩, highest⟩ := highest
  obtain ⟨⟨i, j, i_le, j_le, rfl⟩, above⟩ := greatest
  constructor
  · rcases max_choice (drop (path i) (path j)) (drop (path top) (path (n + 1))) with same | same
    · exact ⟨i, j, i_le, by omega, same.symm⟩
    · exact ⟨top, n + 1, top_le, le_rfl, same.symm⟩
  · rintro _ ⟨i', j', i'_le, j'_le, rfl⟩
    rcases Nat.le_succ_iff.mp j'_le with before | rfl
    · exact (above ⟨i', j', i'_le, before, rfl⟩).trans (le_max_left _ _)
    · have below : path i' ≤ path top := highest ⟨i', i'_le, rfl⟩
      exact (grows i' top (n + 1) i'_le top_le le_rfl below).trans (le_max_right _ _)

/-- The peak and the worst drop of a path up to time `n`. -/
structure Tracks (drop : α → α → β) (path : ℕ → α) (n : ℕ) (peak : α) (worst : β) : Prop where
  highest : IsGreatest (levels path n) peak
  greatest : IsGreatest (drops drop path n) worst

theorem Tracks.zero : Tracks drop path 0 (path 0) (drop (path 0) (path 0)) := ⟨levels_zero, drops_zero⟩

theorem Tracks.succ (grows : Grows drop path (n + 1)) (tracks : Tracks drop path n peak worst) :
    Tracks drop path (n + 1) (max peak (path (n + 1))) (max worst (drop (max peak (path (n + 1))) (path (n + 1)))) := by
  have highest := levels_succ tracks.highest
  exact ⟨highest, drops_succ grows highest tracks.greatest⟩

/-- The drops from the highest level so far. -/
def falls (drop : α → α → β) (path : ℕ → α) (n : ℕ) : Set β :=
  {d | ∃ k ≤ n, ∃ top, IsGreatest (levels path k) top ∧ drop top (path k) = d}

theorem falls_zero : IsGreatest (falls drop path 0) (drop (path 0) (path 0)) := by
  refine ⟨⟨0, le_rfl, path 0, levels_zero, rfl⟩, ?_⟩
  rintro _ ⟨k, k_le, top, highest, rfl⟩
  obtain rfl := Nat.le_zero.mp k_le
  rw [highest.unique levels_zero]

theorem falls_succ (highest : IsGreatest (levels path (n + 1)) peak) (greatest : IsGreatest (falls drop path n) worst) :
    IsGreatest (falls drop path (n + 1)) (max worst (drop peak (path (n + 1)))) := by
  obtain ⟨⟨k, k_le, top, before, rfl⟩, above⟩ := greatest
  constructor
  · rcases max_choice (drop top (path k)) (drop peak (path (n + 1))) with same | same
    · exact ⟨k, by omega, top, before, same.symm⟩
    · exact ⟨n + 1, le_rfl, peak, highest, same.symm⟩
  · rintro _ ⟨l, l_le, other, other_highest, rfl⟩
    rcases Nat.le_succ_iff.mp l_le with earlier | rfl
    · exact (above ⟨l, earlier, other, other_highest, rfl⟩).trans (le_max_left _ _)
    · rw [other_highest.unique highest]
      exact le_max_right _ _

/-! ### Relative drops -/

section

variable {F : Type*} [Field F] {x y z : F} {path : ℕ → F}

/-- The share of the level `x` that is lost at `y`. -/
def relative (x y : F) : F := (x - y) / x

theorem relative_self : relative x x = 0 := by rw [relative, sub_self, zero_div]

variable [LinearOrder F] [IsStrictOrderedRing F]

theorem relative_le (x_pos : 0 < x) (z_nonneg : 0 ≤ z) (le : x ≤ y) : relative x z ≤ relative y z := by
  unfold relative
  rw [sub_div, sub_div, div_self x_pos.ne', div_self (x_pos.trans_le le).ne']
  exact sub_le_sub_left (div_le_div_of_nonneg_left z_nonneg x_pos le) 1

theorem relative_lt_one (x_pos : 0 < x) (y_pos : 0 < y) : relative x y < 1 := by
  unfold relative
  rw [div_lt_one x_pos]
  exact sub_lt_self x y_pos

theorem relative_grows (positive : ∀ i, 0 < path i) (n : ℕ) : Grows relative path n :=
  fun i _ k _ _ _ le => relative_le (positive i) (positive k).le le

end

/-! ### One pass -/

variable {γ σ : Type*} {l : List γ} {f : σ → γ → σ} {s : σ} {I : ℕ → σ → Prop}

/-- A fold takes its invariant from the first element behind the last one. -/
theorem foldl_keeps (start : I 0 s) (keep : ∀ k t, (inside : k < l.length) → I k t → I (k + 1) (f t l[k])) :
    I l.length (l.foldl f s) := by
  rw [← List.foldl_toArray, ← List.size_toArray]
  exact Array.foldl_induction I start fun k t good => keep k.1 t k.2 good

end Drawdown
