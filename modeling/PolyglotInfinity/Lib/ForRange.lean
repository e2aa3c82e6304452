import Mathlib.Algebra.BigOperators.Group.Finset.Basic
import Mathlib.Algebra.BigOperators.Intervals
import Mathlib.Algebra.Order.Ring.Int

/-!
# Loops over a range

`for i in lo ..< hi`, with a body that can fail.
-/

section

variable {σ : Type*}

def forRange (lo hi : ℤ) (body : ℤ → σ → Option σ) (s : σ) : Option σ :=
  (List.range (hi - lo).toNat).foldlM (fun (s : σ) (k : ℕ) => body (lo + k) s) s

variable {lo hi : ℤ} {body : ℤ → σ → Option σ} {s : σ}

theorem forRange_empty (none_left : hi ≤ lo) : forRange lo hi body s = some s := by
  have length : (hi - lo).toNat = 0 := by omega
  rw [forRange, length]
  rfl

theorem forRange_next {s' : σ} (some_left : lo < hi) (round : body lo s = some s') :
    forRange lo hi body s = forRange (lo + 1) hi body s' := by
  have length : (hi - lo).toNat = (hi - (lo + 1)).toNat + 1 := by omega
  have later (k : ℕ) : lo + (k + 1 : ℕ) = lo + 1 + k := by omega
  unfold forRange
  rw [length, List.range_succ_eq_map, List.foldlM_cons, Nat.cast_zero, add_zero, round]
  simp only [List.foldlM_map, Nat.succ_eq_add_one, later]
  rfl

theorem forRange_last (some_left : lo ≤ hi) (s : σ) :
    forRange lo (hi + 1) body s = (forRange lo hi body s).bind (body hi) := by
  have length : (hi + 1 - lo).toNat = (hi - lo).toNat + 1 := by omega
  have last : lo + (hi - lo).toNat = hi := by omega
  rw [forRange, length, List.range_succ, List.foldlM_append, forRange]
  simp only [List.foldlM_cons, List.foldlM_nil, last, bind_pure]
  rfl

/-- Loops whose rounds agree. -/
theorem forRange_congr {body' : ℤ → σ → Option σ} (same : ∀ i t, lo ≤ i → i < hi → body i t = body' i t) (s : σ) :
    forRange lo hi body s = forRange lo hi body' s := by
  rcases le_total lo hi with le | none_left
  · obtain ⟨n, rfl⟩ := Int.le.dest le
    clear le
    induction n with
    | zero => rw [forRange_empty (by simp), forRange_empty (by simp)]
    | succ n ih =>
      have agree := ih fun i t low high => same i t low (by omega)
      rw [Nat.cast_succ, ← add_assoc, forRange_last (by omega), forRange_last (by omega), agree]
      apply Option.bind_congr
      intro t _
      exact same (lo + n) t (by omega) (by omega)
  · rw [forRange_empty none_left, forRange_empty none_left]

/-- If each round succeeds and takes the invariant to the next one, so does the loop. -/
theorem forRange_keeps (lo hi : ℤ) (body : ℤ → σ → Option σ) (s : σ) (I : ℤ → σ → Prop) (le : lo ≤ hi) (start : I lo s)
    (each : ∀ i t, lo ≤ i → i < hi → I i t → ∃ t', body i t = some t' ∧ I (i + 1) t') :
    ∃ t, forRange lo hi body s = some t ∧ I hi t := by
  obtain ⟨n, rfl⟩ := Int.le.dest le
  have length : (lo + n - lo).toNat = n := by omega
  rw [forRange, length]
  clear le length
  induction n with
  | zero => exact ⟨s, rfl, by simpa using start⟩
  | succ n ih =>
    obtain ⟨t, ran, kept⟩ := ih fun i t low high => each i t low (by omega)
    obtain ⟨t', next, kept'⟩ := each (lo + n) t (by omega) (by omega) kept
    refine ⟨t', ?_, ?_⟩
    · rw [List.range_succ, List.foldlM_append, ran]
      show (body (lo + n) t).bind some = _
      rw [next]
      rfl
    · rwa [Nat.cast_succ, ← add_assoc]

end

open Finset in
/-- A loop that adds up. -/
theorem forRange_sum {M : Type*} [AddCommMonoid M] {lo hi : ℤ} {body : ℤ → M → Option M} (f : ℕ → M) (s : M)
    (each : ∀ k : ℕ, lo + k < hi → ∀ t, body (lo + k) t = some (t + f k)) :
    forRange lo hi body s = some (s + ∑ k ∈ range (hi - lo).toNat, f k) := by
  rcases le_total lo hi with le | none_left
  · have start : s = s + ∑ k ∈ range (lo - lo).toNat, f k := by
      rw [sub_self]
      exact (add_zero s).symm
    obtain ⟨t, ran, rfl⟩ := forRange_keeps lo hi body s
      (fun i t => t = s + ∑ k ∈ range (i - lo).toNat, f k) le start
      fun i t low high so_far => by
        obtain ⟨k, rfl⟩ := Int.le.dest low
        have index : (lo + k - lo).toNat = k := by omega
        have next : (lo + k + 1 - lo).toNat = k + 1 := by omega
        rw [index] at so_far
        refine ⟨_, each k high t, ?_⟩
        rw [next, sum_range_succ, so_far, add_assoc]
    exact ran
  · have length : (hi - lo).toNat = 0 := by omega
    rw [forRange_empty none_left, length, sum_range_zero, add_zero]

/-! ### Filling a list -/

/-- A list of `n` elements, the first `i` of which are the values of `f`. -/
structure Filled {α : Type*} (n i : ℕ) (xs : List α) (f : ℕ → α) : Prop where
  length : xs.length = n
  element : ∀ k < i, xs[k]? = some (f k)

namespace Filled

variable {α : Type*} {n i : ℕ} {xs : List α} {f : ℕ → α}

theorem set (filled : Filled n i xs f) (inside : i < n) {x : α} (next : x = f i) :
    Filled n (i + 1) (xs.set i x) f := by
  subst next
  refine ⟨by rw [List.length_set, filled.length], fun k k_lt => ?_⟩
  rw [List.getElem?_set]
  by_cases last : i = k
  · rw [if_pos last, if_pos (by rwa [filled.length]), last]
  · rw [if_neg last]
    exact filled.element k (by omega)

theorem eq_map (filled : Filled n n xs f) : xs = (List.range n).map f := by
  apply List.ext_getElem?
  intro k
  by_cases inside : k < n
  · rw [filled.element k inside, List.getElem?_map, List.getElem?_range inside, Option.map_some]
  · rw [List.getElem?_eq_none (by rw [filled.length]; omega), List.getElem?_eq_none (by simpa using inside)]

end Filled
