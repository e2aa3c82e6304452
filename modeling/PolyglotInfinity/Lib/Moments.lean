import Mathlib.Algebra.BigOperators.Group.List.Basic
import Mathlib.Algebra.Order.BigOperators.Group.List
import Mathlib.Algebra.Order.Field.Basic
import Mathlib.Tactic.FieldSimp
import Mathlib.Tactic.Linarith
import Mathlib.Tactic.Ring

/-!
# Moments

Sums over a list, how far a sample and its members stray from the mean, and Pearson's
inequality between the third and the fourth moment of standardised numbers.
-/

namespace Moments

theorem foldl_add {α M : Type*} [AddCommMonoid M] (f : α → M) (xs : List α) (s : M) :
    xs.foldl (fun r x => r + f x) s = s + (xs.map f).sum := by
  induction xs generalizing s with
  | nil => exact (add_zero s).symm
  | cons x xs ih => rw [List.foldl_cons, ih, List.map_cons, List.sum_cons, add_assoc]

variable {F : Type*} [Field F] {xs : List F} {m s : F}

theorem sum_sub_const (xs : List F) (m : F) : (xs.map (· - m)).sum = xs.sum - xs.length * m := by
  induction xs with
  | nil => simp
  | cons x xs ih =>
    rw [List.map_cons, List.sum_cons, ih, List.sum_cons, List.length_cons]
    push_cast
    ring

theorem sum_squares_sub_const (xs : List F) (m : F) :
    (xs.map fun x => (x - m) ^ 2).sum = (xs.map (· ^ 2)).sum - 2 * m * xs.sum + xs.length * m ^ 2 := by
  induction xs with
  | nil => simp
  | cons x xs ih =>
    simp only [List.map_cons, List.sum_cons, List.length_cons]
    rw [ih]
    push_cast
    ring

theorem sum_map_div (f : F → F) (xs : List F) (s : F) : (xs.map fun x => f x / s).sum = (xs.map f).sum / s := by
  induction xs with
  | nil => simp
  | cons x xs ih => rw [List.map_cons, List.sum_cons, ih, List.map_cons, List.sum_cons, add_div]

def powerSum (k : ℕ) (zs : List F) : F := (zs.map (· ^ k)).sum

/-- Numbers with mean 0 and variance 1. -/
structure Standardised (zs : List F) : Prop where
  mean : zs.sum = 0
  variance : powerSum 2 zs = zs.length

theorem standardised_map (ne : s ≠ 0) (length : (xs.length : F) ≠ 0) (mean : m = xs.sum / xs.length)
    (variance : s ^ 2 = (xs.map fun x => (x - m) ^ 2).sum / xs.length) :
    Standardised (xs.map fun x => (x - m) / s) := by
  constructor
  · rw [sum_map_div (· - m), sum_sub_const, mean, mul_div_cancel₀ _ length, sub_self, zero_div]
  · have square (x : F) : ((x - m) / s) ^ 2 = (x - m) ^ 2 / s ^ 2 := div_pow _ _ 2
    rw [powerSum, List.map_map, List.length_map]
    simp only [Function.comp_def, square]
    rw [sum_map_div fun x => (x - m) ^ 2, (div_eq_iff length).mp variance.symm, mul_div_cancel_left₀]
    exact pow_ne_zero 2 ne

variable [LinearOrder F] [IsStrictOrderedRing F]

theorem sum_squares_nonneg (f : F → F) (xs : List F) : 0 ≤ (xs.map fun x => f x ^ 2).sum := by
  apply List.sum_nonneg
  intro y member
  obtain ⟨x, -, rfl⟩ := List.mem_map.mp member
  exact sq_nonneg _

/-! ### Distances from the mean -/

theorem sq_sum_le (xs : List F) : xs.sum ^ 2 ≤ xs.length * (xs.map (· ^ 2)).sum := by
  by_cases empty : xs = []
  · simp [empty]
  · have length : (0 : F) < xs.length := by exact_mod_cast List.length_pos_of_ne_nil empty
    have nonneg := sum_squares_nonneg (fun x => x - xs.sum / xs.length) xs
    rw [sum_squares_sub_const] at nonneg
    have scaled := mul_nonneg length.le nonneg
    have expand : (xs.length : F) * ((xs.map (· ^ 2)).sum - 2 * (xs.sum / xs.length) * xs.sum +
        xs.length * (xs.sum / xs.length) ^ 2) = xs.length * (xs.map (· ^ 2)).sum - xs.sum ^ 2 := by
      field_simp
      ring
    linarith

/-- Samuelson's inequality. -/
theorem sq_sub_mean_le {x : F} (mean : xs.sum = xs.length * m) (member : x ∈ xs) :
    xs.length * (x - m) ^ 2 ≤ (xs.length - 1) * (xs.map fun y => (y - m) ^ 2).sum := by
  obtain ⟨before, after, rfl⟩ := List.append_of_mem member
  have others := sq_sum_le ((before ++ after).map (· - m))
  rw [sum_sub_const, List.map_map, List.length_map, List.sum_append] at others
  simp only [List.length_append, List.length_cons, List.sum_append, List.sum_cons, List.map_append, List.map_cons,
    Function.comp_def] at mean others ⊢
  push_cast at mean others ⊢
  have rest : before.sum + after.sum - (before.length + after.length) * m = -(x - m) := by linarith
  rw [rest] at others
  linarith

/-- Bhatia and Davis's inequality. -/
theorem sum_squares_sub_mean_le {lo hi : F} (mean : xs.sum = xs.length * m) (low : ∀ x ∈ xs, lo ≤ x)
    (high : ∀ x ∈ xs, x ≤ hi) : (xs.map fun x => (x - m) ^ 2).sum ≤ xs.length * ((hi - m) * (m - lo)) := by
  have between : ∀ ys : List F, (∀ x ∈ ys, lo ≤ x) → (∀ x ∈ ys, x ≤ hi) →
      (ys.map (· ^ 2)).sum ≤ (lo + hi) * ys.sum - ys.length * (lo * hi) := by
    intro ys
    induction ys with
    | nil => simp
    | cons y ys ih =>
      intro low high
      obtain ⟨y_low, low⟩ := List.forall_mem_cons.mp low
      obtain ⟨y_high, high⟩ := List.forall_mem_cons.mp high
      have here := mul_nonneg (sub_nonneg.mpr y_low) (sub_nonneg.mpr y_high)
      have later := ih low high
      simp only [List.map_cons, List.sum_cons, List.length_cons]
      push_cast
      linarith
  have total := between xs low high
  rw [sum_squares_sub_const]
  rw [mean] at total ⊢
  linarith

/-- A mean lies between the bounds of its sample. -/
theorem mean_between {lo hi : F} (some_element : xs ≠ []) (mean : xs.sum = xs.length * m) (low : ∀ x ∈ xs, lo ≤ x)
    (high : ∀ x ∈ xs, x ≤ hi) : lo ≤ m ∧ m ≤ hi := by
  have length : (0 : F) < xs.length := by exact_mod_cast List.length_pos_of_ne_nil some_element
  have least := List.card_nsmul_le_sum xs lo low
  have most := List.sum_le_card_nsmul xs hi high
  rw [nsmul_eq_mul, mean] at least most
  exact ⟨le_of_mul_le_mul_left least length, le_of_mul_le_mul_left most length⟩

theorem Standardised.pearson {zs : List F} (standard : Standardised zs) (some_element : zs ≠ []) :
    (powerSum 3 zs / zs.length) ^ 2 + 1 ≤ powerSum 4 zs / zs.length := by
  have expand (a : F) (ys : List F) : (ys.map fun z => (z ^ 2 - a * z - 1) ^ 2).sum =
      powerSum 4 ys - 2 * a * powerSum 3 ys + (a ^ 2 - 2) * powerSum 2 ys + 2 * a * ys.sum + ys.length := by
    induction ys with
    | nil => simp [powerSum]
    | cons y ys ih =>
      unfold powerSum at ih ⊢
      simp only [List.map_cons, List.sum_cons, List.length_cons]
      rw [ih]
      push_cast
      ring
  have length : (0 : F) < zs.length := by exact_mod_cast List.length_pos_of_ne_nil some_element
  set a := powerSum 3 zs / zs.length with mean_cube
  have cubes : powerSum 3 zs = a * zs.length := by rw [mean_cube, div_mul_cancel₀ _ length.ne']
  have nonneg := sum_squares_nonneg (fun z => z ^ 2 - a * z - 1) zs
  rw [expand, standard.mean, standard.variance, cubes] at nonneg
  rw [le_div_iff₀ length]
  linarith

end Moments
