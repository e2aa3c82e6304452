import Mathlib.Algebra.Group.Nat.Even
import Mathlib.Data.Nat.Bitwise
import Mathlib.Logic.Function.Iterate
import Mathlib.Tactic.Ring

/-!
# Shift registers

Words that are combined with shifted copies of themselves. A shift that ends in 0 makes such
a map a bijection, and a map that respects `^^^` fixes 0 alone if a polynomial with an odd
number of terms takes it to the zero map.
-/

namespace Xorshift

variable {w : ℕ} {f g : BitVec w → BitVec w} {x : BitVec w}

/-- `x ^= g(x)`. -/
def mix (g : BitVec w → BitVec w) (x : BitVec w) : BitVec w := x ^^^ g x

def Additive (f : BitVec w → BitVec w) : Prop := ∀ x y, f (x ^^^ y) = f x ^^^ f y

namespace Additive

theorem zero (add : Additive f) : f 0#w = 0#w := by
  have twice := add 0#w 0#w
  rwa [BitVec.xor_self, BitVec.xor_self] at twice

theorem comp (outer : Additive f) (inner : Additive g) : Additive (f ∘ g) := by
  intro x y
  rw [Function.comp_apply, inner, outer]
  rfl

theorem xor (left : Additive f) (right : Additive g) : Additive fun x => f x ^^^ g x := by
  intro x y
  dsimp only
  rw [left, right]
  ac_rfl

theorem id : Additive (fun x : BitVec w => x) := fun _ _ => rfl

theorem mix (add : Additive g) : Additive (mix g) := Additive.id.xor add

theorem iterate (add : Additive f) (n : ℕ) : Additive f^[n] := by
  induction n with
  | zero => exact Additive.id
  | succ n ih => exact ih.comp add

/-- It is enough to look at the single bits. -/
theorem eq_zero (add : Additive f) (bits : ∀ i < w, f (BitVec.twoPow w i) = 0#w) (x : BitVec w) : f x = 0#w := by
  have below (k : ℕ) : k ≤ w → ∀ x : BitVec w, (∀ i, k ≤ i → x.getLsbD i = false) → f x = 0#w := by
    induction k with
    | zero =>
      intro _ x empty
      have zero : x = 0#w := by
        apply BitVec.eq_of_getLsbD_eq
        intro i _
        rw [empty i (Nat.zero_le i)]
        exact BitVec.getLsbD_zero.symm
      rw [zero, add.zero]
    | succ k ih =>
      intro le x empty
      cases top : x.getLsbD k with
      | false =>
        refine ih (by omega) x fun i i_ge => ?_
        rcases i_ge.eq_or_lt with rfl | later
        · exact top
        · exact empty i later
      | true =>
        have split : x = (x ^^^ BitVec.twoPow w k) ^^^ BitVec.twoPow w k := by
          rw [BitVec.xor_assoc, BitVec.xor_self, BitVec.xor_zero]
        have rest : f (x ^^^ BitVec.twoPow w k) = 0#w := by
          refine ih (by omega) _ fun i i_ge => ?_
          rw [BitVec.getLsbD_xor, BitVec.getLsbD_twoPow]
          rcases i_ge.eq_or_lt with rfl | later
          · simp [top, show k < w by omega]
          · simp [empty i later, later.ne]
        rw [split, add, rest, bits k (by omega), BitVec.xor_self]
  exact below w le_rfl x fun i i_ge => BitVec.getLsbD_of_ge x i i_ge

end Additive

/-! ### Undoing -/

theorem mix_iterate (add : Additive g) (k : ℕ) (x : BitVec w) : (mix g)^[2 ^ k] x = x ^^^ g^[2 ^ k] x := by
  induction k generalizing x with
  | zero => rfl
  | succ k ih =>
    have twice : 2 ^ (k + 1) = 2 ^ k + 2 ^ k := by ring
    rw [twice, Function.iterate_add_apply, ih, ih, add.iterate, Function.iterate_add_apply]
    rw [BitVec.xor_assoc, ← BitVec.xor_assoc _ _ (g^[2 ^ k] _), BitVec.xor_self, BitVec.zero_xor]

theorem iterate_zero_of_le {m n : ℕ} (add : Additive g) (le : m ≤ n) (vanishes : g^[m] x = 0#w) : g^[n] x = 0#w := by
  obtain ⟨k, rfl⟩ := Nat.exists_eq_add_of_le le
  rw [Nat.add_comm, Function.iterate_add_apply, vanishes, (add.iterate k).zero]

theorem mix_bijective (add : Additive g) {n : ℕ} (vanishes : ∀ x, g^[n] x = 0#w) : Function.Bijective (mix g) := by
  have round (x : BitVec w) : (mix g)^[2 ^ n] x = x := by
    rw [mix_iterate add, iterate_zero_of_le add Nat.lt_two_pow_self.le (vanishes x)]
    exact BitVec.xor_zero
  obtain ⟨m, rounds⟩ := Nat.exists_eq_succ_of_ne_zero (Nat.two_pow_pos n).ne'
  rw [rounds] at round
  apply Function.bijective_iff_has_inverse.mpr
  refine ⟨(mix g)^[m], fun x => ?_, fun x => ?_⟩
  · rw [← Function.iterate_succ_apply]
    exact round x
  · rw [← Function.iterate_succ_apply' (mix g)]
    exact round x

theorem shiftLeft_additive (s : ℕ) : Additive fun x : BitVec w => x <<< s :=
  fun x y => BitVec.shiftLeft_xor_distrib x y s

theorem shiftRight_additive (s : ℕ) : Additive fun x : BitVec w => x >>> s := fun x y =>
  BitVec.ushiftRight_xor_distrib x y s

theorem shiftLeft_iterate (s n : ℕ) (x : BitVec w) : (fun x : BitVec w => x <<< s)^[n] x = x <<< (n * s) := by
  induction n generalizing x with
  | zero => rw [zero_mul, BitVec.shiftLeft_zero]; rfl
  | succ n ih => rw [Function.iterate_succ_apply, ih, ← BitVec.shiftLeft_add, Nat.succ_mul, Nat.add_comm]

theorem shiftRight_iterate (s n : ℕ) (x : BitVec w) : (fun x : BitVec w => x >>> s)^[n] x = x >>> (n * s) := by
  induction n generalizing x with
  | zero => rw [zero_mul, BitVec.ushiftRight_zero]; rfl
  | succ n ih => rw [Function.iterate_succ_apply, ih, ← BitVec.shiftRight_add, Nat.succ_mul, Nat.add_comm]

theorem left_bijective {s : ℕ} (s_pos : 0 < s) : Function.Bijective (mix fun x : BitVec w => x <<< s) := by
  apply mix_bijective (shiftLeft_additive s)
  intro x
  rw [shiftLeft_iterate]
  exact BitVec.shiftLeft_eq_zero (Nat.le_mul_of_pos_right w s_pos)

theorem right_bijective {s : ℕ} (s_pos : 0 < s) : Function.Bijective (mix fun x : BitVec w => x >>> s) := by
  apply mix_bijective (shiftRight_additive s)
  intro x
  rw [shiftRight_iterate]
  exact BitVec.ushiftRight_eq_zero (Nat.le_mul_of_pos_right w s_pos)

/-! ### Fixed points -/

/-- A polynomial in `f`, with its terms from the highest one down. -/
def polynomial (terms : List Bool) (f : BitVec w → BitVec w) (x : BitVec w) : BitVec w :=
  terms.foldl (fun acc b => f acc ^^^ if b then x else 0#w) 0#w

theorem polynomial_additive (terms : List Bool) (add : Additive f) : Additive (polynomial terms f) := by
  have from_acc (a : BitVec w → BitVec w) (additive : Additive a) :
      Additive fun x => terms.foldl (fun acc b => f acc ^^^ if b then x else 0#w) (a x) := by
    induction terms generalizing a with
    | nil => exact additive
    | cons b terms ih =>
      apply ih fun x => f (a x) ^^^ if b then x else 0#w
      have scaled := add.comp additive
      cases b with
      | false => exact scaled.xor fun _ _ => (BitVec.xor_zero).symm
      | true => exact scaled.xor Additive.id
  exact from_acc (fun _ => 0#w) fun _ _ => (BitVec.xor_zero).symm

/-- At a fixed point only the parity of the terms counts. -/
theorem polynomial_fixed (terms : List Bool) (zero : f 0#w = 0#w) (fixed : f x = x) :
    polynomial terms f x = if terms.foldl xor false then x else 0#w := by
  have from_acc (b : Bool) : terms.foldl (fun acc b => f acc ^^^ if b then x else 0#w) (if b then x else 0#w) =
      if terms.foldl xor b then x else 0#w := by
    induction terms generalizing b with
    | nil => rfl
    | cons c terms ih =>
      rw [List.foldl_cons, List.foldl_cons, ← ih]
      congr 1
      cases b <;> cases c <;> simp [zero, fixed]
  exact from_acc false

theorem eq_zero_of_fixed (add : Additive f) {terms : List Bool} (odd : terms.foldl xor false = true)
    (vanishes : ∀ i < w, polynomial terms f (BitVec.twoPow w i) = 0#w) (fixed : f x = x) : x = 0#w := by
  have value := polynomial_fixed terms add.zero fixed
  rw [odd, (polynomial_additive terms add).eq_zero vanishes] at value
  exact value.symm

end Xorshift
