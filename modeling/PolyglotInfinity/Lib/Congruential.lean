import Mathlib.Algebra.Ring.GeomSum
import Mathlib.Data.ZMod.Basic
import Mathlib.Data.ZMod.Units
import Mathlib.Dynamics.PeriodicPts.Defs
import Mathlib.Tactic.Ring

/-!
# Linear congruential generators

`x ↦ a * x + c` modulo a power of two. If `a` is one more than a multiple of four and `c` is
odd, all residues lie on one cycle.
-/

namespace Congruential

open Finset Function

def next {R : Type*} [CommRing R] (a c x : R) : R := a * x + c

theorem iterate_next {R : Type*} [CommRing R] (a c x : R) (n : ℕ) :
    (next a c)^[n] x = x + (∑ i ∈ range n, a ^ i) * ((a - 1) * x + c) := by
  induction n with
  | zero => simp
  | succ n ih =>
    rw [iterate_succ_apply', ih, geom_sum_succ, next]
    ring

/-! ### Factors of two -/

section

variable {a : ℕ} (a_mod : a % 4 = 1)
include a_mod

theorem pow_mod_four (i : ℕ) : a ^ i % 4 = 1 := by
  rw [Nat.pow_mod, a_mod, one_pow, Nat.one_mod]

theorem sum_mod_four (n : ℕ) : (∑ i ∈ range n, a ^ i) % 4 = n % 4 := by
  induction n with
  | zero => rfl
  | succ n ih =>
    have last := pow_mod_four a_mod n
    rw [sum_range_succ]
    omega

/-- A sum of powers has as many factors of two as it has terms. -/
theorem two_pow_dvd_sum (k n : ℕ) : 2 ^ k ∣ ∑ i ∈ range n, a ^ i ↔ 2 ^ k ∣ n := by
  induction k generalizing n with
  | zero => simp
  | succ k ih =>
    have parity := sum_mod_four a_mod n
    rcases Nat.even_or_odd' n with ⟨m, rfl | rfl⟩
    · have last := pow_mod_four a_mod m
      obtain ⟨q, q_eq⟩ : ∃ q, 1 + a ^ m = 2 * (2 * q + 1) := ⟨a ^ m / 4, by omega⟩
      have halves : ∑ i ∈ range (2 * m), a ^ i = 2 * ((∑ i ∈ range m, a ^ i) * (2 * q + 1)) := by
        rw [two_mul, sum_range_add]
        simp only [pow_add]
        rw [← mul_sum, ← one_add_mul, q_eq]
        ring
      have odd : Nat.Coprime (2 ^ k) (2 * q + 1) := by
        apply Nat.Coprime.pow_left
        simp
      rw [halves, pow_succ', Nat.mul_dvd_mul_iff_left two_pos, Nat.mul_dvd_mul_iff_left two_pos, odd.dvd_mul_right, ih]
    · have two_dvd : 2 ∣ 2 ^ (k + 1) := Dvd.intro_left _ rfl
      exact iff_of_false (fun divides => by have := two_dvd.trans divides; omega)
        fun divides => by have := two_dvd.trans divides; omega

end

/-! ### One cycle -/

section

variable {k a c : ℕ} (a_mod : a % 4 = 1) (c_odd : c % 2 = 1)
include a_mod c_odd

theorem isUnit_change (x : ZMod (2 ^ k)) : IsUnit (((a : ZMod (2 ^ k)) - 1) * x + c) := by
  obtain ⟨q, rfl⟩ : ∃ q, a = 4 * q + 1 := ⟨a / 4, by omega⟩
  have number : ((4 * q + 1 : ℕ) - 1 : ZMod (2 ^ k)) * x + c = ((4 * q * x.val + c : ℕ) : ZMod (2 ^ k)) := by
    push_cast
    rw [ZMod.natCast_zmod_val]
    ring
  rw [number, ZMod.isUnit_iff_coprime]
  apply Nat.Coprime.pow_right
  rw [Nat.coprime_two_right, Nat.odd_iff, mul_assoc]
  omega

theorem iterate_next_eq_iff (x : ZMod (2 ^ k)) (n : ℕ) : (next (a : ZMod (2 ^ k)) c)^[n] x = x ↔ 2 ^ k ∣ n := by
  have sum : (∑ i ∈ range n, (a : ZMod (2 ^ k)) ^ i) = ((∑ i ∈ range n, a ^ i : ℕ) : ZMod (2 ^ k)) := by push_cast; rfl
  rw [iterate_next, add_eq_left, (isUnit_change a_mod c_odd x).mul_left_eq_zero, sum, ZMod.natCast_eq_zero_iff,
    two_pow_dvd_sum a_mod]

/-! ### Other states -/

variable {σ : Type*} {step : σ → σ} {value : σ → ZMod (2 ^ k)}

/-- States that stand for residues are on cycles of full length. -/
theorem iterate_eq_iff (semiconj : Semiconj value step (next (a : ZMod (2 ^ k)) c)) (inj : Injective value)
    (s : σ) (n : ℕ) : step^[n] s = s ↔ 2 ^ k ∣ n := by
  rw [← inj.eq_iff, (semiconj.iterate_right n).eq, iterate_next_eq_iff a_mod c_odd]

theorem minimalPeriod_eq (semiconj : Semiconj value step (next (a : ZMod (2 ^ k)) c)) (inj : Injective value)
    (s : σ) : minimalPeriod step s = 2 ^ k := by
  have returns := iterate_eq_iff a_mod c_odd semiconj inj s
  apply Nat.dvd_antisymm
  · exact isPeriodicPt_iff_minimalPeriod_dvd.mp ((returns (2 ^ k)).mpr dvd_rfl)
  · exact (returns _).mp (isPeriodicPt_minimalPeriod step s)

/-- There is one cycle. -/
theorem exists_iterate (semiconj : Semiconj value step (next (a : ZMod (2 ^ k)) c)) (inj : Injective value)
    (s t : σ) : ∃ n < 2 ^ k, step^[n] s = t := by
  have period := minimalPeriod_eq a_mod c_odd semiconj inj s
  have distinct : Injective fun n : Fin (2 ^ k) => value (step^[n] s) := by
    intro n m same
    have n_lt : n < minimalPeriod step s := period.symm ▸ n.2
    have m_lt : m < minimalPeriod step s := period.symm ▸ m.2
    exact Fin.ext (iterate_injOn_Iio_minimalPeriod n_lt m_lt (inj same))
  have same_card : Fintype.card (Fin (2 ^ k)) = Fintype.card (ZMod (2 ^ k)) := by
    rw [Fintype.card_fin, ZMod.card]
  obtain ⟨n, reached⟩ := ((Fintype.bijective_iff_injective_and_card _).mpr ⟨distinct, same_card⟩).2 (value t)
  exact ⟨n, n.2, inj reached⟩

theorem bijective (semiconj : Semiconj value step (next (a : ZMod (2 ^ k)) c)) (inj : Injective value) :
    Bijective step := by
  constructor
  · obtain ⟨m, rounds⟩ := Nat.exists_eq_succ_of_ne_zero (Nat.two_pow_pos k).ne'
    have back (s : σ) : step^[m] (step s) = s := by
      rw [← iterate_succ_apply, ← rounds]
      exact (iterate_eq_iff a_mod c_odd semiconj inj s _).mpr dvd_rfl
    intro s t same
    rw [← back s, same, back t]
  · intro t
    obtain ⟨n, -, reached⟩ := exists_iterate a_mod c_odd semiconj inj (step t) t
    refine ⟨step^[n] t, ?_⟩
    rwa [← iterate_succ_apply' step]

end

end Congruential
