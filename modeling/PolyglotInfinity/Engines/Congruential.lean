import PolyglotInfinity.HubGleam.Pipeline
import PolyglotInfinity.Lib.Congruential
import PolyglotInfinity.PricerHaskell.Server
import PolyglotInfinity.QuantV.Server
import PolyglotInfinity.StreamerScala.Events

/-!
# The congruential generators

The one of the V engine has 64 bits. Those of the Gleam, Haskell and Scala engines are the same
map, whatever the integers are that they compute it with.
-/

namespace PolyglotInfinity

open Congruential (next)
open Function

namespace QuantV

/-- A state as a residue. -/
def residue (s : UInt64) : ZMod (2 ^ 64) := s.toNat

theorem residue_injective : Injective residue := by
  intro s t same
  have equal := (ZMod.natCast_eq_natCast_iff' _ _ _).mp same
  rw [Nat.mod_eq_of_lt s.toNat_lt, Nat.mod_eq_of_lt t.toNat_lt] at equal
  exact UInt64.toNat_inj.mp equal

theorem lcgNext_residue : Semiconj residue lcgNext
    (next ((6364136223846793005 : ℕ) : ZMod (2 ^ 64)) (1442695040888963407 : ℕ)) := by
  intro s
  have all_bits : lcgNext s = 6364136223846793005 * s + 1442695040888963407 := by
    apply UInt64.toNat_inj.mp
    rw [lcgNext, UInt64.toNat_and]
    exact (Nat.and_two_pow_sub_one_eq_mod _ 64).trans (Nat.mod_eq_of_lt (UInt64.toNat_lt _))
  rw [all_bits, residue, UInt64.toNat_add, UInt64.toNat_mul, Nat.mod_add_mod, ZMod.natCast_mod]
  push_cast
  rfl

end QuantV

namespace PricerHaskell

theorem wrap_emod (x : ℤ) : wrap x % 2 ^ 31 = x % 2 ^ 31 := by
  have low_bits : (2 ^ 31 : ℤ) ∣ (2 ^ 64 : ℕ) := by decide
  rw [wrap, ← Int.emod_emod_of_dvd _ low_bits, Int.bmod_emod, Int.emod_emod_of_dvd _ low_bits]

theorem lcgNext_eq : lcgNext = HubGleam.lcgNext := by
  funext x
  rw [lcgNext, wrap_emod, Int.add_emod, wrap_emod, ← Int.add_emod]
  rfl

end PricerHaskell

namespace StreamerScala

theorem toInt_low_bits (x : Int64) : (x &&& 0x7FFFFFFF).toInt = x.toInt % 2 ^ 31 := by
  have low : (x &&& 0x7FFFFFFF).toBitVec.toNat = x.toBitVec.toNat % 2 ^ 31 := Nat.and_two_pow_sub_one_eq_mod _ 31
  have small : 2 * (x &&& 0x7FFFFFFF).toBitVec.toNat < 2 ^ 64 := by omega
  have value : x.toInt = PricerHaskell.wrap x.toBitVec.toNat := BitVec.toInt_eq_toNat_bmod _
  rw [value, PricerHaskell.wrap_emod, Int64.toInt, BitVec.toInt_eq_toNat_of_lt small, low]
  rfl

theorem lcgNext_toInt (s : Int64) : (lcgNext s).toInt = HubGleam.lcgNext s.toInt := by
  have product : (1664525 * s + 1013904223).toInt =
      PricerHaskell.wrap (PricerHaskell.wrap (1664525 * s.toInt) + 1013904223) := by
    rw [Int64.toInt_add, Int64.toInt_mul]
    rfl
  rw [lcgNext, toInt_low_bits, product, PricerHaskell.wrap_emod, Int.add_emod, PricerHaskell.wrap_emod, ← Int.add_emod]
  rfl

end StreamerScala

namespace HubGleam

/-- The states behind the first one. -/
def states : Set ℤ := Set.Ico 0 (2 ^ 31)

theorem lcgNext_mem (seed : ℤ) : lcgNext seed ∈ states := lcgNext_range seed

/-- `lcg_next` on its own states. -/
def lcgState (s : states) : states := ⟨lcgNext s, lcgNext_mem s⟩

theorem iterate_lcgState (s : states) (n : ℕ) : (lcgState^[n] s : ℤ) = lcgNext^[n] s := by
  induction n generalizing s with
  | zero => rfl
  | succ n ih => rw [iterate_succ_apply, iterate_succ_apply, ih, lcgState]

def residue (s : states) : ZMod (2 ^ 31) := ((s : ℤ) : ZMod (2 ^ 31))

theorem residue_injective : Injective residue := by
  intro s t same
  have equal : (s : ℤ) % 2 ^ 31 = t % 2 ^ 31 := (ZMod.intCast_eq_intCast_iff' _ _ _).mp same
  rw [Int.emod_eq_of_lt s.2.1 s.2.2, Int.emod_eq_of_lt t.2.1 t.2.2] at equal
  exact Subtype.ext equal

theorem lcgState_residue :
    Semiconj residue lcgState (next ((1664525 : ℕ) : ZMod (2 ^ 31)) (1013904223 : ℕ)) := by
  intro s
  have reduced : ((lcgNext s : ℤ) : ZMod (2 ^ 31)) = ((1664525 * s + 1013904223 : ℤ) : ZMod (2 ^ 31)) :=
    ZMod.intCast_mod _ (2 ^ 31)
  show ((lcgNext s : ℤ) : ZMod (2 ^ 31)) = _
  rw [reduced]
  push_cast
  rfl

end HubGleam

namespace Engines

/-- The V generator has all states on one cycle, and so have the three others, which agree from
every seed; an event of the Scala stream takes two of its states. -/
theorem lcg_full_period :
    (Bijective QuantV.lcgNext ∧ ∀ seed, minimalPeriod QuantV.lcgNext seed = 2 ^ 64 ∧
      ∀ s, ∃ n < 2 ^ 64, QuantV.lcgNext^[n] seed = s) ∧
    (∀ (seed : ℤ) n, PricerHaskell.lcgNext^[n] seed = HubGleam.lcgNext^[n] seed) ∧
    (∀ (seed : Int64) n, (StreamerScala.lcgNext^[n] seed).toInt = HubGleam.lcgNext^[n] seed.toInt) ∧
    (∀ (F : Type) [Field F] [LinearOrder F] (lib : Libm F) fixed3 mu sigma (seed : Int32) price seq n,
      ((fun st => (StreamerScala.unfold lib fixed3 mu sigma st).2)^[n] ⟨seed.toInt64, price, seq⟩).s.toInt =
        HubGleam.lcgNext^[2 * n] seed.toInt) ∧
    (∀ seed n, HubGleam.lcgNext^[n + 1] seed ∈ HubGleam.states) ∧
    ∀ seed ∈ HubGleam.states, minimalPeriod HubGleam.lcgNext seed = 2 ^ 31 ∧
      ∀ s ∈ HubGleam.states, ∃ n < 2 ^ 31, HubGleam.lcgNext^[n] seed = s := by
  have scala (seed : Int64) (n : ℕ) : (StreamerScala.lcgNext^[n] seed).toInt = HubGleam.lcgNext^[n] seed.toInt :=
    (Semiconj.iterate_right StreamerScala.lcgNext_toInt n).eq seed
  refine ⟨⟨?_, fun seed => ⟨?_, ?_⟩⟩, ?_, scala, ?_, ?_, fun seed inside => ⟨?_, fun s s_inside => ?_⟩⟩
  · exact Congruential.bijective (by decide) (by decide) QuantV.lcgNext_residue QuantV.residue_injective
  · exact Congruential.minimalPeriod_eq (by decide) (by decide) QuantV.lcgNext_residue QuantV.residue_injective seed
  · exact Congruential.exists_iterate (by decide) (by decide) QuantV.lcgNext_residue QuantV.residue_injective seed
  · intro seed n
    rw [PricerHaskell.lcgNext_eq]
  · intro F _ _ lib fixed3 mu sigma seed price seq n
    rw [StreamerScala.iterate_unfold, scala, Int32.toInt_toInt64]
  · intro seed n
    rw [iterate_succ_apply']
    exact HubGleam.lcgNext_mem _
  · have period := Congruential.minimalPeriod_eq (by decide) (by decide) HubGleam.lcgState_residue
      HubGleam.residue_injective ⟨seed, inside⟩
    rw [← period, minimalPeriod_eq_minimalPeriod_iff]
    intro n
    rw [IsPeriodicPt, IsPeriodicPt, IsFixedPt, IsFixedPt, ← Subtype.val_inj, HubGleam.iterate_lcgState]
  · obtain ⟨n, n_lt, reached⟩ := Congruential.exists_iterate (by decide) (by decide) HubGleam.lcgState_residue
      HubGleam.residue_injective ⟨seed, inside⟩ ⟨s, s_inside⟩
    refine ⟨n, n_lt, ?_⟩
    rw [← HubGleam.iterate_lcgState ⟨seed, inside⟩, reached]

end Engines

end PolyglotInfinity
