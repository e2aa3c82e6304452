import PolyglotInfinity.Lib.Xorshift
import PolyglotInfinity.PipelineRust.BulkInsert
import PolyglotInfinity.WasmZig.ValueAtRisk

/-!
# The xorshift generators

The Rust pipeline scrambles its seeds with the step that the Zig module draws its numbers
with. As a map of 64 bits it respects `^^^`, so its characteristic polynomial says what it fixes.
-/

namespace PolyglotInfinity

open Xorshift (Additive mix left_bijective right_bijective shiftLeft_additive shiftRight_additive)

namespace PipelineRust

/-- `scramble` on the bits of a word. -/
def scrambleBits : BitVec 64 → BitVec 64 := mix (· <<< 17) ∘ mix (· >>> 7) ∘ mix (· <<< 13)

theorem scramble_toBitVec (x : UInt64) : (scramble x).toBitVec = scrambleBits x.toBitVec := by
  simp [scramble, scrambleBits, mix]

theorem scrambleBits_additive : Additive scrambleBits :=
  (shiftLeft_additive 17).mix.comp ((shiftRight_additive 7).mix.comp (shiftLeft_additive 13).mix)

theorem scrambleBits_bijective : Function.Bijective scrambleBits :=
  (left_bijective (by decide)).comp ((right_bijective (by decide)).comp (left_bijective (by decide)))

/-- The terms of the characteristic polynomial of `scrambleBits`. -/
def characteristic : List Bool := (List.range 65).map fun i => Nat.testBit 0x1013ed4a358913201 (64 - i)

theorem characteristic_vanishes : ∀ i < 64,
    Xorshift.polynomial characteristic scrambleBits (BitVec.twoPow 64 i) = 0#64 := by
  decide +kernel

theorem scramble_bijective : Function.Bijective scramble := by
  constructor
  · intro x y same
    have bits := congrArg UInt64.toBitVec same
    rw [scramble_toBitVec, scramble_toBitVec] at bits
    exact UInt64.toBitVec_inj.mp (scrambleBits_bijective.1 bits)
  · intro y
    obtain ⟨bits, same⟩ := scrambleBits_bijective.2 y.toBitVec
    refine ⟨⟨bits⟩, UInt64.toBitVec_inj.mp ?_⟩
    rw [scramble_toBitVec, same]

theorem scramble_fixed {x : UInt64} : scramble x = x ↔ x = 0 := by
  constructor
  · intro fixed
    have bits := congrArg UInt64.toBitVec fixed
    rw [scramble_toBitVec] at bits
    exact UInt64.toBitVec_inj.mp
      (Xorshift.eq_zero_of_fixed scrambleBits_additive (by decide +kernel) characteristic_vanishes bits)
  · rintro rfl
    decide

theorem iterate_scramble_ne_zero {x : UInt64} (nonzero : x ≠ 0) (n : ℕ) : scramble^[n] x ≠ 0 := by
  have zero : scramble^[n] 0 = 0 := Function.iterate_fixed (scramble_fixed.mpr rfl) n
  intro collapsed
  exact nonzero (scramble_bijective.1.iterate n (collapsed.trans zero.symm))

/-! ### The states of `daily_var_95` -/

/-- The state from which the two numbers of a user are drawn. -/
def initialState (userId : Int32) : UInt64 := userId.toInt64.toUInt64 ^^^ 0xDEADBEEFCAFEF00D ^^^ 0x9e3779b97f4a7c15

theorem initialState_toBitVec (userId : Int32) :
    (initialState userId).toBitVec = userId.toBitVec.signExtend 64 ^^^ 0x409ac756b5b48c18#64 := by
  simp [initialState, BitVec.xor_assoc]

/-- The two masks differ in one of the bits that the sign fills. -/
theorem initialState_ne_zero (userId : Int32) : initialState userId ≠ 0 := by
  intro zero
  have bits := congrArg UInt64.toBitVec zero
  rw [initialState_toBitVec] at bits
  have highest := congrArg (BitVec.getLsbD · 63) bits
  have next := congrArg (BitVec.getLsbD · 62) bits
  simp only [BitVec.getLsbD_xor, BitVec.getLsbD_signExtend] at highest next
  simp [BitVec.getLsbD_eq_getElem] at highest next
  rw [highest] at next
  contradiction

theorem initialState_injective : Function.Injective initialState := by
  intro a b same
  have extended := congrArg UInt64.toBitVec same
  rw [initialState_toBitVec, initialState_toBitVec] at extended
  have ints := congrArg BitVec.toInt ((BitVec.xor_left_inj _).mp extended)
  rw [BitVec.toInt_signExtend_of_le (by decide), BitVec.toInt_signExtend_of_le (by decide)] at ints
  exact Int32.toBitVec_inj.mp (BitVec.eq_of_toInt_eq ints)

end PipelineRust

namespace WasmZig

variable {F : Type} [Field F]

theorem xorshift_eq : xorshift = PipelineRust.scramble := rfl

/-- A day takes two steps. -/
theorem path_rng (lib : Libm F) (drift diffusion : F) (days : ℕ) (rng : UInt64) (s : F) :
    (path lib drift diffusion days rng s).1 = xorshift^[2 * days] rng := by
  induction days generalizing rng s with
  | zero => rfl
  | succ days ih =>
    have later := ih (xorshift (xorshift rng)) (day lib drift diffusion rng s).2
    rw [← Function.iterate_succ_apply, ← Function.iterate_succ_apply] at later
    exact later

theorem simulate_rng (lib : Libm F) (drift diffusion s0 : F) (days : ℕ) (seed : UInt64) (n : ℕ) :
    (simulate lib drift diffusion s0 days seed n).1 = xorshift^[2 * (days * n)] seed := by
  induction n with
  | zero => rfl
  | succ n ih =>
    have rounds : 2 * (days * (n + 1)) = 2 * days + 2 * (days * n) := by ring
    rw [simulate, path_rng, ih, rounds, Function.iterate_add_apply]

end WasmZig

namespace Engines

open PipelineRust (scramble initialState xorshiftPair uniform)

/-- From a seed other than 0 the Zig module draws all its numbers from states other than 0, and
the states of two users of the Rust pipeline stay apart. -/
theorem xorshift_never_collapses :
    Function.Bijective scramble ∧ (∀ x, scramble x = x ↔ x = 0) ∧
    (∀ seed ≠ 0, (∀ n, WasmZig.xorshift^[n] seed ≠ 0) ∧
      ∀ (F : Type) [Field F] (lib : Libm F) (drift diffusion s0 s : F) (days i day : ℕ),
        (WasmZig.path lib drift diffusion day (WasmZig.simulate lib drift diffusion s0 days seed i).1 s).1 =
          WasmZig.xorshift^[2 * (days * i + day)] seed) ∧
    (∀ (α : Type) [NatCast α] [Div α] (userId : Int32),
      (xorshiftPair (userId.toInt64.toUInt64 ^^^ 0xDEADBEEFCAFEF00D) : α × α) =
        (uniform (scramble^[1] (initialState userId)), uniform (scramble^[2] (initialState userId)))) ∧
    (∀ userId, initialState userId ≠ 0) ∧ ∀ n, Function.Injective fun userId => scramble^[n] (initialState userId) := by
  refine ⟨PipelineRust.scramble_bijective, fun _ => PipelineRust.scramble_fixed, fun seed nonzero => ⟨?_, ?_⟩,
    fun _ _ _ _ => rfl, PipelineRust.initialState_ne_zero, fun n => ?_⟩
  · rw [WasmZig.xorshift_eq]
    exact PipelineRust.iterate_scramble_ne_zero nonzero
  · intro F _ lib drift diffusion s0 s days i day
    rw [WasmZig.path_rng, WasmZig.simulate_rng, ← Function.iterate_add_apply, ← mul_add, add_comm day]
  · exact (PipelineRust.scramble_bijective.1.iterate n).comp PipelineRust.initialState_injective

end Engines

end PolyglotInfinity
