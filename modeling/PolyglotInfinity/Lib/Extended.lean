import Mathlib.Data.Rat.Defs
import Mathlib.Algebra.Order.Ring.Rat
import Mathlib.Tactic.Linarith

/-!
# Exact numbers with the special values of IEEE 754

Finite values are rationals and are computed exactly; the infinities and NaN
behave as in IEEE 754. In particular every comparison with NaN is false.
-/

inductive Extended where
  | fin (q : ℚ)
  | posInf
  | negInf
  | nan
  deriving DecidableEq, Repr

namespace Extended

protected def neg : Extended → Extended
  | fin q => fin (-q)
  | posInf => negInf
  | negInf => posInf
  | nan => nan

instance : Neg Extended := ⟨Extended.neg⟩

protected def add : Extended → Extended → Extended
  | fin a, fin b => fin (a + b)
  | nan, _ | _, nan => nan
  | posInf, negInf | negInf, posInf => nan
  | posInf, _ | _, posInf => posInf
  | negInf, _ | _, negInf => negInf

/-- The sign of an infinite product; an infinity times zero is NaN. -/
def infinite (q : ℚ) : Extended := if 0 < q then posInf else if q < 0 then negInf else nan

protected def mul : Extended → Extended → Extended
  | fin a, fin b => fin (a * b)
  | nan, _ | _, nan => nan
  | posInf, fin q | fin q, posInf => infinite q
  | negInf, fin q | fin q, negInf => -infinite q
  | posInf, posInf | negInf, negInf => posInf
  | posInf, negInf | negInf, posInf => negInf

protected def abs : Extended → Extended
  | fin q => fin |q|
  | posInf | negInf => posInf
  | nan => nan

protected def le : Extended → Extended → Prop
  | fin a, fin b => a ≤ b
  | nan, _ | _, nan => False
  | negInf, _ | _, posInf => True
  | posInf, _ | _, negInf => False

protected def lt : Extended → Extended → Prop
  | fin a, fin b => a < b
  | nan, _ | _, nan => False
  | posInf, _ | _, negInf => False
  | negInf, _ | _, posInf => True

instance : Add Extended := ⟨Extended.add⟩
instance : Mul Extended := ⟨Extended.mul⟩
instance : Sub Extended := ⟨fun a b => a + -b⟩
instance : LE Extended := ⟨Extended.le⟩
instance : LT Extended := ⟨Extended.lt⟩
instance : Zero Extended := ⟨fin 0⟩
instance : NatCast Extended := ⟨fun n => fin n⟩

instance : DecidableLE Extended := fun a b => by
  cases a <;> cases b <;> change Decidable (Extended.le _ _) <;> dsimp only [Extended.le] <;> infer_instance

instance : DecidableLT Extended := fun a b => by
  cases a <;> cases b <;> change Decidable (Extended.lt _ _) <;> dsimp only [Extended.lt] <;> infer_instance

theorem sub_def (a b : Extended) : a - b = a + -b := rfl
theorem zero_def : (0 : Extended) = fin 0 := rfl

@[simp] theorem neg_fin (q : ℚ) : -fin q = fin (-q) := rfl
@[simp] theorem neg_posInf : -posInf = negInf := rfl
@[simp] theorem neg_negInf : -negInf = posInf := rfl

@[simp] theorem fin_add_fin (a b : ℚ) : fin a + fin b = fin (a + b) := rfl
@[simp] theorem fin_add_posInf (a : ℚ) : fin a + posInf = posInf := rfl
@[simp] theorem posInf_add_fin (a : ℚ) : posInf + fin a = posInf := rfl
@[simp] theorem posInf_add_posInf : posInf + posInf = posInf := rfl
@[simp] theorem posInf_add_negInf : posInf + negInf = nan := rfl
@[simp] theorem nan_add (a : Extended) : nan + a = nan := by cases a <;> rfl
@[simp] theorem add_nan (a : Extended) : a + nan = nan := by cases a <;> rfl

@[simp] theorem fin_le_fin {a b : ℚ} : fin a ≤ fin b ↔ a ≤ b := Iff.rfl
@[simp] theorem fin_lt_fin {a b : ℚ} : fin a < fin b ↔ a < b := Iff.rfl
@[simp] theorem posInf_le_fin {a : ℚ} : ¬ posInf ≤ fin a := id
@[simp] theorem not_nan_le {a : Extended} : ¬ nan ≤ a := by cases a <;> exact id
@[simp] theorem not_nan_lt {a : Extended} : ¬ nan < a := by cases a <;> exact id
@[simp] theorem not_posInf_lt {a : Extended} : ¬ posInf < a := by cases a <;> exact id
@[simp] theorem negInf_lt_fin {a : ℚ} : negInf < fin a := trivial

/-- Taking no more than there is leaves nothing negative. -/
theorem sub_not_neg {a b : Extended} (covered : a ≤ b) (nonneg : ¬ b < 0) : ¬ b - a < 0 := by
  rw [zero_def] at nonneg ⊢
  rw [sub_def]
  cases a with
  | nan => simp at covered
  | fin a =>
    cases b with
    | fin b => simp at covered ⊢; linarith
    | negInf => simp at nonneg
    | _ => simp
  | posInf =>
    cases b with
    | fin b => simp at covered
    | negInf => simp at nonneg
    | _ => simp
  | negInf =>
    cases b with
    | negInf => simp at nonneg
    | _ => simp

theorem sub_add_not_neg {a b : Extended} (covered : a ≤ b) (nonneg : ¬ b < 0) : ¬ b - a + a < 0 := by
  rw [zero_def] at nonneg ⊢
  rw [sub_def]
  cases a with
  | nan => simp at covered
  | fin a =>
    cases b with
    | fin b => simp at nonneg ⊢; exact nonneg
    | negInf => simp at nonneg
    | _ => simp
  | posInf =>
    cases b with
    | fin b => simp at covered
    | negInf => simp at nonneg
    | _ => simp
  | negInf =>
    cases b with
    | negInf => simp at nonneg
    | _ => simp

theorem add_not_neg {a b : Extended} (left : ¬ a < 0) (right : ¬ b < 0) : ¬ a + b < 0 := by
  rw [zero_def] at left right ⊢
  cases a with
  | fin a =>
    cases b with
    | fin b => simp at left right ⊢; linarith
    | negInf => simp at right
    | _ => simp
  | posInf => cases b with
    | negInf => simp at right
    | _ => simp
  | negInf => simp at left
  | nan => simp

end Extended
