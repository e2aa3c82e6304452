import Mathlib.Data.Int.Cast.Defs
import PolyglotInfinity.Matrix.Multiply

/-!
# Sample covariance

`covariance_matrix` of the C++ library, over any type with the operations it
uses. The returns are row-major, one row for each asset.
-/

namespace PolyglotInfinity.Matrix

open CProgram

variable {α : Type}

def rowMeans [Zero α] [Add α] [Mul α] (returns : Array α) (assets T : ℤ) (invT : α) (means : Array α) : Run (Array α) :=
  forInt 0 assets 1 (fun i means => do
    let row ← int (i * T)
    let sum ← forInt 0 T 1 (fun t sum => do
      let x ← read returns (row + t)
      pure (sum + x)) 0
    write means i (sum * invT)) means

/-- `granted` says whether `malloc` gives the buffer of the means; its cells are
written before they are read. -/
def covarianceMatrix [Zero α] [One α] [Add α] [Sub α] [Mul α] [Div α] [IntCast α] (granted : Bool)
    (returns : Array α) (assets periods : ℤ) (out : Array α) : Run (Array α) :=
  if assets ≤ 0 ∨ periods < 2 then pure out
  else if !granted then pure out
  else do
    let T := periods
    let invT : α := 1 / (T : α)
    let invTm1 : α := 1 / ((T - 1 : ℤ) : α)
    let means ← rowMeans returns assets T invT (Array.replicate assets.toNat 0)
    let out ← clear out (cells assets assets)
    forInt 0 assets 1 (fun i out => do
      let ri ← int (i * T)
      forInt i assets 1 (fun j out => do
        let rj ← int (j * T)
        let cov ← forInt 0 T 1 (fun t cov => do
          let x ← read returns (ri + t)
          let μi ← read means i
          let y ← read returns (rj + t)
          let μj ← read means j
          pure (cov + (x - μi) * (y - μj))) 0
        let cov := cov * invTm1
        let out ← write out (← offset i assets j) cov
        write out (← offset j assets i) cov) out) out

/-! ### Memory safety -/

/-- The returns fill their buffer, and every cell of both buffers has an `int` index. -/
structure Returns (returns : Array α) (assets periods : ℤ) : Prop where
  assets_pos : 0 < assets
  periods_ge : 2 ≤ periods
  size : (returns.size : ℤ) = assets * periods
  small : assets * periods < 2 ^ 31
  outSmall : assets * assets < 2 ^ 31

variable {returns means out : Array α} {assets periods : ℤ}

theorem row_inside {Q : ℤ → Prop} (shape : Returns returns assets periods) {i : ℤ} (low : 0 ≤ i) (below : i < assets)
    (post : (∀ t, 0 ≤ t → t < periods → Inside returns (i * periods + t)) → Q (i * periods)) :
    Post (int (i * periods)) Q := by
  have size := shape.size
  have small := shape.small
  have periods_ge := shape.periods_ge
  obtain ⟨from_zero, start_lt, -, -⟩ := cell_bounds low below le_rfl (by omega : 0 < periods)
  rw [post_int]
  refine ⟨⟨by omega, by omega⟩, post fun t t_low t_lt => ?_⟩
  obtain ⟨-, -, inside, inside_lt⟩ := cell_bounds low below t_low t_lt
  exact ⟨inside, by omega⟩

variable [Zero α] [Add α] [Mul α]

theorem rowMeans_runs (shape : Returns returns assets periods) (invT : α) (meansSize : (means.size : ℤ) = assets) :
    Post (rowMeans returns assets periods invT means) fun r => (r.size : ℤ) = assets := by
  have assets_lt := (le_area shape.assets_pos shape.assets_pos).1.trans_lt shape.outSmall
  have periods_lt := (le_area shape.assets_pos (by linarith [shape.periods_ge])).2.trans_lt shape.small
  refine post_each Int.one_pos (step_one le_rfl assets_lt) (fun i means low below meansSize => ?_) meansSize
  rw [post_bind]
  refine row_inside shape low below fun row => ?_
  rw [post_bind]
  refine (post_each Int.one_pos (step_one le_rfl periods_lt) (fun t sum t_low t_lt _ => ?_) trivial :
    Post _ fun _ => True).mono fun sum _ => ?_
  · rw [post_bind, post_read]
    exact ⟨row t t_low t_lt, fun x _ => post_pure.mpr trivial⟩
  · rw [post_write, Array.size_setIfInBounds]
    exact ⟨⟨low, by omega⟩, meansSize⟩

variable [One α] [Sub α] [Div α] [IntCast α]

theorem covarianceMatrix_runs (shape : Returns returns assets periods) (granted : Bool)
    (outSize : (out.size : ℤ) = assets * assets) :
    Post (covarianceMatrix granted returns assets periods out) fun r => (r.size : ℤ) = assets * assets := by
  have assets_pos := shape.assets_pos
  have periods_ge := shape.periods_ge
  have assets_lt := (le_area assets_pos assets_pos).1.trans_lt shape.outSmall
  have periods_lt := (le_area assets_pos (by omega)).2.trans_lt shape.small
  have cleared : (cells assets assets : ℤ) = assets * assets := cells_eq (by positivity) shape.outSmall.le
  rw [covarianceMatrix, if_neg (by omega)]
  cases granted with
  | false => exact post_pure.mpr outSize
  | true =>
    simp only [Bool.not_true, Bool.false_eq_true, if_false]
    rw [post_bind]
    refine (rowMeans_runs shape _ (by simp; omega)).mono fun means meansSize => ?_
    have mean : ∀ i, 0 ≤ i → i < assets → Inside means i := fun i low below => ⟨low, by omega⟩
    rw [post_bind, post_clear]
    refine ⟨by omega, ?_⟩
    refine post_each Int.one_pos (step_one le_rfl assets_lt) (fun i out i_low i_lt outSize => ?_) ?_
    · rw [post_bind]
      refine row_inside shape i_low i_lt fun rowI => ?_
      refine post_each Int.one_pos (step_one i_low assets_lt) (fun j out j_low j_lt outSize => ?_) outSize
      rw [post_bind]
      refine row_inside shape (by omega) j_lt fun rowJ => ?_
      rw [post_bind]
      refine (post_each Int.one_pos (step_one le_rfl periods_lt) (fun t cov t_low t_lt _ => ?_) trivial :
        Post _ fun _ => True).mono fun cov _ => ?_
      · rw [post_bind, post_read]
        refine ⟨rowI t t_low t_lt, fun x _ => ?_⟩
        rw [post_bind, post_read]
        refine ⟨mean i i_low i_lt, fun μi _ => ?_⟩
        rw [post_bind, post_read]
        refine ⟨rowJ t t_low t_lt, fun y _ => ?_⟩
        rw [post_bind, post_read]
        exact ⟨mean j (by omega) j_lt, fun μj _ => post_pure.mpr trivial⟩
      · rw [post_bind]
        refine offset_inside outSize shape.outSmall.le i_low i_lt (by omega) j_lt fun upper => ?_
        rw [post_bind, post_write]
        refine ⟨upper, store_cell ?_ shape.outSmall.le (by omega) j_lt i_low i_lt⟩
        rw [Array.size_setIfInBounds]
        exact outSize
    · simp only [Array.size_append, Array.size_replicate, Array.size_extract]
      omega

end PolyglotInfinity.Matrix
