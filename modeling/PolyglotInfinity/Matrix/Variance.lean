import Mathlib.Analysis.Matrix.Order
import PolyglotInfinity.Matrix.Cholesky
import PolyglotInfinity.Matrix.Covariance

/-!
# Portfolio variance

`mat_vec_mul` and `portfolio_variance` of the C++ library, over any type with the
operations they use, and what they make of a sample covariance over the real numbers.
-/

namespace PolyglotInfinity.Matrix

open CProgram Finset

section

variable {α : Type} [Zero α] [Add α] [Mul α]

def matVecMul (a : Array α) (m n : ℤ) (x y : Array α) : Run (Array α) :=
  if m ≤ 0 ∨ n ≤ 0 then pure y
  else
    forInt 0 m 1 (fun i y => do
      let row ← int (i * n)
      let acc ← forInt 0 n 1 (fun j acc => do
        let p ← read a (row + j)
        let q ← read x j
        pure (acc + p * q)) 0
      write y i acc) y

/-- `granted` says whether `malloc` gives `tmp`; its cells are written before they are read. -/
def portfolioVariance (granted : Bool) (cov weights : Array α) (assets : ℤ) : Run α :=
  if assets ≤ 0 then pure 0
  else if !granted then pure 0
  else do
    let tmp ← matVecMul cov assets assets weights (Array.replicate assets.toNat 0)
    forInt 0 assets 1 (fun i result => do
      let w ← read weights i
      let t ← read tmp i
      pure (result + w * t)) 0

end

/-! ### Sample covariance -/

section

variable {returns : Array ℝ} {assets periods : ℕ}

noncomputable def mean (returns : Array ℝ) (periods i : ℕ) : ℝ :=
  (∑ t ∈ range periods, entry returns periods i t) / periods

noncomputable def deviation (returns : Array ℝ) (periods i t : ℕ) : ℝ :=
  entry returns periods i t - mean returns periods i

noncomputable def covarianceOf (returns : Array ℝ) (periods i j : ℕ) : ℝ :=
  (∑ t ∈ range periods, deviation returns periods i t * deviation returns periods j t) / (periods - 1)

noncomputable def sampleCovariance (returns : Array ℝ) (assets periods : ℕ) : Matrix (Fin assets) (Fin assets) ℝ :=
  fun i j => covarianceOf returns periods i j

theorem covarianceOf_comm (i j : ℕ) : covarianceOf returns periods i j = covarianceOf returns periods j i := by
  unfold covarianceOf
  simp only [mul_comm]

theorem sampleCovariance_symm : (sampleCovariance returns assets periods).IsSymm := by
  ext i j
  exact covarianceOf_comm j i

theorem sampleCovariance_posSemidef (periods_pos : 1 ≤ periods) :
    (sampleCovariance returns assets periods).PosSemidef := by
  let X : Matrix (Fin assets) (Fin periods) ℝ := fun i t => deviation returns periods i t
  have scale : (0 : ℝ) ≤ ((periods : ℝ) - 1)⁻¹ := inv_nonneg.mpr (sub_nonneg.mpr (by exact_mod_cast periods_pos))
  have product : sampleCovariance returns assets periods = ((periods : ℝ) - 1)⁻¹ • (X * X.conjTranspose) := by
    ext i j
    show covarianceOf returns periods i j = ((periods : ℝ) - 1)⁻¹ * ∑ t : Fin periods, X i t * X j t
    rw [Fin.sum_univ_eq_sum_range (fun t => deviation returns periods i t * deviation returns periods j t) periods]
    exact div_eq_inv_mul _ _
  rw [product]
  exact (Matrix.posSemidef_self_mul_conjTranspose X).smul scale

end

/-! ### What the functions compute -/

/-- A cell of the covariance matrix or a row of the returns has no `int` index. -/
def Wide (assets periods : ℕ) : Prop := 2 ^ 31 < assets * assets ∨ 2 ^ 31 ≤ (assets - 1) * periods

section

variable {returns means out cov weights : Array ℝ} {assets periods i j : ℕ} {E : Prop}

theorem rowStart_ends {Q : ℤ → Prop} (i_lt : i < assets) (good : Q (i * periods : ℕ)) :
    Ends (int (i * periods)) Q (Wide assets periods) := by
  have row : (i : ℤ) * periods = (i * periods : ℕ) := by push_cast; rfl
  have last : i * periods ≤ (assets - 1) * periods := Nat.mul_le_mul_right periods (by omega)
  rw [row]
  exact ends_int (fun _ => good) (fun beyond => .inr (beyond.trans last))

theorem rowRead_ends {buf : Array ℝ} {Q : ℝ → Prop} {m n : ℕ} (size : buf.size = m * n) (i_lt : i < m) (j_lt : j < n)
    (good : Q (entry buf n i j)) : Ends (read buf ((i * n : ℕ) + j)) Q E := by
  have cell : ((i * n : ℕ) : ℤ) + j = (i * n + j : ℕ) := by push_cast; rfl
  rw [cell]
  refine ends_read 0 ?_ good
  rw [size]
  exact cell_lt i_lt j_lt

theorem cell_ends {Q : ℤ → Prop} (i_lt : i < assets) (j_lt : j < assets) (good : Q (i * assets + j : ℕ)) :
    Ends (offset i assets j) Q (Wide assets periods) := by
  have inside := cell_lt i_lt j_lt
  exact offset_ends (fun _ => good) (fun beyond => .inl (by omega))

theorem rowMeans_ends (size : returns.size = assets * periods) (periodsInt : periods < 2 ^ 31)
    (assetsInt : assets < 2 ^ 31) (meansSize : means.size = assets) :
    Ends (rowMeans returns assets periods (1 / ((periods : ℤ) : ℝ)) means)
      (fun means => means.size = assets ∧ ∀ i < assets, means.getD i 0 = mean returns periods i)
      (Wide assets periods) := by
  unfold rowMeans
  refine (ends_count (I := fun i means => means.size = assets ∧ ∀ x < i.toNat, means.getD x 0 = mean returns periods x)
    le_rfl (Int.natCast_nonneg assets) (by omega) (fun i means low high held => ?_)
    ⟨meansSize, fun x x_lt => absurd x_lt (Nat.not_lt_zero x)⟩).mono fun means good => good
  obtain ⟨meansSize, known⟩ := held
  lift i to ℕ using low
  have i_lt : i < assets := by omega
  rw [ends_bind]
  refine rowStart_ends i_lt ?_
  rw [ends_bind]
  refine (ends_sum (f := entry returns periods i) periodsInt fun t t_lt sum => ?_).mono fun sum sum_eq => ?_
  · rw [ends_bind]
    exact rowRead_ends size i_lt t_lt (ends_pure.mpr rfl)
  · have inside : i < means.size := by omega
    refine ends_write inside ⟨by rw [Array.size_setIfInBounds, meansSize], fun x x_lt => ?_⟩
    rw [getD_write inside]
    split
    · rename_i here
      rw [here, sum_eq, Int.cast_natCast, mul_one_div]
      rfl
    · exact known x (by omega)

/-- The cells in `P` have their covariance. -/
def Covers (returns out : Array ℝ) (assets periods : ℕ) (P : ℕ → ℕ → Prop) : Prop :=
  out.size = assets * assets ∧
    ∀ x < assets, ∀ y < assets, P x y → entry out assets x y = covarianceOf returns periods x y

theorem Covers.mirror {P P' : ℕ → ℕ → Prop} (covers : Covers returns out assets periods P) (i_lt : i < assets)
    (j_lt : j < assets) (more : ∀ x y, P' x y → P x y ∨ x = i ∧ y = j ∨ x = j ∧ y = i) :
    Covers returns ((out.setIfInBounds (i * assets + j) (covarianceOf returns periods i j)).setIfInBounds
      (j * assets + i) (covarianceOf returns periods i j)) assets periods P' := by
  obtain ⟨size, known⟩ := covers
  refine ⟨by rw [Array.size_setIfInBounds, Array.size_setIfInBounds, size], fun x x_lt y y_lt inside => ?_⟩
  rw [entry_write (by rw [Array.size_setIfInBounds, size]) j_lt i_lt _ y_lt, entry_write size i_lt j_lt _ y_lt]
  split
  · rename_i below
    rw [below.1, below.2, covarianceOf_comm]
  · split
    · rename_i above
      rw [above.1, above.2]
    · rename_i below above
      rcases more x y inside with old | here | here
      · exact known x x_lt y y_lt old
      · exact absurd here above
      · exact absurd here below

theorem product_ends {t : ℕ} (size : returns.size = assets * periods) (meansSize : means.size = assets)
    (known : ∀ i < assets, means.getD i 0 = mean returns periods i) (i_lt : i < assets) (j_lt : j < assets)
    (t_lt : t < periods) (cov : ℝ) :
    Ends (do
      let x ← read returns ((i * periods : ℕ) + t)
      let μi ← read means i
      let y ← read returns ((j * periods : ℕ) + t)
      let μj ← read means j
      pure (cov + (x - μi) * (y - μj))) (· = cov + deviation returns periods i t * deviation returns periods j t) E := by
  rw [ends_bind]
  refine rowRead_ends size i_lt t_lt ?_
  rw [ends_bind]
  refine ends_read 0 (by omega) ?_
  rw [ends_bind]
  refine rowRead_ends size j_lt t_lt ?_
  rw [ends_bind]
  refine ends_read 0 (by omega) (ends_pure.mpr ?_)
  rw [known i i_lt, known j j_lt]
  rfl

theorem mirror_ends {P P' : ℕ → ℕ → Prop} (covers : Covers returns out assets periods P) (i_lt : i < assets)
    (j_lt : j < assets) (more : ∀ x y, P' x y → P x y ∨ x = i ∧ y = j ∨ x = j ∧ y = i) :
    Ends (do
      let out ← write out (← offset i assets j) (covarianceOf returns periods i j)
      write out (← offset j assets i) (covarianceOf returns periods i j))
      (Covers returns · assets periods P') (Wide assets periods) := by
  rw [ends_bind]
  refine cell_ends i_lt j_lt ?_
  rw [ends_bind]
  refine ends_write ?_ ?_
  · rw [covers.1]
    exact cell_lt i_lt j_lt
  rw [ends_bind]
  refine cell_ends j_lt i_lt ?_
  refine ends_write ?_ (covers.mirror i_lt j_lt more)
  rw [Array.size_setIfInBounds, covers.1]
  exact cell_lt j_lt i_lt

theorem covarianceMatrix_post (assets_pos : 1 ≤ assets) (periods_ge : 2 ≤ periods) (periodsInt : periods < 2 ^ 31)
    (size : returns.size = assets * periods) (outSize : out.size = assets * assets) (narrow : ¬ Wide assets periods) :
    Post (covarianceMatrix true returns assets periods out)
      fun cov => cov.size = assets * assets ∧ asMatrix cov assets = sampleCovariance returns assets periods := by
  have area : assets * assets ≤ 2 ^ 31 := not_lt.mp fun wide => narrow (.inl wide)
  have assetsInt : assets < 2 ^ 31 := by nlinarith
  refine Ends.ok ?_ narrow
  rw [covarianceMatrix, if_neg (by omega)]
  simp only [Bool.not_true, Bool.false_eq_true, if_false]
  rw [ends_bind]
  refine (rowMeans_ends size periodsInt assetsInt (by simp)).mono fun means held => ?_
  obtain ⟨meansSize, known⟩ := held
  rw [ends_bind]
  refine clear_ends outSize (by omega) ?_
  have start : Covers returns (Array.replicate (assets * assets) 0) assets periods fun _ _ => False :=
    ⟨by simp, fun _ _ _ _ none => none.elim⟩
  refine (ends_count (I := fun i out => Covers returns out assets periods fun x y => min x y < i.toNat) le_rfl
    (Int.natCast_nonneg assets) (by omega) (fun i out low high covers => ?_) ?_).mono fun cov covers => ?_
  · lift i to ℕ using low
    have i_lt : i < assets := by omega
    rw [ends_bind]
    refine rowStart_ends i_lt ?_
    refine (ends_count
      (I := fun j out => Covers returns out assets periods fun x y => min x y < i ∨ min x y = i ∧ max x y < j.toNat)
      (Int.natCast_nonneg i) (by omega) (by omega) (fun j out above below covers => ?_) ?_).mono fun out covers => ?_
    · lift j to ℕ using by omega
      have i_le : i ≤ j := by omega
      have j_lt : j < assets := by omega
      rw [ends_bind]
      refine rowStart_ends j_lt ?_
      rw [ends_bind]
      refine (ends_sum (f := fun t => deviation returns periods i t * deviation returns periods j t) periodsInt
        fun t t_lt sum => product_ends size meansSize known i_lt j_lt t_lt sum).mono fun sum sum_eq => ?_
      have value : sum * (1 / ((periods - 1 : ℤ) : ℝ)) = covarianceOf returns periods i j := by
        rw [sum_eq, mul_one_div]
        push_cast
        rfl
      rw [value]
      refine mirror_ends covers i_lt j_lt fun x y => ?_
      omega
    · exact ⟨covers.1, fun x x_lt y y_lt inside => covers.2 x x_lt y y_lt (by omega)⟩
    · exact ⟨covers.1, fun x x_lt y y_lt inside => covers.2 x x_lt y y_lt (by omega)⟩
  · exact ⟨start.1, fun x x_lt y y_lt inside => absurd inside (Nat.not_lt_zero _)⟩
  · refine ⟨covers.1, ?_⟩
    ext x y
    exact covers.2 x x.isLt y y.isLt (by omega)

/-- Without an `int` index for the last cell the call does not end well. -/
theorem covarianceMatrix_narrow (assets_pos : 1 ≤ assets) (periods_ge : 2 ≤ periods)
    (ran : covarianceMatrix true returns assets periods out = .ok cov) : ¬ Wide assets periods := by
  rw [covarianceMatrix, if_neg (by omega)] at ran
  simp only [Bool.not_true, Bool.false_eq_true, if_false] at ran
  obtain ⟨means, -, ran⟩ := bind_ok.mp ran
  obtain ⟨cleared, -, ran⟩ := bind_ok.mp ran
  obtain ⟨s, r, ran⟩ := for_visits Int.one_pos ran (by omega : (0 : ℤ) ≤ assets - 1) (by omega) (one_dvd _)
  obtain ⟨row, started, ran⟩ := bind_ok.mp ran
  obtain ⟨s, r, ran⟩ := for_visits Int.one_pos ran le_rfl (by omega) (one_dvd _)
  obtain ⟨row', -, ran⟩ := bind_ok.mp ran
  obtain ⟨sum, -, ran⟩ := bind_ok.mp ran
  obtain ⟨p, computed, -⟩ := bind_ok.mp ran
  have area := area_small computed
  have post : Post (int (((assets : ℤ) - 1) * periods)) fun _ => True := ⟨row, started, trivial⟩
  have fits := (post_int.mp post).1.2
  have last : ((assets : ℤ) - 1) * periods = ((assets - 1) * periods : ℕ) := by
    rw [Nat.cast_mul, Nat.cast_sub assets_pos]
    rfl
  rw [last] at fits
  rintro (wide | wide)
  · exact wide.not_ge (by exact_mod_cast area)
  · exact wide.not_gt (by exact_mod_cast fits)

theorem matVecMul_ends {x y : Array ℝ} (assets_pos : 1 ≤ assets) (assetsInt : assets < 2 ^ 31)
    (size : cov.size = assets * assets) (xSize : x.size = assets) (ySize : y.size = assets) :
    Ends (matVecMul cov assets assets x y) (fun y => y.size = assets ∧
        ∀ i < assets, y.getD i 0 = ∑ j ∈ range assets, entry cov assets i j * x.getD j 0)
      (Wide assets assets) := by
  rw [matVecMul, if_neg (by omega)]
  refine (ends_count (I := fun i y => y.size = assets ∧
      ∀ k < i.toNat, y.getD k 0 = ∑ j ∈ range assets, entry cov assets k j * x.getD j 0)
    le_rfl (Int.natCast_nonneg assets) (by omega) (fun i y low high held => ?_)
    ⟨ySize, fun k k_lt => absurd k_lt (Nat.not_lt_zero k)⟩).mono fun y good => good
  obtain ⟨ySize, known⟩ := held
  lift i to ℕ using low
  have i_lt : i < assets := by omega
  rw [ends_bind]
  refine rowStart_ends i_lt ?_
  rw [ends_bind]
  refine (ends_sum (f := fun j => entry cov assets i j * x.getD j 0) assetsInt fun j j_lt acc => ?_).mono
    fun acc acc_eq => ?_
  · rw [ends_bind]
    refine rowRead_ends size i_lt j_lt ?_
    rw [ends_bind]
    exact ends_read 0 (by omega) (ends_pure.mpr rfl)
  · have inside : i < y.size := by omega
    refine ends_write inside ⟨by rw [Array.size_setIfInBounds, ySize], fun k k_lt => ?_⟩
    rw [getD_write inside]
    split
    · rename_i here
      rw [here, acc_eq]
    · exact known k (by omega)

def vector (buf : Array ℝ) (n : ℕ) : Fin n → ℝ := fun i => buf.getD i 0

noncomputable def quadratic (cov weights : Array ℝ) (assets : ℕ) : ℝ :=
  dotProduct (vector weights assets) ((asMatrix cov assets).mulVec (vector weights assets))

theorem quadratic_eq : quadratic cov weights assets =
    ∑ i ∈ range assets, weights.getD i 0 * ∑ j ∈ range assets, entry cov assets i j * weights.getD j 0 := by
  rw [← Fin.sum_univ_eq_sum_range
    (fun i => weights.getD i 0 * ∑ j ∈ range assets, entry cov assets i j * weights.getD j 0)]
  unfold quadratic dotProduct
  refine Finset.sum_congr rfl fun i _ => ?_
  show _ * (∑ j : Fin assets, entry cov assets i j * weights.getD j 0) = _
  rw [Fin.sum_univ_eq_sum_range fun j => entry cov assets i j * weights.getD j 0]
  rfl

theorem portfolioVariance_post (assets_pos : 1 ≤ assets) (area : assets * assets ≤ 2 ^ 31)
    (size : cov.size = assets * assets) (weightsSize : weights.size = assets) :
    Post (portfolioVariance true cov weights assets) (· = quadratic cov weights assets) := by
  have assetsInt : assets < 2 ^ 31 := by nlinarith
  have narrow : ¬ Wide assets assets := by
    have last : (assets - 1) * assets + assets = assets * assets := by
      rw [← Nat.succ_mul, Nat.succ_eq_add_one, Nat.sub_add_cancel assets_pos]
    rintro (wide | wide) <;> omega
  refine Ends.ok ?_ narrow
  rw [portfolioVariance, if_neg (by omega)]
  simp only [Bool.not_true, Bool.false_eq_true, if_false]
  rw [ends_bind, quadratic_eq]
  refine (matVecMul_ends assets_pos assetsInt size weightsSize (by simp)).mono fun tmp held => ?_
  obtain ⟨tmpSize, known⟩ := held
  refine ends_sum (f := fun i => weights.getD i 0 * ∑ j ∈ range assets, entry cov assets i j * weights.getD j 0)
    assetsInt fun i i_lt result => ?_
  rw [ends_bind]
  refine ends_read 0 (by omega) ?_
  rw [ends_bind]
  refine ends_read 0 (by omega) (ends_pure.mpr ?_)
  rw [known i i_lt]

/-! ### Estimates -/

/-- Whatever the output buffer held, the sample covariance is written to it, and the variance
of any weights is their quadratic form. -/
def Estimates (granted granted' : Bool) (returns : Array ℝ) (assets periods : ℕ) : Prop :=
  ∀ out : Array ℝ, out.size = assets * assets → ∃ cov, covarianceMatrix granted returns assets periods out = .ok cov ∧
    cov.size = assets * assets ∧ asMatrix cov assets = sampleCovariance returns assets periods ∧
    (asMatrix cov assets).IsSymm ∧ (asMatrix cov assets).PosSemidef ∧
    ∀ weights : Array ℝ, weights.size = assets → ∃ v, portfolioVariance granted' cov weights assets = .ok v ∧
      v = quadratic cov weights assets ∧ 0 ≤ v

theorem quadratic_nonneg (semidefinite : (asMatrix cov assets).PosSemidef) : 0 ≤ quadratic cov weights assets :=
  semidefinite.dotProduct_mulVec_nonneg (vector weights assets)

theorem vector_ofFn (w : Fin assets → ℝ) : vector (Array.ofFn w) assets = w := by
  ext i
  unfold vector
  rw [Array.getD_eq_getD_getElem?, Array.getElem?_ofFn, dif_pos i.isLt]
  rfl

theorem eq_zero_of_quadratic (semidefinite : (asMatrix cov assets).PosSemidef)
    (flat : ∀ weights : Array ℝ, weights.size = assets → quadratic cov weights assets = 0) :
    asMatrix cov assets = 0 := by
  refine Matrix.mulVec_injective (funext fun w => ?_)
  have none := flat (Array.ofFn w) Array.size_ofFn
  unfold quadratic at none
  rw [vector_ofFn] at none
  rw [Matrix.zero_mulVec]
  exact (semidefinite.dotProduct_mulVec_zero_iff w).mp none

theorem Estimates.granted {granted granted' : Bool} (estimates : Estimates granted granted' returns assets periods)
    (assets_pos : 1 ≤ assets) (periods_ge : 2 ≤ periods) : granted = true := by
  cases granted with
  | true => rfl
  | false =>
    -- the call leaves the buffer alone, whatever it holds
    have kept : ∀ v : ℝ, v = sampleCovariance returns assets periods ⟨0, assets_pos⟩ ⟨0, assets_pos⟩ := by
      intro v
      obtain ⟨cov, ran, -, written, -⟩ := estimates (Array.replicate (assets * assets) v) Array.size_replicate
      rw [covarianceMatrix, if_neg (by omega)] at ran
      obtain rfl := Except.ok.inj ran
      have cell : 0 < assets * assets := Nat.mul_pos assets_pos assets_pos
      rw [← written]
      simp [asMatrix, entry, Array.getD_eq_getD_getElem?, cell]
    exact absurd ((kept 0).trans (kept 1).symm) zero_ne_one

theorem Estimates.flat {granted : Bool} (estimates : Estimates granted false returns assets periods)
    (assets_pos : 1 ≤ assets) : sampleCovariance returns assets periods = 0 := by
  obtain ⟨cov, -, -, written, -, semidefinite, forms⟩ :=
    estimates (Array.replicate (assets * assets) 0) Array.size_replicate
  rw [← written]
  refine eq_zero_of_quadratic semidefinite fun weights weightsSize => ?_
  obtain ⟨v, ran, value, -⟩ := forms weights weightsSize
  rw [portfolioVariance, if_neg (by omega)] at ran
  exact value.symm.trans (Except.ok.inj ran).symm

theorem Estimates.narrow {granted' : Bool} (estimates : Estimates true granted' returns assets periods)
    (assets_pos : 1 ≤ assets) (periods_ge : 2 ≤ periods) : ¬ Wide assets periods := by
  obtain ⟨cov, ran, -⟩ := estimates (Array.replicate (assets * assets) 0) Array.size_replicate
  exact covarianceMatrix_narrow assets_pos periods_ge ran

/-- The estimates hold exactly if the means get their buffer, the product gets its own unless
there is nothing to add up, and no index leaves `int`. -/
theorem estimates_iff {granted granted' : Bool} (assets_pos : 1 ≤ assets) (periods_ge : 2 ≤ periods)
    (periodsInt : periods < 2 ^ 31) (size : returns.size = assets * periods) :
    Estimates granted granted' returns assets periods ↔
      granted = true ∧ (granted' = true ∨ sampleCovariance returns assets periods = 0) ∧
        assets * assets ≤ 2 ^ 31 ∧ (assets - 1) * periods < 2 ^ 31 := by
  constructor
  · intro estimates
    obtain rfl := estimates.granted assets_pos periods_ge
    have narrow := estimates.narrow assets_pos periods_ge
    simp only [Wide, not_or, not_lt, not_le] at narrow
    refine ⟨rfl, ?_, narrow⟩
    cases granted' with
    | true => exact .inl rfl
    | false => exact .inr (estimates.flat assets_pos)
  · rintro ⟨rfl, second, area, rows⟩ out outSize
    have narrow : ¬ Wide assets periods := by
      rintro (wide | wide)
      · exact wide.not_ge area
      · exact wide.not_gt rows
    obtain ⟨cov, ran, covSize, written⟩ := covarianceMatrix_post assets_pos periods_ge periodsInt size outSize narrow
    have symmetric : (asMatrix cov assets).IsSymm := by
      rw [written]
      exact sampleCovariance_symm
    have semidefinite : (asMatrix cov assets).PosSemidef := by
      rw [written]
      exact sampleCovariance_posSemidef (by omega)
    refine ⟨cov, ran, covSize, written, symmetric, semidefinite, fun weights weightsSize => ?_⟩
    have nonneg := @quadratic_nonneg cov weights assets semidefinite
    cases granted' with
    | true =>
      obtain ⟨v, summed, value⟩ := portfolioVariance_post assets_pos area covSize weightsSize
      exact ⟨v, summed, value, value ▸ nonneg⟩
    | false =>
      have flat : quadratic cov weights assets = 0 := by
        have zero : asMatrix cov assets = 0 := written.trans (second.resolve_left Bool.false_ne_true)
        unfold quadratic
        rw [zero, Matrix.zero_mulVec, dotProduct_zero]
      refine ⟨0, ?_, flat.symm, le_rfl⟩
      rw [portfolioVariance, if_neg (by omega)]
      rfl

theorem estimates_iff_pair :
    (#[1, 2, 3, 5] : Array ℝ).size = 2 * 2 ∧ (Estimates true true #[1, 2, 3, 5] 2 2 ↔
      true = true ∧ (true = true ∨ sampleCovariance #[1, 2, 3, 5] 2 2 = 0) ∧ 2 * 2 ≤ 2 ^ 31 ∧ (2 - 1) * 2 < 2 ^ 31) :=
  ⟨rfl, estimates_iff (by decide) le_rfl (by decide) rfl⟩

/-- Two periods of 46341 assets: the covariances have more cells than `int` has indices. -/
theorem many_assets_overflow :
    ¬ ∀ (assets periods : ℕ) (returns : Array ℝ), 1 ≤ assets → 2 ≤ periods → assets < 2 ^ 31 → periods < 2 ^ 31 →
      returns.size = assets * periods → Estimates true true returns assets periods := by
  intro law
  have estimates := law 46341 2 (Array.replicate (46341 * 2) 0) (by decide) le_rfl (by decide) (by decide)
    Array.size_replicate
  exact estimates.narrow (by decide) le_rfl (.inl (by decide))

end

end PolyglotInfinity.Matrix
