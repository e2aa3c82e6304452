import Mathlib.Algebra.Order.Star.Real
import Mathlib.Analysis.Real.Sqrt
import PolyglotInfinity.Lib.Cholesky
import PolyglotInfinity.Matrix.Product

/-!
# Cholesky decomposition

`cholesky_decompose` of the C++ library, over any type with the operations it uses, and
what it computes over the real numbers.
-/

namespace PolyglotInfinity.Matrix

open CProgram Finset
open Cholesky (Factor block)

section

variable {α : Type}

structure Decomposed (α : Type) where
  rc : ℤ
  lOut : Array α
  /-- The function has met a zero where it divides. Ghost. -/
  zeroPivot : Bool

variable [Zero α] [Add α] [Mul α]

/-- The sum of `l_out[i*n + t] * l_out[j*n + t]` over `t < j`. -/
def rowDot (lOut : Array α) (n i j : ℤ) : Run α :=
  forInt 0 j 1 (fun t sum => do
    let x ← read lOut (← offset i n t)
    let y ← read lOut (← offset j n t)
    pure (sum + x * y)) 0

variable [Sub α] [Div α] [LE α] [DecidableLE α] [DecidableEq α]

/-- The body of the inner loop: the new `l_out`, or the return. -/
def choleskyCell (sqrt : α → α) (a : Array α) (n i j : ℤ) (lOut : Array α) : Run (Decomposed α ⊕ Array α) := do
  let sum ← rowDot lOut n i j
  if i = j then do
    let x ← read a (← offset i n i)
    let d := x - sum
    if d ≤ 0 then do
      let lOut ← clear lOut (cells n n)
      pure (.inl ⟨-1, lOut, false⟩)
    else do
      let lOut ← write lOut (← offset i n j) (sqrt d)
      pure (.inr lOut)
  else do
    let pivot ← read lOut (← offset j n j)
    if pivot = 0 then do
      let lOut ← clear lOut (cells n n)
      pure (.inl ⟨-1, lOut, true⟩)
    else do
      let x ← read a (← offset i n j)
      let pivot ← read lOut (← offset j n j)
      let lOut ← write lOut (← offset i n j) ((x - sum) / pivot)
      pure (.inr lOut)

def choleskyDecompose (sqrt : α → α) (a : Array α) (n : ℤ) (lOut : Array α) : Run (Decomposed α) :=
  if n ≤ 0 then pure ⟨-1, lOut, false⟩
  else do
    let lOut ← clear lOut (cells n n)
    let ended ← forReturn 0 n (fun i => forReturn 0 (i + 1) (choleskyCell sqrt a n i)) lOut
    match ended with
    | .inl r => pure r
    | .inr lOut => pure ⟨0, lOut, false⟩

/-- The entry in row `i` and column `j` of a buffer with rows of length `n`. -/
def entry (buf : Array α) (n i j : ℕ) : α := buf.getD (i * n + j) 0

def asMatrix (buf : Array α) (n : ℕ) : Matrix (Fin n) (Fin n) α := fun i j => entry buf n i j

end

/-! ### Cells -/

section

variable {α : Type} {buf : Array α} {n i j : ℕ} {E : Prop}

theorem offset_ends {Q : ℤ → Prop} (fits : i * n + j < 2 ^ 31 → Q (i * n + j : ℕ)) (overflows : 2 ^ 31 ≤ i * n + j → E) :
    Ends (offset i n j) Q E := by
  have row : (i : ℤ) * n = (i * n : ℕ) := by push_cast; rfl
  unfold offset
  rw [ends_bind, row]
  refine ends_int (fun _ => ?_) (fun beyond => overflows (beyond.trans (Nat.le_add_right _ _)))
  have cell : ((i * n : ℕ) : ℤ) + j = (i * n + j : ℕ) := by push_cast; rfl
  rw [cell]
  exact ends_int fits overflows

theorem cells_exact (sized : n * n * 8 < 2 ^ 64) : cells n n = n * n := by
  have cast : (n : ℤ) * n = (n * n : ℕ) := by push_cast; rfl
  unfold cells
  rw [cast]
  generalize n * n = area at sized ⊢
  rw [Int.emod_eq_of_lt (by omega) (by omega)]
  omega

theorem clear_ends [Zero α] {Q : Array α → Prop} (size : buf.size = n * n) (sized : n * n * 8 < 2 ^ 64)
    (good : Q (Array.replicate (n * n) 0)) : Ends (clear buf (cells n n)) Q E := by
  have empty : buf.extract (n * n) buf.size = #[] := by simp [size]
  refine (post_clear.mpr ⟨?_, ?_⟩).ends
  · rw [cells_exact sized, size]
  · rw [cells_exact sized, empty, Array.append_empty]
    exact good

theorem getD_write [Zero α] {c : ℕ} (inside : c < buf.size) (v : α) (x : ℕ) :
    (buf.setIfInBounds c v).getD x 0 = if x = c then v else buf.getD x 0 := by
  rw [Array.getD_eq_getD_getElem?, Array.getElem?_setIfInBounds]
  by_cases same : x = c
  · subst x
    rw [if_pos rfl, if_pos inside, if_pos rfl]
    rfl
  · rw [if_neg (Ne.symm same), if_neg same, Array.getD_eq_getD_getElem?]

theorem entry_write [Zero α] (size : buf.size = n * n) (i_lt : i < n) (j_lt : j < n) (v : α) {x y : ℕ} (y_lt : y < n) :
    entry (buf.setIfInBounds (i * n + j) v) n x y = if x = i ∧ y = j then v else entry buf n x y := by
  have bound : i * n + j < buf.size := by
    rw [size]
    exact cell_lt i_lt j_lt
  have same : x * n + y = i * n + j ↔ x = i ∧ y = j :=
    ⟨fun equal => cell_inj j_lt y_lt equal, fun ⟨row, column⟩ => by rw [row, column]⟩
  unfold entry
  rw [getD_write bound]
  simp only [same]

end

/-! ### The half-filled factor -/

section

variable {a out : Array ℝ} {n i j : ℕ}

/-- The cells of `out` before column `j` of row `i` are those of a factor of `a`, and it has no others. -/
structure Filled (a out : Array ℝ) (n i j : ℕ) : Prop where
  size : out.size = n * n
  inInt : ∀ x < i, x * n + x < 2 ^ 31
  factor : Factor (entry a n) (entry out n) i
  row : ∀ y < j, ∑ t ∈ range (y + 1), entry out n i t * entry out n y t = entry a n i y
  pivot : i < j → 0 < entry out n i i ∧ i * n + i < 2 ^ 31
  upper : ∀ x < n, ∀ y < n, x < y → entry out n x y = 0

/-- An index of a pivot does not fit an `int`, and no leading block before it stops the loop. -/
def Overflows (a : Array ℝ) (n : ℕ) : Prop := ∃ i < n, 2 ^ 31 ≤ i * n + i ∧ (block (entry a n) i).PosDef

structure Rejects (a : Array ℝ) (n : ℕ) (r : Decomposed ℝ) : Prop where
  rc : r.rc = -1
  zeros : r.lOut = Array.replicate (n * n) 0
  zeroPivot : r.zeroPivot = false
  row : ∃ i < n, i * n + i < 2 ^ 31 ∧ ¬ (block (entry a n) (i + 1)).PosDef

theorem Filled.overflows (filled : Filled a out n i j) (i_lt : i < n) {t : ℕ} (t_le : t ≤ i)
    (beyond : 2 ^ 31 ≤ i * n + t) : Overflows a n :=
  ⟨i, i_lt, by omega, filled.factor.posDef⟩

theorem Filled.next (filled : Filled a out n i (i + 1)) : Filled a out n (i + 1) 0 := by
  obtain ⟨positive, fits⟩ := filled.pivot (Nat.lt_succ_self i)
  refine ⟨filled.size, fun x x_lt => ?_, ?_, fun y y_lt => absurd y_lt (Nat.not_lt_zero y), ?_, filled.upper⟩
  · rcases Nat.lt_succ_iff_lt_or_eq.mp x_lt with old | rfl
    · exact filled.inInt x old
    · exact fits
  · exact filled.factor.succ positive fun y y_le => filled.row y (Nat.lt_succ_of_le y_le)
  · intro none
    exact absurd none (Nat.not_lt_zero _)

theorem cleared_filled : Filled a (Array.replicate (n * n) 0) n 0 0 := by
  refine ⟨by simp, by simp, ⟨by simp, by simp⟩, by simp, by simp, fun x x_lt y y_lt _ => ?_⟩
  have bound : x * n + y < n * n := cell_lt x_lt y_lt
  simp [entry, Array.getD_eq_getD_getElem?, bound]

theorem Filled.write (filled : Filled a out n i j) (i_lt : i < n) (j_le : j ≤ i) {v : ℝ}
    (product : ∑ t ∈ range j, entry out n i t * entry out n j t + v * (if j = i then v else entry out n j j) =
      entry a n i j)
    (pivot : j = i → 0 < v ∧ i * n + i < 2 ^ 31) : Filled a (out.setIfInBounds (i * n + j) v) n i (j + 1) := by
  have j_lt : j < n := by omega
  have written : ∀ x y, y < n → entry (out.setIfInBounds (i * n + j) v) n x y =
      if x = i ∧ y = j then v else entry out n x y := fun x y y_lt => entry_write filled.size i_lt j_lt v y_lt
  have before : ∀ y t, y ≤ i → t ≤ y → t < j →
      entry (out.setIfInBounds (i * n + j) v) n y t = entry out n y t := by
    intro y t y_le t_le t_lt
    rw [written y t (by omega), if_neg (by omega)]
  refine ⟨by rw [Array.size_setIfInBounds, filled.size], filled.inInt, ?_, fun y y_lt => ?_, fun last => ?_,
    fun x x_lt y y_lt above => ?_⟩
  · refine filled.factor.congr fun x x_lt y y_le => ?_
    rw [written x y (by omega), if_neg (by omega)]
  · have earlier : ∀ t ∈ range y, entry (out.setIfInBounds (i * n + j) v) n i t *
        entry (out.setIfInBounds (i * n + j) v) n y t = entry out n i t * entry out n y t := by
      intro t t_mem
      have t_lt := mem_range.mp t_mem
      rw [before i t le_rfl (by omega) (by omega), before y t (by omega) (by omega) (by omega)]
    rw [sum_range_succ, sum_congr rfl earlier]
    rcases Nat.lt_succ_iff_lt_or_eq.mp y_lt with old | rfl
    · rw [before i y le_rfl (by omega) old, before y y (by omega) le_rfl old, ← sum_range_succ]
      exact filled.row y old
    · rw [written i y j_lt, if_pos ⟨rfl, rfl⟩, written y y j_lt]
      simpa only [and_true] using product
  · obtain rfl : j = i := by omega
    rw [written j j j_lt, if_pos ⟨rfl, rfl⟩]
    exact pivot rfl
  · rw [written x y y_lt, if_neg (by omega)]
    exact filled.upper x x_lt y y_lt above

theorem rowDot_ends (filled : Filled a out n i j) (i_lt : i < n) (j_le : j ≤ i) (small : n < 2 ^ 31) :
    Ends (rowDot out n i j) (· = ∑ t ∈ range j, entry out n i t * entry out n j t) (Overflows a n) := by
  have inside : ∀ x t, x ≤ i → t < j → x * n + t < out.size := by
    intro x t x_le t_lt
    rw [filled.size]
    exact cell_lt (by omega) (by omega)
  refine ends_sum (by omega) fun t t_lt sum => ?_
  rw [ends_bind]
  refine offset_ends (fun _ => ?_) (fun beyond => filled.overflows i_lt (t_lt.le.trans j_le) beyond)
  rw [ends_bind]
  refine ends_read 0 (inside i t le_rfl t_lt) ?_
  rw [ends_bind]
  refine offset_ends (fun _ => ?_) (fun beyond => filled.overflows i_lt (t_lt.le.trans j_le) ?_)
  · rw [ends_bind]
    exact ends_read 0 (inside j t j_le t_lt) (ends_pure.mpr rfl)
  · have rows : j * n ≤ i * n := Nat.mul_le_mul_right n j_le
    omega

/-- One cell: its pivot is what the leading blocks decide. -/
theorem choleskyCell_ends (aSize : a.size = n * n) (bytes : n * n * 8 < 2 ^ 64) (filled : Filled a out n i j)
    (i_lt : i < n) (j_le : j ≤ i) :
    Ends (choleskyCell Real.sqrt a n i j out) (Sum.elim (Rejects a n) fun out => Filled a out n i (j + 1))
      (Overflows a n) := by
  have small : n < 2 ^ 31 := by nlinarith
  have inside : ∀ buf : Array ℝ, buf.size = n * n → ∀ x y, x < n → y < n → x * n + y < buf.size := by
    intro buf size x y x_lt y_lt
    rw [size]
    exact cell_lt x_lt y_lt
  unfold choleskyCell
  rw [ends_bind]
  refine (rowDot_ends filled i_lt j_le small).mono fun sum sum_eq => ?_
  by_cases diagonal : j = i
  · subst j
    rw [if_pos rfl, ends_bind]
    refine offset_ends (fun fits => ?_) (filled.overflows i_lt le_rfl)
    rw [ends_bind]
    refine ends_read 0 (inside a aSize i i i_lt i_lt) ?_
    have decides := filled.factor.posDef_succ filled.row
    rw [← sum_eq] at decides
    show Ends (if entry a n i i - sum ≤ 0 then _ else _) _ _
    split
    · rename_i nonpos
      rw [ends_bind]
      refine clear_ends filled.size bytes (ends_pure.mpr ?_)
      exact ⟨rfl, rfl, rfl, i, i_lt, fits, fun definite => nonpos.not_gt (decides.mp definite)⟩
    · rename_i positive
      have positive := not_le.mp positive
      rw [ends_bind]
      refine offset_ends (fun _ => ?_) (filled.overflows i_lt le_rfl)
      rw [ends_bind]
      refine ends_write (inside out filled.size i i i_lt i_lt) (ends_pure.mpr ?_)
      refine filled.write i_lt le_rfl ?_ fun _ => ⟨Real.sqrt_pos.mpr positive, fits⟩
      rw [if_pos rfl, ← sum_eq]
      show sum + √(entry a n i i - sum) * √(entry a n i i - sum) = entry a n i i
      rw [Real.mul_self_sqrt positive.le]
      exact add_sub_cancel sum _
  · have j_lt : j < i := by omega
    have pivot := filled.factor.pivot j j_lt
    have row_le : j * n + j ≤ i * n + j := Nat.add_le_add_right (Nat.mul_le_mul_right n j_le) j
    have apart : (i : ℤ) ≠ j := by omega
    rw [if_neg apart, ends_bind]
    refine offset_ends (fun _ => ?_) (fun beyond => filled.overflows i_lt j_le (beyond.trans row_le))
    rw [ends_bind]
    refine ends_read 0 (inside out filled.size j j (by omega) (by omega)) ?_
    show Ends (if entry out n j j = 0 then _ else _) _ _
    rw [if_neg pivot.ne', ends_bind]
    refine offset_ends (fun _ => ?_) (filled.overflows i_lt j_le)
    rw [ends_bind]
    refine ends_read 0 (inside a aSize i j i_lt (by omega)) ?_
    rw [ends_bind]
    refine offset_ends (fun _ => ?_) (fun beyond => filled.overflows i_lt j_le (beyond.trans row_le))
    rw [ends_bind]
    refine ends_read 0 (inside out filled.size j j (by omega) (by omega)) ?_
    rw [ends_bind]
    refine offset_ends (fun _ => ?_) (filled.overflows i_lt j_le)
    rw [ends_bind]
    refine ends_write (inside out filled.size i j i_lt (by omega)) (ends_pure.mpr ?_)
    refine filled.write i_lt j_le ?_ fun same => absurd same diagonal
    rw [if_neg diagonal, ← sum_eq]
    show sum + (entry a n i j - sum) / entry out n j j * entry out n j j = entry a n i j
    rw [div_mul_cancel₀ _ pivot.ne']
    exact add_sub_cancel sum _

theorem choleskyRow_ends (aSize : a.size = n * n) (bytes : n * n * 8 < 2 ^ 64) (filled : Filled a out n i 0)
    (i_lt : i < n) :
    Ends (forReturn 0 (i + 1) (choleskyCell Real.sqrt a n i) out)
      (Sum.elim (Rejects a n) fun out => Filled a out n (i + 1) 0) (Overflows a n) := by
  have small : n < 2 ^ 31 := by nlinarith
  refine (ends_forReturn (R := Rejects a n) (I := fun j out => Filled a out n i j.toNat) le_rfl (by omega) (by omega)
    (fun j out low high filled => ?_) filled).mono fun r good => ?_
  · lift j to ℕ using low
    exact choleskyCell_ends aSize bytes filled i_lt (by omega)
  · cases r with
    | inl r => exact good
    | inr out => exact Filled.next good

/-- What the function returns, and why it would not. -/
theorem choleskyDecompose_ends (n_pos : 1 ≤ n) (aSize : a.size = n * n) (outSize : out.size = n * n)
    (bytes : n * n * 8 < 2 ^ 64) :
    Ends (choleskyDecompose Real.sqrt a n out)
      (fun r => Rejects a n r ∨ r.rc = 0 ∧ r.zeroPivot = false ∧ Filled a r.lOut n n 0) (Overflows a n) := by
  have small : n < 2 ^ 31 := by nlinarith
  rw [choleskyDecompose, if_neg (by omega), ends_bind]
  refine clear_ends outSize bytes ?_
  rw [ends_bind]
  refine (ends_forReturn (R := Rejects a n) (I := fun i out => Filled a out n i.toNat 0) le_rfl (Int.natCast_nonneg n)
    (by omega) (fun i out low high filled => ?_) cleared_filled).mono fun ended good => ?_
  · lift i to ℕ using low
    exact choleskyRow_ends aSize bytes filled (by omega)
  · cases ended with
    | inl r => exact ends_pure.mpr (.inl good)
    | inr out => exact ends_pure.mpr (.inr ⟨rfl, rfl, good⟩)

end

/-! ### Positive definite matrices -/

section

variable {a lOut : Array ℝ} {n : ℕ}

/-- What a call with a symmetric matrix promises. -/
structure Decides (a : Array ℝ) (n : ℕ) (r : Decomposed ℝ) : Prop where
  size : r.lOut.size = n * n
  rc : r.rc = 0 ∨ r.rc = -1
  decides : r.rc = 0 ↔ (asMatrix a n).PosDef
  upper : r.rc = 0 → ∀ i j, i < j → asMatrix r.lOut n i j = 0
  pivot : r.rc = 0 → ∀ i, 0 < asMatrix r.lOut n i i
  product : r.rc = 0 → asMatrix r.lOut n * (asMatrix r.lOut n).transpose = asMatrix a n
  zeros : r.rc = -1 → ∀ x ∈ r.lOut, x = 0
  zeroPivot : r.zeroPivot = false

theorem block_asMatrix (symmetric : (asMatrix a n).IsSymm) : block (entry a n) n = asMatrix a n :=
  Cholesky.symm_ext Cholesky.block_symm symmetric fun _ _ below => Cholesky.block_lower below

theorem Filled.lower {out : Array ℝ} (filled : Filled a out n n 0) :
    Cholesky.lower (entry out n) n = asMatrix out n := by
  ext i j
  unfold Cholesky.lower
  split
  · rfl
  · rename_i above
    exact (filled.upper i i.isLt j j.isLt (not_le.mp above)).symm

theorem Filled.decides {r : Decomposed ℝ} (filled : Filled a r.lOut n n 0)
    (rc : r.rc = 0) (zeroPivot : r.zeroPivot = false) (symmetric : (asMatrix a n).IsSymm) : Decides a n r := by
  have definite := filled.factor.posDef
  have product := filled.factor.mul_transpose
  rw [block_asMatrix symmetric] at definite product
  rw [filled.lower] at product
  refine ⟨filled.size, .inl rc, iff_of_true rc definite, fun _ i j above => ?_, fun _ i => ?_, fun _ => product,
    fun rejected => ?_, zeroPivot⟩
  · exact filled.upper i i.isLt j j.isLt above
  · exact filled.factor.pivot i i.isLt
  · exact absurd (rc.symm.trans rejected) (by decide)

theorem Rejects.decides {r : Decomposed ℝ} (rejects : Rejects a n r) (symmetric : (asMatrix a n).IsSymm) :
    Decides a n r := by
  obtain ⟨rc, zeros, zeroPivot, i, i_lt, -, indefinite⟩ := rejects
  have accepted : r.rc ≠ 0 := by rw [rc]; decide
  have whole : ¬ (asMatrix a n).PosDef := by
    rw [← block_asMatrix symmetric]
    exact fun definite => indefinite (Cholesky.posDef_leading i_lt definite)
  refine ⟨by rw [zeros, Array.size_replicate], .inr rc, iff_of_false accepted whole, fun zero => absurd zero accepted,
    fun zero => absurd zero accepted, fun zero => absurd zero accepted, fun _ x x_mem => ?_, zeroPivot⟩
  rw [zeros] at x_mem
  exact (Array.mem_replicate.mp x_mem).2

/-- A symmetric matrix is decided exactly if each pivot whose index does not fit an `int` comes
after a leading block that is not positive definite. -/
theorem choleskyDecompose_decides_iff (n_pos : 1 ≤ n) (aSize : a.size = n * n) (lOutSize : lOut.size = n * n)
    (bytes : n * n * 8 < 2 ^ 64) (symmetric : (asMatrix a n).IsSymm) :
    (∃ r, choleskyDecompose Real.sqrt a n lOut = .ok r ∧ Decides a n r) ↔
      ∀ i < n, 2 ^ 31 ≤ i * n + i → ¬ (block (entry a n) i).PosDef := by
  have ends := choleskyDecompose_ends n_pos aSize lOutSize bytes
  constructor
  · rintro ⟨r, ran, -⟩ i i_lt beyond definite
    rcases ends.1 r ran with rejects | ⟨-, -, filled⟩
    · obtain ⟨k, k_lt, fits, indefinite⟩ := rejects.row
      have before : k < i := by
        by_contra after
        have row_le : i * n ≤ k * n := Nat.mul_le_mul_right n (not_lt.mp after)
        omega
      exact indefinite (Cholesky.posDef_leading before definite)
    · exact beyond.not_gt (filled.inInt i i_lt)
  · intro stopped
    obtain ⟨r, ran, good⟩ := ends.ok fun ⟨i, i_lt, beyond, definite⟩ => stopped i i_lt beyond definite
    refine ⟨r, ran, ?_⟩
    rcases good with rejects | ⟨rc, zeroPivot, filled⟩
    · exact rejects.decides symmetric
    · exact filled.decides rc zeroPivot symmetric

/-- Symmetric, with the factor of rows 2, 0 and 1, 2. -/
def pair : Array ℝ := #[(4 : ℕ), (2 : ℕ), (2 : ℕ), (5 : ℕ)]

theorem pair_symmetric : (asMatrix pair 2).IsSymm := by
  ext i j
  fin_cases i <;> fin_cases j <;> rfl

theorem pair_factor : Factor (entry pair 2) (fun i j => if j < i then 1 else 2) 2 := by
  constructor
  · intro i _
    simp
  · intro i i_lt j below
    interval_cases i <;> interval_cases j <;> norm_num [entry, pair, sum_range_succ]

theorem choleskyDecompose_decides_iff_pair : (asMatrix pair 2).IsSymm ∧
    ∃ r, choleskyDecompose Real.sqrt pair (2 : ℕ) #[7, 7, 7, 7] = .ok r ∧ Decides pair 2 r ∧ r.rc = 0 := by
  have law := @choleskyDecompose_decides_iff pair #[7, 7, 7, 7] 2 (by decide) rfl rfl (by decide) pair_symmetric
  obtain ⟨r, ran, decides⟩ := law.mpr fun i i_lt beyond => absurd beyond (by omega)
  have definite : (asMatrix pair 2).PosDef := by
    rw [← block_asMatrix pair_symmetric]
    exact pair_factor.posDef
  exact ⟨pair_symmetric, r, ran, decides, decides.decides.mpr definite⟩

noncomputable def identity (n : ℕ) : Array ℝ := Array.ofFn fun c : Fin (n * n) => if (c : ℕ) / n = c % n then 1 else 0

theorem asMatrix_identity : asMatrix (identity n) n = 1 := by
  ext i j
  have bound : i * n + j < n * n := cell_lt i.isLt j.isLt
  have n_pos : 0 < n := by omega
  have row : (i * n + j) / n = i := by
    rw [Nat.mul_comm, Nat.mul_add_div n_pos, Nat.div_eq_of_lt j.isLt, Nat.add_zero]
  have column : (i * n + j) % n = j := by rw [Nat.mul_comm, Nat.mul_add_mod, Nat.mod_eq_of_lt j.isLt]
  unfold asMatrix entry identity
  rw [Array.getD_eq_getD_getElem?, Array.getElem?_ofFn, dif_pos bound, Option.getD_some, Matrix.one_apply]
  simp only [row, column, Fin.ext_iff]

/-- The identity of 46341 rows, whose last pivot has no `int` index. -/
theorem identity_overflows :
    ¬ ∀ (n : ℕ) (a lOut : Array ℝ), 1 ≤ n → a.size = n * n → lOut.size = n * n → n * n * 8 < 2 ^ 64 →
      (asMatrix a n).IsSymm → ∃ r, choleskyDecompose Real.sqrt a n lOut = .ok r ∧ Decides a n r := by
  intro law
  have symmetric : (asMatrix (identity 46341) 46341).IsSymm := by
    rw [asMatrix_identity]
    exact Matrix.isSymm_one
  have size : (identity 46341).size = 46341 * 46341 := Array.size_ofFn
  obtain ⟨r, ran, -⟩ := law 46341 (identity 46341) (identity 46341) (by decide) size size (by decide) symmetric
  have definite : (block (entry (identity 46341) 46341) 46341).PosDef := by
    rw [block_asMatrix symmetric, asMatrix_identity]
    exact Matrix.PosDef.one
  rcases (choleskyDecompose_ends (by decide) size size (by decide)).1 r ran with rejects | ⟨-, -, filled⟩
  · obtain ⟨k, k_lt, -, indefinite⟩ := rejects.row
    exact indefinite (Cholesky.posDef_leading k_lt definite)
  · have fits := filled.inInt 46340 (by decide)
    omega

end

end PolyglotInfinity.Matrix
