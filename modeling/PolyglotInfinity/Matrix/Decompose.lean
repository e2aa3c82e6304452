import PolyglotInfinity.Matrix.Cholesky
import PolyglotInfinity.Matrix.Ffi

/-!
# The Cholesky handler

The Rust side of `cholesky_decompose`, and for which matrices its replies are right.
-/

namespace PolyglotInfinity.Matrix

open CProgram
open Cholesky (block)

variable {α : Type}

structure CholeskyRequest (α : Type) where
  matrix : Array α
  n : Int32

inductive CholeskyReply (α : Type) where
  | error (message : String)
  | factor (l : Array α) (n : Int32)

def CholeskyRequest.accepted (req : CholeskyRequest α) : Bool :=
  !(req.n ≤ 0 || req.matrix.size != saturatingMul (asUsize req.n) (asUsize req.n))

def choleskyOut [Zero α] (a : Array α) (n : Int32) : Except String (Array α) := do
  ensure (0 < n) "n must be positive"
  ensure (a.size == asUsize (n * n)) "a length mismatch for cholesky"
  zeros (asUsize (n * n))

section
variable [Zero α] [Add α] [Mul α] [Sub α] [Div α] [LE α] [DecidableLE α] [DecidableEq α]

def cholesky (sqrt : α → α) (a : Array α) (n : Int32) : Except String (Run (Option (Array α))) := do
  let l ← choleskyOut a n
  pure ((choleskyDecompose sqrt a n.toInt l).map fun r => if r.rc = 0 then some r.lOut else none)

def notPositiveDefinite : String := "matrix is not symmetric positive-definite"

def CholeskyReply.of (n : Int32) : Option (Array α) → CholeskyReply α
  | some l => .factor l n
  | none => .error notPositiveDefinite

def matrixCholeskyHandler (sqrt : α → α) (req : CholeskyRequest α) : Except String (Run (CholeskyReply α)) :=
  if req.accepted then do
    let run ← cholesky sqrt req.matrix req.n
    pure (run.map (CholeskyReply.of req.n))
  else pure (pure (.error "n must be positive and matrix length must equal n*n"))

end

namespace CholeskyRequest

structure Shaped (req : CholeskyRequest α) : Prop where
  n_pos : 0 < req.n.toInt
  size : (req.matrix.size : ℤ) = req.n.toInt * req.n.toInt

theorem shaped {req : CholeskyRequest α} (accepted : req.accepted = true) : Shaped req := by
  simp only [CholeskyRequest.accepted, Bool.not_eq_true', Bool.or_eq_false_iff, decide_eq_false_iff_not,
    Int32.le_iff_toInt_le, Int32.toInt_zero, not_le, bne_eq_false_iff_eq] at accepted
  obtain ⟨n_pos, size⟩ := accepted
  exact ⟨n_pos, by rw [size, saturating_exact n_pos n_pos]⟩

theorem choleskyOut_eq [Zero α] {req : CholeskyRequest α} {out : Array α} (shaped : Shaped req) :
    choleskyOut req.matrix req.n = .ok out ↔
      req.n.toInt * req.n.toInt < 2 ^ 31 ∧ out = Array.replicate (req.n.toInt * req.n.toInt).toNat 0 := by
  obtain ⟨n_pos, size⟩ := shaped
  have positive : decide (0 < req.n) = true := by simp [Int32.lt_iff_toInt_lt, n_pos]
  simp only [choleskyOut, ensure_bind, positive, true_and, beq_iff_eq, length_agrees n_pos n_pos size, zeros_eq]
  refine and_congr_right fun small => ?_
  have agrees := (product_agrees n_pos n_pos).mpr small
  have nonneg : 0 ≤ (req.n * req.n).toInt := by
    by_contra neg
    have := asUsize_of_neg (not_le.mp neg)
    omega
  have kept : (req.n * req.n).toInt = req.n.toInt * req.n.toInt := by rw [← asUsize_of_nonneg nonneg, agrees]
  rw [kept] at nonneg ⊢
  exact and_iff_right nonneg

def order (req : CholeskyRequest α) : ℕ := req.n.toInt.toNat

def mat [Zero α] (req : CholeskyRequest α) : Matrix (Fin req.order) (Fin req.order) α := asMatrix req.matrix req.order

/-- A factor of the submitted matrix, or the refusal. -/
def Answered (req : CholeskyRequest ℝ) : CholeskyReply ℝ → Prop
  | .factor l n => n = req.n ∧ l.size = req.order * req.order ∧
      asMatrix l req.order * (asMatrix l req.order).transpose = req.mat
  | .error message => message = notPositiveDefinite

noncomputable def handled (req : CholeskyRequest ℝ) : Except String (Run (CholeskyReply ℝ)) :=
  matrixCholeskyHandler Real.sqrt req

variable {req : CholeskyRequest ℝ}

theorem handled_eq (accepted : req.accepted = true) {out : Array ℝ} (sized : choleskyOut req.matrix req.n = .ok out)
    {r : Decomposed ℝ} (ran : choleskyDecompose Real.sqrt req.matrix req.n.toInt out = .ok r) :
    req.handled = .ok (.ok (CholeskyReply.of req.n (if r.rc = 0 then some r.lOut else none))) := by
  simp only [handled, matrixCholeskyHandler, accepted, if_true, cholesky, sized, ran, bind, Except.bind, pure,
    Except.pure, Except.map]

theorem handled_panics (accepted : req.accepted = true) {message : String}
    (panics : choleskyOut req.matrix req.n = .error message) : req.handled = .error message := by
  simp only [handled, matrixCholeskyHandler, accepted, if_true, cholesky, panics, bind, Except.bind]

theorem answered_factor {r : Decomposed ℝ} (rc : r.rc = 0)
    (filled : Filled req.matrix r.lOut req.order req.order 0) :
    Answered req (CholeskyReply.of req.n (if r.rc = 0 then some r.lOut else none)) ↔ req.mat.IsSymm := by
  have product := filled.factor.mul_transpose
  rw [filled.lower] at product
  rw [if_pos rc]
  constructor
  · rintro ⟨-, -, same⟩
    rw [← same, product]
    exact Cholesky.block_symm
  · intro symmetric
    exact ⟨rfl, filled.size, product.trans (block_asMatrix symmetric)⟩

/-- A matrix that fits gets a reply, which is right if the lower triangle tells the whole matrix or
is not that of a positive definite one. -/
theorem handled_of_fits (accepted : req.accepted = true) (fits : req.n.toInt * req.n.toInt < 2 ^ 31) :
    ∃ reply, req.handled = .ok (.ok reply) ∧ (req.Answered reply ↔
      req.mat.IsSymm ∨ ¬ (block (entry req.matrix req.order) req.order).PosDef) := by
  have shape := shaped accepted
  have n_eq : req.n.toInt = req.order := (Int.toNat_of_nonneg shape.n_pos.le).symm
  have n_pos : 1 ≤ req.order := by
    have := shape.n_pos
    omega
  have aSize : req.matrix.size = req.order * req.order := by
    have size := shape.size
    rw [n_eq] at size
    exact_mod_cast size
  have small : req.order * req.order < 2 ^ 31 := by
    rw [n_eq] at fits
    exact_mod_cast fits
  have outSize : (Array.replicate (req.n.toInt * req.n.toInt).toNat (0 : ℝ)).size = req.order * req.order := by
    rw [Array.size_replicate, n_eq]
    exact_mod_cast Int.toNat_natCast _
  have inside : ¬ Overflows req.matrix req.order := by
    rintro ⟨i, i_lt, beyond, -⟩
    have := cell_lt i_lt i_lt
    omega
  obtain ⟨r, ran, good⟩ := (choleskyDecompose_ends n_pos aSize outSize (by omega)).ok inside
  rw [← n_eq] at ran
  refine ⟨_, handled_eq accepted ((choleskyOut_eq shape).mpr ⟨fits, rfl⟩) ran, ?_⟩
  rcases good with rejects | ⟨rc, -, filled⟩
  · obtain ⟨k, k_lt, -, indefinite⟩ := rejects.row
    have nonzero : r.rc ≠ 0 := by rw [rejects.rc]; decide
    rw [if_neg nonzero]
    exact iff_of_true rfl (.inr fun definite => indefinite (Cholesky.posDef_leading k_lt definite))
  · rw [answered_factor rc filled]
    exact (or_iff_left fun indefinite => indefinite filled.factor.posDef).symm

/-- The handler answers exactly the matrices whose area fits an `i32` and that are symmetric, or
whose lower triangle is not that of a positive definite matrix. -/
theorem cholesky_answers_iff (accepted : req.accepted = true) :
    (∃ reply, req.handled = .ok (.ok reply) ∧ req.Answered reply) ↔
      req.n.toInt * req.n.toInt < 2 ^ 31 ∧
        (req.mat.IsSymm ∨ ¬ (block (entry req.matrix req.order) req.order).PosDef) := by
  constructor
  · rintro ⟨reply, replied, answered⟩
    have fits : req.n.toInt * req.n.toInt < 2 ^ 31 := by
      cases sized : choleskyOut req.matrix req.n with
      | error message => simp [handled_panics accepted sized] at replied
      | ok out => exact ((choleskyOut_eq (shaped accepted)).mp sized).1
    obtain ⟨reply', again, right⟩ := handled_of_fits accepted fits
    obtain rfl := Except.ok.inj (Except.ok.inj (replied.symm.trans again))
    exact ⟨fits, right.mp answered⟩
  · rintro ⟨fits, good⟩
    obtain ⟨reply, replied, right⟩ := handled_of_fits accepted fits
    exact ⟨reply, replied, right.mpr good⟩

noncomputable def pairRequest : CholeskyRequest ℝ := ⟨pair, 2⟩

theorem cholesky_answers_iff_pair : pairRequest.accepted = true ∧ pairRequest.mat.IsSymm ∧
    ∃ reply, pairRequest.handled = .ok (.ok reply) ∧ pairRequest.Answered reply :=
  ⟨rfl, pair_symmetric, (@cholesky_answers_iff pairRequest rfl).mpr ⟨by decide, .inl pair_symmetric⟩⟩

/-- Two rows, the upper of which is not read beyond its diagonal. -/
noncomputable def lopsided : CholeskyRequest ℝ := ⟨#[1, 5.0, 0, 1], 2⟩

theorem lopsided_factored :
    ¬ ∀ req : CholeskyRequest ℝ, req.accepted = true → ∃ reply, req.handled = .ok (.ok reply) ∧ req.Answered reply := by
  intro law
  obtain ⟨reply, replied, answered⟩ := law lopsided rfl
  obtain ⟨reply', again, right⟩ := @handled_of_fits lopsided rfl (by decide)
  obtain rfl := Except.ok.inj (Except.ok.inj (replied.symm.trans again))
  have factor : Cholesky.Factor (entry lopsided.matrix 2) (fun i j => if i = j then 1 else 0) 2 := by
    constructor
    · intro i _
      simp
    · intro i i_lt j below
      interval_cases i <;> interval_cases j <;> simp [entry, lopsided]
  rcases right.mp answered with symmetric | indefinite
  · have mirrored : (5.0 : ℝ) = 0 := symmetric.apply (1 : Fin 2) (0 : Fin 2)
    norm_num at mirrored
  · exact indefinite factor.posDef

end CholeskyRequest

end PolyglotInfinity.Matrix
