import Mathlib.Data.Rat.Defs
import PolyglotInfinity.Matrix.Covariance
import PolyglotInfinity.Matrix.Product

/-!
# The matrix handlers

The Rust side of the matrix calls: the handlers check lengths in `usize`, the
wrappers of `ffi.rs` check them again and size the output in `i32`, which wraps
in a release build. A panic is an `.error` with its message.
-/

namespace PolyglotInfinity.Matrix

open CProgram

variable {α : Type}

def asUsize (x : Int32) : ℕ := (x.toInt % 2 ^ 64).toNat

def saturatingMul (x y : ℕ) : ℕ := min (x * y) (2 ^ 64 - 1)

def zeros [Zero α] (len : ℕ) : Except String (Array α) :=
  if len * 8 ≤ 2 ^ 63 - 1 then .ok (Array.replicate len 0) else .error "capacity overflow"

def ensure (holds : Bool) (message : String) : Except String Unit :=
  if holds then .ok () else .error message

inductive Reply (α : Type) where
  | error (message : String)
  | multiply (result : Array α) (rows cols : Int32)
  | covariance (covariance : Array α) (assets : Int32)

structure MultiplyRequest (α : Type) where
  a : Array α
  m : Int32
  k : Int32
  b : Array α
  n : Int32

/-- The dimension check of `matrix_multiply_handler`. -/
def MultiplyRequest.accepted (req : MultiplyRequest α) : Bool :=
  !(req.m ≤ 0 || req.k ≤ 0 || req.n ≤ 0 ||
    req.a.size != saturatingMul (asUsize req.m) (asUsize req.k) ||
    req.b.size != saturatingMul (asUsize req.k) (asUsize req.n))

/-- `multiply_zero_copy` up to the call: the checks, and the output buffer. -/
def multiplyOut [Zero α] (a : Array α) (m k : Int32) (b : Array α) (n : Int32) : Except String (Array α) := do
  ensure (0 < m && 0 < k && 0 < n) "matrix dimensions must be positive"
  ensure (a.size == asUsize (m * k)) "a length mismatch"
  ensure (b.size == asUsize (k * n)) "b length mismatch"
  zeros (asUsize (m * n))

def multiplyZeroCopy [Zero α] [Add α] [Mul α] (a : Array α) (m k : Int32) (b : Array α) (n : Int32) :
    Except String (Run (Array α)) := do
  let out ← multiplyOut a m k b n
  pure (matMultiply a m.toInt k.toInt b n.toInt out)

def matrixMultiplyHandler [Zero α] [Add α] [Mul α] (req : MultiplyRequest α) : Except String (Run (Reply α)) :=
  if req.accepted then do
    let run ← multiplyZeroCopy req.a req.m req.k req.b req.n
    pure (run.map fun out => .multiply out req.m req.n)
  else pure (pure (.error "invalid dimensions or mismatched input lengths"))

structure CovarianceRequest (α : Type) where
  returns : Array α
  assets : Int32
  periods : Int32

def CovarianceRequest.accepted (req : CovarianceRequest α) : Bool :=
  !(req.assets ≤ 0 || req.periods < 2 ||
    req.returns.size != saturatingMul (asUsize req.assets) (asUsize req.periods))

/-- `covariance` up to the call. -/
def covarianceOut [Zero α] (returns : Array α) (assets periods : Int32) : Except String (Array α) := do
  ensure (0 < assets && 2 ≤ periods) "assets > 0 and periods >= 2 required"
  ensure (returns.size == asUsize (assets * periods)) "returns length mismatch"
  zeros (asUsize (assets * assets))

section
variable [Zero α] [One α] [Add α] [Sub α] [Mul α] [Div α] [IntCast α]

def covariance (granted : Bool) (returns : Array α) (assets periods : Int32) : Except String (Run (Array α)) := do
  let out ← covarianceOut returns assets periods
  pure (covarianceMatrix granted returns assets.toInt periods.toInt out)

def matrixCovarianceHandler (granted : Bool) (req : CovarianceRequest α) : Except String (Run (Reply α)) :=
  if req.accepted then do
    let run ← covariance granted req.returns req.assets req.periods
    pure (run.map fun out => .covariance out req.assets)
  else pure (pure (.error "assets > 0, periods >= 2, and returns length must equal assets*periods"))

end

/-! ### Wrapping products -/

theorem toInt_range (x : Int32) : -2 ^ 31 ≤ x.toInt ∧ x.toInt < 2 ^ 31 := ⟨Int32.le_toInt x, Int32.toInt_lt x⟩

theorem asUsize_of_nonneg {x : Int32} (nonneg : 0 ≤ x.toInt) : (asUsize x : ℤ) = x.toInt := by
  have := toInt_range x
  unfold asUsize
  omega

/-- A negative `i32` becomes a length that no allocation can have. -/
theorem asUsize_of_neg {x : Int32} (neg : x.toInt < 0) : 2 ^ 63 ≤ asUsize x := by
  have := toInt_range x
  unfold asUsize
  omega

theorem zeros_eq [Zero α] {x : Int32} {out : Array α} :
    zeros (asUsize x) = .ok out ↔ 0 ≤ x.toInt ∧ out = Array.replicate x.toInt.toNat 0 := by
  have range := toInt_range x
  unfold zeros
  by_cases nonneg : 0 ≤ x.toInt
  · have len : asUsize x = x.toInt.toNat := by
      have := asUsize_of_nonneg nonneg
      omega
    rw [if_pos (by omega), len]
    simp [nonneg, @eq_comm _ _ out]
  · have len := asUsize_of_neg (not_le.mp nonneg)
    rw [if_neg (by omega)]
    simp [nonneg]

theorem product_lt (x y : Int32) (x_pos : 0 < x.toInt) : x.toInt * y.toInt < 2 ^ 62 := by
  have x_lt := (toInt_range x).2
  have y_lt := (toInt_range y).2
  nlinarith

/-- A product of two positive sides keeps its value as a length exactly if it
does not wrap. -/
theorem product_agrees {x y : Int32} (x_pos : 0 < x.toInt) (y_pos : 0 < y.toInt) :
    (asUsize (x * y) : ℤ) = x.toInt * y.toInt ↔ x.toInt * y.toInt < 2 ^ 31 := by
  have range := toInt_range (x * y)
  have positive : 0 < x.toInt * y.toInt := mul_pos x_pos y_pos
  have bound := product_lt x y x_pos
  have wrapped : (x * y).toInt = (x.toInt * y.toInt).bmod (2 ^ 32) := Int32.toInt_mul x y
  constructor
  · intro same
    by_cases nonneg : 0 ≤ (x * y).toInt
    · have := asUsize_of_nonneg nonneg
      omega
    · have := asUsize_of_neg (not_le.mp nonneg)
      omega
  · intro small
    have kept : (x * y).toInt = x.toInt * y.toInt := by
      rw [wrapped]
      exact Int.bmod_eq_of_le (by omega) (by omega)
    rw [asUsize_of_nonneg (by omega), kept]

theorem saturating_exact {x y : Int32} (x_pos : 0 < x.toInt) (y_pos : 0 < y.toInt) :
    (saturatingMul (asUsize x) (asUsize y) : ℤ) = x.toInt * y.toInt := by
  have bound := product_lt x y x_pos
  have product : ((asUsize x * asUsize y : ℕ) : ℤ) = x.toInt * y.toInt := by
    rw [Nat.cast_mul, asUsize_of_nonneg x_pos.le, asUsize_of_nonneg y_pos.le]
  unfold saturatingMul
  omega

theorem length_agrees {size : ℕ} {x y : Int32} (x_pos : 0 < x.toInt) (y_pos : 0 < y.toInt)
    (exact : (size : ℤ) = x.toInt * y.toInt) : size = asUsize (x * y) ↔ x.toInt * y.toInt < 2 ^ 31 := by
  rw [← product_agrees x_pos y_pos]
  omega

theorem ensure_bind {β : Type} {holds : Bool} {message : String} {f : Unit → Except String β} {r : β} :
    (ensure holds message >>= f) = .ok r ↔ holds = true ∧ f () = .ok r := by
  cases holds <;> simp [ensure, bind, Except.bind]

/-! ### The multiply handler -/

namespace MultiplyRequest

/-- The wrapper panics before the call: a product of its checks wraps, or that of
the output wraps to a negative length. -/
def Panics (req : MultiplyRequest α) : Prop :=
  2 ^ 31 ≤ req.m.toInt * req.k.toInt ∨ 2 ^ 31 ≤ req.k.toInt * req.n.toInt ∨ (req.m * req.n).toInt < 0

/-- The output has an `int` index for each cell, and no side ends within a tile of `INT_MAX`. -/
def Fits (req : MultiplyRequest α) : Prop :=
  req.m.toInt * req.n.toInt < 2 ^ 31 ∧ req.m.toInt ≤ 2 ^ 31 - tileSize ∧
    req.k.toInt ≤ 2 ^ 31 - tileSize ∧ req.n.toInt ≤ 2 ^ 31 - tileSize

instance (req : MultiplyRequest α) : Decidable req.Panics := inferInstanceAs (Decidable (_ ∨ _))

instance (req : MultiplyRequest α) : Decidable req.Fits := inferInstanceAs (Decidable (_ ∧ _))

/-- The buffer that the call gets has `m * n` elements, and the call stays inside its buffers. -/
def InBounds [Zero α] [Add α] [Mul α] (req : MultiplyRequest α) : Prop :=
  ∀ out, multiplyOut req.a req.m req.k req.b req.n = .ok out →
    (out.size : ℤ) = req.m.toInt * req.n.toInt ∧
      ∃ r, matMultiply req.a req.m.toInt req.k.toInt req.b req.n.toInt out = .ok r

structure Shaped (req : MultiplyRequest α) : Prop where
  m_pos : 0 < req.m.toInt
  k_pos : 0 < req.k.toInt
  n_pos : 0 < req.n.toInt
  aSize : (req.a.size : ℤ) = req.m.toInt * req.k.toInt
  bSize : (req.b.size : ℤ) = req.k.toInt * req.n.toInt

theorem shaped {req : MultiplyRequest α} (accepted : req.accepted = true) : Shaped req := by
  simp only [MultiplyRequest.accepted, Bool.not_eq_true', Bool.or_eq_false_iff, decide_eq_false_iff_not,
    Int32.le_iff_toInt_le, Int32.toInt_zero, not_le, bne_eq_false_iff_eq] at accepted
  obtain ⟨⟨⟨⟨m_pos, k_pos⟩, n_pos⟩, aSize⟩, bSize⟩ := accepted
  refine ⟨m_pos, k_pos, n_pos, ?_, ?_⟩
  · rw [aSize, saturating_exact m_pos k_pos]
  · rw [bSize, saturating_exact k_pos n_pos]

variable {req : MultiplyRequest α} {out : Array α}

theorem multiplyOut_eq [Zero α] (shaped : Shaped req) :
    multiplyOut req.a req.m req.k req.b req.n = .ok out ↔
      ¬ req.Panics ∧ out = Array.replicate (req.m * req.n).toInt.toNat 0 := by
  obtain ⟨m_pos, k_pos, n_pos, aSize, bSize⟩ := shaped
  have positive : (decide (0 < req.m) && decide (0 < req.k) && decide (0 < req.n)) = true := by
    simp [Int32.lt_iff_toInt_lt, m_pos, k_pos, n_pos]
  simp only [multiplyOut, ensure_bind, positive, true_and, beq_iff_eq, length_agrees m_pos k_pos aSize,
    length_agrees k_pos n_pos bSize, zeros_eq, Panics, not_or, not_le, not_lt, and_assoc]

theorem inBounds_iff [Zero α] [Add α] [Mul α] (shaped : Shaped req) : req.InBounds ↔ req.Panics ∨ req.Fits := by
  by_cases panics : req.Panics
  · refine iff_of_true (fun out called => ?_) (.inl panics)
    exact absurd panics ((multiplyOut_eq shaped).mp called).1
  have called := (multiplyOut_eq shaped).mpr ⟨panics, rfl⟩
  obtain ⟨m_pos, k_pos, n_pos, aSize, bSize⟩ := shaped
  have agrees := product_agrees m_pos n_pos
  simp only [Panics, not_or, not_le, not_lt] at panics
  obtain ⟨aSmall, bSmall, nonneg⟩ := panics
  have len := asUsize_of_nonneg nonneg
  simp only [Panics, aSmall.not_ge, bSmall.not_ge, nonneg.not_gt, false_or]
  constructor
  · intro inBounds
    obtain ⟨size, r, ran⟩ := inBounds _ called
    rw [Array.size_replicate] at size
    exact ⟨agrees.mp (by omega), matMultiply_sides m_pos k_pos n_pos ran⟩
  · rintro ⟨outSmall, m_le, k_le, n_le⟩ out again
    obtain rfl := Except.ok.inj (called.symm.trans again)
    have size : ((Array.replicate (req.m * req.n).toInt.toNat (0 : α)).size : ℤ) = req.m.toInt * req.n.toInt := by
      have := agrees.mpr outSmall
      rw [Array.size_replicate]
      omega
    obtain ⟨r, ran, -⟩ := matMultiply_runs ⟨m_pos, k_pos, n_pos, aSize, bSize, aSmall, bSmall, outSmall⟩ size
      m_le k_le n_le
    exact ⟨size, r, ran⟩

end MultiplyRequest

/-! ### The covariance handler -/

namespace CovarianceRequest

def Panics (req : CovarianceRequest α) : Prop :=
  2 ^ 31 ≤ req.assets.toInt * req.periods.toInt ∨ (req.assets * req.assets).toInt < 0

def Fits (req : CovarianceRequest α) : Prop := req.assets.toInt * req.assets.toInt < 2 ^ 31

instance (req : CovarianceRequest α) : Decidable req.Panics := inferInstanceAs (Decidable (_ ∨ _))

instance (req : CovarianceRequest α) : Decidable req.Fits := inferInstanceAs (Decidable (_ < _))

/-- The same for a covariance request, whether or not `malloc` succeeds. -/
def InBounds [Zero α] [One α] [Add α] [Sub α] [Mul α] [Div α] [IntCast α] (req : CovarianceRequest α) : Prop :=
  ∀ out, covarianceOut req.returns req.assets req.periods = .ok out →
    (out.size : ℤ) = req.assets.toInt * req.assets.toInt ∧
      ∀ granted, ∃ r, covarianceMatrix granted req.returns req.assets.toInt req.periods.toInt out = .ok r

structure Shaped (req : CovarianceRequest α) : Prop where
  assets_pos : 0 < req.assets.toInt
  periods_ge : 2 ≤ req.periods.toInt
  size : (req.returns.size : ℤ) = req.assets.toInt * req.periods.toInt

theorem shaped {req : CovarianceRequest α} (accepted : req.accepted = true) : Shaped req := by
  have two : (2 : Int32).toInt = 2 := by decide
  simp only [CovarianceRequest.accepted, Bool.not_eq_true', Bool.or_eq_false_iff, decide_eq_false_iff_not,
    Int32.le_iff_toInt_le, Int32.lt_iff_toInt_lt, Int32.toInt_zero, two, not_le, not_lt,
    bne_eq_false_iff_eq] at accepted
  obtain ⟨⟨assets_pos, periods_ge⟩, size⟩ := accepted
  exact ⟨assets_pos, periods_ge, by rw [size, saturating_exact assets_pos (by omega)]⟩

variable {req : CovarianceRequest α} {out : Array α}

theorem covarianceOut_eq [Zero α] (shaped : Shaped req) :
    covarianceOut req.returns req.assets req.periods = .ok out ↔
      ¬ req.Panics ∧ out = Array.replicate (req.assets * req.assets).toInt.toNat 0 := by
  obtain ⟨assets_pos, periods_ge, size⟩ := shaped
  have two : (2 : Int32).toInt = 2 := by decide
  have dimensions : (decide (0 < req.assets) && decide (2 ≤ req.periods)) = true := by
    simp [Int32.lt_iff_toInt_lt, Int32.le_iff_toInt_le, two, assets_pos, periods_ge]
  simp only [covarianceOut, ensure_bind, dimensions, true_and, beq_iff_eq,
    length_agrees assets_pos (by omega : 0 < req.periods.toInt) size, zeros_eq, Panics, not_or, not_le, not_lt,
    and_assoc]

theorem inBounds_iff [Zero α] [One α] [Add α] [Sub α] [Mul α] [Div α] [IntCast α] (shaped : Shaped req) :
    req.InBounds ↔ req.Panics ∨ req.Fits := by
  by_cases panics : req.Panics
  · refine iff_of_true (fun out called => ?_) (.inl panics)
    exact absurd panics ((covarianceOut_eq shaped).mp called).1
  have called := (covarianceOut_eq shaped).mpr ⟨panics, rfl⟩
  obtain ⟨assets_pos, periods_ge, size⟩ := shaped
  have agrees := product_agrees assets_pos assets_pos
  simp only [Panics, not_or, not_le, not_lt] at panics
  obtain ⟨small, nonneg⟩ := panics
  have len := asUsize_of_nonneg nonneg
  simp only [Panics, small.not_ge, nonneg.not_gt, false_or, Fits]
  constructor
  · intro inBounds
    obtain ⟨outSize, -⟩ := inBounds _ called
    rw [Array.size_replicate] at outSize
    exact agrees.mp (by omega)
  · intro outSmall out again
    obtain rfl := Except.ok.inj (called.symm.trans again)
    have outSize : ((Array.replicate (req.assets * req.assets).toInt.toNat (0 : α)).size : ℤ) =
        req.assets.toInt * req.assets.toInt := by
      have := agrees.mpr outSmall
      rw [Array.size_replicate]
      omega
    refine ⟨outSize, fun granted => ?_⟩
    obtain ⟨r, ran, -⟩ := covarianceMatrix_runs ⟨assets_pos, periods_ge, size, small, outSmall⟩ granted outSize
    exact ⟨r, ran⟩

end CovarianceRequest

/-! ### Both handlers -/

section
variable [Zero α] [One α] [Add α] [Sub α] [Mul α] [Div α] [IntCast α]

/-- Exactly which accepted requests keep the C++ code inside its buffers. -/
theorem matrix_calls_in_bounds :
    (∀ req : MultiplyRequest α, req.accepted = true → (req.InBounds ↔ req.Panics ∨ req.Fits)) ∧
    ∀ req : CovarianceRequest α, req.accepted = true → (req.InBounds ↔ req.Panics ∨ req.Fits) :=
  ⟨fun _ accepted => MultiplyRequest.inBounds_iff (MultiplyRequest.shaped accepted),
    fun _ accepted => CovarianceRequest.inBounds_iff (CovarianceRequest.shaped accepted)⟩

omit [One α] [Sub α] [Div α] [IntCast α] in
/-- A multiply request in bounds is answered, unless the wrapper panics. -/
theorem multiply_replies {req : MultiplyRequest α} {run : Run (Reply α)} (inBounds : req.InBounds)
    (called : matrixMultiplyHandler req = .ok run) : ∃ reply, run = .ok reply := by
  by_cases accepted : req.accepted = true
  · cases sized : multiplyOut req.a req.m req.k req.b req.n with
    | error message => simp [matrixMultiplyHandler, accepted, multiplyZeroCopy, sized, bind, Except.bind] at called
    | ok out =>
      obtain ⟨-, r, ran⟩ := inBounds out sized
      refine ⟨.multiply r req.m req.n, ?_⟩
      simpa [matrixMultiplyHandler, accepted, multiplyZeroCopy, sized, ran, bind, Except.bind, pure, Except.pure,
        Except.map, @eq_comm _ _ run] using called
  · refine ⟨.error "invalid dimensions or mismatched input lengths", ?_⟩
    simpa [matrixMultiplyHandler, accepted, pure, Except.pure, @eq_comm _ _ run] using called

theorem covariance_replies {granted : Bool} {req : CovarianceRequest α} {run : Run (Reply α)}
    (inBounds : req.InBounds) (called : matrixCovarianceHandler granted req = .ok run) :
    ∃ reply, run = .ok reply := by
  by_cases accepted : req.accepted = true
  · cases sized : covarianceOut req.returns req.assets req.periods with
    | error message => simp [matrixCovarianceHandler, accepted, covariance, sized, bind, Except.bind] at called
    | ok out =>
      obtain ⟨-, ran⟩ := inBounds out sized
      obtain ⟨r, ran⟩ := ran granted
      refine ⟨.covariance r req.assets, ?_⟩
      simpa [matrixCovarianceHandler, accepted, covariance, sized, ran, bind, Except.bind, pure, Except.pure,
        Except.map, @eq_comm _ _ run] using called
  · refine ⟨.error "assets > 0, periods >= 2, and returns length must equal assets*periods", ?_⟩
    simpa [matrixCovarianceHandler, accepted, pure, Except.pure, @eq_comm _ _ run] using called

end

theorem matrix_calls_in_bounds_small :
    (⟨#[1, 2, 3, 4], 2, 2, #[1, 0, 0, 1], 2⟩ : MultiplyRequest ℚ).InBounds ∧
      (⟨#[1, 2, 3, 4, 5, 6], 2, 3⟩ : CovarianceRequest ℚ).InBounds :=
  ⟨(matrix_calls_in_bounds.1 ⟨#[1, 2, 3, 4], 2, 2, #[1, 0, 0, 1], 2⟩ (by decide)).mpr (.inr (by decide)),
    (matrix_calls_in_bounds.2 ⟨#[1, 2, 3, 4, 5, 6], 2, 3⟩ (by decide)).mpr (.inr (by decide))⟩

/-- A column by a row of 65536 numbers each: the product of the sides wraps to
zero, and the output buffer is empty. -/
def wide : MultiplyRequest ℚ := ⟨Array.replicate 65536 0, 65536, 1, Array.replicate 65536 0, 65536⟩

def many : CovarianceRequest ℚ := ⟨Array.replicate 131072 0, 65536, 2⟩

theorem matrix_calls_out_of_bounds :
    (wide.accepted = true ∧ ¬ wide.InBounds) ∧ (many.accepted = true ∧ ¬ many.InBounds) := by
  have wideAccepted : wide.accepted = true := by
    simp only [MultiplyRequest.accepted, wide, Array.size_replicate]
    decide
  have manyAccepted : many.accepted = true := by
    simp only [CovarianceRequest.accepted, many, Array.size_replicate]
    decide
  refine ⟨⟨wideAccepted, fun inBounds => ?_⟩, manyAccepted, fun inBounds => ?_⟩
  · have called := (MultiplyRequest.multiplyOut_eq (MultiplyRequest.shaped wideAccepted)).mpr
      ⟨by decide, rfl⟩
    obtain ⟨size, -⟩ := inBounds _ called
    rw [Array.size_replicate] at size
    revert size
    decide
  · have called := (CovarianceRequest.covarianceOut_eq (CovarianceRequest.shaped manyAccepted)).mpr
      ⟨by decide, rfl⟩
    obtain ⟨size, -⟩ := inBounds _ called
    rw [Array.size_replicate] at size
    revert size
    decide

end PolyglotInfinity.Matrix
