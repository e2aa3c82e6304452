import PolyglotInfinity.HubGleam.Pipeline
import PolyglotInfinity.Lib.CosineSeries

/-!
# The cosine of the generator

The generator takes seven terms of the series at every angle of the circle. In exact
arithmetic that is no less than the cosine, and it leaves the range of the cosine on
the last part of the circle.
-/

namespace PolyglotInfinity.HubGleam

open CosineSeries (cosSum)

/-! ### Exact arithmetic -/

section

variable {F : Type} [Field F] [LinearOrder F] {sqrt : F → F}

theorem exactly_div (x y : F) : (Beam.exactly sqrt).div x y = .ok (x / y) := by
  unfold Beam.div
  split
  · rename_i zero
    rw [zero, div_zero]
  · rfl

theorem exactly_pow (x : F) (k : ℕ) : floatPowInt (.exactly sqrt) x k = .ok (x ^ k) := by
  induction k with
  | zero => rw [pow_zero, floatPowInt]
  | succ k ih =>
    rw [floatPowInt, ih, pow_succ']
    rfl

theorem factorial_eq (n : ℕ) : factorial n = n.factorial := by
  induction n using factorial.induct with
  | case1 => rfl
  | case2 => rfl
  | case3 n positive ih => rw [factorial, ih, Nat.factorial_succ]; exact positive

theorem exactly_quotient (acc : F) {numerator : Run F} {a : F} (n : ℕ) (known : numerator = .ok a) :
    (do (Beam.exactly sqrt).add acc (← (Beam.exactly sqrt).div (← numerator) (← (Beam.exactly sqrt).ofInt n))) =
      Except.ok (acc + a / n) := by
  rw [known]
  show (do (Beam.exactly sqrt).add acc (← (Beam.exactly sqrt).div a ((n : ℤ) : F))) = _
  rw [exactly_div, Int.cast_natCast]
  rfl

theorem exactly_term (acc sign x : F) (n : ℕ) :
    (do (Beam.exactly sqrt).add acc (← (Beam.exactly sqrt).div (← (Beam.exactly sqrt).mul sign
      (← floatPowInt (.exactly sqrt) x n)) (← (Beam.exactly sqrt).ofInt (factorial n)))) =
      Except.ok (acc + sign * x ^ n / n.factorial) := by
  have numerator : (do (Beam.exactly sqrt).mul sign (← floatPowInt (.exactly sqrt) x n)) =
      Except.ok (sign * x ^ n) := by
    rw [exactly_pow]
    rfl
  rw [factorial_eq, ← exactly_quotient acc _ numerator, bind_assoc]

theorem exactly_cos (x : F) : floatCos (.exactly sqrt) x = .ok (cosSum 7 x) := by
  unfold floatCos
  simp only [exactly_term]
  refine List.foldlM_pure.trans (congrArg Except.ok ?_)
  simp [List.zipIdx, cosSum, Finset.sum_range_succ]
  norm_num

end

theorem boxMullerLoop_pair {F : Type} [Field F] [LinearOrder F] (fl : Beam F) (u1 u2 : F) (rest acc : List F) :
    boxMullerLoop fl (u1 :: u2 :: rest) acc = (do
      let r ← radius fl u1
      let z ← fl.mul r (← deviateCos fl u2)
      boxMullerLoop fl rest (z :: acc)) := by
  rw [boxMullerLoop]
  simp only [radius, deviateCos, bind_assoc, pure_bind]

/-! ### Where the sum leaves the range -/

/-- What seven terms exceed one by, for each square of the angle. -/
noncomputable def excess (y : ℝ) : ℝ :=
  -0.5 + y / 24.0 - y ^ 2 / 720.0 + y ^ 3 / 40320.0 - y ^ 4 / 3628800.0 + y ^ 5 / 479001600.0

theorem excess_eq (y : ℝ) :
    excess y = -1 / 2 + y / 24 - y ^ 2 / 720 + y ^ 3 / 40320 - y ^ 4 / 3628800 + y ^ 5 / 479001600 := by
  norm_num [excess]

theorem cosSum_excess (x : ℝ) : cosSum 7 x = 1 + x ^ 2 * excess (x ^ 2) := by
  simp [cosSum, excess_eq, Finset.sum_range_succ, Nat.factorial]
  ring

theorem excess_strictMono : StrictMono excess := by
  apply strictMono_of_deriv_pos
  intro y
  have derivative : HasDerivAt excess
      (1 / 24 - y / 360 + y ^ 2 / 13440 - y ^ 3 / 907200 + y ^ 4 / 95800320) y := by
    have power (c : ℝ) (k : ℕ) := (hasDerivAt_pow k y).div_const c
    have sum := (((((hasDerivAt_const y (-0.5 : ℝ)).add ((hasDerivAt_id y).div_const 24.0)).sub (power 720.0 2)).add
      (power 40320.0 3)).sub (power 3628800.0 4)).add (power 479001600.0 5)
    refine sum.congr_deriv ?_
    norm_num
    ring
  rw [derivative.deriv]
  nlinarith [sq_nonneg (y ^ 2 - 52.8 * y + 1000), sq_nonneg (y - 34.3)]

theorem excess_root : ∃ y, 0 < y ∧ excess y = 0 := by
  have continuous : Continuous excess := by
    unfold excess
    fun_prop
  have start : excess 0 ≤ 0 := by norm_num [excess]
  have circle : 0 ≤ excess 40 := by norm_num [excess]
  obtain ⟨y, inside, root⟩ := intermediate_value_Icc (by norm_num) continuous.continuousOn ⟨start, circle⟩
  refine ⟨y, lt_of_le_of_ne inside.1 ?_, root⟩
  rintro rfl
  norm_num [excess] at root

/-- The one place where seven terms are one again. -/
noncomputable def crossing : ℝ := Classical.choose excess_root

theorem crossing_pos : 0 < crossing := (Classical.choose_spec excess_root).1

theorem crossing_root : excess crossing = 0 := (Classical.choose_spec excess_root).2

theorem excess_nonpos {y : ℝ} : excess y ≤ 0 ↔ y ≤ crossing := by rw [← crossing_root, excess_strictMono.le_iff_le]

/-! ### The range of the cosine -/

def InRange {F : Type} [Field F] [LinearOrder F] (result : Run F) : Prop := ∃ c, result = .ok c ∧ -1 ≤ c ∧ c ≤ 1

theorem inRange_ok {F : Type} [Field F] [LinearOrder F] {c : F} : InRange (.ok c) ↔ -1 ≤ c ∧ c ≤ 1 := by
  constructor
  · rintro ⟨_, same, bounds⟩
    obtain rfl := Except.ok.inj same
    exact bounds
  · exact fun bounds => ⟨c, rfl, bounds⟩

theorem deviateCos_exactly {F : Type} [Field F] [LinearOrder F] (sqrt : F → F) (u2 : F) :
    deviateCos (.exactly sqrt) u2 = .ok (cosSum 7 (2 * 3.141592653589793 * u2)) := exactly_cos _

/-- Below, the sum is no less than the cosine itself. -/
theorem cosSum_range {x : ℝ} (nonneg : 0 ≤ x) : -1 ≤ cosSum 7 x ∧ cosSum 7 x ≤ 1 ↔ excess (x ^ 2) ≤ 0 := by
  have below : -1 ≤ cosSum 7 x := (Real.neg_one_le_cos x).trans (CosineSeries.cos_le_cosSum 3 nonneg)
  rw [and_iff_right below, cosSum_excess]
  constructor
  · intro above
    by_contra positive
    rw [not_le] at positive
    rcases nonneg.eq_or_lt with rfl | more
    · norm_num [excess] at positive
    · have product : 0 < x ^ 2 * excess (x ^ 2) := by positivity
      linarith
  · intro negative
    have product := mul_nonpos_of_nonneg_of_nonpos (sq_nonneg x) negative
    linarith

/-- Up to which number of the generator the sum stays in the range. -/
noncomputable def threshold : ℝ := √crossing / (2.0 * 3.141592653589793)

theorem threshold_eq : threshold = √crossing / (2 * 3.141592653589793) := by norm_num [threshold]

theorem angle_pos : (0 : ℝ) < 2 * 3.141592653589793 := by norm_num

theorem threshold_bounds : 0.882147 < threshold ∧ threshold < 0.882148 := by
  rw [threshold_eq]
  constructor
  · rw [lt_div_iff₀' angle_pos, Real.lt_sqrt (by norm_num), ← not_le, ← excess_strictMono.le_iff_le, crossing_root]
    norm_num [excess]
  · rw [div_lt_iff₀' angle_pos, Real.sqrt_lt' (by norm_num), ← not_le, ← excess_nonpos]
    norm_num [excess]

theorem cosSum_range_iff {u2 : ℝ} (nonneg : 0 ≤ u2) : -1 ≤ cosSum 7 (2 * 3.141592653589793 * u2) ∧
    cosSum 7 (2 * 3.141592653589793 * u2) ≤ 1 ↔ u2 ≤ threshold := by
  have angle : 0 ≤ 2 * 3.141592653589793 * u2 := by positivity
  rw [cosSum_range angle, excess_nonpos, threshold_eq, le_div_iff₀' angle_pos, Real.le_sqrt angle crossing_pos.le]

/-- What the generator takes for the cosine stays in its range up to an angle of about
seven eighths of the circle, and leaves it at every angle beyond. Where the number is
rational, so is the arithmetic. -/
theorem deviateCos_range_iff {u2 : ℝ} (nonneg : 0 ≤ u2) :
    (∀ sqrt : ℝ → ℝ, InRange (deviateCos (.exactly sqrt) u2) ↔ u2 ≤ threshold) ∧
      ∀ q : ℚ, q = u2 → ∀ sqrt : ℚ → ℚ, InRange (deviateCos (.exactly sqrt) q) ↔ u2 ≤ threshold := by
  refine ⟨fun sqrt => ?_, fun q rational sqrt => ?_⟩
  · rw [deviateCos_exactly, inRange_ok, cosSum_range_iff nonneg]
  · have cast : ((cosSum 7 (2 * 3.141592653589793 * q) : ℚ) : ℝ) = cosSum 7 (2 * 3.141592653589793 * u2) := by
      rw [CosineSeries.cosSum_cast, ← rational]
      push_cast
      norm_num
    rw [deviateCos_exactly, inRange_ok, ← cosSum_range_iff nonneg, ← cast]
    norm_cast

theorem deviateCos_range_iff_half :
    (∀ sqrt : ℝ → ℝ, InRange (deviateCos (.exactly sqrt) 0.5) ↔ (0.5 : ℝ) ≤ threshold) ∧
      ∀ q : ℚ, (q : ℝ) = 0.5 → ∀ sqrt : ℚ → ℚ, InRange (deviateCos (.exactly sqrt) q) ↔ (0.5 : ℝ) ≤ threshold :=
  deviateCos_range_iff (by norm_num)

theorem deviateCos_out_of_range : ¬ InRange (deviateCos plain (127 / 128)) := by
  have same : deviateCos plain (127 / 128) = .ok (cosSum 7 (2 * 3.141592653589793 * (127 / 128))) :=
    deviateCos_exactly plain.sqrt _
  rw [same, inRange_ok]
  decide +kernel

/-! ### The deviates -/

section

variable {F : Type} [Field F] [LinearOrder F] {sqrt : F → F}

/-- The numbers of a list in pairs; one that is left over is not used. -/
def pairs : List F → List (F × F)
  | u1 :: u2 :: rest => (u1, u2) :: pairs rest
  | _ => []

theorem exactly_log (x : F) : ∃ l, floatLog (.exactly sqrt) x = .ok l := by
  have round (z acc : F) (n : ℕ) :
      (do (Beam.exactly sqrt).add acc (← (Beam.exactly sqrt).div (← floatPowInt (.exactly sqrt) z n)
        (← (Beam.exactly sqrt).ofInt n))) = Except.ok (acc + z ^ n / (n : F)) :=
    exactly_quotient acc n (exactly_pow z n)
  unfold floatLog
  split
  · simp only [round]
    show ∃ l, (do
      let z ← (Beam.exactly sqrt).div (x - 1) (x + 1)
      let sum ← [1, 3, 5, 7, 9, 11, 13, 15, 17, 19].foldlM (fun acc (n : ℕ) => Except.ok (acc + z ^ n / (n : F))) 0
      (Beam.exactly sqrt).mul 2 sum) = .ok l
    rw [exactly_div]
    exact ⟨_, rfl⟩
  · exact ⟨-999, rfl⟩

theorem exactly_radius (u1 : F) : ∃ r, radius (.exactly sqrt) u1 = .ok r := by
  obtain ⟨l, log⟩ := @exactly_log _ _ _ sqrt
    (if u1 < (Beam.exactly sqrt).literal (1 / 10 ^ 10) then (Beam.exactly sqrt).literal (1 / 10 ^ 10) else u1)
  unfold radius
  dsimp only
  rw [log]
  exact ⟨_, rfl⟩

/-- One deviate for each pair, none of them beyond its radius. -/
theorem boxMullerLoop_within [IsStrictOrderedRing F] {us acc : List F}
    (inside : ∀ pair ∈ pairs us, InRange (deviateCos (.exactly sqrt) pair.2)) :
    ∃ zs, boxMullerLoop (.exactly sqrt) us acc = .ok (acc.reverse ++ zs) ∧
      List.Forall₂ (fun pair z => ∃ r, radius (.exactly sqrt) pair.1 = .ok r ∧ |z| ≤ |r|) (pairs us) zs := by
  induction us using pairs.induct generalizing acc with
  | case1 u1 u2 rest ih =>
    obtain ⟨r, drawn⟩ := @exactly_radius _ _ _ sqrt u1
    obtain ⟨c, cosine, low, high⟩ := inside (u1, u2) List.mem_cons_self
    obtain ⟨zs, others, within⟩ := @ih (r * c :: acc) fun pair later => inside pair (List.mem_cons_of_mem _ later)
    refine ⟨r * c :: zs, ?_, .cons ⟨r, drawn, ?_⟩ within⟩
    · rw [boxMullerLoop_pair, drawn]
      show (do
        let z ← (Beam.exactly sqrt).mul r (← deviateCos (.exactly sqrt) u2)
        boxMullerLoop (.exactly sqrt) rest (z :: acc)) = _
      rw [cosine]
      show boxMullerLoop (.exactly sqrt) rest (r * c :: acc) = _
      rw [others, List.reverse_cons, List.append_assoc]
      rfl
    · rw [abs_mul]
      exact mul_le_of_le_one_right (abs_nonneg r) (abs_le.mpr ⟨low, high⟩)
  | case2 us short =>
    refine ⟨[], ?_, ?_⟩
    · rw [boxMullerLoop.eq_def, List.append_nil]
      split
      · exact absurd rfl (short _ _ _)
      · rfl
    · rw [pairs]
      · exact .nil
      · exact short

end

end PolyglotInfinity.HubGleam
