import PolyglotInfinity.PricerFsharp.Program
import PolyglotInfinity.PricerHaskell.Server
import PolyglotInfinity.WasmZig.Finance

/-!
# Black-Scholes in three engines

Three copies of one approximation of the normal distribution, which treat negative numbers
in three ways, and the option prices on top of them.
-/

namespace PolyglotInfinity.Engines

open PricerFsharp (mathRound mathRound_near mathRound_sub)
open PricerFsharp.BlackScholes (unrounded price)

/-- What the three engines say of one option. -/
structure Quote (F : Type) where
  call : F
  put : F
  delta : F
  gamma : F
  vega : F
  theta : F

variable {F : Type} [Field F] [LinearOrder F] (lib : Libm F)

/-- Before it is rounded. -/
def fsharpQuote (s k r sigma t : F) : Quote F :=
  let p := unrounded lib s k r sigma t
  { call := p.callPrice, put := p.putPrice, delta := p.deltaCall
    gamma := p.gamma, vega := p.vega, theta := p.thetaCall }

def haskellQuote [IsStrictOrderedRing F] (s k r sigma t : F) : Quote F :=
  let p := PricerHaskell.blackScholes lib s k r sigma t
  { call := p.callPrice, put := p.putPrice, delta := p.delta
    gamma := p.gamma, vega := p.vega, theta := p.thetaDaily }

def zigQuote (s k r sigma t : F) : Quote F where
  call := WasmZig.bsCall lib s k r sigma t
  put := WasmZig.bsPut lib s k r sigma t
  delta := WasmZig.bsDelta lib s k r sigma t
  gamma := WasmZig.bsGamma lib s k r sigma t
  vega := WasmZig.bsVega lib s k r sigma t
  theta := WasmZig.bsTheta lib s k r sigma t

/-! ### Zig -/

theorem zig_normCdf (x : F) : WasmZig.normCdf lib x = PricerFsharp.MathHelper.normCdf lib x := by
  have complement (y : F) : 1.0 - (1.0 - y) = y := sub_sub_cancel _ _
  unfold WasmZig.normCdf
  dsimp only
  rw [complement]
  rfl

theorem zigQuote_eq (s k r sigma : F) {t : F} (t_pos : 0 < t) :
    zigQuote lib s k r sigma t = fsharpQuote lib s k r sigma t := by
  have alive : ¬ t ≤ 0 := not_le.mpr t_pos
  simp only [zigQuote, WasmZig.bsCall, WasmZig.bsPut, WasmZig.bsDelta, WasmZig.bsGamma, WasmZig.bsVega,
    WasmZig.bsTheta, if_neg alive, zig_normCdf]
  rfl

/-! ### Haskell -/

/-- What the approximation has beyond `|x|`. -/
def upperTail (x : F) : F :=
  let t := 1.0 / (1.0 + 0.2316419 * |x|)
  lib.exp (-x * x / 2.0) / lib.sqrt (2.0 * 3.141592653589793) *
    (t * (0.319381530 + t * (-0.356563782 + t * (1.781477937 + t * (-1.821255978 + t * 1.330274429)))))

theorem upperTail_neg (x : F) : upperTail lib (-x) = upperTail lib x := by
  unfold upperTail
  rw [abs_neg, neg_neg, mul_neg, neg_mul]

variable [IsStrictOrderedRing F]

theorem one_eq : (1.0 : F) = 1 := by norm_num

theorem fsharp_normCdf (x : F) : PricerFsharp.MathHelper.normCdf lib x =
    if 0 ≤ x then 1 - upperTail lib x else upperTail lib x := by
  rw [← one_eq]
  rfl

theorem half_square (x : F) : 0.5 * x * x = x * x / 2.0 := by
  norm_num
  ring

theorem haskell_exponent (x : F) : -(0.5 * x * x) = -x * x / 2.0 := by
  rw [half_square, neg_mul, neg_div]

theorem haskell_normCdf (x : F) : PricerHaskell.normCdf lib x = PricerFsharp.MathHelper.normCdf lib x := by
  have nonneg {y : F} (y_nonneg : 0 ≤ y) : PricerHaskell.normCdf lib y = 1 - upperTail lib y := by
    rw [PricerHaskell.normCdf, if_neg (not_lt.mpr y_nonneg), haskell_exponent]
    unfold upperTail
    rw [abs_of_nonneg y_nonneg, ← one_eq]
    rfl
  rw [fsharp_normCdf]
  split
  · rename_i x_nonneg
    exact nonneg x_nonneg
  · rename_i negative
    rw [not_le] at negative
    -- the recursion is for `-x`, whose tail is that of `x`
    rw [PricerHaskell.normCdf, if_pos negative, nonneg (neg_nonneg.mpr negative.le), upperTail_neg, one_eq,
      sub_sub_cancel]

theorem haskell_normPdf (x : F) : PricerHaskell.normPdf lib x = PricerFsharp.MathHelper.normPdf lib x := by
  unfold PricerHaskell.normPdf
  rw [haskell_exponent]
  rfl

theorem haskellQuote_eq (s k r sigma t : F) : haskellQuote lib s k r sigma t = fsharpQuote lib s k r sigma t := by
  simp only [haskellQuote, fsharpQuote, PricerHaskell.blackScholes, unrounded, haskell_normCdf, haskell_normPdf,
    half_square, neg_mul, neg_div]

theorem black_scholes_agree [FloorRing F] (lib : Libm F) :
    (∀ x, PricerHaskell.normCdf lib x = PricerFsharp.MathHelper.normCdf lib x ∧
      WasmZig.normCdf lib x = PricerFsharp.MathHelper.normCdf lib x) ∧
    ∀ s k r sigma t : F, 0 < t →
      price lib s k r sigma t = (unrounded lib s k r sigma t).rounded ∧
      haskellQuote lib s k r sigma t = fsharpQuote lib s k r sigma t ∧
      zigQuote lib s k r sigma t = fsharpQuote lib s k r sigma t := by
  apply And.intro
  · intro x
    exact ⟨haskell_normCdf lib x, zig_normCdf lib x⟩
  · intro s k r sigma t t_pos
    have alive : ¬ t ≤ 0 := not_le.mpr t_pos
    exact ⟨if_neg alive, haskellQuote_eq lib s k r sigma t, zigQuote_eq lib s k r sigma t_pos⟩

/-- A tenth of a year, with the identity for each function of the library. -/
theorem black_scholes_agree_tenth :
    zigQuote Libm.rational 100 90 0.05 0.2 0.1 = fsharpQuote Libm.rational 100 90 0.05 0.2 0.1 :=
  ((black_scholes_agree Libm.rational).2 100 90 0.05 0.2 0.1 (by norm_num)).2.2

/-! ### The parity of calls and puts -/

/-- The share that the approximation gives to one side it takes from the other. At zero it
gives both sides the same, which is not a half. -/
theorem normCdf_neg {x : F} (x_ne : x ≠ 0) :
    PricerFsharp.MathHelper.normCdf lib (-x) = 1 - PricerFsharp.MathHelper.normCdf lib x := by
  rw [fsharp_normCdf, fsharp_normCdf, upperTail_neg]
  cases lt_or_gt_of_ne x_ne with
  | inl negative =>
      rw [if_pos (neg_nonneg.mpr negative.le), if_neg (not_le.mpr negative)]
  | inr positive =>
      have neg_negative : -x < 0 := neg_neg_of_pos positive
      rw [if_neg (not_le.mpr neg_negative), if_pos positive.le, sub_sub_cancel]

theorem fsharp_parity {s k r sigma t : F} (d1_ne : WasmZig.d1 lib s k r sigma t ≠ 0)
    (d2_ne : WasmZig.d2 lib s k r sigma t ≠ 0) :
    (fsharpQuote lib s k r sigma t).call - (fsharpQuote lib s k r sigma t).put = s - k * lib.exp (-r * t) := by
  have call : (fsharpQuote lib s k r sigma t).call =
      s * PricerFsharp.MathHelper.normCdf lib (WasmZig.d1 lib s k r sigma t) -
        k * lib.exp (-r * t) * PricerFsharp.MathHelper.normCdf lib (WasmZig.d2 lib s k r sigma t) := rfl
  have put : (fsharpQuote lib s k r sigma t).put =
      k * lib.exp (-r * t) * PricerFsharp.MathHelper.normCdf lib (-WasmZig.d2 lib s k r sigma t) -
        s * PricerFsharp.MathHelper.normCdf lib (-WasmZig.d1 lib s k r sigma t) := rfl
  rw [call, put, normCdf_neg lib d1_ne, normCdf_neg lib d2_ne]
  ring

theorem rounded_difference_near [FloorRing F] (x y : F) :
    |mathRound x 6 - mathRound y 6 - (x - y)| ≤ 0.000001 := by
  have split : mathRound x 6 - mathRound y 6 - (x - y) = (mathRound x 6 - x) - (mathRound y 6 - y) := by ring
  rw [split]
  calc |mathRound x 6 - x - (mathRound y 6 - y)|
      ≤ |mathRound x 6 - x| + |mathRound y 6 - y| := abs_sub _ _
    _ ≤ 0.5 / 10.0 ^ 6 + 0.5 / 10.0 ^ 6 := add_le_add (mathRound_near x 6) (mathRound_near y 6)
    _ = 0.000001 := by norm_num

theorem put_call_parity [FloorRing F] (lib : Libm F) (s k r sigma t : F) (t_pos : 0 < t)
    (d1_ne : WasmZig.d1 lib s k r sigma t ≠ 0) (d2_ne : WasmZig.d2 lib s k r sigma t ≠ 0) :
    let forward := s - k * lib.exp (-r * t)
    (haskellQuote lib s k r sigma t).call - (haskellQuote lib s k r sigma t).put = forward ∧
    (zigQuote lib s k r sigma t).call - (zigQuote lib s k r sigma t).put = forward ∧
    (fsharpQuote lib s k r sigma t).call - (fsharpQuote lib s k r sigma t).put = forward ∧
    |(price lib s k r sigma t).callPrice - (price lib s k r sigma t).putPrice - forward| ≤ 0.000001 := by
  intro forward
  have parity : (fsharpQuote lib s k r sigma t).call - (fsharpQuote lib s k r sigma t).put = forward :=
    fsharp_parity lib d1_ne d2_ne
  have rounded : price lib s k r sigma t = (unrounded lib s k r sigma t).rounded := if_neg (not_le.mpr t_pos)
  rw [haskellQuote_eq, zigQuote_eq lib s k r sigma t_pos, rounded]
  refine ⟨parity, parity, parity, ?_⟩
  rw [← parity]
  exact rounded_difference_near _ _

theorem put_call_parity_year :
    (zigQuote Libm.rational 100 50 0 1 1).call - (zigQuote Libm.rational 100 50 0 1 1).put = 100 :=
  have d1_ne : WasmZig.d1 Libm.rational 100 50 0 1 1 ≠ 0 := by
    norm_num [WasmZig.d1, Libm.rational]
  have d2_ne : WasmZig.d2 Libm.rational 100 50 0 1 1 ≠ 0 := by
    norm_num [WasmZig.d2, WasmZig.d1, Libm.rational]
  have parity := (put_call_parity Libm.rational 100 50 0 1 1 one_pos d1_ne d2_ne).2.1
  parity.trans (by norm_num [Libm.rational])

/-- The difference of the prices should be 127/128, which has seven digits. -/
theorem rounded_parity_fails :
    WasmZig.d1 Libm.real 1 0.0078125 0 1 1 ≠ 0 ∧ WasmZig.d2 Libm.real 1 0.0078125 0 1 1 ≠ 0 ∧
    (price Libm.real 1 0.0078125 0 1 1).callPrice - (price Libm.real 1 0.0078125 0 1 1).putPrice ≠
      1 - 0.0078125 * Libm.real.exp (-0 * 1) := by
  have log_large : (127 / 128 : ℝ) ≤ Real.log (1 / 0.0078125) := by
    have bound := Real.one_sub_inv_le_log_of_pos (x := 1 / 0.0078125) (by norm_num)
    norm_num at bound ⊢
    exact bound
  have d1_eq : WasmZig.d1 Libm.real 1 0.0078125 0 1 1 = Real.log (1 / 0.0078125) + 0.5 := by
    norm_num [WasmZig.d1, Libm.real]
  have d2_eq : WasmZig.d2 Libm.real 1 0.0078125 0 1 1 = Real.log (1 / 0.0078125) - 0.5 := by
    rw [WasmZig.d2, d1_eq]
    norm_num [Libm.real]
    ring
  refine ⟨?_, ?_, ?_⟩
  · rw [d1_eq]
    apply ne_of_gt
    linarith
  · rw [d2_eq]
    apply ne_of_gt
    linarith
  · have rounded : price Libm.real 1 0.0078125 0 1 1 = (unrounded Libm.real 1 0.0078125 0 1 1).rounded :=
      if_neg (not_le.mpr one_pos)
    obtain ⟨n, difference⟩ := mathRound_sub (unrounded Libm.real 1 0.0078125 0 1 1).callPrice
      (unrounded Libm.real 1 0.0078125 0 1 1).putPrice 6
    rw [rounded]
    intro parity
    have whole : (n : ℝ) / 10.0 ^ 6 = 1 - 0.0078125 * Libm.real.exp (-0 * 1) := difference.symm.trans parity
    norm_num [Libm.real] at whole
    have odd : (2 * n : ℝ) = 1984375 := by linarith
    have odd_int : 2 * n = 1984375 := by exact_mod_cast odd
    omega

end PolyglotInfinity.Engines
