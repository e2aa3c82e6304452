import PolyglotInfinity.AnalyticsNim.Deviations
import PolyglotInfinity.Lib.Recurrence

/-!
# The autoregressive model

The coefficients of `arFit` solve the equations of the autocovariances, and the forecast
that they drive is a linear recurrence of order two.
-/

namespace PolyglotInfinity.AnalyticsNim

open Autocovariance

section

variable {F : Type} [Field F] [LinearOrder F] [IsStrictOrderedRing F] {series : List F}

/-- What `arFit` computes for a lag. -/
def gamma (series : List F) (lag : ℕ) : Option F := do autocovariance series (← mean series) lag

theorem gamma_eq (some_element : series ≠ []) (lag : ℕ) : gamma series lag =
    some (lagged (deviation series (series.sum / series.length)) series.length lag / series.length) := by
  rw [gamma, mean_eq some_element]
  show autocovariance series _ lag = _
  set m := series.sum / (series.length : F)
  have sum := forRange_lagged series m lag lag series.length
    (fun i s => do return s + ((← item series i) - m) * ((← item series (i - lag)) - m)) (by omega)
    fun k inside t => by
      have later : (lag : ℤ) + k = (k + lag : ℕ) := by omega
      have earlier : (lag : ℤ) + k - lag = k := by omega
      rw [earlier, later, item_eq inside m, item_eq (Nat.lt_of_le_of_lt (Nat.le_add_right k lag) inside) m]
      simp [mul_comm]
  rw [autocovariance, sum]
  exact divide_of_ne (length_pos some_element).ne'

variable {g : ℕ → F}

theorem mapM_gamma (some_element : series ≠ []) {lags : List ℕ}
    (computed : ∀ lag ∈ lags, gamma series lag = some (g lag)) :
    lags.mapM (autocovariance series (series.sum / (series.length : F))) = some (lags.map g) := by
  induction lags with
  | nil => rfl
  | cons lag lags ih =>
    have first := computed lag List.mem_cons_self
    rw [gamma, mean_eq some_element] at first
    have first : autocovariance series (series.sum / (series.length : F)) lag = some (g lag) := first
    rw [List.mapM_cons, first, ih fun lag member => computed lag (List.mem_cons_of_mem _ member)]
    rfl

/-- The first two steps of `arFit`. -/
theorem exists_gammas {p : ℕ} (longer : p < series.length) (computed : ∀ lag ≤ p, gamma series lag = some (g lag)) :
    ∃ m, mean series = some m ∧
      (List.range (p + 1)).mapM (autocovariance series m) = some ((List.range (p + 1)).map g) := by
  have some_element := List.ne_nil_of_length_pos (Nat.zero_lt_of_lt longer)
  refine ⟨_, mean_eq some_element, ?_⟩
  apply mapM_gamma some_element
  intro lag member
  exact computed lag (Nat.le_of_lt_succ (List.mem_range.mp member))

theorem arFit_one (longer : 1 < series.length) (computed : ∀ lag ≤ 1, gamma series lag = some (g lag)) :
    arFit series 1 = some [if g 0 = 0 then 0 else g 1 / g 0] := by
  obtain ⟨m, mean_some, gammas⟩ := exists_gammas longer computed
  rw [arFit, if_neg (not_le.mpr longer), mean_some, Option.bind_eq_bind, Option.bind_some, gammas]
  show (if g 0 ≠ 0 then Option.bind (divide (g 1) (g 0)) _ else some [0]) = _
  by_cases flat : g 0 = 0
  · rw [if_neg (not_not.mpr flat), if_pos flat]
  · rw [if_pos flat, if_neg flat, divide_of_ne flat]
    rfl

theorem ne_zero_of_regular {x : F} (regular : ¬ |x| < 1e-12) : x ≠ 0 := by
  intro eq
  rw [eq, abs_zero] at regular
  exact regular (by norm_num)

theorem arFit_two (longer : 2 < series.length) (computed : ∀ lag ≤ 2, gamma series lag = some (g lag)) :
    arFit series 2 =
      if |g 0 ^ 2 - g 1 ^ 2| < 1e-12 then some [0, 0]
      else some [(g 1 * g 0 - g 2 * g 1) / (g 0 ^ 2 - g 1 ^ 2), (g 2 * g 0 - g 1 ^ 2) / (g 0 ^ 2 - g 1 ^ 2)] := by
  obtain ⟨m, mean_some, gammas⟩ := exists_gammas longer computed
  rw [arFit, if_neg (not_le.mpr longer), mean_some, Option.bind_eq_bind, Option.bind_some, gammas]
  show (if |g 0 ^ 2 - g 1 ^ 2| < 1e-12 then some [0, 0] else Option.bind (divide _ _) _) = _
  by_cases degenerate : |g 0 ^ 2 - g 1 ^ 2| < 1e-12
  · rw [if_pos degenerate, if_pos degenerate]
  · have ne := ne_zero_of_regular degenerate
    rw [if_neg degenerate, if_neg degenerate, divide_of_ne ne]
    show Option.bind (divide _ _) _ = _
    rw [divide_of_ne ne]
    rfl

/-! ### The equations -/

/-- The autocovariances of lags 0, 1 and 2. -/
theorem gamma_bounds {p : ℕ} (longer : p < series.length) (computed : ∀ lag ≤ p, gamma series lag = some (g lag)) :
    (∀ lag ≤ p, |g lag| ≤ g 0) ∧ (2 ≤ p → 2 * g 1 ^ 2 ≤ g 0 * (g 0 + g 2)) := by
  have some_element := List.ne_nil_of_length_pos (Nat.zero_lt_of_lt longer)
  have length := length_pos (F := F) some_element
  have beyond := deviation_beyond series (series.sum / (series.length : F))
  have value (lag : ℕ) (le : lag ≤ p) := Option.some.inj ((computed lag le).symm.trans (gamma_eq some_element lag))
  constructor
  · intro lag le
    rw [value lag le, value 0 (Nat.zero_le p), abs_div, abs_of_pos length, div_le_div_iff_of_pos_right length]
    exact abs_lagged_le beyond lag
  · intro two_le
    have scaled := two_mul_sq_le beyond
    rw [value 0 (Nat.zero_le p), value 1 (by omega), value 2 two_le, div_pow, ← add_div, div_mul_div_comm, ← sq,
      ← mul_div_assoc, div_le_div_iff_of_pos_right (pow_pos length 2)]
    exact scaled

end

section

variable {g0 g1 g2 : ℝ}

theorem triangle_one (first : |g1| ≤ g0) : Recurrence.Triangle (g1 / g0) 0 := by
  have le : |g1 / g0| ≤ 1 := by
    rw [abs_div]
    exact div_le_one_of_le₀ (first.trans (le_abs_self g0)) (abs_nonneg g0)
  obtain ⟨low, high⟩ := abs_le.mp le
  constructor
  · rw [abs_zero]
    exact zero_le_one
  · rwa [add_zero]
  · linarith

theorem triangle_two (first : |g1| ≤ g0) (second : |g2| ≤ g0) (form : 2 * g1 ^ 2 ≤ g0 * (g0 + g2))
    (ne : g0 ^ 2 - g1 ^ 2 ≠ 0) : Recurrence.Triangle ((g1 * g0 - g2 * g1) / (g0 ^ 2 - g1 ^ 2))
      ((g2 * g0 - g1 ^ 2) / (g0 ^ 2 - g1 ^ 2)) := by
  obtain ⟨first_low, first_high⟩ := abs_le.mp first
  obtain ⟨second_low, second_high⟩ := abs_le.mp second
  have zero_nonneg : 0 ≤ g0 := (abs_nonneg g1).trans first
  have det_pos : 0 < g0 ^ 2 - g1 ^ 2 := by
    refine lt_of_le_of_ne' ?_ ne
    rw [sq_sub_sq]
    exact mul_nonneg (by linarith) (by linarith)
  have rest : 0 ≤ g0 - g2 := sub_nonneg.mpr second_high
  have plus : 0 ≤ (g0 + g1) * (g0 - g2) := mul_nonneg (by linarith) rest
  have minus : 0 ≤ (g0 - g1) * (g0 - g2) := mul_nonneg (by linarith) rest
  constructor
  · rw [abs_le, le_div_iff₀ det_pos, div_le_one det_pos]
    constructor <;> linarith [mul_nonneg zero_nonneg rest]
  · rw [← add_div, div_le_one det_pos]
    linarith
  · rw [← sub_div, div_le_one det_pos]
    linarith

/-- `phi` solves the equations of the autocovariances `g`. -/
def YuleWalker (g : ℕ → ℝ) (phi : List ℝ) : Prop :=
  ∀ k < phi.length, ∑ j ∈ Finset.range phi.length, phi.getD j 0 * g (Nat.dist k j) = g (k + 1)

/-- The closed region of stationary coefficients, up to order two. -/
def Stationary : List ℝ → Prop
  | [phi1] => |phi1| ≤ 1
  | [phi1, phi2] => |phi2| ≤ 1 ∧ phi1 + phi2 ≤ 1 ∧ phi2 - phi1 ≤ 1
  | _ => False

end

/-! ### The forecast -/

section

open Recurrence (next)

variable {F : Type} [Field F] {history : List F} {m : F} {s : F × F}

/-- The history ends with these deviations from `m`, the last one first. -/
structure Ends (history : List F) (m : F) (s : F × F) : Prop where
  last : item history (history.length - 1) = some (m + s.1)
  before : item history (history.length - 2) = some (m + s.2)

theorem Ends.append (ends : Ends history m s) (x : F) : Ends (history ++ [m + x]) m (x, s.1) := by
  have length : ((history ++ [m + x]).length : ℤ) = history.length + 1 := by simp
  have one_le := item_nonneg ends.last
  constructor
  · rw [length, add_sub_cancel_right, item_natCast, List.getElem?_concat_length]
  · have same : (history.length : ℤ) + 1 - 2 = (history.length - 1 : ℕ) := by omega
    have last := ends.last
    rw [show (history.length : ℤ) - 1 = (history.length - 1 : ℕ) by omega, item_natCast] at last
    rw [length, same, item_natCast, List.getElem?_append_left (by omega), last]

theorem predict_round {coeffs : List F} {i : ℤ} {c x : F} (coeff : item coeffs i = some c)
    (past : item history (history.length - 1 - i) = some (m + x)) (pred : F) :
    (if 0 ≤ (history.length : ℤ) - 1 - i then
      (do return pred + (← item coeffs i) * ((← item history (history.length - 1 - i)) - m))
      else some pred) = some (pred + c * x) := by
  rw [if_pos (item_nonneg past), coeff, past]
  simp

theorem predict_one (ends : Ends history m s) (phi1 : F) :
    predict [phi1] history m 1 = some (m + (next phi1 0 s).1) := by
  have last := ends.last
  rw [← sub_zero ((history.length : ℤ) - 1)] at last
  refine (forRange_next (by decide) (predict_round rfl last m)).trans ?_
  rw [forRange_empty (by decide), next, zero_mul, add_zero]

theorem predict_two (ends : Ends history m s) (phi1 phi2 : F) :
    predict [phi1, phi2] history m 2 = some (m + (next phi1 phi2 s).1) := by
  have last := ends.last
  have before := ends.before
  rw [← sub_zero ((history.length : ℤ) - 1)] at last
  rw [show (history.length : ℤ) - 2 = history.length - 1 - (0 + 1) by omega] at before
  refine (forRange_next (by decide) (predict_round rfl last m)).trans ?_
  refine (forRange_next (by decide) (predict_round rfl before _)).trans ?_
  rw [forRange_empty (by decide), add_assoc, next]

/-- The lists of the loop over the steps, before round `i`. -/
structure Forecast (phi1 phi2 m : F) (s : F × F) (steps i : ℕ) (t : List F × List F) : Prop where
  ends : Ends t.2 m ((next phi1 phi2)^[i] s)
  predicted : Filled steps i t.1 fun k => m + ((next phi1 phi2)^[k + 1] s).1

theorem Forecast.round {phi1 phi2 : F} {steps i : ℕ} {t : List F × List F} {pred : F} (i_lt : i < steps)
    (so_far : Forecast phi1 phi2 m s steps i t) (pred_eq : pred = m + ((next phi1 phi2)^[i + 1] s).1) :
    Forecast phi1 phi2 m s steps (i + 1) (t.1.set i pred, t.2 ++ [pred]) := by
  refine ⟨?_, so_far.predicted.set i_lt pred_eq⟩
  rw [pred_eq, Function.iterate_succ_apply']
  exact so_far.ends.append _

variable [LinearOrder F]

theorem forecasts_eq {coeffs : List F} {p : ℕ} {phi1 phi2 : F} {series : List F} (mean_some : mean series = some m)
    (ends : Ends series m s) (predicts : ∀ history t, Ends history m t →
      predict coeffs history m p = some (m + (next phi1 phi2 t).1)) (steps : ℕ) :
    forecasts series coeffs steps p = some ((List.range steps).map fun k => m + ((next phi1 phi2)^[k + 1] s).1) := by
  obtain ⟨t, ran, -, predicted⟩ := forRange_keeps 0 steps (forecastRound coeffs m p) (newSeq steps, series)
    (fun i t => Forecast phi1 phi2 m s steps i.toNat t) (Int.natCast_nonneg steps)
    ⟨ends, List.length_replicate, fun k k_lt => absurd k_lt (Nat.not_lt_zero k)⟩
    fun i t low high so_far => by
      lift i to ℕ using low
      have i_lt : i < steps := by exact_mod_cast high
      have next_round : ((i : ℤ) + 1).toNat = i + 1 := by omega
      rw [Int.toNat_natCast] at so_far
      have assigned (x : F) : assign t.1 i x = some (t.1.set i x) := by
        rw [assign, so_far.predicted.length, if_pos ⟨Int.natCast_nonneg i, high⟩, Int.toNat_natCast]
      rw [forecastRound, predicts _ _ so_far.ends, next_round]
      refine ⟨_, ?_, so_far.round i_lt rfl⟩
      rw [Function.iterate_succ_apply']
      show Option.bind (assign _ _ _) _ = _
      rw [assigned]
      rfl
  rw [Int.toNat_natCast] at predicted
  rw [forecasts, mean_some, ← predicted.eq_map]
  show Option.bind (forRange _ _ _ _) _ = _
  rw [ran]
  rfl

end

/-- The deviations of the last two elements. -/
theorem exists_ends {series : List ℝ} (two : 1 < series.length) (m : ℝ) : ∃ s, Ends series m s := by
  obtain ⟨last, -, last_eq⟩ := item_mem series (series.length - 1) (by omega) (by omega)
  obtain ⟨before, -, before_eq⟩ := item_mem series (series.length - 2) (by omega) (by omega)
  refine ⟨(last - m, before - m), ?_, ?_⟩
  · rw [last_eq, add_sub_cancel]
  · rw [before_eq, add_sub_cancel]

/-- From stationary coefficients the forecast grows at most linearly. -/
theorem forecasts_linear {series coeffs : List ℝ} {p : ℕ} {phi1 phi2 : ℝ} (two : 1 < series.length)
    (inside : Recurrence.Triangle phi1 phi2) (predicts : ∀ m history s, Ends history m s →
      predict coeffs history m p = some (m + (Recurrence.next phi1 phi2 s).1)) :
    ∃ c : ℝ, ∀ steps, ∃ f, forecasts series coeffs steps p = some f ∧ f.length = steps ∧
      ∀ (k : ℕ) v, f[k]? = some v → |v| ≤ c * (k + 1) := by
  have some_element := List.ne_nil_of_length_pos (Nat.zero_lt_of_lt two)
  have mean_some := mean_eq some_element
  set m := series.sum / (series.length : ℝ)
  obtain ⟨s, ends⟩ := exists_ends two m
  obtain ⟨c, bound⟩ := inside.linear s
  refine ⟨|m| + |s.1| + |c|, fun steps => ?_⟩
  refine ⟨_, forecasts_eq mean_some ends (predicts m) steps, by simp, fun k v found => ?_⟩
  rw [List.getElem?_map] at found
  obtain ⟨j, in_range, rfl⟩ := Option.map_eq_some_iff.mp found
  obtain rfl : k = j := by simpa using (List.getElem?_eq_some_iff.mp in_range).2
  have one_le : (1 : ℝ) ≤ k + 1 := le_add_of_nonneg_left (Nat.cast_nonneg k)
  calc |m + ((Recurrence.next phi1 phi2)^[k + 1] s).1|
      ≤ |m| + |((Recurrence.next phi1 phi2)^[k + 1] s).1| := abs_add_le _ _
    _ ≤ |m| + (|s.1| + (k + 1 : ℕ) * c) := add_le_add_right (bound (k + 1)) _
    _ ≤ (|m| + |s.1|) * (k + 1) + |c| * (k + 1) := by
      have start := le_mul_of_one_le_right (add_nonneg (abs_nonneg m) (abs_nonneg s.1)) one_le
      have slope := mul_le_mul_of_nonneg_right (le_abs_self c) (zero_le_one.trans one_le)
      push_cast
      linarith
    _ = (|m| + |s.1| + |c|) * (k + 1) := by ring

/-- Outside the degenerate exits. -/
theorem arFit_stationary {series : List ℝ} {p : ℕ} {g : ℕ → ℝ} (longer : p < series.length)
    (computed : ∀ lag ≤ p, gamma series lag = some (g lag))
    (regular : p = 1 ∧ g 0 ≠ 0 ∨ p = 2 ∧ 1e-12 ≤ |g 0 ^ 2 - g 1 ^ 2|) :
    ∃ phi, arFit series p = some phi ∧ phi.length = p ∧ YuleWalker g phi ∧ Stationary phi ∧
      ∃ c : ℝ, ∀ steps, ∃ f, forecasts series phi steps p = some f ∧ f.length = steps ∧
        ∀ (k : ℕ) v, f[k]? = some v → |v| ≤ c * (k + 1) := by
  obtain ⟨bounded, form⟩ := gamma_bounds longer computed
  rcases regular with ⟨rfl, ne⟩ | ⟨rfl, not_degenerate⟩
  · have inside := triangle_one (bounded 1 le_rfl)
    refine ⟨[g 1 / g 0], ?_, rfl, ?_, ?_, ?_⟩
    · rw [arFit_one longer computed, if_neg ne]
    · intro k k_lt
      obtain rfl := Nat.lt_one_iff.mp k_lt
      simp [div_mul_cancel₀ _ ne]
    · exact abs_le.mpr ⟨by linarith [inside.at_neg_one], by linarith [inside.at_one]⟩
    · exact forecasts_linear longer inside fun m history s ends => predict_one ends (g 1 / g 0)
  · have ne := ne_zero_of_regular (not_lt.mpr not_degenerate)
    have inside := triangle_two (bounded 1 one_le_two) (bounded 2 le_rfl) (form le_rfl) ne
    refine ⟨[_, _], ?_, rfl, ?_, ⟨inside.product, inside.at_one, inside.at_neg_one⟩, ?_⟩
    · rw [arFit_two longer computed, if_neg (not_lt.mpr not_degenerate)]
    · intro k k_lt
      have short : k < 2 := k_lt
      interval_cases k
      · simp [Finset.sum_range_succ, Nat.dist]
        field_simp
        ring
      · simp [Finset.sum_range_succ, Nat.dist]
        field_simp
        ring
    · exact forecasts_linear (Nat.lt_of_succ_lt longer) inside fun m history s ends => predict_two ends _ _

/-- The autocovariances of one element and two zeros. -/
theorem gamma_peak : ∀ lag ≤ 2, gamma [(1 : ℝ), 0, 0] lag = some ([2 / 9, -1 / 27, -2 / 27].getD lag 0) := by
  intro lag le
  rw [gamma_eq (List.cons_ne_nil _ _)]
  interval_cases lag <;> norm_num [lagged, deviation, Finset.sum_range_succ]

theorem arFit_stationary_peak : ∃ phi, arFit [(1 : ℝ), 0, 0] 2 = some phi ∧ phi.length = 2 ∧
    YuleWalker ([2 / 9, -1 / 27, -2 / 27].getD · 0) phi ∧ Stationary phi ∧
      ∃ c : ℝ, ∀ steps, ∃ f, forecasts [1, 0, 0] phi steps 2 = some f ∧ f.length = steps ∧
        ∀ (k : ℕ) v, f[k]? = some v → |v| ≤ c * (k + 1) :=
  arFit_stationary (by decide) gamma_peak (Or.inr ⟨rfl, by norm_num [abs_of_pos]⟩)

/-! ### The unit of the series -/

section

variable {F : Type} [Field F] [LinearOrder F] [IsStrictOrderedRing F] {series : List F} {c : F} {g : ℕ → F}

theorem gamma_scale (some_element : series ≠ []) (c : F) {lag : ℕ} {x : F} (computed : gamma series lag = some x) :
    gamma (series.map (c * ·)) lag = some (c ^ 2 * x) := by
  have scaled_sum : (series.map (c * ·)).sum = c * series.sum := by
    rw [List.sum_map_mul_left, List.map_id']
  rw [gamma_eq some_element] at computed
  rw [gamma_eq (mt List.map_eq_nil_iff.mp some_element), List.length_map, scaled_sum, mul_div_assoc,
    funext (deviation_scale series _ c), lagged_mul, mul_div_assoc, Option.some.inj computed]

/-- The equations have the zero solution only for a series without autocorrelation. -/
theorem solution_zero_iff (ne : g 0 ^ 2 - g 1 ^ 2 ≠ 0) :
    [(g 1 * g 0 - g 2 * g 1) / (g 0 ^ 2 - g 1 ^ 2), (g 2 * g 0 - g 1 ^ 2) / (g 0 ^ 2 - g 1 ^ 2)] = [0, 0] ↔
      g 1 = 0 ∧ g 2 = 0 := by
  simp only [List.cons.injEq, div_eq_zero_iff, ne, or_false, and_true]
  constructor
  · intro ⟨first, second⟩
    have product : g 1 * (g 0 - g 2) = 0 := by linarith
    rcases mul_eq_zero.mp product with one | same
    · rw [one] at ne second
      refine ⟨one, ?_⟩
      have zero_ne : g 0 ≠ 0 := fun zero => ne (by rw [zero]; ring)
      exact (mul_eq_zero.mp (by linarith : g 2 * g 0 = 0)).resolve_right zero_ne
    · exact absurd (by rw [← sub_eq_zero.mp same] at second; linarith) ne
  · intro ⟨one, two⟩
    rw [one, two]
    constructor <;> ring

theorem arFit_scale_one (ne : c ≠ 0) (series : List F) : arFit (series.map (c * ·)) 1 = arFit series 1 := by
  by_cases short : series.length ≤ 1
  · rw [arFit, arFit, if_pos short, if_pos (by rwa [List.length_map])]
  · have longer := not_le.mp short
    have some_element := List.ne_nil_of_length_pos (Nat.zero_lt_of_lt longer)
    have computed := gamma_eq some_element
    rw [arFit_one longer fun lag _ => computed lag, arFit_one (by rwa [List.length_map]) fun lag _ =>
      gamma_scale some_element c (computed lag)]
    have square := pow_ne_zero 2 ne
    simp only [mul_eq_zero, square, false_or, mul_div_mul_left _ _ square]

/-- The unit matters to the test for a degenerate case alone. -/
theorem arFit_scale (ne : c ≠ 0) (series : List F) : arFit (series.map (c * ·)) 1 = arFit series 1 ∧
    (series.length ≤ 2 → arFit (series.map (c * ·)) 2 = arFit series 2) ∧
    (2 < series.length → ∃ g g' : ℕ → F, (∀ lag, gamma series lag = some (g lag)) ∧
      (∀ lag, gamma (series.map (c * ·)) lag = some (g' lag)) ∧
      (arFit (series.map (c * ·)) 2 = arFit series 2 ↔
        (|g' 0 ^ 2 - g' 1 ^ 2| < 1e-12 ↔ |g 0 ^ 2 - g 1 ^ 2| < 1e-12) ∨ g 1 = 0 ∧ g 2 = 0)) := by
  refine ⟨arFit_scale_one ne series, fun short => ?_, fun longer => ?_⟩
  · rw [arFit, arFit, if_pos short, if_pos (by rwa [List.length_map])]
  · have some_element := List.ne_nil_of_length_pos (Nat.zero_lt_of_lt longer)
    obtain ⟨g, computed⟩ : ∃ g : ℕ → F, ∀ lag, gamma series lag = some (g lag) := ⟨_, gamma_eq some_element⟩
    have computed' (lag : ℕ) := gamma_scale some_element c (computed lag)
    refine ⟨g, _, computed, computed', ?_⟩
    rw [arFit_two longer fun lag _ => computed lag, arFit_two (by rwa [List.length_map]) fun lag _ => computed' lag]
    have fourth := pow_ne_zero 4 ne
    have det : (c ^ 2 * g 0) ^ 2 - (c ^ 2 * g 1) ^ 2 = c ^ 4 * (g 0 ^ 2 - g 1 ^ 2) := by ring
    have first : c ^ 2 * g 1 * (c ^ 2 * g 0) - c ^ 2 * g 2 * (c ^ 2 * g 1) = c ^ 4 * (g 1 * g 0 - g 2 * g 1) := by ring
    have second : c ^ 2 * g 2 * (c ^ 2 * g 0) - (c ^ 2 * g 1) ^ 2 = c ^ 4 * (g 2 * g 0 - g 1 ^ 2) := by ring
    rw [det, first, second, mul_div_mul_left _ _ fourth, mul_div_mul_left _ _ fourth]
    by_cases scaled : |c ^ 4 * (g 0 ^ 2 - g 1 ^ 2)| < 1e-12 <;> by_cases original : |g 0 ^ 2 - g 1 ^ 2| < 1e-12
    · rw [if_pos scaled, if_pos original]
      exact iff_of_true rfl (Or.inl (iff_of_true scaled original))
    · rw [if_pos scaled, if_neg original, Option.some_inj, eq_comm, solution_zero_iff (ne_zero_of_regular original)]
      simp only [scaled, original, iff_false, not_true, false_or]
    · have det_ne := right_ne_zero_of_mul (ne_zero_of_regular scaled)
      rw [if_neg scaled, if_pos original, Option.some_inj, solution_zero_iff det_ne]
      simp only [scaled, original, iff_true, false_or]
    · rw [if_neg scaled, if_neg original]
      exact iff_of_true rfl (Or.inl (iff_of_false scaled original))

end

theorem arFit_scale_peak : arFit ([(1 : ℝ), 0, 0].map (2 * ·)) 1 = arFit [1, 0, 0] 1 ∧
    ([(1 : ℝ), 0, 0].length ≤ 2 → arFit ([(1 : ℝ), 0, 0].map (2 * ·)) 2 = arFit [1, 0, 0] 2) ∧
    (2 < [(1 : ℝ), 0, 0].length → ∃ g g' : ℕ → ℝ, (∀ lag, gamma [1, 0, 0] lag = some (g lag)) ∧
      (∀ lag, gamma ([(1 : ℝ), 0, 0].map (2 * ·)) lag = some (g' lag)) ∧
      (arFit ([(1 : ℝ), 0, 0].map (2 * ·)) 2 = arFit [1, 0, 0] 2 ↔
        (|g' 0 ^ 2 - g' 1 ^ 2| < 1e-12 ↔ |g 0 ^ 2 - g 1 ^ 2| < 1e-12) ∨ g 1 = 0 ∧ g 2 = 0)) :=
  arFit_scale two_ne_zero [1, 0, 0]

/-- The determinant of the smaller series is below the bound of the test. -/
theorem small_unit_degenerate : ¬ arFit ([(1 : ℝ), 0, 0].map (1e-4 * ·)) 2 = arFit [1, 0, 0] 2 := by
  rw [arFit_two (by decide) gamma_peak, arFit_two (by decide) fun lag le =>
    gamma_scale (List.cons_ne_nil 1 [0, 0]) 1e-4 (gamma_peak lag le)]
  norm_num [abs_of_pos]

end PolyglotInfinity.AnalyticsNim
