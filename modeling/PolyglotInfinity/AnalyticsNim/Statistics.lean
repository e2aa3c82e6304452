import PolyglotInfinity.AnalyticsNim.Deviations

/-!
# The bounds of the statistics

On any list with an element no index is out of range, nothing is divided by zero, and each
result is within the bounds of what it measures.
-/

namespace PolyglotInfinity.AnalyticsNim

open Autocovariance Moments

/-! ### Shape -/

section

variable {F : Type} [Field F] [LinearOrder F] {arr : List F}

/-- The loops of `skewness` and `kurtosis`. -/
theorem foldlM_powerSum {s : F} (ne : s ≠ 0) (m : F) (k : ℕ) (arr : List F) :
    arr.foldlM (fun result x => do return result + (← divide (x - m) s) ^ k) 0 =
      some (powerSum k (arr.map fun x => (x - m) / s)) := by
  simp only [divide_of_ne ne]
  show arr.foldlM (fun result x => pure (result + ((x - m) / s) ^ k)) 0 = _
  rw [List.foldlM_pure, foldl_add, zero_add, powerSum, List.map_map]
  rfl

variable [IsStrictOrderedRing F]

theorem variance_eq (some_element : arr ≠ []) :
    variance arr = some ((arr.map fun x => (x - arr.sum / (arr.length : F)) ^ 2).sum / (arr.length : F)) := by
  rw [variance, mean_eq some_element]
  show divide _ _ = _
  rw [divide_of_ne (length_pos some_element).ne', foldl_add, zero_add]

section

variable {lib : Libm F} {m s : F} (some_element : arr ≠ []) (mean_some : mean arr = some m)
  (dev_some : stdDev lib arr = some s) (ne : s ≠ 0)
include some_element mean_some dev_some ne

theorem skewness_eq :
    skewness lib arr = some (powerSum 3 (arr.map fun x => (x - m) / s) / (arr.length : F)) := by
  rw [skewness, mean_some, dev_some]
  show (if s = 0 then _ else Option.bind (arr.foldlM _ 0) _) = _
  rw [if_neg ne, foldlM_powerSum ne m 3]
  exact divide_of_ne (length_pos some_element).ne'

theorem kurtosis_eq :
    kurtosis lib arr = some (powerSum 4 (arr.map fun x => (x - m) / s) / (arr.length : F) - 3.0) := by
  rw [kurtosis, mean_some, dev_some]
  show (if s = 0 then _ else Option.bind (arr.foldlM _ 0) _) = _
  rw [if_neg ne, foldlM_powerSum ne m 4]
  show (divide _ _).bind _ = _
  rw [divide_of_ne (length_pos some_element).ne']
  rfl

end

end

/-- Their distance is Pearson's inequality. -/
theorem shape_bounds {arr : List ℝ} (some_element : arr ≠ []) : ∃ s skew kurt,
    stdDev .real arr = some s ∧ skewness .real arr = some skew ∧ kurtosis .real arr = some kurt ∧
      (s ≠ 0 → skew ^ 2 - 2 ≤ kurt) := by
  have mean := mean_eq some_element
  have variance := variance_eq some_element
  have length := length_pos (F := ℝ) some_element
  set m := arr.sum / (arr.length : ℝ) with m_eq
  set v : ℝ := (arr.map fun x => (x - m) ^ 2).sum / (arr.length : ℝ) with v_eq
  have dev : stdDev .real arr = some √v := by
    rw [stdDev, variance]
    rfl
  by_cases flat : √v = 0
  · refine ⟨√v, 0, 0, dev, ?_, ?_, fun ne => absurd flat ne⟩
    · rw [skewness, mean, dev]
      exact if_pos flat
    · rw [kurtosis, mean, dev]
      exact if_pos flat
  · have standard : Standardised (arr.map fun x => (x - m) / √v) := by
      apply standardised_map flat length.ne' m_eq
      rw [Real.sq_sqrt (div_nonneg (sum_squares_nonneg _ arr) length.le)]
    have pearson := standard.pearson (mt List.map_eq_nil_iff.mp some_element)
    rw [List.length_map] at pearson
    have three : (3.0 : ℝ) = 3 := by norm_num
    refine ⟨√v, _, _, dev, skewness_eq some_element mean dev flat, kurtosis_eq some_element mean dev flat, fun _ => ?_⟩
    rw [three]
    linarith

section

variable {F : Type} [Field F] [LinearOrder F] [IsStrictOrderedRing F] {arr : List F}

/-! ### Autocorrelation -/

theorem autocorr_mem (some_element : arr ≠ []) {lag : ℤ} (some_lag : 1 ≤ lag) :
    ∃ r ∈ Set.Icc (-1 : F) 1, autocorr arr lag = some r := by
  lift lag to ℕ using by omega
  by_cases short : (arr.length : ℤ) ≤ lag
  · exact ⟨0, ⟨by simp, zero_le_one⟩, if_pos short⟩
  · set m := arr.sum / (arr.length : F) with m_eq
    have num := forRange_lagged arr m lag 0 (arr.length - lag)
      (fun i num => do return num + ((← item arr i) - m) * ((← item arr (i + lag)) - m)) (by omega)
      fun k inside t => by
        rw [zero_add, ← Nat.cast_add, item_eq (Nat.lt_of_le_of_lt (Nat.le_add_right k lag) inside) m, item_eq inside m]
        simp
    have den : arr.foldl (fun den x => den + (x - m) ^ 2) 0 = lagged (deviation arr m) arr.length 0 := by
      rw [foldl_add, zero_add, lagged_zero]
    rw [autocorr, if_neg short, mean_eq some_element]
    show ∃ r ∈ _, (forRange _ _ _ 0).bind _ = some r
    rw [num, den]
    have bound := abs_le.mp (abs_lagged_le (deviation_beyond arr m) lag)
    by_cases flat : lagged (deviation arr m) arr.length 0 = 0
    · exact ⟨0, ⟨by simp, zero_le_one⟩, if_pos flat⟩
    · have pos := (lagged_zero_nonneg (deviation arr m) arr.length).lt_of_ne' flat
      refine ⟨_, ⟨?_, ?_⟩, (if_neg flat).trans (divide_of_ne flat)⟩
      · rw [le_div_iff₀ pos, neg_one_mul]
        exact bound.1
      · rw [div_le_one pos]
        exact bound.2

/-! ### Momentum -/

theorem rsi_mem {period : ℤ} (some_period : 1 ≤ period) (prices : List F) :
    ∃ r ∈ Set.Icc (0 : F) 100, rsi prices period = some r := by
  have hundred : (100.0 : F) = 100 := by norm_num
  by_cases short : (prices.length : ℤ) < period + 1
  · exact ⟨50.0, by constructor <;> norm_num, if_pos short⟩
  · rw [rsi, if_neg short, hundred]
    obtain ⟨⟨gains, losses⟩, ran, gains_nonneg, losses_nonneg⟩ := forRange_keeps (prices.length - period) prices.length
      (rsiRound prices) (0, 0) (fun _ sums => 0 ≤ sums.1 ∧ 0 ≤ sums.2) (by omega) ⟨le_rfl, le_rfl⟩
      fun i sums low high so_far => by
        obtain ⟨gains_nonneg, losses_nonneg⟩ := so_far
        obtain ⟨now, -, now_eq⟩ := item_mem prices i (by omega) high
        obtain ⟨before, -, before_eq⟩ := item_mem prices (i - 1) (by omega) (by omega)
        rw [rsiRound, now_eq, before_eq]
        refine ⟨_, rfl, ?_⟩
        by_cases rise : 0 < now - before
        · rw [if_pos rise]
          exact ⟨add_nonneg gains_nonneg rise.le, losses_nonneg⟩
        · rw [if_neg rise]
          exact ⟨gains_nonneg, add_nonneg losses_nonneg (neg_nonneg.mpr (not_lt.mp rise))⟩
    rw [ran]
    by_cases flat : losses = 0
    · exact ⟨100, by constructor <;> norm_num, if_pos flat⟩
    · have rs_nonneg : 0 ≤ gains / losses := div_nonneg gains_nonneg losses_nonneg
      have positive : 0 < 1 + gains / losses := by linarith
      refine ⟨100 - 100 / (1 + gains / losses), ⟨?_, ?_⟩, ?_⟩
      · rw [sub_nonneg, div_le_iff₀ positive]
        linarith
      · exact sub_le_self _ (div_nonneg (by norm_num) positive.le)
      · refine (if_neg flat).trans ?_
        rw [divide_of_ne flat]
        show Option.bind (divide _ _) _ = _
        rw [divide_of_ne positive.ne']
        rfl

theorem emaAlphaTable_mem : ∀ k ∈ (emaAlphaTable : List F), 0 ≤ k ∧ k ≤ 1 := by
  have two : (2.0 : F) = 2 := by norm_num
  intro k member
  obtain ⟨p, period, rfl⟩ := List.mem_map.mp member
  have first : (2 : F) ≤ p := by exact_mod_cast (List.mem_range'_1.mp period).1
  rw [two]
  push_cast
  refine ⟨by positivity, ?_⟩
  rw [div_le_one (by linarith)]
  linarith

theorem mix_mem {lo hi k x y : F} (k_nonneg : 0 ≤ k) (k_le : k ≤ 1) (x_mem : x ∈ Set.Icc lo hi)
    (y_mem : y ∈ Set.Icc lo hi) : x * k + y * (1 - k) ∈ Set.Icc lo hi := by
  have rest : 0 ≤ 1 - k := sub_nonneg.mpr k_le
  constructor
  · calc lo = lo * k + lo * (1 - k) := by ring
      _ ≤ x * k + y * (1 - k) :=
        add_le_add (mul_le_mul_of_nonneg_right x_mem.1 k_nonneg) (mul_le_mul_of_nonneg_right y_mem.1 rest)
  · calc x * k + y * (1 - k) ≤ hi * k + hi * (1 - k) :=
        add_le_add (mul_le_mul_of_nonneg_right x_mem.2 k_nonneg) (mul_le_mul_of_nonneg_right y_mem.2 rest)
      _ = hi := by ring

theorem ema_mem {lo hi : F} {prices : List F} (some_element : prices ≠ []) (low : ∀ x ∈ prices, lo ≤ x)
    (high : ∀ x ∈ prices, x ≤ hi) (period : ℤ) : ∃ e ∈ Set.Icc lo hi, ema prices period = some e := by
  have length := List.length_pos_of_ne_nil some_element
  rw [ema, if_neg length.ne']
  dsimp only
  have clamped : max 2 (min 200 period) - 2 < (emaAlphaTable : List F).length := by
    rw [emaAlphaTable, List.length_map, List.length_range']
    omega
  obtain ⟨k, k_mem, alpha⟩ := item_mem _ _ (by omega) clamped
  obtain ⟨first, first_mem, start⟩ := item_mem prices 0 le_rfl (by exact_mod_cast length)
  obtain ⟨k_nonneg, k_le⟩ := emaAlphaTable_mem k k_mem
  rw [alpha, start]
  obtain ⟨e, ran, within⟩ := forRange_keeps 1 prices.length
    (fun i result => do return (← item prices i) * k + result * (1 - k)) first
    (fun _ result => result ∈ Set.Icc lo hi) (by omega) ⟨low first first_mem, high first first_mem⟩
    fun i result i_low i_high mixed => by
      obtain ⟨x, x_mem, price⟩ := item_mem prices i (by omega) i_high
      rw [price]
      exact ⟨_, rfl, mix_mem k_nonneg k_le ⟨low x x_mem, high x x_mem⟩ mixed⟩
  exact ⟨e, within, ran⟩

end

theorem statistics_mem {arr : List ℝ} (some_element : arr ≠ []) :
    (∀ lag : ℤ, 1 ≤ lag → ∃ r ∈ Set.Icc (-1) 1, autocorr arr lag = some r) ∧
      (∃ s skew kurt, stdDev .real arr = some s ∧ skewness .real arr = some skew ∧ kurtosis .real arr = some kurt ∧
        (s ≠ 0 → skew ^ 2 - 2 ≤ kurt)) ∧
      (∃ lo hi, IsLeast {x | x ∈ arr} lo ∧ IsGreatest {x | x ∈ arr} hi ∧
        ∀ period, ∃ e ∈ Set.Icc lo hi, ema arr period = some e) ∧
      ∀ period : ℤ, 1 ≤ period → ∃ r ∈ Set.Icc 0 100, rsi arr period = some r := by
  have inhabited : {x | x ∈ arr}.Nonempty := List.exists_mem_of_ne_nil arr some_element
  obtain ⟨lo, lo_mem, low⟩ := Set.exists_min_image _ id arr.finite_toSet inhabited
  obtain ⟨hi, hi_mem, high⟩ := Set.exists_max_image _ id arr.finite_toSet inhabited
  exact ⟨fun _ some_lag => autocorr_mem some_element some_lag, shape_bounds some_element,
    ⟨lo, hi, ⟨lo_mem, low⟩, ⟨hi_mem, high⟩, ema_mem some_element low high⟩,
    fun _ some_period => rsi_mem some_period arr⟩

theorem statistics_mem_three :
    (∀ lag : ℤ, 1 ≤ lag → ∃ r ∈ Set.Icc (-1) 1, autocorr [(1 : ℝ), 2, 4] lag = some r) ∧
      (∃ s skew kurt, stdDev .real [1, 2, 4] = some s ∧ skewness .real [1, 2, 4] = some skew ∧
        kurtosis .real [1, 2, 4] = some kurt ∧ (s ≠ 0 → skew ^ 2 - 2 ≤ kurt)) ∧
      (∃ lo hi, IsLeast {x | x ∈ [(1 : ℝ), 2, 4]} lo ∧ IsGreatest {x | x ∈ [(1 : ℝ), 2, 4]} hi ∧
        ∀ period, ∃ e ∈ Set.Icc lo hi, ema [1, 2, 4] period = some e) ∧
      ∀ period : ℤ, 1 ≤ period → ∃ r ∈ Set.Icc 0 100, rsi [(1 : ℝ), 2, 4] period = some r :=
  statistics_mem (List.cons_ne_nil 1 [2, 4])

end PolyglotInfinity.AnalyticsNim
