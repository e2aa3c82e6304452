import PolyglotInfinity.AnalyticsNim.Statistics

/-!
# Momentum indicators

`/api/nim/momentum`: a price path from the engine's own returns, and how far its
moving averages, its Bollinger bands and the place of the last price between them
can go.
-/

namespace PolyglotInfinity.AnalyticsNim

open Moments

section

variable {F : Type} [Field F] [LinearOrder F]

/-- `arr[lo .. hi]`. -/
def slice (arr : List F) (lo hi : ℤ) : Option (List F) :=
  if 0 ≤ lo ∧ lo ≤ hi + 1 ∧ hi < arr.length then some ((arr.drop lo.toNat).take (hi + 1 - lo).toNat) else none

/-- The upper, the middle and the lower band. -/
def bollingerBands (lib : Libm F) (prices : List F) (period : ℤ) : Option (F × F × F) :=
  if (prices.length : ℤ) < period then do
    let m ← mean prices
    return (m, m, m)
  else do
    let window ← slice prices (prices.length - period) (prices.length - 1)
    let mid ← mean window
    let sd ← stdDev lib window
    return (mid + 2.0 * sd, mid, mid - 2.0 * sd)

structure Momentum (F : Type) where
  rsiVal : F
  macd : F
  ema12 : F
  ema26 : F
  upper : F
  mid : F
  lower : F
  bbWidth : F
  bbPos : F

def momentum (lib : Libm F) (prices : List F) : Option (Momentum F) := do
  let rsiVal ← rsi prices 14
  let ema12 ← ema prices 12
  let ema26 ← ema prices 26
  let macd := ema12 - ema26
  let (upper, mid, lower) ← bollingerBands lib prices 20
  let last ← item prices (prices.length - 1)
  let bbWidth ← (if mid ≠ 0 then divide (upper - lower) mid else some 0)
  let bbPos ← (if upper - lower ≠ 0 then divide (last - lower) (upper - lower) else some 0.5)
  return { rsiVal, macd, ema12, ema26, upper, mid, lower, bbWidth, bbPos }

/-- `fixed d` is the format with `d` digits. -/
def buildMomentumJson (fixed : ℕ → F → String) (lib : Libm F) (prices : List F) : Option String := do
  let m ← momentum lib prices
  return "\x7b\n    \"rsi_14\":" ++ fixed 2 m.rsiVal ++ ",\n    \"macd\":" ++ fixed 6 m.macd ++ ",\n    \"ema_12\":" ++
    fixed 6 m.ema12 ++ ",\n    \"ema_26\":" ++ fixed 6 m.ema26 ++ ",\n    \"bb_upper\":" ++ fixed 6 m.upper ++
    ",\n    \"bb_mid\":" ++ fixed 6 m.mid ++ ",\n    \"bb_lower\":" ++ fixed 6 m.lower ++ ",\n    \"bb_width\":" ++
    fixed 4 m.bbWidth ++ ",\n    \"bb_position\":" ++ fixed 4 m.bbPos ++ ",\n    \"engine\":\"Nim 2.2.8\"\n  \x7d"

/-- A round of `pseudoSeries`, on `result` and `x`. -/
def seriesRound [FloorRing F] (lib : Libm F) (sin : F → F) (mu sigma : F) (i : ℤ) (s : List F × F) :
    Option (List F × F) := do
  let (x, z) := noise lib sin s.2
  return (← assign s.1 i (mu / 252.0 + sigma / lib.sqrt 252.0 * z), x)

def pseudoSeries [FloorRing F] (lib : Libm F) (sin : F → F) (seed : ℤ) (n : ℕ) (mu sigma : F) : Option (List F) := do
  let (result, _) ← forRange 0 n (seriesRound lib sin mu sigma) (newSeq n, (seed : F))
  return result

def pricesRound (rets : List F) (i : ℤ) (prices : List F) : Option (List F) := do
  assign prices i ((← item prices (i - 1)) * (1.0 + (← item rets i)))

/-- The prices of the handler, which start at 100. -/
def pricesOf (rets : List F) (n : ℕ) : Option (List F) := do
  forRange 1 n (pricesRound rets) (← assign (newSeq n) 0 100.0)

/-- The branch of `handler` for the path. -/
def momentumHandler [FloorRing F] (lib : Libm F) (sin : F → F) (seed : ℤ) (n : ℕ) (mu sigma : F) :
    Option (List F × Momentum F) := do
  let rets ← pseudoSeries lib sin seed n mu sigma
  let prices ← pricesOf rets n
  return (prices, ← momentum lib prices)

end

/-! ### The bands -/

/-- How far the bands lie apart, and a price of their window from their middle. -/
structure Bands (window : List ℝ) (upper mid lower : ℝ) : Prop where
  nonempty : window ≠ []
  mean : window.sum = window.length * mid
  middle : upper + lower = 2 * mid
  ordered : lower ≤ upper
  spread : (upper - lower) ^ 2 * window.length = 16 * (window.map fun x => (x - mid) ^ 2).sum

variable {prices window : List ℝ} {upper mid lower lo hi : ℝ}

theorem length_real_pos (nonempty : window ≠ []) : (0 : ℝ) < window.length := by
  exact_mod_cast List.length_pos_of_ne_nil nonempty

theorem Bands.width_le (bands : Bands window upper mid lower) (low : ∀ x ∈ window, lo ≤ x) (high : ∀ x ∈ window, x ≤ hi) :
    (upper - lower) ^ 2 ≤ 16 * ((hi - mid) * (mid - lo)) := by
  have length := length_real_pos bands.nonempty
  have spread := sum_squares_sub_mean_le bands.mean low high
  refine le_of_mul_le_mul_right ?_ length
  rw [bands.spread]
  linarith

theorem Bands.distance_le (bands : Bands window upper mid lower) {x : ℝ} (member : x ∈ window) :
    16 * (x - mid) ^ 2 ≤ (window.length - 1) * (upper - lower) ^ 2 := by
  refine le_of_mul_le_mul_right ?_ (length_real_pos bands.nonempty)
  calc 16 * (x - mid) ^ 2 * window.length
      = 16 * ((window.length : ℝ) * (x - mid) ^ 2) := by ring
    _ ≤ 16 * (((window.length : ℝ) - 1) * (window.map fun x => (x - mid) ^ 2).sum) :=
      mul_le_mul_of_nonneg_left (sq_sub_mean_le bands.mean member) (by norm_num)
    _ = ((window.length : ℝ) - 1) * (upper - lower) ^ 2 * window.length := by
      rw [mul_assoc _ _ (window.length : ℝ), bands.spread]
      ring

theorem bands_of_window (nonempty : window ≠ []) : ∃ mid sd, mean window = some mid ∧ stdDev .real window = some sd ∧
    Bands window (mid + 2.0 * sd) mid (mid - 2.0 * sd) := by
  have length := length_real_pos nonempty
  set m := window.sum / (window.length : ℝ) with m_eq
  set v : ℝ := (window.map fun x => (x - m) ^ 2).sum / (window.length : ℝ) with v_eq
  have v_nonneg : 0 ≤ v := div_nonneg (sum_squares_nonneg _ window) length.le
  have dev : stdDev .real window = some √v := by
    rw [stdDev, variance_eq nonempty]
    rfl
  have two : (2.0 : ℝ) = 2 := by norm_num
  have root := Real.sqrt_nonneg v
  refine ⟨m, √v, mean_eq nonempty, dev, nonempty, ?_, ?_, ?_, ?_⟩
  · rw [m_eq, mul_div_cancel₀ _ length.ne']
  · rw [two]
    ring
  · rw [two]
    linarith
  · have apart : (m + 2.0 * √v - (m - 2.0 * √v)) ^ 2 = 16 * √v ^ 2 := by rw [two]; ring
    rw [apart, Real.sq_sqrt v_nonneg, mul_assoc, v_eq, div_mul_cancel₀ _ length.ne']

theorem slice_last {k : ℕ} (enough : k ≤ prices.length) (positive : 0 < k) :
    slice prices (prices.length - k) (prices.length - 1) = some (prices.drop (prices.length - k)) := by
  have from_start : ((prices.length : ℤ) - k).toNat = prices.length - k := by omega
  have whole : ((prices.length : ℤ) - 1 + 1 - (prices.length - k)).toNat = k := by omega
  rw [slice, if_pos (by omega), from_start, whole, List.take_of_length_le (by rw [List.length_drop]; omega)]

theorem bollingerBands_short (nonempty : prices ≠ []) (short : prices.length < 20) :
    ∃ m, mean prices = some m ∧ bollingerBands .real prices 20 = some (m, m, m) := by
  refine ⟨_, mean_eq nonempty, ?_⟩
  rw [bollingerBands, if_pos (by omega), mean_eq nonempty]
  rfl

theorem bollingerBands_window (enough : 20 ≤ prices.length) :
    ∃ upper mid lower, bollingerBands .real prices 20 = some (upper, mid, lower) ∧
      Bands (prices.drop (prices.length - 20)) upper mid lower := by
  have nonempty : prices.drop (prices.length - 20) ≠ [] := by
    rw [ne_eq, List.drop_eq_nil_iff]
    omega
  obtain ⟨mid, sd, mean_some, dev, bands⟩ := bands_of_window nonempty
  refine ⟨_, mid, _, ?_, bands⟩
  have window := slice_last enough (by decide : 0 < 20)
  rw [bollingerBands, if_neg (by omega)]
  rw [show ((prices.length : ℤ) - 20) = prices.length - (20 : ℕ) from rfl, window]
  show (mean _).bind _ = _
  rw [mean_some]
  show (stdDev _ _).bind _ = _
  rw [dev]
  rfl

/-! ### The indicators -/

/-- The last price lies at most `√19 / 4` of the bands' distance off their middle. -/
structure Bounded (prices : List ℝ) (m : Momentum ℝ) : Prop where
  rsi : m.rsiVal ∈ Set.Icc 0 100
  averages : ∀ lo hi, (∀ p ∈ prices, lo ≤ p ∧ p ≤ hi) → m.ema12 ∈ Set.Icc lo hi ∧ m.ema26 ∈ Set.Icc lo hi ∧
    m.mid ∈ Set.Icc lo hi ∧ |m.macd| ≤ hi - lo ∧ m.upper - m.lower ≤ 2 * (hi - lo)
  bands : m.lower ≤ m.mid ∧ m.mid ≤ m.upper
  position : |m.bbPos - 1 / 2| ≤ √19 / 4
  width : (∀ p ∈ prices, 0 < p) → 0 ≤ m.bbWidth ∧ m.bbWidth ≤ 4 * √19
  few : prices.length < 20 → m.bbPos = 1 / 2 ∧ m.bbWidth = 0

theorem last_item (nonempty : prices ≠ []) : ∃ x, item prices (prices.length - 1) = some x ∧
    ∀ k < prices.length, x ∈ prices.drop k := by
  have length := List.length_pos_of_ne_nil nonempty
  have index : ((prices.length : ℤ) - 1) = (prices.length - 1 : ℕ) := by omega
  refine ⟨prices[prices.length - 1], by rw [index, item_natCast, List.getElem?_eq_getElem], fun k inside => ?_⟩
  rw [List.mem_drop_iff_getElem]
  exact ⟨prices.length - 1 - k, by omega, by congr 1; omega⟩

theorem centred : |(0.5 : ℝ) - 1 / 2| ≤ √19 / 4 := by
  rw [show (0.5 : ℝ) - 1 / 2 = 0 by norm_num, abs_zero]
  positivity

/-- The width and the position, given the bands and the last price. -/
theorem place_bounded (bands : Bands window upper mid lower) (twenty : window.length = 20) {last : ℝ}
    (member : last ∈ window) : ∃ width place,
      (if mid ≠ 0 then divide (upper - lower) mid else some 0) = some width ∧
      (if upper - lower ≠ 0 then divide (last - lower) (upper - lower) else some 0.5) = some place ∧
      |place - 1 / 2| ≤ √19 / 4 ∧ ((∀ p ∈ window, 0 < p) → 0 ≤ width ∧ width ≤ 4 * √19) := by
  have root := Real.sqrt_nonneg 19
  have square : √19 ^ 2 = 19 := Real.sq_sqrt (by norm_num)
  have twenty : (window.length : ℝ) = 20 := by exact_mod_cast twenty
  have wide := sub_nonneg.mpr bands.ordered
  have placed : ∃ place, (if upper - lower ≠ 0 then divide (last - lower) (upper - lower) else some 0.5) = some place ∧
      |place - 1 / 2| ≤ √19 / 4 := by
    by_cases flat : upper - lower = 0
    · exact ⟨0.5, if_neg (by simpa using flat), centred⟩
    · refine ⟨_, (if_pos flat).trans (divide_of_ne flat), ?_⟩
      have positive : 0 < upper - lower := lt_of_le_of_ne wide (Ne.symm flat)
      have centre : (last - lower) / (upper - lower) - 1 / 2 = (last - mid) / (upper - lower) := by
        have := bands.middle
        rw [div_sub_div _ _ flat two_ne_zero, div_eq_div_iff (mul_ne_zero flat two_ne_zero) flat]
        linear_combination -(upper - lower) * this
      rw [centre, abs_div, abs_of_pos positive, div_le_iff₀ positive]
      have far := bands.distance_le member
      rw [twenty] at far
      refine abs_le_of_sq_le_sq ?_ (by positivity)
      rw [mul_pow, div_pow, square]
      linarith
  have widths : ∃ width, (if mid ≠ 0 then divide (upper - lower) mid else some 0) = some width ∧
      ((∀ p ∈ window, 0 < p) → 0 ≤ width ∧ width ≤ 4 * √19) := by
    by_cases zero : mid = 0
    · exact ⟨0, if_neg (by simpa using zero), fun _ => ⟨le_rfl, by positivity⟩⟩
    · refine ⟨_, (if_pos zero).trans (divide_of_ne zero), fun positive => ?_⟩
      have nonneg : ∀ p ∈ window, 0 ≤ p := fun p member => (positive p member).le
      have above := (mean_between bands.nonempty bands.mean nonneg
        fun p member => List.single_le_sum nonneg p member).1
      have middle : 0 < mid := lt_of_le_of_ne above (Ne.symm zero)
      have apart := bands.width_le nonneg fun p member => List.single_le_sum nonneg p member
      rw [bands.mean, twenty] at apart
      refine ⟨div_nonneg wide above, ?_⟩
      rw [div_le_iff₀ middle, ← sq_le_sq₀ wide (by positivity), mul_pow, mul_pow, square]
      linarith
  obtain ⟨place, place_eq, near⟩ := placed
  obtain ⟨width, width_eq, narrow⟩ := widths
  exact ⟨width, place, width_eq, place_eq, near, narrow⟩

theorem ema_between (nonempty : prices ≠ []) (period : ℤ) : ∃ e, ema prices period = some e ∧
    ∀ lo hi, (∀ p ∈ prices, lo ≤ p ∧ p ≤ hi) → e ∈ Set.Icc lo hi := by
  -- That the average exists takes some bounds; the least and the greatest price will do.
  obtain ⟨e, -, computed⟩ := ema_mem nonempty (fun p member => List.minimum_of_length_pos_le_of_mem member
    (List.length_pos_of_ne_nil nonempty)) (fun p member => List.le_maximum_of_length_pos_of_mem member
    (List.length_pos_of_ne_nil nonempty)) period
  refine ⟨e, computed, fun lo hi between => ?_⟩
  obtain ⟨e', within, computed'⟩ := ema_mem nonempty (fun p member => (between p member).1)
    (fun p member => (between p member).2) period
  exact Option.some.inj (computed.symm.trans computed') ▸ within

theorem momentum_eq {r ema12 ema26 last width place : ℝ} (rsi_eq : rsi prices 14 = some r)
    (ema12_eq : ema prices 12 = some ema12) (ema26_eq : ema prices 26 = some ema26)
    (bands_eq : bollingerBands .real prices 20 = some (upper, mid, lower))
    (last_eq : item prices (prices.length - 1) = some last)
    (width_eq : (if mid ≠ 0 then divide (upper - lower) mid else some 0) = some width)
    (place_eq : (if upper - lower ≠ 0 then divide (last - lower) (upper - lower) else some 0.5) = some place) :
    momentum .real prices = some ⟨r, ema12 - ema26, ema12, ema26, upper, mid, lower, width, place⟩ := by
  simp only [momentum, rsi_eq, ema12_eq, ema26_eq, bands_eq, last_eq, Option.bind_eq_bind, Option.bind_some, width_eq,
    place_eq, Option.pure_def]

theorem momentum_bounded (nonempty : prices ≠ []) : ∃ m, momentum .real prices = some m ∧ Bounded prices m := by
  obtain ⟨r, r_mem, rsi_eq⟩ := rsi_mem (F := ℝ) (by decide : (1 : ℤ) ≤ 14) prices
  obtain ⟨ema12, ema12_eq, ema12_mem⟩ := ema_between nonempty 12
  obtain ⟨ema26, ema26_eq, ema26_mem⟩ := ema_between nonempty 26
  obtain ⟨last, last_eq, last_mem⟩ := last_item nonempty
  have macd : ∀ lo hi, (∀ p ∈ prices, lo ≤ p ∧ p ≤ hi) → |ema12 - ema26| ≤ hi - lo := by
    intro lo hi between
    obtain ⟨low, high⟩ := ema12_mem lo hi between
    obtain ⟨low', high'⟩ := ema26_mem lo hi between
    rw [abs_le]
    constructor <;> linarith
  by_cases short : prices.length < 20
  · obtain ⟨mid, mean_some, bands_eq⟩ := bollingerBands_short nonempty short
    have width : (if mid ≠ 0 then divide (mid - mid) mid else some 0) = some 0 := by
      split
      · rename_i zero
        rw [divide_of_ne zero, sub_self, zero_div]
      · rfl
    have place : (if mid - mid ≠ 0 then divide (last - mid) (mid - mid) else some 0.5) = some 0.5 := by simp
    refine ⟨_, momentum_eq rsi_eq ema12_eq ema26_eq bands_eq last_eq width place, r_mem, fun lo hi between => ?_,
      ⟨le_rfl, le_rfl⟩, centred, fun _ => ⟨le_rfl, by positivity⟩, fun _ => ⟨by norm_num, rfl⟩⟩
    have total : prices.sum = prices.length * mid := by
      have same := Option.some.inj ((mean_eq nonempty).symm.trans mean_some)
      rw [← same, mul_div_cancel₀ _ (length_real_pos nonempty).ne']
    have middle := mean_between nonempty total (fun p member => (between p member).1)
      fun p member => (between p member).2
    refine ⟨ema12_mem lo hi between, ema26_mem lo hi between, middle, macd lo hi between, ?_⟩
    show mid - mid ≤ _
    linarith [middle.1, middle.2]
  · obtain ⟨upper, mid, lower, bands_eq, bands⟩ := bollingerBands_window (not_lt.mp short)
    have inside : ∀ p ∈ prices.drop (prices.length - 20), p ∈ prices := fun p member => List.mem_of_mem_drop member
    obtain ⟨width, place, width_eq, place_eq, near, narrow⟩ := place_bounded bands
      (by rw [List.length_drop]; omega) (last_mem (prices.length - 20) (by omega))
    have ordered := bands.ordered
    have middle := bands.middle
    refine ⟨_, momentum_eq rsi_eq ema12_eq ema26_eq bands_eq last_eq width_eq place_eq, r_mem, fun lo hi between => ?_,
      ⟨by show lower ≤ mid; linarith, by show mid ≤ upper; linarith⟩, near,
      fun positive => narrow fun p member => positive p (inside p member), fun few => absurd few short⟩
    have low := fun p member => (between p (inside p member)).1
    have high := fun p member => (between p (inside p member)).2
    obtain ⟨mid_low, mid_high⟩ := mean_between bands.nonempty bands.mean low high
    refine ⟨ema12_mem lo hi between, ema26_mem lo hi between, ⟨mid_low, mid_high⟩, macd lo hi between, ?_⟩
    have apart := bands.width_le low high
    have wide : 0 ≤ upper - lower := sub_nonneg.mpr ordered
    rw [← sq_le_sq₀ wide (by linarith)]
    have parts := four_mul_le_sq_add (hi - mid) (mid - lo)
    rw [sub_add_sub_cancel] at parts
    linarith

/-! ### The path -/

theorem assign_inside {arr : List ℝ} {i : ℤ} (low : 0 ≤ i) (high : i < arr.length) (x : ℝ) :
    assign arr i x = some (arr.set i.toNat x) := if_pos ⟨low, high⟩

/-- A shock is less than 8. -/
theorem noise_small (sin : ℝ → ℝ) (x : ℝ) : (noise .real sin x).2 ^ 2 ≤ 60 := by
  unfold noise
  dsimp only
  set y := sin (x * 12.9898 + 78.233) * 43758.5453
  have nonneg := Int.fract_nonneg y
  rw [← Int.self_sub_floor] at nonneg
  set c := Libm.real.cos (2.0 * 3.141592653589793 * (sin ((y - ⌊y⌋) * 93.9898 + 67.345) * 43758.5453 -
    ⌊sin ((y - ⌊y⌋) * 93.9898 + 67.345) * 43758.5453⌋)) with c_eq
  have cosine : c ^ 2 ≤ 1 := Real.cos_sq_le_one _
  have ten : Real.log 10 ≤ 3 := by
    rw [Real.log_le_iff_le_exp (by norm_num)]
    have half := Real.add_one_le_exp (1 / 2)
    have three : Real.exp 3 = Real.exp (1 / 2) ^ 6 := by rw [← Real.exp_nat_mul]; norm_num
    rw [three]
    calc (10 : ℝ) ≤ (1 / 2 + 1) ^ 6 := by norm_num
      _ ≤ Real.exp (1 / 2) ^ 6 := pow_le_pow_left₀ (by norm_num) half 6
  -- The summand keeps the logarithm away from zero, so the radius stays below √60.
  have least : -30 ≤ Real.log (y - ⌊y⌋ + 1e-10) := by
    have tiny : Real.log (1e-10 : ℝ) = -(10 * Real.log 10) := by
      rw [show (1e-10 : ℝ) = (10 ^ 10)⁻¹ by norm_num, Real.log_inv, Real.log_pow]
      norm_num
    have below : Real.log (1e-10 : ℝ) ≤ Real.log (y - ⌊y⌋ + 1e-10) :=
      Real.log_le_log (by norm_num) (by linarith)
    linarith
  have radius : Libm.real.sqrt (-2.0 * Libm.real.log (y - ⌊y⌋ + 1e-10)) ^ 2 ≤ 60 := by
    have two : (2.0 : ℝ) = 2 := by norm_num
    show √(-2.0 * Real.log (y - ⌊y⌋ + 1e-10)) ^ 2 ≤ 60
    rcases le_total 0 (-2.0 * Real.log (y - ⌊y⌋ + 1e-10)) with real | imaginary
    · rw [Real.sq_sqrt real, two]
      linarith
    · rw [Real.sqrt_eq_zero_of_nonpos imaginary]
      norm_num
  rw [mul_pow]
  exact (mul_le_mul radius cosine (sq_nonneg _) (by norm_num)).trans_eq (mul_one 60)

theorem return_above {mu sigma z : ℝ} (drift : -126 ≤ mu) (volatility : |sigma| ≤ 1) (shock : z ^ 2 ≤ 60) :
    -1 < mu / 252.0 + sigma / Libm.real.sqrt 252.0 * z := by
  have days : (252.0 : ℝ) = 252 := by norm_num
  have drift' : -(1 / 2) ≤ mu / 252.0 := by
    rw [days, le_div_iff₀ (by norm_num)]
    linarith
  have square : (sigma / Libm.real.sqrt 252.0 * z) ^ 2 ≤ 60 / 252 := by
    show (sigma / √252.0 * z) ^ 2 ≤ 60 / 252
    rw [days, mul_pow, div_pow, Real.sq_sqrt (by norm_num), div_mul_eq_mul_div]
    refine div_le_div_of_nonneg_right ?_ (by norm_num)
    have one : sigma ^ 2 ≤ 1 := (sq_le_one_iff_abs_le_one sigma).mpr volatility
    nlinarith [sq_nonneg z]
  have near : -(1 / 2) < sigma / Libm.real.sqrt 252.0 * z := by
    have := abs_lt_of_sq_lt_sq (square.trans_lt (by norm_num : (60 / 252 : ℝ) < (1 / 2) ^ 2)) (by norm_num)
    exact (abs_lt.mp this).1
  linarith

theorem pseudoSeries_some (sin : ℝ → ℝ) (seed : ℤ) (n : ℕ) (mu sigma : ℝ) : ∃ rets,
    pseudoSeries .real sin seed n mu sigma = some rets ∧ rets.length = n ∧
      (-126 ≤ mu → |sigma| ≤ 1 → ∀ r ∈ rets, -1 < r) := by
  obtain ⟨⟨rets, x⟩, ran, length, above⟩ := forRange_keeps 0 n (seriesRound .real sin mu sigma) (newSeq n, (seed : ℝ))
    (fun _ s => s.1.length = n ∧ (-126 ≤ mu → |sigma| ≤ 1 → ∀ r ∈ s.1, -1 < r)) (Int.natCast_nonneg n)
    ⟨List.length_replicate, fun _ _ r member => by rw [List.eq_of_mem_replicate member]; norm_num⟩
    fun i s low high ⟨length, above⟩ => by
      have inside : i < s.1.length := by rw [length]; exact high
      refine ⟨(s.1.set i.toNat (mu / 252.0 + sigma / Libm.real.sqrt 252.0 * (noise .real sin s.2).2),
        (noise .real sin s.2).1), ?_, (List.length_set ..).trans length, ?_⟩
      · show (assign s.1 i _).bind _ = _
        rw [assign_inside low inside]
        rfl
      · intro drift volatility r member
        rcases List.mem_or_eq_of_mem_set member with old | rfl
        · exact above drift volatility r old
        · exact return_above drift volatility (noise_small sin s.2)
  refine ⟨rets, ?_, length, above⟩
  rw [pseudoSeries, ran]
  rfl

theorem pricesOf_some {rets : List ℝ} {n : ℕ} (length : rets.length = n) (some_day : 1 ≤ n) : ∃ prices,
    pricesOf rets n = some prices ∧ prices.length = n ∧ prices[0]? = some 100 ∧
      ((∀ r ∈ rets, -1 < r) → ∀ p ∈ prices, 0 < p) := by
  have hundred : (100.0 : ℝ) = 100 := by norm_num
  have first : assign (newSeq n) 0 (100.0 : ℝ) = some ((newSeq n).set 0 100) := by
    rw [assign_inside le_rfl (by rw [newSeq, List.length_replicate]; omega), hundred]
    rfl
  obtain ⟨prices, ran, long, start, path⟩ := forRange_keeps 1 n (pricesRound rets) ((newSeq n).set 0 100)
    (fun i prices => prices.length = n ∧ prices[0]? = some 100 ∧
      ((∀ r ∈ rets, -1 < r) → ∀ k : ℕ, k < i → ∀ p ∈ prices[k]?, 0 < p)) (by omega)
    ⟨by rw [List.length_set, newSeq, List.length_replicate],
      List.getElem?_set_self (by rw [newSeq, List.length_replicate]; omega), fun _ k low p at_k => by
        obtain rfl : k = 0 := by omega
        rw [List.getElem?_set_self (by rw [newSeq, List.length_replicate]; omega)] at at_k
        obtain rfl : (100 : ℝ) = p := by simpa using at_k
        norm_num⟩
    fun i prices low high ⟨long, start, path⟩ => by
      lift i to ℕ using by omega
      have before : item prices ((i : ℤ) - 1) = prices[i - 1]? := by
        rw [show (i : ℤ) - 1 = (i - 1 : ℕ) by omega, item_natCast]
      obtain ⟨p, previous⟩ : ∃ p, prices[i - 1]? = some p := ⟨_, List.getElem?_eq_getElem (by omega)⟩
      obtain ⟨r, r_mem, today⟩ := item_mem rets i (Int.natCast_nonneg i) (by rw [length]; exact high)
      refine ⟨prices.set i (p * (1.0 + r)), ?_, ?_, ?_, ?_⟩
      · rw [pricesRound, before, previous, today]
        exact assign_inside (Int.natCast_nonneg i) (by rw [long]; exact high) _
      · rw [List.length_set, long]
      · rw [List.getElem?_set_ne (by omega), start]
      · intro above k below q at_k
        by_cases last : k = i
        · subst k
          rw [List.getElem?_set_self (by omega)] at at_k
          obtain rfl : p * (1.0 + r) = q := by simpa using at_k
          have positive := path above (i - 1) (by omega) p previous
          have factor := above r r_mem
          exact mul_pos positive (by norm_num; linarith)
        · rw [List.getElem?_set_ne (Ne.symm last)] at at_k
          exact path above k (by omega) q at_k
  refine ⟨prices, ?_, long, start, fun above p member => ?_⟩
  · rw [pricesOf, first]
    exact ran
  · obtain ⟨k, inside, rfl⟩ := List.getElem_of_mem member
    exact path above k (by omega) _ (List.getElem?_eq_getElem inside)

end PolyglotInfinity.AnalyticsNim
