import PolyglotInfinity.QuantV.Accounts

/-!
# Results of the backtester

Every run over a series ends, and its result is that of the strategy.
-/

namespace PolyglotInfinity.QuantV

variable {F : Type} [Field F] {prices : List F} {fast slow : ℕ}

/-! ### Runs -/

def priceAt (prices : List F) (k : ℕ) : F := prices[k]?.getD 0

theorem item_priceAt {k : ℕ} (inside : k < prices.length) : item prices k = some (priceAt prices k) := by
  rw [item_natCast, priceAt, List.getElem?_eq_getElem inside, Option.getD_some]

theorem movingAverage_eq {period i : ℕ} (first : period ≤ i) (inside : i ≤ prices.length) :
    movingAverage prices period i = some (mean (priceAt prices) period i) := by
  have window : ((i : ℤ) - (i - period)).toNat = period := by omega
  rw [movingAverage, forRange_sum (fun k => priceAt prices (i - period + k)) 0, window, zero_add, Int.cast_natCast]
  · rfl
  · intro k before sum
    have index : (i : ℤ) - period + k = (i - period + k : ℕ) := by omega
    have k_lt : i - period + k < prices.length := by omega
    rw [index, item_priceAt k_lt]
    rfl

variable [LinearOrder F]

/-- The peak and the worst fall of the net asset value after the first `n` steps. -/
structure Tracked (s : State F) (path : ℕ → F) (n : ℕ) : Prop where
  peak : IsGreatest (Drawdown.levels path n) s.peak
  maxDd : IsGreatest (Drawdown.falls Drawdown.relative path n) s.maxDd

theorem Tracked.start {path : ℕ → F} (start : path 0 = 1) : Tracked State.start path 0 where
  peak := by
    have highest : IsGreatest (Drawdown.levels path 0) (path 0) := Drawdown.levels_zero
    rwa [start] at highest
  maxDd := by
    have greatest : IsGreatest (Drawdown.falls Drawdown.relative path 0) _ := Drawdown.falls_zero
    rwa [Drawdown.relative_self] at greatest

theorem Tracked.track {s t : State F} {path : ℕ → F} {n : ℕ} (tracked : Tracked s path n) (peak : t.peak = s.peak)
    (maxDd : t.maxDd = s.maxDd) (nav : t.nav = path (n + 1)) : Tracked t.track path (n + 1) := by
  have top : t.track.peak = max s.peak (path (n + 1)) := by
    rw [max_def_lt, ← peak, ← nav]
    rfl
  have worst : t.track.maxDd = max s.maxDd (Drawdown.relative t.track.peak (path (n + 1))) := by
    rw [max_def_lt, ← maxDd, ← nav]
    rfl
  have highest := Drawdown.levels_succ tracked.peak
  rw [← top] at highest
  refine ⟨highest, ?_⟩
  rw [worst]
  exact Drawdown.falls_succ highest tracked.maxDd

theorem State.change_peak (s : State F) (position : ℤ) (price : F) :
    (s.change position price).peak = s.peak ∧ (s.change position price).maxDd = s.maxDd := by
  unfold State.change
  split
  · exact ⟨rfl, rfl⟩
  · cases s.booked position price with
    | none => exact ⟨rfl, rfl⟩
    | some pnl => exact ⟨rfl, rfl⟩

/-- The state after the first `n` steps is that of the strategy. -/
structure Simulates (prices : List F) (fast slow n : ℕ) (s : State F) : Prop where
  accounts : Accounts s (history (priceAt prices) fast slow n)
  tracked : Tracked s (navPath (priceAt prices) fast slow) n

theorem Simulates.start : Simulates prices fast slow 0 State.start :=
  ⟨.start, .start rfl⟩

theorem Simulates.tick {s : State F} {n : ℕ} (simulates : Simulates prices fast slow n s) (faster : fast ≤ slow)
    (inside : slow + n < prices.length) :
    ∃ s', tick prices fast slow (slow + n : ℕ) s = some s' ∧ Simulates prices fast slow (n + 1) s' := by
  have next := tick_eq (s := s) (movingAverage_eq (by omega : fast ≤ slow + n) inside.le)
    (movingAverage_eq (by omega : slow ≤ slow + n) inside.le) (item_priceAt inside)
  have accounts := simulates.accounts.change (priceAt prices (slow + n)) (mean (priceAt prices) fast (slow + n))
    (mean (priceAt prices) slow (slow + n))
  obtain ⟨peak, maxDd⟩ := State.change_peak s _ _
  exact ⟨_, next, accounts.track, simulates.tracked.track peak maxDd accounts.nav⟩

theorem trade_simulates (faster : fast ≤ slow) (prices : List F) :
    ∃ s, trade prices fast slow prices.length = some s ∧ Simulates prices fast slow (prices.length - slow) s := by
  rcases le_total slow prices.length with le | none_left
  · obtain ⟨s, ran, simulates⟩ := forRange_keeps slow prices.length (tick prices fast slow) State.start
      (fun i t => Simulates prices fast slow (i - slow).toNat t) (by omega)
      (by rw [sub_self]; exact .start) fun i t low high simulates => by
        obtain ⟨n, rfl⟩ := Int.le.dest low
        have index : ((slow : ℤ) + n - slow).toNat = n := by omega
        have later : ((slow : ℤ) + n + 1 - slow).toNat = n + 1 := by omega
        rw [index] at simulates
        rw [later]
        exact_mod_cast simulates.tick faster (by omega)
    have steps : ((prices.length : ℤ) - slow).toNat = prices.length - slow := by omega
    rw [steps] at simulates
    exact ⟨s, ran, simulates⟩
  · have steps : prices.length - slow = 0 := by omega
    rw [steps]
    exact ⟨_, forRange_empty (by omega), .start⟩

theorem history_positive (positive : ∀ price ∈ prices, 0 < price) :
    ∀ e ∈ history (priceAt prices) fast slow (prices.length - slow), 0 < e.price := by
  intro e member
  obtain ⟨k, k_lt, at_price⟩ := mem_history member
  have index : slow + k < prices.length := by omega
  rw [at_price, priceAt, List.getElem?_eq_getElem index]
  exact positive _ (List.getElem_mem index)

/-! ### Generated prices -/

/-- The prices with an index below `i` are positive. -/
structure Generated (ticks i : ℤ) (prices : List F) : Prop where
  length : prices.length = ticks
  positive : ∀ k : ℕ, k < i → ∃ price, prices[k]? = some price ∧ 0 < price

theorem Generated.assign {ticks i : ℤ} {prices : List F} (generated : Generated ticks i prices) (i_nonneg : 0 ≤ i)
    (inside : i < ticks) {price : F} (price_pos : 0 < price) :
    ∃ prices', assign prices i price = some prices' ∧ Generated ticks (i + 1) prices' := by
  obtain ⟨n, rfl⟩ := Int.eq_ofNat_of_zero_le i_nonneg
  have length := generated.length
  refine ⟨prices.set n price, ?_, ?_, fun k before => ?_⟩
  · rw [QuantV.assign, if_pos (by omega), Int.toNat_natCast]
  · rw [List.length_set, length]
  · rw [List.getElem?_set]
    by_cases last : n = k
    · rw [if_pos last, if_pos (by omega)]
      exact ⟨price, rfl, price_pos⟩
    · rw [if_neg last]
      exact generated.positive k (by omega)

theorem Generated.all_positive {ticks : ℤ} {prices : List F} (generated : Generated ticks ticks prices) :
    ∀ price ∈ prices, 0 < price := by
  intro price member
  have length := generated.length
  obtain ⟨k, k_lt, rfl⟩ := List.mem_iff_getElem.mp member
  obtain ⟨price, read, price_pos⟩ := generated.positive k (by omega)
  rw [List.getElem?_eq_getElem k_lt, Option.some.injEq] at read
  rwa [read]

variable [IsStrictOrderedRing F]

theorem Generated.round (lib : Libm F) (exp_pos : ∀ x, 0 < lib.exp x) {ticks i : ℤ} {st : List F × UInt64}
    (generated : Generated ticks i st.1) (started : 1 ≤ i) (inside : i < ticks) :
    ∃ st', seriesRound lib i st = some st' ∧ Generated ticks (i + 1) st'.1 := by
  obtain ⟨n, before⟩ := Int.eq_ofNat_of_zero_le (by omega : 0 ≤ i - 1)
  obtain ⟨price, read, price_pos⟩ := generated.positive n (by omega)
  have next_pos (z : F) : 0 < price * lib.exp (0.0002 + 0.015 / lib.sqrt 252.0 * z) := mul_pos price_pos (exp_pos _)
  unfold seriesRound
  obtain ⟨z, seed⟩ := lcgNormal lib st.2
  obtain ⟨prices, written, generated'⟩ := generated.assign (by omega) inside (next_pos z)
  refine ⟨(prices, seed), ?_, generated'⟩
  rw [before, item_natCast, read]
  show (QuantV.assign _ _ _).bind _ = _
  rw [written]
  rfl

theorem series_positive (lib : Libm F) (exp_pos : ∀ x, 0 < lib.exp x) {ticks : ℤ} (ticks_pos : 0 < ticks)
    (seed : UInt64) :
    ∃ prices, series lib ticks seed = some prices ∧ prices.length = ticks ∧ ∀ price ∈ prices, 0 < price := by
  have zeros : Generated ticks 0 (List.replicate ticks.toNat (0 : F)) := by
    refine ⟨?_, fun k before => absurd before (by omega)⟩
    rw [List.length_replicate]
    omega
  obtain ⟨prices, first, generated⟩ := zeros.assign le_rfl ticks_pos (by norm_num : (0 : F) < 100.0)
  obtain ⟨st, ran, generated⟩ := forRange_keeps 1 ticks (seriesRound lib) (prices, seed)
    (fun i st => Generated ticks i st.1) (by omega) generated fun _ _ low high generated =>
      generated.round lib exp_pos low high
  refine ⟨st.1, ?_, generated.length, generated.all_positive⟩
  rw [series, first]
  show (forRange 1 ticks (seriesRound lib) (prices, seed)).bind _ = _
  rw [ran]
  rfl

/-! ### Requests -/

/-- The bounds on the parameters. -/
theorem backtestParams_bounds (int : String → ℤ) (query : String) :
    100 ≤ (backtestParams int query).ticks ∧ 2 ≤ (backtestParams int query).fast ∧
      (backtestParams int query).fast < (backtestParams int query).slow := by
  unfold backtestParams
  dsimp only
  refine ⟨?_, ?_, ?_⟩
  · split_ifs
    all_goals omega
  · split_ifs
    all_goals omega
  · split_ifs
    all_goals omega

/-- Every backtest of a request runs to its end, and its figures are those of the trades. -/
theorem backtest_accounts (int : String → ℤ) (query : String) :
    let p := backtestParams int query
    (∃ prices, series .real p.ticks p.seed = some prices ∧ prices.length = p.ticks ∧ ∀ price ∈ prices, 0 < price) ∧
    ∀ prices : List ℝ, prices.length = p.ticks → (∀ price ∈ prices, 0 < price) →
      let path := navPath (priceAt prices) p.fast.toNat p.slow.toNat
      let steps := (p.ticks - p.slow).toNat
      let entries := history (priceAt prices) p.fast.toNat p.slow.toNat steps
      (∀ e ∈ entries, 0 < e.price) ∧
      ∃ s, trade prices p.fast p.slow p.ticks = some s ∧
        let r := s.result .real p.fast p.slow p.ticks
        backtest .real prices p.fast p.slow p.ticks = some r ∧
        r.trades = (closed entries).length + (if s.position = 0 then 0 else 1) ∧
        r.winTrades + r.lossTrades = (closed entries).length ∧
        s.nav = ((closed entries).map (1 + ·)).prod ∧
        r.totalReturn = (closed entries).sum ∧
        0 ≤ r.winRate ∧ r.winRate ≤ 1 ∧
        IsGreatest (Drawdown.falls Drawdown.relative path steps) r.maxDd ∧
        0 ≤ s.retVar := by
  intro p
  have bounds : 100 ≤ p.ticks ∧ 2 ≤ p.fast ∧ p.fast < p.slow := backtestParams_bounds int query
  clear_value p
  obtain ⟨ticks, fast, slow, seed⟩ := p
  obtain ⟨several, fast_ge, faster⟩ := bounds
  dsimp only at several fast_ge faster ⊢
  refine ⟨series_positive .real Real.exp_pos (by omega) seed, ?_⟩
  intro prices length positive
  obtain ⟨fast, rfl⟩ := Int.eq_ofNat_of_zero_le (by omega : 0 ≤ fast)
  obtain ⟨slow, rfl⟩ := Int.eq_ofNat_of_zero_le (by omega : 0 ≤ slow)
  subst length
  have steps : ((prices.length : ℤ) - slow).toNat = prices.length - slow := by omega
  obtain ⟨s, ran, simulates⟩ := trade_simulates (by omega : fast ≤ slow) prices
  have accounts := simulates.accounts
  obtain ⟨winRate_nonneg, winRate_le⟩ := accounts.winRate_mem
  rw [steps, Int.toNat_natCast, Int.toNat_natCast]
  refine ⟨history_positive positive, s, ran, ?_, accounts.trades_eq, accounts.settled, accounts.nav,
    accounts.totalReturn, winRate_nonneg, winRate_le, simulates.tracked.maxDd, accounts.retVar_nonneg⟩
  rw [backtest, ran]
  rfl

end PolyglotInfinity.QuantV
