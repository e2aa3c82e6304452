import PolyglotInfinity.QuantV.Rounds

/-!
# Looking ahead

Two runs over series that agree before a step hold the same position after it, and book the
same profit at it when they agree at it too.
-/

namespace PolyglotInfinity.QuantV

variable {F : Type} [Zero F] [One F] [Add F] [Sub F] [Mul F] [Div F] [IntCast F] [LT F] [DecidableLT F]
variable {prices prices' : List F} {fast slow i : ℤ}

/-- The profit that step `i` books, if it closes a position. -/
def profitAt (prices : List F) (fast slow i : ℤ) : Option F := do
  let s ← trade prices fast slow i
  let fastMa ← movingAverage prices fast i
  let slowMa ← movingAverage prices slow i
  let price ← item prices i
  s.booked (nextPosition fastMa slowMa s.position) price

/-- What a step books goes into the totals. -/
theorem profitAt_booked (fast_pos : 0 < fast) (faster : fast < slow) (started : slow ≤ i) (inside : i < prices.length) :
    ∃ before after, trade prices fast slow i = some before ∧ trade prices fast slow (i + 1) = some after ∧
      after.totalReturn = (before.book (profitAt prices fast slow i)).totalReturn ∧
      after.nav = (before.book (profitAt prices fast slow i)).nav := by
  obtain ⟨s, fastMa, slowMa, price, -, before, fast_average, slow_average, read, after⟩ :=
    trade_step fast_pos faster started inside
  have profit : profitAt prices fast slow i = s.booked (nextPosition fastMa slowMa s.position) price := by
    rw [profitAt, before, fast_average, slow_average, read]
    rfl
  refine ⟨s, _, before, after, ?_⟩
  rw [profit]
  unfold State.change State.booked
  split
  · exact ⟨rfl, rfl⟩
  · exact ⟨rfl, rfl⟩

theorem profitAt_congr (agree : AgreeBefore prices prices' (i + 1)) :
    profitAt prices fast slow i = profitAt prices' fast slow i := by
  have before : AgreeBefore prices prices' i := agree.mono (by omega)
  unfold profitAt
  rw [trade_congr before, movingAverage_congr before, movingAverage_congr before, agree i (by omega)]

theorem position_congr (fast_pos : 0 < fast) (faster : fast < slow) (started : slow ≤ i) (inside : i < prices.length)
    (inside' : i < prices'.length) (agree : AgreeBefore prices prices' i) :
    ∃ s s', trade prices fast slow (i + 1) = some s ∧ trade prices' fast slow (i + 1) = some s' ∧
      s.position = s'.position := by
  obtain ⟨s, fastMa, slowMa, price, -, ran, fast_average, slow_average, -, next⟩ :=
    trade_step fast_pos faster started inside
  obtain ⟨s', fastMa', slowMa', price', -, ran', fast_average', slow_average', -, next'⟩ :=
    trade_step fast_pos faster started inside'
  rw [trade_congr agree, ran'] at ran
  rw [movingAverage_congr agree, fast_average'] at fast_average
  rw [movingAverage_congr agree, slow_average'] at slow_average
  cases ran
  cases fast_average
  cases slow_average
  refine ⟨_, _, next, next', ?_⟩
  exact (State.change_position _).trans (State.change_position _).symm

/-- The position after a step depends on the prices before it, what it books on no later price than its own. -/
theorem backtest_never_looks_ahead (prices prices' : List F) (fast slow i : ℤ) (fast_pos : 0 < fast)
    (faster : fast < slow) (started : slow ≤ i) (inside : i < prices.length) (inside' : i < prices'.length) :
    ((∀ j < i, item prices j = item prices' j) → ∀ k, slow ≤ k → k ≤ i →
      ∃ s s', trade prices fast slow (k + 1) = some s ∧ trade prices' fast slow (k + 1) = some s' ∧
        s.position = s'.position) ∧
    (∃ before after, trade prices fast slow i = some before ∧ trade prices fast slow (i + 1) = some after ∧
      after.totalReturn = (before.book (profitAt prices fast slow i)).totalReturn ∧
      after.nav = (before.book (profitAt prices fast slow i)).nav) ∧
    ((∀ j ≤ i, item prices j = item prices' j) →
      profitAt prices fast slow i = profitAt prices' fast slow i ∧
      trade prices fast slow (i + 1) = trade prices' fast slow (i + 1)) := by
  refine ⟨?_, profitAt_booked fast_pos faster started inside, ?_⟩
  · intro agree k started' le
    have before : AgreeBefore prices prices' k := AgreeBefore.mono (n := i) agree le
    exact position_congr fast_pos faster started' (by omega) (by omega) before
  · intro agree
    have through : AgreeBefore prices prices' (i + 1) := fun j before => agree j (by omega)
    exact ⟨profitAt_congr through, trade_congr through⟩

theorem backtest_never_looks_ahead_rise :
    ((∀ j < 2, item ([1, 2, 3] : List ℚ) j = item [1, 2, 5] j) → ∀ k, 2 ≤ k → k ≤ 2 →
      ∃ s s' : State ℚ, trade [1, 2, 3] 1 2 (k + 1) = some s ∧ trade [1, 2, 5] 1 2 (k + 1) = some s' ∧
        s.position = s'.position) ∧
    (∃ before after : State ℚ, trade [1, 2, 3] 1 2 2 = some before ∧ trade [1, 2, 3] 1 2 (2 + 1) = some after ∧
      after.totalReturn = (before.book (profitAt [1, 2, 3] 1 2 2)).totalReturn ∧
      after.nav = (before.book (profitAt [1, 2, 3] 1 2 2)).nav) ∧
    ((∀ j ≤ 2, item ([1, 2, 3] : List ℚ) j = item [1, 2, 5] j) →
      profitAt ([1, 2, 3] : List ℚ) 1 2 2 = profitAt [1, 2, 5] 1 2 2 ∧
      trade ([1, 2, 3] : List ℚ) 1 2 (2 + 1) = trade [1, 2, 5] 1 2 (2 + 1)) :=
  backtest_never_looks_ahead (F := ℚ) [1, 2, 3] [1, 2, 5] 1 2 2 (by decide) (by decide) (by decide) (by decide)
    (by decide)

end PolyglotInfinity.QuantV
