import PolyglotInfinity.QuantV.Server

/-!
# Rounds of the backtester

What a round reads, the position that it takes and the profit that it books.
-/

namespace PolyglotInfinity.QuantV

variable {F : Type} {prices prices' : List F} {period fast slow i n : ℤ} {price : F} {s : State F}

theorem item_inside (prices : List F) (i_nonneg : 0 ≤ i) (inside : i < prices.length) :
    ∃ price ∈ prices, item prices i = some price := by
  obtain ⟨k, rfl⟩ := Int.eq_ofNat_of_zero_le i_nonneg
  have k_lt : k < prices.length := by omega
  refine ⟨prices[k], List.getElem_mem k_lt, ?_⟩
  rw [item, if_pos i_nonneg, Int.toNat_natCast]
  exact List.getElem?_eq_getElem k_lt

theorem item_natCast (k : ℕ) : item prices k = prices[k]? := by
  rw [item, if_pos (by omega), Int.toNat_natCast]

/-- Two series with the same prices before index `i`. -/
def AgreeBefore (prices prices' : List F) (i : ℤ) : Prop := ∀ j < i, item prices j = item prices' j

theorem AgreeBefore.mono (agree : AgreeBefore prices prices' n) (le : i ≤ n) : AgreeBefore prices prices' i :=
  fun j before => agree j (by omega)

/-! ### Averages -/

section

variable [Zero F] [Add F] [Div F] [IntCast F]

theorem movingAverage_some (prices : List F) (first : 0 ≤ i - period) (inside : i ≤ prices.length) :
    ∃ average, movingAverage prices period i = some average := by
  rcases le_total (i - period) i with le | empty
  · obtain ⟨sum, ran, -⟩ := forRange_keeps (i - period) i (fun j sum => do return sum + (← item prices j)) 0
      (fun _ _ => True) le trivial fun j t low high _ => by
        obtain ⟨price, -, read⟩ := item_inside prices (by omega : 0 ≤ j) (by omega)
        exact ⟨t + price, by rw [read]; rfl, trivial⟩
    exact ⟨sum / (period : F), by rw [movingAverage, ran]; rfl⟩
  · exact ⟨0 / (period : F), by rw [movingAverage, forRange_empty empty]; rfl⟩

/-- An average is one of the prices before its index. -/
theorem movingAverage_congr (agree : AgreeBefore prices prices' i) :
    movingAverage prices period i = movingAverage prices' period i := by
  unfold movingAverage
  rw [forRange_congr]
  intro j t _ before
  rw [agree j before]

end

/-! ### Positions and profits -/

variable [Zero F] [One F] [Add F] [Sub F] [Mul F] [Div F] [LT F] [DecidableLT F]

/-- The position that the averages lead to. -/
def nextPosition (fastMa slowMa : F) (position : ℤ) : ℤ :=
  if slowMa < fastMa ∧ position ≤ 0 then 1
  else if fastMa < slowMa ∧ 0 ≤ position then -1
  else position

namespace State

/-- The profit of closing the position at a price. -/
def profit (s : State F) (price : F) : Option F :=
  if s.position = -1 then some ((s.entryPrice - price) / s.entryPrice)
  else if s.position = 1 then some ((price - s.entryPrice) / s.entryPrice)
  else none

def book (s : State F) (pnl : Option F) : State F := pnl.elim s s.close

/-- The profit that a change of the position books. -/
def booked (s : State F) (position : ℤ) (price : F) : Option F :=
  if position = s.position then none else s.profit price

def change (s : State F) (position : ℤ) (price : F) : State F :=
  if position = s.position then s else (s.book (s.booked position price)).enter position price

theorem change_position (position : ℤ) : (s.change position price).position = position := by
  unfold change
  split
  · next kept => exact kept.symm
  · rfl

theorem change_kept : s.change s.position price = s := if_pos rfl

theorem change_flipped {position : ℤ} (flipped : position ≠ s.position) :
    s.change position price = (s.book (s.profit price)).enter position price := by
  rw [change, if_neg flipped, booked, if_neg flipped]

end State

variable [IntCast F]

theorem tick_eq {fastMa slowMa : F} (fast_average : movingAverage prices fast i = some fastMa)
    (slow_average : movingAverage prices slow i = some slowMa) (read : item prices i = some price) :
    tick prices fast slow i s = some (s.change (nextPosition fastMa slowMa s.position) price).track := by
  unfold tick nextPosition
  rw [fast_average, slow_average]
  show (if _ then _ else _) = _
  split
  · next long =>
    have flipped : 1 ≠ s.position := by omega
    rw [read, State.change_flipped flipped, State.profit]
    have not_long : ¬ s.position = 1 := by omega
    rw [if_neg not_long]
    show some _ = _
    split
    · rfl
    · rfl
  · split
    · next short =>
      have flipped : -1 ≠ s.position := by omega
      have not_short : ¬ s.position = -1 := by omega
      rw [read, State.change_flipped flipped, State.profit, if_neg not_short]
      show some _ = _
      split
      · rfl
      · rfl
    · rw [State.change_kept]
      rfl

theorem tick_some (prices : List F) (first : 0 ≤ i - fast) (first' : 0 ≤ i - slow) (started : 0 ≤ i)
    (inside : i < prices.length) (s : State F) :
    ∃ fastMa slowMa, ∃ price ∈ prices, movingAverage prices fast i = some fastMa ∧
      movingAverage prices slow i = some slowMa ∧ item prices i = some price ∧
      tick prices fast slow i s = some (s.change (nextPosition fastMa slowMa s.position) price).track := by
  obtain ⟨fastMa, fast_average⟩ := movingAverage_some prices first inside.le
  obtain ⟨slowMa, slow_average⟩ := movingAverage_some prices first' inside.le
  obtain ⟨price, listed, read⟩ := item_inside prices started inside
  exact ⟨fastMa, slowMa, price, listed, fast_average, slow_average, read, tick_eq fast_average slow_average read⟩

/-! ### Runs -/

theorem trade_next (started : slow ≤ i) :
    trade prices fast slow (i + 1) = (trade prices fast slow i).bind (tick prices fast slow i) :=
  forRange_last started _

theorem trade_some (fast_pos : 0 < fast) (faster : fast < slow) (started : slow ≤ n) (inside : n ≤ prices.length) :
    ∃ s, trade prices fast slow n = some s := by
  obtain ⟨s, ran, -⟩ := forRange_keeps slow n (tick prices fast slow) State.start (fun _ _ => True) started trivial
    fun i t low high _ => by
      obtain ⟨_, _, _, _, _, _, _, next⟩ := tick_some prices (by omega : 0 ≤ i - fast)
        (by omega : 0 ≤ i - slow) (by omega) (by omega) t
      exact ⟨_, next, trivial⟩
  exact ⟨s, ran⟩

/-- A run reads the prices before its end. -/
theorem trade_congr (agree : AgreeBefore prices prices' n) :
    trade prices fast slow n = trade prices' fast slow n := by
  apply forRange_congr
  intro i t _ before
  have averages (period : ℤ) : movingAverage prices period i = movingAverage prices' period i :=
    movingAverage_congr (agree.mono (by omega))
  unfold tick
  rw [averages, averages, agree i before]

/-- A step of a run. -/
theorem trade_step (fast_pos : 0 < fast) (faster : fast < slow) (started : slow ≤ i) (inside : i < prices.length) :
    ∃ s fastMa slowMa, ∃ price ∈ prices, trade prices fast slow i = some s ∧
      movingAverage prices fast i = some fastMa ∧ movingAverage prices slow i = some slowMa ∧
      item prices i = some price ∧
      trade prices fast slow (i + 1) = some (s.change (nextPosition fastMa slowMa s.position) price).track := by
  obtain ⟨s, ran⟩ := trade_some fast_pos faster started inside.le
  obtain ⟨fastMa, slowMa, price, listed, fast_average, slow_average, read, next⟩ := tick_some prices
    (by omega : 0 ≤ i - fast) (by omega : 0 ≤ i - slow) (by omega) inside s
  refine ⟨s, fastMa, slowMa, price, listed, ran, fast_average, slow_average, read, ?_⟩
  rw [trade_next started, ran]
  exact next

end PolyglotInfinity.QuantV
