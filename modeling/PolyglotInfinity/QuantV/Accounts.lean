import PolyglotInfinity.Lib.Moments
import PolyglotInfinity.QuantV.Rounds
import PolyglotInfinity.QuantV.Strategy

/-!
# Accounts

The variables of the loop are the figures of the history of trades.
-/

namespace PolyglotInfinity.QuantV

variable {F : Type} [Field F] {s : State F} {entries : List (Entry F)} {price : F}

/-- What the loop has booked after the entries. -/
structure Accounts (s : State F) (entries : List (Entry F)) : Prop where
  trades : s.trades = entries.length
  position : s.position = held entries
  entryPrice : ∀ e ∈ entries.head?, s.entryPrice = e.price
  settled : s.wins + s.losses = (closed entries).length
  retN : s.retN = (closed entries).length
  nav : s.nav = growth (closed entries)
  totalReturn : s.totalReturn = (closed entries).sum
  retSum : s.retSum = (closed entries).sum
  retSq : s.retSq = ((closed entries).map (· ^ 2)).sum

namespace Accounts

theorem start : Accounts (State.start : State F) [] where
  trades := rfl
  position := rfl
  entryPrice := fun _ none => absurd none (Option.not_mem_none _)
  settled := rfl
  retN := rfl
  nav := rfl
  totalReturn := rfl
  retSum := rfl
  retSq := rfl

theorem profit_none (accounts : Accounts s []) : s.profit price = none := by
  rw [State.profit, accounts.position]
  rfl

theorem profit_some {e : Entry F} (accounts : Accounts s (e :: entries)) : s.profit price = some (e.profit price) := by
  have entryPrice := accounts.entryPrice e rfl
  obtain ⟨_ | _, _⟩ := e
  · rw [State.profit, accounts.position, entryPrice]
    rfl
  · rw [State.profit, accounts.position, entryPrice]
    rfl

theorem trades_eq (accounts : Accounts s entries) :
    s.trades = (closed entries).length + if s.position = 0 then 0 else 1 := by
  rw [accounts.trades, accounts.position]
  cases entries with
  | nil => rfl
  | cons e entries => rw [if_neg (held_cons e entries), closed_cons_length, List.length_cons]

theorem wins_le (accounts : Accounts s entries) : s.wins ≤ s.trades := by
  have settled := accounts.settled
  have trades := accounts.trades
  cases entries with
  | nil =>
    have none_closed : (closed ([] : List (Entry F))).length = 0 := rfl
    omega
  | cons e entries =>
    have length := closed_cons_length e entries
    rw [List.length_cons] at trades
    omega

variable [LinearOrder F]

theorem track (accounts : Accounts s entries) : Accounts s.track entries :=
  ⟨accounts.trades, accounts.position, accounts.entryPrice, accounts.settled, accounts.retN, accounts.nav,
    accounts.totalReturn, accounts.retSum, accounts.retSq⟩

theorem close_settled (s : State F) (pnl : F) :
    (s.close pnl).wins + (s.close pnl).losses = s.wins + s.losses + 1 := by
  unfold State.close
  dsimp only
  split
  · omega
  · omega

theorem enter (accounts : Accounts s entries) (side : Side) :
    Accounts ((s.book (s.profit price)).enter side.position price) ({ side, price } :: entries) := by
  cases entries with
  | nil =>
    rw [accounts.profit_none]
    exact ⟨congrArg (· + 1) accounts.trades, rfl, fun _ latest => (Option.mem_some.mp latest) ▸ rfl, accounts.settled,
      accounts.retN, accounts.nav, accounts.totalReturn, accounts.retSum, accounts.retSq⟩
  | cons e entries =>
    rw [accounts.profit_some]
    refine ⟨congrArg (· + 1) accounts.trades, rfl, fun _ latest => (Option.mem_some.mp latest) ▸ rfl, ?_, ?_, ?_, ?_,
      ?_, ?_⟩
    · exact (close_settled s _).trans (congrArg (· + 1) accounts.settled)
    · exact congrArg (· + 1) accounts.retN
    · show s.nav * (1 + e.profit price) = growth (e.profit price :: closed (e :: entries))
      rw [accounts.nav, growth, growth, List.map_cons, List.prod_cons, mul_comm]
    · show s.totalReturn + e.profit price = (e.profit price :: closed (e :: entries)).sum
      rw [accounts.totalReturn, List.sum_cons, add_comm]
    · show s.retSum + e.profit price = (e.profit price :: closed (e :: entries)).sum
      rw [accounts.retSum, List.sum_cons, add_comm]
    · show s.retSq + e.profit price * e.profit price = ((e.profit price :: closed (e :: entries)).map (· ^ 2)).sum
      rw [accounts.retSq, List.map_cons, List.sum_cons, add_comm, sq]

/-- The code's branches on the averages and the position take the side of the faster average. -/
theorem nextPosition_eq (accounts : Accounts s entries) (price fastMa slowMa : F) :
    nextPosition fastMa slowMa s.position = held (turn (side fastMa slowMa) price entries) := by
  have possible := held_cases entries
  rw [accounts.position, nextPosition, side]
  by_cases above : slowMa < fastMa
  · have not_below : ¬ fastMa < slowMa := above.asymm
    rw [if_pos above, held_turn_some, Side.position]
    simp only [above, not_below, true_and, false_and, if_false]
    split
    · rfl
    · omega
  · by_cases below : fastMa < slowMa
    · rw [if_neg above, if_pos below, held_turn_some, Side.position]
      simp only [above, below, true_and, false_and, if_false]
      split
      · rfl
      · omega
    · rw [if_neg above, if_neg below]
      simp only [above, below, false_and, if_false]
      rfl

theorem change (accounts : Accounts s entries) (price fastMa slowMa : F) :
    Accounts (s.change (nextPosition fastMa slowMa s.position) price) (turn (side fastMa slowMa) price entries) := by
  rw [accounts.nextPosition_eq price]
  rcases turn_cases (side fastMa slowMa) price entries with kept | ⟨side, other, entered⟩
  · rw [kept, ← accounts.position, State.change_kept]
    exact accounts
  · rw [entered, State.change_flipped]
    · exact accounts.enter side
    · rw [accounts.position]
      exact other.symm

variable [IsStrictOrderedRing F]

theorem winRate_mem (accounts : Accounts s entries) : 0 ≤ s.winRate ∧ s.winRate ≤ 1 := by
  unfold State.winRate
  split
  · next some_trade =>
    have trades_pos : (0 : F) < s.trades := Nat.cast_pos.mpr some_trade
    have wins_le : (s.wins : F) ≤ s.trades := Nat.cast_le.mpr accounts.wins_le
    exact ⟨div_nonneg (Nat.cast_nonneg _) trades_pos.le, (div_le_one trades_pos).mpr wins_le⟩
  · norm_num

theorem retVar_nonneg (accounts : Accounts s entries) : 0 ≤ s.retVar := by
  unfold State.retVar
  split
  · next several =>
    have retN_ne : (s.retN : F) ≠ 0 := Nat.cast_ne_zero.mpr (by omega)
    have sum : s.retSum = s.retN * s.retMean := by
      rw [State.retMean, if_pos (by omega), mul_div_cancel₀ _ retN_ne]
    have deviations := Moments.sum_squares_nonneg (· - s.retMean) (closed entries)
    rw [Moments.sum_squares_sub_const, ← accounts.retSq, ← accounts.retSum, ← accounts.retN, sum] at deviations
    apply div_nonneg
    · linear_combination deviations
    · exact Nat.cast_nonneg _
  · norm_num

end Accounts

end PolyglotInfinity.QuantV
