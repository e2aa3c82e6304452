import Mathlib.Algebra.BigOperators.Group.Finset.Basic
import Mathlib.Algebra.Order.Field.Basic
import PolyglotInfinity.Lib.Drawdown

/-!
# The strategy

What the backtester is for: a trade is opened wherever the faster average of the prices
crosses to another side of the slower one, and closes the trade before.
-/

namespace PolyglotInfinity.QuantV

inductive Side where
  | long
  | short
  deriving DecidableEq

def Side.position : Side → ℤ
  | .long => 1
  | .short => -1

variable {F : Type}

structure Entry (F : Type) where
  side : Side
  price : F

/-- The position after the entries, the latest of which is the first. -/
def held : List (Entry F) → ℤ
  | [] => 0
  | e :: _ => e.side.position

theorem held_cons (e : Entry F) (entries : List (Entry F)) : held (e :: entries) ≠ 0 := by
  obtain ⟨_ | _, _⟩ := e
  · exact one_ne_zero
  · exact neg_ne_zero.mpr one_ne_zero

theorem held_cases (entries : List (Entry F)) : held entries = 0 ∨ held entries = 1 ∨ held entries = -1 := by
  cases entries with
  | nil => exact .inl rfl
  | cons e entries =>
    obtain ⟨_ | _, _⟩ := e
    · exact .inr (.inl rfl)
    · exact .inr (.inr rfl)

/-- The entries after a step towards a side. -/
def turn (target : Option Side) (price : F) (entries : List (Entry F)) : List (Entry F) :=
  match target with
  | none => entries
  | some side => if held entries = side.position then entries else { side, price } :: entries

theorem turn_cases (target : Option Side) (price : F) (entries : List (Entry F)) : turn target price entries = entries ∨
    ∃ side : Side, held entries ≠ side.position ∧ turn target price entries = { side, price } :: entries := by
  cases target with
  | none => exact .inl rfl
  | some side =>
    by_cases same : held entries = side.position
    · exact .inl (if_pos same)
    · exact .inr ⟨side, same, if_neg same⟩

theorem held_turn_some (side : Side) (price : F) (entries : List (Entry F)) :
    held (turn (some side) price entries) = side.position := by
  by_cases same : held entries = side.position
  · have kept : turn (some side) price entries = entries := if_pos same
    rw [kept, same]
  · have entered : turn (some side) price entries = { side, price } :: entries := if_neg same
    rw [entered]
    rfl

variable [Field F]

/-- The profit of an entry that is left at a price, as a share of its own. -/
def Entry.profit (e : Entry F) (price : F) : F :=
  match e.side with
  | .long => (price - e.price) / e.price
  | .short => (e.price - price) / e.price

/-- The profits of the entries that are left at the price of the next one. -/
def closed : List (Entry F) → List F
  | [] => []
  | [_] => []
  | next :: e :: entries => e.profit next.price :: closed (e :: entries)

theorem closed_cons_length (e : Entry F) (entries : List (Entry F)) :
    (closed (e :: entries)).length = entries.length := by
  induction entries generalizing e with
  | nil => rfl
  | cons previous entries ih =>
    rw [closed, List.length_cons, ih, List.length_cons]

/-- What is left of a unit after the profits. -/
def growth (profits : List F) : F := (profits.map (1 + ·)).prod

/-- The mean of the `period` prices before index `i`. -/
def mean (price : ℕ → F) (period i : ℕ) : F := (∑ k ∈ Finset.range period, price (i - period + k)) / period

variable [LinearOrder F]

/-- The side on which the first average is of the second. -/
def side (fastMa slowMa : F) : Option Side :=
  if slowMa < fastMa then some .long else if fastMa < slowMa then some .short else none

/-- The entries of the first `n` steps. -/
def history (price : ℕ → F) (fast slow : ℕ) : ℕ → List (Entry F)
  | 0 => []
  | n + 1 => turn (side (mean price fast (slow + n)) (mean price slow (slow + n))) (price (slow + n))
      (history price fast slow n)

/-- The net asset value after the first `n` steps. -/
def navPath (price : ℕ → F) (fast slow n : ℕ) : F := growth (closed (history price fast slow n))

/-- Entries are at prices of the series. -/
theorem mem_history {price : ℕ → F} {fast slow n : ℕ} {e : Entry F} (member : e ∈ history price fast slow n) :
    ∃ k < n, e.price = price (slow + k) := by
  induction n with
  | zero => exact absurd member List.not_mem_nil
  | succ n ih =>
    have earlier (before : e ∈ history price fast slow n) : ∃ k < n + 1, e.price = price (slow + k) := by
      obtain ⟨k, k_lt, same⟩ := ih before
      exact ⟨k, by omega, same⟩
    rw [history] at member
    rcases turn_cases (side (mean price fast (slow + n)) (mean price slow (slow + n))) (price (slow + n))
      (history price fast slow n) with kept | ⟨_, -, entered⟩
    · exact earlier (kept ▸ member)
    · rw [entered] at member
      rcases List.mem_cons.mp member with rfl | before
      · exact ⟨n, by omega, rfl⟩
      · exact earlier before

end PolyglotInfinity.QuantV
