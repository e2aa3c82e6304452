import Mathlib.Data.List.Range
import Mathlib.Order.Iterate
import Mathlib.Order.MinMax

/-!
# Delays that grow up to a limit

Each failure makes the next delay larger by `grow`, until it would pass `limit`.
-/

namespace Backoff

variable {α : Type*} [LinearOrder α] {grow : α → α} {limit base : α}

def capped (grow : α → α) (limit delay : α) : α := min (grow delay) limit

/-- The delays behind `k` failures in a row. -/
def delays (grow : α → α) (limit base : α) (k : ℕ) : List α :=
  (List.range k).map fun i => (capped grow limit)^[i] base

theorem delays_succ (k : ℕ) :
    delays grow limit base (k + 1) = delays grow limit base k ++ [(capped grow limit)^[k] base] := by
  simp [delays, List.range_succ]

theorem capped_le (delay : α) : capped grow limit delay ≤ limit := min_le_right _ _

/-- It does not matter whether the limit is applied at every failure or once. -/
theorem capped_iterate (mono : Monotone grow) (grows : limit ≤ grow limit) (below : base ≤ limit) (k : ℕ) :
    (capped grow limit)^[k] base = min (grow^[k] base) limit := by
  induction k with
  | zero => exact (min_eq_left below).symm
  | succ k ih =>
    calc (capped grow limit)^[k + 1] base
      _ = min (grow (min (grow^[k] base) limit)) limit := by rw [Function.iterate_succ_apply', ih, capped]
      _ = min (grow^[k + 1] base) (min (grow limit) limit) := by
        rw [mono.map_min, min_assoc, Function.iterate_succ_apply']
      _ = min (grow^[k + 1] base) limit := by rw [min_eq_right grows]

theorem le_capped (inflates : ∀ delay, delay ≤ grow delay) {low delay : α} (le : low ≤ delay) (below : low ≤ limit) :
    low ≤ capped grow limit delay :=
  le_min (le.trans (inflates delay)) below

end Backoff
