import Mathlib.Algebra.Order.BigOperators.GroupWithZero.List
import Mathlib.Algebra.Order.Ring.Rat
import Mathlib.Tactic.Linarith
import PolyglotInfinity.Lib.Drawdown

/-!
# The drawdown of the Crystal gateway

The share of the net asset value that is lost from its highest point, in exact arithmetic.
-/

namespace PolyglotInfinity.GatewayCrystal

open Drawdown (drops relative Tracks Grows)

section

variable {F : Type} [Field F] [LinearOrder F]

/-- The local variables of `max_drawdown`. -/
structure Nav (F : Type) where
  peak : F
  nav : F
  mdd : F

/-- The block of `each`. -/
def Nav.each (s : Nav F) (r : F) : Nav F :=
  let nav := s.nav * (1 + r)
  let peak := if s.peak < nav then nav else s.peak
  let dd := (peak - nav) / peak
  { peak, nav, mdd := if s.mdd < dd then dd else s.mdd }

def maxDrawdown (returns : Array F) : F := (returns.foldl Nav.each ({ peak := 1, nav := 1, mdd := 0 } : Nav F)).mdd

end

section

variable {F : Type} [Field F]

/-- The net asset value after `k` days, as a share of the first one. -/
def navAt (returns : Array F) (k : ℕ) : F := ((returns.toList.take k).map fun r => 1 + r).prod

variable {returns : Array F} {k : ℕ}

theorem navAt_zero : navAt returns 0 = 1 := rfl

theorem navAt_succ (inside : k < returns.size) : navAt returns (k + 1) = navAt returns k * (1 + returns[k]) := by
  unfold navAt
  rw [List.take_succ_eq_append_getElem inside, List.map_append, List.prod_append]
  simp

variable [LinearOrder F]

/-- The loop keeps the highest net asset value and the worst relative drop so far. -/
structure Loop (returns : Array F) (k : ℕ) (s : Nav F) : Prop where
  nav : s.nav = navAt returns k
  tracks : Tracks relative (navAt returns) k s.peak s.mdd

theorem Loop.each {s : Nav F} (grows : Grows relative (navAt returns) returns.size) (inside : k < returns.size)
    (loop : Loop returns k s) : Loop returns (k + 1) (s.each returns[k]) := by
  have nav : (s.each returns[k]).nav = navAt returns (k + 1) := by
    rw [navAt_succ inside, ← loop.nav]
    rfl
  have peak : (s.each returns[k]).peak = max s.peak (navAt returns (k + 1)) := by
    rw [← nav, max_def_lt]
    rfl
  have mdd : (s.each returns[k]).mdd =
      max s.mdd (relative (max s.peak (navAt returns (k + 1))) (navAt returns (k + 1))) := by
    rw [← peak, ← nav, max_def_lt]
    rfl
  refine ⟨nav, ?_⟩
  rw [peak, mdd]
  exact loop.tracks.succ (grows.mono inside)

variable [IsStrictOrderedRing F]

theorem navAt_pos (above : ∀ r ∈ returns, -1 < r) (k : ℕ) : 0 < navAt returns k := by
  refine List.prod_pos fun factor factor_mem => ?_
  obtain ⟨r, r_mem, rfl⟩ := List.mem_map.mp factor_mem
  have := above r (Array.mem_toList_iff.mp (List.mem_of_mem_take r_mem))
  linarith

/-- The worst relative drop of the net asset value between any two days, which is less than all of it. -/
theorem maxDrawdown_greatest (above : ∀ r ∈ returns, -1 < r) :
    IsGreatest {d | ∃ i j, i ≤ j ∧ j ≤ returns.size ∧ (navAt returns i - navAt returns j) / navAt returns i = d}
        (maxDrawdown returns) ∧ 0 ≤ maxDrawdown returns ∧ maxDrawdown returns < 1 := by
  have grows := Drawdown.relative_grows (navAt_pos above) returns.size
  have start : Loop returns 0 { peak := 1, nav := 1, mdd := 0 } := by
    refine ⟨rfl, ?_⟩
    have zero : Tracks relative (navAt returns) 0 _ _ := Tracks.zero
    rwa [Drawdown.relative_self, navAt_zero] at zero
  have loop : Loop returns returns.size (returns.foldl Nav.each { peak := 1, nav := 1, mdd := 0 }) :=
    Array.foldl_induction (Loop returns) start fun k s good => good.each grows k.2
  have greatest : IsGreatest (drops relative (navAt returns) returns.size) (maxDrawdown returns) := loop.tracks.greatest
  refine ⟨greatest, ?_, ?_⟩
  · exact greatest.2 ⟨0, 0, le_rfl, Nat.zero_le _, Drawdown.relative_self⟩
  · obtain ⟨i, j, -, -, drop⟩ := greatest.1
    rw [← drop]
    exact Drawdown.relative_lt_one (navAt_pos above i) (navAt_pos above j)

theorem maxDrawdown_greatest_loss : IsStrictOrderedRing ℚ ∧ (∀ r ∈ #[(1 : ℚ), -1 / 2], -1 < r) ∧
    IsGreatest {d | ∃ i j, i ≤ j ∧ j ≤ 2 ∧ (navAt #[(1 : ℚ), -1 / 2] i - navAt #[(1 : ℚ), -1 / 2] j) /
      navAt #[(1 : ℚ), -1 / 2] i = d} (maxDrawdown #[(1 : ℚ), -1 / 2]) ∧
    0 ≤ maxDrawdown #[(1 : ℚ), -1 / 2] ∧ maxDrawdown #[(1 : ℚ), -1 / 2] < 1 :=
  have above : ∀ r ∈ #[(1 : ℚ), -1 / 2], -1 < r := by norm_num
  ⟨inferInstance, above, maxDrawdown_greatest above⟩

end

end PolyglotInfinity.GatewayCrystal
