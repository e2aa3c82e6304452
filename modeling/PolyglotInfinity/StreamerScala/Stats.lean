import Mathlib.Algebra.Field.Basic
import Mathlib.Tactic.NormNum
import Mathlib.Tactic.Ring

/-!
# Double exponential smoothing

`Stats.holtSmooth` over the numbers of a field. On a straight line its level starts one
element late, and how far level and forecast stay behind depends on the constants alone.
-/

namespace PolyglotInfinity.StreamerScala

variable {F : Type} [Field F]

structure Holt (F : Type) where
  level : F
  trend : F
  smoothed : List F

/-- The body of the loop. -/
def Holt.next (alpha beta : F) (s : Holt F) (x : F) : Holt F :=
  let prevLevel := s.level
  let level := alpha * x + (1 - alpha) * (s.level + s.trend)
  let trend := beta * (level - prevLevel) + (1 - beta) * s.trend
  { level, trend, smoothed := s.smoothed ++ [level + trend] }

def holtSmooth (xs : List F) (alpha beta : F) : List F × F :=
  match xs with
  | x0 :: x1 :: rest =>
    let level := x0
    let trend := x1 - x0
    let s := rest.foldl (Holt.next alpha beta) { level, trend, smoothed := [level + trend] }
    (s.smoothed, s.level + s.trend)
  | _ => (xs, 0)

/-! ### A straight line -/

/-- What level and forecast lag behind a line after `k` rounds, in slopes. -/
def lag (alpha beta : F) : ℕ → F × F
  | 0 => (1, 1)
  | k + 1 =>
    let (level, forecast) := lag alpha beta k
    ((1 - alpha) * forecast, (2 - alpha - alpha * beta) * forecast - level)

variable {a b alpha beta : F}

def line (a b : F) (t : ℕ) : F := a + b * t

/-- Level and forecast of a round, against the line at its element and at the next one. -/
structure Behind (a b alpha beta : F) (k : ℕ) (s : Holt F) : Prop where
  level : s.level = line a b (k + 1) - b * (lag alpha beta k).1
  forecast : s.level + s.trend = line a b (k + 2) - b * (lag alpha beta k).2

theorem Behind.next {k : ℕ} {s : Holt F} (behind : Behind a b alpha beta k s) :
    Behind a b alpha beta (k + 1) (s.next alpha beta (line a b (k + 2))) := by
  obtain ⟨level, forecast⟩ := behind
  have level' : (s.next alpha beta (line a b (k + 2))).level =
      line a b (k + 2) - b * ((1 - alpha) * (lag alpha beta k).2) := by
    unfold Holt.next
    dsimp only
    rw [forecast]
    ring
  refine ⟨level', ?_⟩
  have trend : (s.next alpha beta (line a b (k + 2))).trend =
      beta * ((s.next alpha beta (line a b (k + 2))).level - s.level) + (1 - beta) * s.trend := rfl
  have slope : s.trend = line a b (k + 2) - b * (lag alpha beta k).2 - s.level := by rw [← forecast, add_sub_cancel_left]
  have later : (lag alpha beta (k + 1)).2 =
      (2 - alpha - alpha * beta) * (lag alpha beta k).2 - (lag alpha beta k).1 := rfl
  rw [trend, slope, level', level, later]
  unfold line
  push_cast
  ring

theorem foldl_behind (k : ℕ) (smoothed : List F) : Behind a b alpha beta k
    (((List.range' 2 k).map (line a b)).foldl (Holt.next alpha beta)
      { level := line a b 0, trend := line a b 1 - line a b 0, smoothed }) := by
  induction k with
  | zero =>
    refine ⟨?_, ?_⟩
    · show line a b 0 = line a b (0 + 1) - b * 1
      unfold line
      push_cast
      ring
    · show line a b 0 + (line a b 1 - line a b 0) = line a b (0 + 2) - b * 1
      unfold line
      push_cast
      ring
  | succ k ih =>
    rw [List.range'_1_concat, List.map_append, List.foldl_append, add_comm 2 k]
    exact ih.next

/-- The forecast of the next element of a line, exactly if the line is level or the constants
have brought the lag to zero. -/
theorem holtSmooth_forecast_iff (a b alpha beta : F) {n : ℕ} (two_le : 2 ≤ n) :
    (holtSmooth ((List.range n).map (line a b)) alpha beta).2 = line a b n ↔
      b = 0 ∨ (lag alpha beta (n - 2)).2 = 0 := by
  obtain ⟨k, rfl⟩ := Nat.exists_eq_add_of_le' two_le
  have split : (List.range (k + 2)).map (line a b) = line a b 0 :: line a b 1 :: (List.range' 2 k).map (line a b) := by
    rw [List.range_eq_range', List.range'_succ, List.range'_succ]
    rfl
  have behind := @foldl_behind _ _ a b alpha beta k [line a b 0 + (line a b 1 - line a b 0)]
  rw [split, Nat.add_sub_cancel]
  have forecast : (holtSmooth (line a b 0 :: line a b 1 :: (List.range' 2 k).map (line a b)) alpha beta).2 =
      line a b (k + 2) - b * (lag alpha beta k).2 := behind.forecast
  rw [forecast, sub_eq_self, mul_eq_zero]

theorem holtSmooth_forecast_iff_six :
    (holtSmooth ((List.range 6).map (line (100 : ℚ) 2)) 0.3 0.1).2 = line 100 2 6 ↔
      (2 : ℚ) = 0 ∨ (lag (0.3 : ℚ) 0.1 (6 - 2)).2 = 0 :=
  holtSmooth_forecast_iff 100 2 0.3 0.1 (by decide)

/-- The second element is the forecast of the third. -/
theorem second_element_forecast :
    ¬ (holtSmooth ((List.range 2).map (line (100 : ℚ) 1)) 0.3 0.1).2 = line 100 1 2 := by
  norm_num [holtSmooth, List.range_succ, line]

end PolyglotInfinity.StreamerScala
