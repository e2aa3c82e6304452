import PolyglotInfinity.PricerFsharp.Program

/-!
# Implied volatility

What the Newton iteration promises of any pricing, continuous or not.
-/

namespace PolyglotInfinity.PricerFsharp.ImpliedVol

open BlackScholes (Price)

variable {F : Type} [Field F] [LinearOrder F] {pricing : F → Price F} {marketPrice : F} {isCall : Bool} {st : Newton F}

/-- No step can be taken from here. -/
def Flat (pricing : F → Price F) (sigma : F) : Prop := vega pricing sigma < 1e-10

/-- The price is as near to the market as the loop wants it. -/
def Near (pricing : F → Price F) (marketPrice : F) (isCall : Bool) (sigma : F) : Prop :=
  |bsP pricing isCall sigma - marketPrice| < tol * vega pricing sigma

def InRange (sigma : F) : Prop := 0.001 ≤ sigma ∧ sigma ≤ 10.0

/-- How far a run has come: it goes on, has converged, or has met a vega that is too small. -/
inductive Stage (pricing : F → Price F) (marketPrice : F) (isCall : Bool) (st : Newton F) : Prop where
  | going (running : st.converged = false) (counted : st.iter = st.evaluated.length)
      (steep : ∀ s0 ∈ st.evaluated, ¬ Flat pricing s0)
      (away : ∀ s0 ∈ st.evaluated, ¬ Near pricing marketPrice isCall s0)
  | arrived (s0 : F) (done : st.converged = true) (counted : st.iter = st.evaluated.length)
      (steep : ∀ s0 ∈ st.evaluated, ¬ Flat pricing s0) (mem : s0 ∈ st.evaluated)
      (near : Near pricing marketPrice isCall s0) (close : |st.sigma - s0| < tol)
  | stuck (s0 : F) (running : st.converged = false) (spent : maxIter < st.iter) (mem : s0 ∈ st.evaluated)
      (flat : Flat pricing s0)

structure Run (pricing : F → Price F) (marketPrice : F) (isCall : Bool) (st : Newton F) : Prop where
  range : InRange st.sigma
  visited : ∀ s0 ∈ st.evaluated, InRange s0
  count : st.evaluated.length ≤ maxIter
  stage : Stage pricing marketPrice isCall st

/-! ### One round -/

theorem next_flat (flat : Flat pricing st.sigma) : st.next pricing marketPrice isCall =
    { st with
      lastError := |bsP pricing isCall st.sigma - marketPrice|
      evaluated := st.evaluated ++ [st.sigma]
      iter := maxIter + 1 } := if_pos flat

theorem next_steep (steep : ¬ Flat pricing st.sigma) : st.next pricing marketPrice isCall =
    { lastError := |bsP pricing isCall st.sigma - marketPrice|
      evaluated := st.evaluated ++ [st.sigma]
      sigma := max 0.001 (min 10.0 (st.sigma - step pricing marketPrice isCall st.sigma))
      converged := if |step pricing marketPrice isCall st.sigma| < tol then true else st.converged
      iter := st.iter + 1 } := if_neg steep

theorem next_iter (some_left : st.iter < maxIter) : st.iter < (st.next pricing marketPrice isCall).iter := by
  by_cases flat : Flat pricing st.sigma
  · rw [next_flat flat]
    exact Nat.lt_succ_of_lt some_left
  · rw [next_steep flat]
    exact Nat.lt_succ_self st.iter

variable [IsStrictOrderedRing F]

theorem clamp_inRange (x : F) : InRange (max 0.001 (min 10.0 x)) :=
  ⟨le_max_left _ _, max_le (by norm_num) (min_le_left _ _)⟩

/-- Clamping brings no number further away from one in the range. -/
theorem clamp_close {s0 : F} (range : InRange s0) (x : F) : |max 0.001 (min 10.0 x) - s0| ≤ |x - s0| := by
  have same : max 0.001 (min 10.0 s0) = s0 := by rw [min_eq_right range.2, max_eq_right range.1]
  calc |max 0.001 (min 10.0 x) - s0| = |max 0.001 (min 10.0 x) - max 0.001 (min 10.0 s0)| := by rw [same]
    _ ≤ max |0.001 - 0.001| |min 10.0 x - min 10.0 s0| := abs_max_sub_max_le_max _ _ _ _
    _ = |min 10.0 x - min 10.0 s0| := by rw [sub_self, abs_zero, max_eq_right (abs_nonneg _)]
    _ ≤ max |10.0 - 10.0| |x - s0| := abs_min_sub_min_le_max _ _ _ _
    _ = |x - s0| := by rw [sub_self, abs_zero, max_eq_right (abs_nonneg _)]

theorem step_lt {sigma : F} (steep : ¬ Flat pricing sigma) :
    |step pricing marketPrice isCall sigma| < tol ↔ Near pricing marketPrice isCall sigma := by
  have positive : 0 < vega pricing sigma := lt_of_lt_of_le (by norm_num) (not_lt.mp steep)
  rw [step, abs_div, abs_of_pos positive, div_lt_iff₀ positive]
  rfl

theorem Run.next (run : Run pricing marketPrice isCall st) (some_left : st.iter < maxIter)
    (running : st.converged = false) : Run pricing marketPrice isCall (st.next pricing marketPrice isCall) := by
  obtain ⟨range, visited, -, stage⟩ := run
  have snoc : ∀ {P : F → Prop}, (∀ y ∈ st.evaluated, P y) → P st.sigma → ∀ y ∈ st.evaluated ++ [st.sigma], P y :=
    fun old new => List.forall_mem_append.mpr ⟨old, List.forall_mem_singleton.mpr new⟩
  have last_mem : st.sigma ∈ st.evaluated ++ [st.sigma] := List.mem_append_right _ (List.mem_singleton_self _)
  cases stage with
  | arrived s0 done => exact absurd (done.symm.trans running) Bool.true_eq_false.mp
  | stuck s0 _ spent => exact absurd some_left (not_lt.mpr spent.le)
  | going _ counted steep away =>
    have count : (st.evaluated ++ [st.sigma]).length ≤ maxIter := by
      rw [List.length_append, List.length_singleton, ← counted]
      exact some_left
    by_cases flat : Flat pricing st.sigma
    · rw [next_flat flat]
      exact ⟨range, snoc visited range, count,
        .stuck st.sigma running (Nat.lt_succ_self _) last_mem flat⟩
    rw [next_steep flat]
    have counted' : st.iter + 1 = (st.evaluated ++ [st.sigma]).length := by
      rw [List.length_append, List.length_singleton, counted]
    refine ⟨clamp_inRange _, snoc visited range, count, ?_⟩
    by_cases small : |step pricing marketPrice isCall st.sigma| < tol
    · refine .arrived st.sigma (if_pos small) counted' (snoc steep flat) last_mem ((step_lt flat).mp small) ?_
      refine (clamp_close range _).trans_lt ?_
      rwa [sub_sub_cancel_left, abs_neg]
    · refine .going ((if_neg small).trans running) counted' (snoc steep flat) ?_
      exact snoc away fun near => small ((step_lt flat).mpr near)

theorem init_run : Run pricing marketPrice isCall .init := by
  refine ⟨⟨?_, ?_⟩, fun _ none => absurd none List.not_mem_nil, Nat.zero_le _, .going rfl rfl ?_ ?_⟩
  · show (0.001 : F) ≤ 0.20
    norm_num
  · show (0.20 : F) ≤ 10.0
    norm_num
  · exact fun _ none => absurd none List.not_mem_nil
  · exact fun _ none => absurd none List.not_mem_nil

/-! ### Whole runs -/

theorem loop_run (pricing : F → Price F) (marketPrice : F) (isCall : Bool) {fuel : ℕ} (enough : maxIter ≤ fuel) :
    ∃ st, loop pricing marketPrice isCall fuel = some st ∧ Run pricing marketPrice isCall st := by
  have keep : ∀ st : Newton F, Run pricing marketPrice isCall st → st.iter < maxIter ∧ st.converged = false →
      Run pricing marketPrice isCall (st.next pricing marketPrice isCall) ∧
        maxIter - (st.next pricing marketPrice isCall).iter < maxIter - st.iter := by
    rintro st run ⟨some_left, running⟩
    have later : st.iter < (st.next pricing marketPrice isCall).iter := next_iter some_left
    exact ⟨run.next some_left running, by omega⟩
  obtain ⟨st, ended, run, -⟩ := whileLoop_ends _ (fun st : Newton F => maxIter - st.iter) keep init_run enough
  exact ⟨st, ended, run⟩

variable [FloorRing F]

/-- After at most 200 prices there is a solution. If it has a volatility, that is within `tol` of one
at which the price was near to the market; where a vega was too small, or no price near, it has none. -/
theorem solveWith_sound (pricing : F → Price F) (marketPrice : F) (isCall : Bool) {fuel : ℕ} (enough : maxIter ≤ fuel) :
    ∃ st solution, loop pricing marketPrice isCall fuel = some st ∧
      solveWith pricing marketPrice isCall fuel = some solution ∧ st.evaluated.length ≤ 200 ∧
      (∀ iv, solution.iv = some iv → ∃ s0 ∈ st.evaluated, 0.001 ≤ s0 ∧ s0 ≤ 10.0 ∧ 1e-10 ≤ vega pricing s0 ∧
        |bsP pricing isCall s0 - marketPrice| < 1e-8 * vega pricing s0 ∧
        iv = mathRound st.sigma 8 ∧ 0.001 ≤ st.sigma ∧ st.sigma ≤ 10.0 ∧ |st.sigma - s0| < 1e-8) ∧
      ((∃ s0 ∈ st.evaluated, vega pricing s0 < 1e-10) → solution.iv = none) ∧
      ((∀ s0 ∈ st.evaluated, ¬ |bsP pricing isCall s0 - marketPrice| < 1e-8 * vega pricing s0) →
        solution.iv = none) := by
  obtain ⟨st, ended, run⟩ := loop_run pricing marketPrice isCall enough
  refine ⟨st, st.solution, ended, by rw [solveWith, ended]; rfl, run.count, ?_⟩
  cases run.stage with
  | arrived s0 done _ steep mem near close =>
    have found : st.solution.iv = some (mathRound st.sigma 8) := if_pos done
    refine ⟨fun iv iv_eq => ?_, ?_, fun away => absurd near (away s0 mem)⟩
    · obtain rfl := Option.some.inj (found.symm.trans iv_eq)
      have range := run.visited s0 mem
      exact ⟨s0, mem, range.1, range.2, not_lt.mp (steep s0 mem), near, rfl, run.range.1, run.range.2, close⟩
    · rintro ⟨s0, mem, flat⟩
      exact absurd flat (steep s0 mem)
  | going running | stuck _ running =>
    have none_found : st.solution.iv = none := if_neg (by rw [running]; exact Bool.false_ne_true)
    exact ⟨fun iv iv_eq => absurd (none_found.symm.trans iv_eq) (Option.some_ne_none iv).symm, fun _ => none_found,
      fun _ => none_found⟩

/-- A call that costs its volatility. -/
def linear (sigma : ℚ) : Price ℚ := ⟨sigma, 0, 0, 0, 0, 0.01, 0, 0, ""⟩

theorem solveWith_sound_linear : IsStrictOrderedRing ℚ ∧ maxIter ≤ 200 ∧
    ∃ st solution, loop linear 0.5 true 200 = some st ∧ solveWith linear 0.5 true 200 = some solution ∧
      st.evaluated.length ≤ 200 ∧
      (∀ iv, solution.iv = some iv → ∃ s0 ∈ st.evaluated, 0.001 ≤ s0 ∧ s0 ≤ 10.0 ∧ 1e-10 ≤ vega linear s0 ∧
        |bsP linear true s0 - 0.5| < 1e-8 * vega linear s0 ∧
        iv = mathRound st.sigma 8 ∧ 0.001 ≤ st.sigma ∧ st.sigma ≤ 10.0 ∧ |st.sigma - s0| < 1e-8) ∧
      ((∃ s0 ∈ st.evaluated, vega linear s0 < 1e-10) → solution.iv = none) ∧
      ((∀ s0 ∈ st.evaluated, ¬ |bsP linear true s0 - 0.5| < 1e-8 * vega linear s0) → solution.iv = none) :=
  ⟨inferInstance, le_rfl, solveWith_sound linear 0.5 true le_rfl⟩

end PolyglotInfinity.PricerFsharp.ImpliedVol
