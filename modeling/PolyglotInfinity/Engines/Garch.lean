import PolyglotInfinity.AnalyticsNim.Deviations
import PolyglotInfinity.EngineR.Server
import PolyglotInfinity.Lib.Garch

/-!
# The GARCH simulations

The loop of the R engine is the process. The one of the Nim engine takes the size of a shock
from the variance before it.
-/

namespace PolyglotInfinity

open Garch

variable {omega alpha beta : ℝ} {z : ℕ → ℝ} {n : ℕ}

/-- Variances and shocks, filled in up to round `i`. -/
structure Simulated (s : ℕ → ℝ × ℝ) (n i : ℕ) (t : List ℝ × List ℝ) : Prop where
  variances : Filled n i t.1 fun i => (s i).1
  shocks : Filled n i t.2 fun i => (s i).2

namespace Simulated

variable {s : ℕ → ℝ × ℝ} {t : List ℝ × List ℝ}

theorem start (n_pos : 1 ≤ n) (no_shock : (s 0).2 = 0) :
    Simulated s n 1 ((List.replicate n 0).set 0 (s 0).1, List.replicate n 0) := by
  have none_yet (f : ℕ → ℝ) : Filled n 0 (List.replicate n 0) f :=
    ⟨List.length_replicate, fun k k_lt => absurd k_lt (Nat.not_lt_zero k)⟩
  refine ⟨(none_yet _).set n_pos rfl, List.length_replicate, fun k k_lt => ?_⟩
  rw [Nat.lt_one_iff.mp k_lt, no_shock, List.getElem?_replicate, if_pos (Nat.lt_of_succ_le n_pos)]

theorem next {i : ℕ} (so_far : Simulated s n i t) (inside : i < n) :
    Simulated s n (i + 1) (t.1.set i (s i).1, t.2.set i (s i).2) :=
  ⟨so_far.variances.set inside rfl, so_far.shocks.set inside rfl⟩

theorem eq_map (all : Simulated s n n t) :
    t = ((List.range n).map fun i => (s i).1, (List.range n).map fun i => (s i).2) :=
  Prod.ext all.variances.eq_map all.shocks.eq_map

end Simulated

namespace AnalyticsNim

theorem assign_eq (xs : List ℝ) {i : ℕ} (inside : i < xs.length) (x : ℝ) : assign xs i x = some (xs.set i x) := by
  rw [assign, if_pos ⟨Int.natCast_nonneg i, by exact_mod_cast inside⟩, Int.toNat_natCast]

theorem garchWith_eq (z : ℕ → ℝ) (omega alpha beta : ℝ) (n_pos : 1 ≤ n) :
    ∃ s, s = path omega alpha beta z (fun h _ => h) (omega / max (1 - alpha - beta) 1e-10) ∧
      garchWith .real z n omega alpha beta =
        some ((List.range n).map fun i => (s i).2, (List.range n).map fun i => (s i).1) := by
  set start := omega / max (1 - alpha - beta) 1e-10
  refine ⟨_, rfl, ?_⟩
  set s := path omega alpha beta z (fun h _ => h) start with s_eq
  obtain ⟨t, ran, all⟩ := forRange_keeps 1 n (garchRound .real z omega alpha beta) ((newSeq n).set 0 start, newSeq n)
    (fun i t => Simulated s n i.toNat t) (by exact_mod_cast n_pos) (Simulated.start n_pos rfl)
    fun i t low high so_far => by
      obtain ⟨k, rfl⟩ : ∃ k : ℕ, i = (k + 1 : ℕ) := ⟨(i - 1).toNat, by omega⟩
      have inside : k + 1 < n := by exact_mod_cast high
      have before : ((k + 1 : ℕ) : ℤ) - 1 = k := by omega
      have after : (((k + 1 : ℕ) : ℤ) + 1).toNat = k + 2 := by omega
      rw [Int.toNat_natCast] at so_far
      have next := so_far.next inside
      have variance := (item_natCast _ k).trans (so_far.variances.element k (Nat.lt_succ_self k))
      have shock := (item_natCast _ k).trans (next.shocks.element k (by omega))
      rw [garchRound, before, after, variance, Int.toNat_natCast]
      refine ⟨_, ?_, next⟩
      show Option.bind (assign _ _ (s (k + 1)).2) _ = _
      rw [assign_eq _ (by rwa [so_far.shocks.length])]
      show Option.bind (item _ _) _ = _
      rw [shock]
      show Option.bind (assign _ _ (s (k + 1)).1) _ = _
      rw [assign_eq _ (by rwa [so_far.variances.length])]
      rfl
  rw [Int.toNat_natCast] at all
  have bound : max (1 - alpha - beta) 1e-10 ≠ 0 := (lt_max_of_lt_right (by norm_num)).ne'
  have first := assign_eq (newSeq n) (i := 0) (by rwa [newSeq, List.length_replicate]) start
  rw [Nat.cast_zero] at first
  rw [garchWith, divide_of_ne bound]
  show Option.bind (assign _ _ start) _ = _
  rw [first]
  show Option.bind (forRange _ _ _ _) _ = _
  rw [ran, all.eq_map]
  rfl

end AnalyticsNim

namespace EngineR

theorem element_eq (xs : List ℝ) (k : ℕ) : element xs ((k : ℤ) + 1) = xs[k]? := by
  rw [element, if_pos (by omega), add_sub_cancel_right, Int.toNat_natCast]

theorem replace_eq (xs : List ℝ) {k : ℕ} (inside : k < xs.length) (x : ℝ) :
    replace xs ((k : ℤ) + 1) x = some (xs.set k x) := by
  rw [replace, if_pos (by omega), add_sub_cancel_right, Int.toNat_natCast]

theorem garch_eq (z : ℕ → ℝ) (omega alpha1 beta1 : ℝ) (two_le : 2 ≤ n) :
    ∃ s, s = path omega alpha1 beta1 z (fun _ h' => h') (omega / (1 - alpha1 - beta1 + 1e-10)) ∧
      garch .real z n omega alpha1 beta1 =
        some ((List.range n).map fun i => (s i).1, (List.range n).map fun i => (s i).2) := by
  set start := omega / (1 - alpha1 - beta1 + 1e-10)
  refine ⟨_, rfl, ?_⟩
  set s := path omega alpha1 beta1 z (fun _ h' => h') start with s_eq
  obtain ⟨t, ran, all⟩ := forRange_keeps 2 (n + 1) (garchRound .real z omega alpha1 beta1)
    ((numeric n).set 0 start, numeric n)
    (fun i t => Simulated s n (i - 1).toNat t) (by omega) (Simulated.start (by omega) rfl)
    fun i t low high so_far => by
      obtain ⟨k, rfl⟩ : ∃ k : ℕ, i = (k + 1 : ℕ) + 1 := ⟨(i - 2).toNat, by omega⟩
      have inside : k + 1 < n := by omega
      have before : ((k + 1 : ℕ) : ℤ) + 1 - 1 = (k : ℤ) + 1 := by omega
      have number : ((k : ℤ) + 1).toNat = k + 1 := by omega
      have after : (((k + 1 : ℕ) : ℤ) + 1 + 1 - 1).toNat = k + 2 := by omega
      rw [before, number] at so_far
      have next := so_far.next inside
      have variance := (element_eq _ k).trans (so_far.variances.element k (Nat.lt_succ_self k))
      have shock := (element_eq _ k).trans (so_far.shocks.element k (Nat.lt_succ_self k))
      have size := (element_eq _ (k + 1)).trans (next.variances.element (k + 1) (Nat.lt_succ_self _))
      have drawn : rnorm (z (k + 1)) 0 √(s (k + 1)).1 = (s (k + 1)).2 := by
        rw [rnorm, zero_add, mul_comm]
        rfl
      rw [garchRound, before, after, number, variance, shock]
      refine ⟨_, ?_, next⟩
      show Option.bind (replace _ _ (s (k + 1)).1) _ = _
      rw [replace_eq _ (by rwa [so_far.variances.length])]
      show Option.bind (element _ _) _ = _
      rw [size]
      show Option.bind (replace _ _ (rnorm (z (k + 1)) 0 √(s (k + 1)).1)) _ = _
      rw [drawn, replace_eq _ (by rwa [so_far.shocks.length])]
      rfl
  have last : ((n : ℤ) + 1 - 1).toNat = n := by omega
  rw [last] at all
  have first := replace_eq (numeric n) (k := 0) (by rw [numeric, List.length_replicate]; omega) start
  rw [Nat.cast_zero, zero_add] at first
  rw [garch, if_neg (not_lt.mpr two_le), first]
  exact ran.trans (congrArg some all.eq_map)

end EngineR

namespace Engines

theorem start_pos (omega_pos : 0 < omega) (alpha beta : ℝ) : 0 < omega / max (1 - alpha - beta) 1e-10 :=
  div_pos omega_pos (lt_max_of_lt_right (by norm_num))

/-- The Nim engine starts at the level that stays. -/
theorem gap_start_iff {h : ℕ → ℝ} (start : h 0 = omega / max (1 - alpha - beta) 1e-10) (omega_pos : 0 < omega)
    (alpha_nonneg : 0 ≤ alpha) :
    gap omega beta h 0 = 0 ↔ (alpha = 0 ∧ beta ≤ 1 - 1e-10) ∨ beta = 1 - 1e-10 := by
  have bound : 0 < max (1 - alpha - beta) 1e-10 := lt_max_of_lt_right (by norm_num)
  have level : gap omega beta h 0 = 0 ↔ max (1 - alpha - beta) 1e-10 = 1 - beta := by
    rw [gap, start, sub_eq_zero, mul_div_assoc', div_eq_iff bound.ne', mul_comm, mul_right_inj' omega_pos.ne', eq_comm]
  rw [level, max_eq_iff]
  constructor
  · rintro (⟨same, le⟩ | ⟨same, _⟩)
    · exact Or.inl ⟨by linarith, by linarith⟩
    · exact Or.inr (by linarith)
  · rintro (⟨zero, le⟩ | same)
    · exact Or.inl ⟨by linarith, by linarith⟩
    · exact Or.inr ⟨by linarith, by linarith⟩

/-- The inputs on which a simulation from the start of the Nim engine is the process. -/
inductive Settled (alpha beta : ℝ) (z : ℕ → ℝ) (n : ℕ) : Prop
  | quiet (none : ∀ i, i + 1 < n → z (i + 1) = 0)
  | level (alpha_zero : alpha = 0) (beta_le : beta ≤ 1 - 1e-10)
  | single (beta_eq : beta = 1 - 1e-10) (one : ∀ i j, i < j → j + 1 < n → z (i + 1) = 0 ∨ z (j + 1) = 0)
  | spaced (beta_zero : beta = 0)
      (apart : ∀ i, i + 1 < n → z (i + 1) = 0 ∨ 0 < i ∧ ∀ j < i, i ≤ j + 2 → z (j + 1) = 0)

theorem late_process_iff {h eps : ℕ → ℝ} (late : Late omega alpha beta z h eps)
    (start : h 0 = omega / max (1 - alpha - beta) 1e-10) (omega_pos : 0 < omega) (alpha_nonneg : 0 ≤ alpha)
    (beta_nonneg : 0 ≤ beta) : Process omega alpha beta z n h eps ↔ Settled alpha beta z n := by
  have level_iff := gap_start_iff start omega_pos alpha_nonneg
  by_cases no_effect : alpha = 0 ∧ beta ≤ 1 - 1e-10
  · have level := level_iff.mpr (Or.inl no_effect)
    exact iff_of_true (late.process_of_level omega_pos alpha_nonneg beta_nonneg level no_effect.1)
      (.level no_effect.1 no_effect.2)
  have alpha_pos (beta_le : beta ≤ 1 - 1e-10) : 0 < alpha :=
    alpha_nonneg.lt_of_ne' fun zero => no_effect ⟨zero, beta_le⟩
  by_cases beta_eq : beta = 1 - 1e-10
  · have beta_pos : 0 < beta := by
      rw [beta_eq]
      norm_num
    have beta_lt : beta < 1 := by linarith
    rw [late.process_iff_single omega_pos alpha_nonneg beta_nonneg (level_iff.mpr (Or.inr beta_eq))
      (alpha_pos beta_eq.le) beta_pos beta_lt]
    refine ⟨.single beta_eq, fun settled => ?_⟩
    cases settled with
    | quiet none => exact fun i j lt inside => Or.inl (none i (by omega))
    | level alpha_zero beta_le => exact absurd ⟨alpha_zero, beta_le⟩ no_effect
    | single _ one => exact one
    | spaced beta_zero => exact absurd beta_zero beta_pos.ne'
  have moves : gap omega beta h 0 ≠ 0 := mt level_iff.mp (not_or.mpr ⟨no_effect, beta_eq⟩)
  by_cases beta_zero : beta = 0
  · have beta_le : beta ≤ 1 - 1e-10 := by
      rw [beta_zero]
      norm_num
    rw [late.process_iff_spaced omega_pos alpha_nonneg beta_nonneg moves (alpha_pos beta_le) beta_zero]
    refine ⟨.spaced beta_zero, fun settled => ?_⟩
    cases settled with
    | quiet none => exact fun i inside => Or.inl (none i inside)
    | level alpha_zero beta_le => exact absurd ⟨alpha_zero, beta_le⟩ no_effect
    | single eq => exact absurd eq beta_eq
    | spaced _ apart => exact apart
  · rw [late.process_iff_none omega_pos alpha_nonneg beta_nonneg moves (beta_nonneg.lt_of_ne' beta_zero)]
    refine ⟨.quiet, fun settled => ?_⟩
    cases settled with
    | quiet none => exact none
    | level alpha_zero beta_le => exact absurd ⟨alpha_zero, beta_le⟩ no_effect
    | single eq => exact absurd eq beta_eq
    | spaced zero => exact absurd zero beta_zero

/-- The variances that the Nim engine returns always follow its shocks; the shocks take their
size from them on the settled inputs alone. -/
theorem garch_process_iff (z : ℕ → ℝ) (n_pos : 1 ≤ n) (omega_pos : 0 < omega) (alpha_nonneg : 0 ≤ alpha)
    (beta_nonneg : 0 ≤ beta) :
    (∃ h eps, AnalyticsNim.garchWith .real z n omega alpha beta = some ((List.range n).map eps, (List.range n).map h) ∧
      (Process omega alpha beta z n h eps ↔ Settled alpha beta z n)) ∧
    (2 ≤ n → ∃ h eps, EngineR.garch .real z n omega alpha beta = some ((List.range n).map h, (List.range n).map eps) ∧
      Process omega alpha beta z n h eps) := by
  refine ⟨?_, fun two_le => ?_⟩
  · obtain ⟨s, s_eq, returned⟩ := AnalyticsNim.garchWith_eq z omega alpha beta n_pos
    have late := late_path omega alpha beta z (start_pos omega_pos alpha beta)
    rw [← s_eq] at late
    have start : (s 0).1 = omega / max (1 - alpha - beta) 1e-10 := by rw [s_eq]; rfl
    exact ⟨_, _, returned, late_process_iff late start omega_pos alpha_nonneg beta_nonneg⟩
  · obtain ⟨s, s_eq, returned⟩ := EngineR.garch_eq z omega alpha beta two_le
    refine ⟨_, _, returned, ?_⟩
    rw [s_eq]
    exact process_path omega alpha beta z _ n

theorem garch_process_iff_alternating :
    (∃ h eps, AnalyticsNim.garchWith .real (fun i => (-1) ^ i) 4 0.000001 0.08 0.9 =
        some ((List.range 4).map eps, (List.range 4).map h) ∧
      (Process 0.000001 0.08 0.9 (fun i => (-1) ^ i) 4 h eps ↔ Settled 0.08 0.9 (fun i => (-1) ^ i) 4)) ∧
    (2 ≤ 4 → ∃ h eps, EngineR.garch .real (fun i => (-1) ^ i) 4 0.000001 0.08 0.9 =
        some ((List.range 4).map h, (List.range 4).map eps) ∧
      Process 0.000001 0.08 0.9 (fun i => (-1) ^ i) 4 h eps) :=
  garch_process_iff (fun i => (-1) ^ i) (by decide) (by norm_num) (by norm_num) (by norm_num)

/-- At the constants of the endpoint the first shock meets a variance that moves. -/
theorem first_shock_late : ¬ ∃ h eps, AnalyticsNim.garchWith .real (fun _ => 1) 2 0.000001 0.08 0.9 =
    some ((List.range 2).map eps, (List.range 2).map h) ∧ Process 0.000001 0.08 0.9 (fun _ => 1) 2 h eps := by
  intro ⟨h, eps, returned, process⟩
  obtain ⟨s, s_eq, ran⟩ := AnalyticsNim.garchWith_eq (n := 2) (fun _ => 1) 0.000001 0.08 0.9 (by decide)
  have late := late_path 0.000001 0.08 0.9 (fun _ => 1) (start_pos (by norm_num : (0 : ℝ) < 0.000001) 0.08 0.9)
  rw [← s_eq] at late
  rw [ran] at returned
  simp only [List.range_succ, List.range_zero, List.nil_append, List.cons_append, List.map_cons, List.map_nil,
    Option.some.injEq, Prod.mk.injEq, List.cons.injEq, and_true] at returned
  obtain ⟨⟨-, eps_one⟩, -, h_one⟩ := returned
  have same : Process 0.000001 0.08 0.9 (fun _ => 1) 2 (fun i => (s i).1) fun i => (s i).2 := by
    refine ⟨fun i _ => late.variance i, fun i inside => ?_⟩
    obtain rfl : i = 0 := by omega
    rw [eps_one, process.shock 0 inside, h_one]
  have moves : gap 0.000001 0.9 (fun i => (s i).1) 0 ≠ 0 := by
    rw [s_eq]
    show (1 - 0.9) * (0.000001 / max (1 - 0.08 - 0.9) 1e-10) - 0.000001 ≠ (0 : ℝ)
    rw [max_eq_left (by norm_num)]
    norm_num
  have none := (late.process_iff_none (by norm_num) (by norm_num) (by norm_num) moves (by norm_num)).mp same
  exact one_ne_zero (none 0 (by decide))

end Engines

end PolyglotInfinity
