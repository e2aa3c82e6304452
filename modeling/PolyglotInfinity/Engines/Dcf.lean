import PolyglotInfinity.PortalSvelte.WasmPanel
import PolyglotInfinity.PricerFsharp.Program
import PolyglotInfinity.WasmZig.Finance

/-!
# Discounted cash flows in three engines

A closed power for each year, a running product, and a running product next to a table:
all three sum the same terms.
-/

namespace PolyglotInfinity.Engines

open PolyglotInfinity

section

variable {F : Type} [Field F] (fcf growth terminal wacc : F)

/-- What the cash flows of the first `n` years are worth. -/
def operatingValue (n : ℕ) : F := ∑ i ∈ Finset.range n, fcf * (1 + growth) ^ (i + 1) / (1 + wacc) ^ (i + 1)

/-- What all later years are worth. -/
def terminalValue (n : ℕ) : F := fcf * (1 + growth) ^ n * (1 + terminal) / (wacc - terminal) / (1 + wacc) ^ n

theorem operatingValue_succ (n : ℕ) : operatingValue fcf growth wacc (n + 1) =
    operatingValue fcf growth wacc n + fcf * (1 + growth) ^ (n + 1) / (1 + wacc) ^ (n + 1) :=
  Finset.sum_range_succ _ n

theorem flows_length (lib : Libm F) (n : ℕ) : (PricerFsharp.Dcf.flows lib fcf growth n).length = n := by
  rw [PricerFsharp.Dcf.flows, List.length_map, List.length_range', Int.toNat_natCast]

theorem tvPv_eq (lib : Libm F) (n : ℕ) :
    PortalSvelte.tvPv lib fcf growth terminal wacc n = terminalValue fcf growth terminal wacc n := by
  unfold PortalSvelte.tvPv terminalValue
  rw [lib.pow_natCast, lib.pow_natCast]

theorem one_add_cast (n : ℕ) : (1 + n : F) = (n + 1 : ℕ) := by rw [add_comm, Nat.cast_succ]

theorem sums_iterate [LinearOrder F] [FloorRing F] (lib : Libm F) (n : ℕ) :
    ∃ steps, (PortalSvelte.Sums.year lib growth wacc)^[n] ⟨1, fcf, 0, []⟩ =
      ⟨1 + n, fcf * (1 + growth) ^ n, operatingValue fcf growth wacc n, steps⟩ := by
  induction n with
  | zero => exact ⟨[], by norm_num [operatingValue]⟩
  | succ n ih =>
    obtain ⟨steps, ih⟩ := ih
    rw [Function.iterate_succ_apply', ih, operatingValue_succ]
    unfold PortalSvelte.Sums.year
    rw [one_add_cast, lib.pow_natCast, pow_succ]
    refine ⟨_, PortalSvelte.Sums.mk.injEq .. |>.mpr ⟨?_, ?_, ?_, rfl⟩⟩
    · push_cast
      ring
    · ring
    · ring

end

variable {F : Type} [Field F] [LinearOrder F] [IsStrictOrderedRing F]
variable (lib : Libm F) (fcf growth terminal wacc : F) {n : ℕ}

/-! ### F# -/

theorem flows_succ (n : ℕ) : PricerFsharp.Dcf.flows lib fcf growth (n + 1 : ℕ) =
    PricerFsharp.Dcf.flows lib fcf growth n ++ [fcf * (1 + growth) ^ (n + 1)] := by
  unfold PricerFsharp.Dcf.flows
  rw [Int.toNat_natCast, Int.toNat_natCast, List.range'_1_concat, List.map_append, List.map_singleton, lib.pow_natCast]
  norm_num [add_comm]

theorem pvFlows_sum (n : ℕ) : ((PricerFsharp.Dcf.flows lib fcf growth n).mapIdx fun i cf =>
    cf / lib.pow (1.0 + wacc) ((i + 1 : ℕ) : F)).sum = operatingValue fcf growth wacc n := by
  induction n with
  | zero => rfl
  | succ n ih =>
    rw [flows_succ, List.mapIdx_concat, List.sum_append, ih, List.sum_singleton, flows_length, lib.pow_natCast,
      operatingValue_succ]
    norm_num

theorem netPresentValue_eq (n_pos : 1 ≤ n) : PricerFsharp.Dcf.netPresentValue lib fcf growth terminal wacc n =
    some (operatingValue fcf growth wacc n + terminalValue fcf growth terminal wacc n) := by
  obtain ⟨m, rfl⟩ := Nat.exists_eq_add_of_le' n_pos
  have last : (PricerFsharp.Dcf.flows lib fcf growth (m + 1 : ℕ)).getLast? = some (fcf * (1 + growth) ^ (m + 1)) := by
    rw [flows_succ, List.getLast?_concat]
  unfold PricerFsharp.Dcf.netPresentValue
  dsimp only
  rw [pvFlows_sum, last, Int.cast_natCast, lib.pow_natCast, terminalValue]
  norm_num

/-! ### The two loops -/

theorem years_le {i n : ℕ} : (1 + i : F) ≤ n ↔ i < n := by
  rw [add_comm]
  exact_mod_cast Nat.succ_le_iff

theorem dcf_iterate (n : ℕ) : (WasmZig.Dcf.year lib growth wacc)^[n] ⟨0.0, 1.0, fcf⟩ =
    ⟨operatingValue fcf growth wacc n, 1 + n, fcf * (1 + growth) ^ n⟩ := by
  induction n with
  | zero => norm_num [operatingValue]
  | succ n ih =>
    rw [Function.iterate_succ_apply', ih, operatingValue_succ]
    unfold WasmZig.Dcf.year
    rw [one_add_cast, lib.pow_natCast, pow_succ]
    norm_num
    exact ⟨by ring, by ring, by ring⟩

theorem dcfValue_eq {fuel : ℕ} (enough : n ≤ fuel) : WasmZig.dcfValue lib fuel fcf growth terminal wacc n =
    some (operatingValue fcf growth wacc n + terminalValue fcf growth terminal wacc n) := by
  have ran : whileLoop (fun s : WasmZig.Dcf F => s.y ≤ (n : F)) (WasmZig.Dcf.year lib growth wacc) fuel ⟨0.0, 1.0, fcf⟩ =
      some ⟨operatingValue fcf growth wacc n, 1 + n, fcf * (1 + growth) ^ n⟩ := by
    rw [← dcf_iterate lib]
    apply whileLoop_rounds
    · intro i i_lt
      rw [dcf_iterate]
      exact years_le.mpr i_lt
    · rw [dcf_iterate]
      exact years_le.not.mpr (Nat.lt_irrefl n)
    · exact enough
  unfold WasmZig.dcfValue
  rw [ran]
  dsimp only [Option.bind_eq_bind, Option.bind_some]
  rw [lib.pow_natCast, lib.pow_natCast, terminalValue]
  norm_num

variable [FloorRing F]

theorem sums_eq {fuel : ℕ} (enough : n ≤ fuel) : ∃ s, PortalSvelte.sums lib fuel fcf growth wacc n = some s ∧
    s.cumPv = operatingValue fcf growth wacc n := by
  obtain ⟨steps, last⟩ := sums_iterate fcf growth wacc lib n
  refine ⟨_, ?_, congrArg PortalSvelte.Sums.cumPv last⟩
  apply whileLoop_rounds
  · intro i i_lt
    obtain ⟨_, so_far⟩ := sums_iterate fcf growth wacc lib i
    rw [so_far]
    exact years_le.mpr i_lt
  · rw [last]
    exact years_le.not.mpr (Nat.lt_irrefl n)
  · exact enough

theorem dcf_values {n : ℕ} (n_pos : 1 ≤ n) {fuel : ℕ} (enough : n ≤ fuel) :
    ∃ npv s, PricerFsharp.Dcf.netPresentValue lib fcf growth terminal wacc n = some npv ∧
      WasmZig.dcfValue lib fuel fcf growth terminal wacc n = some npv ∧
      PortalSvelte.sums lib fuel fcf growth wacc n = some s ∧
      s.cumPv + PortalSvelte.tvPv lib fcf growth terminal wacc n = npv := by
  obtain ⟨s, sums, cumPv⟩ := sums_eq lib fcf growth wacc enough
  refine ⟨_, s, netPresentValue_eq lib fcf growth terminal wacc n_pos, dcfValue_eq lib fcf growth terminal wacc enough,
    sums, ?_⟩
  rw [cumPv, tvPv_eq]

theorem dcf_values_five : IsStrictOrderedRing ℚ ∧ 1 ≤ 5 ∧ 5 ≤ 5 ∧
    ∃ npv s, PricerFsharp.Dcf.netPresentValue Libm.rational 1e6 0.1 0.03 0.08 (5 : ℕ) = some npv ∧
      WasmZig.dcfValue Libm.rational 5 1e6 0.1 0.03 0.08 (5 : ℕ) = some npv ∧
      PortalSvelte.sums Libm.rational 5 1e6 0.1 0.08 (5 : ℕ) = some s ∧
      s.cumPv + PortalSvelte.tvPv Libm.rational 1e6 0.1 0.03 0.08 (5 : ℕ) = npv :=
  ⟨inferInstance, by decide, le_rfl, dcf_values Libm.rational 1e6 0.1 0.03 0.08 (by decide : 1 ≤ 5) le_rfl⟩

end PolyglotInfinity.Engines
