import PolyglotInfinity.EngineJulia.Risk
import PolyglotInfinity.HubGleam.Percentile
import PolyglotInfinity.PricerHaskell.Percentile

/-!
# Value at risk in three engines

Each engine has its own index into the sorted returns, and its own tail behind it.
-/

namespace PolyglotInfinity.Engines

open TailMean (Bounded mean)

variable {F : Type} [Field F] [LinearOrder F] [FloorRing F] [IsStrictOrderedRing F] {returns : List F}

/-- Whatever the returns are, the index of each engine is in range, its value at risk is one of
them, and its tail has a mean between the minimum and the value at risk. -/
theorem tail_risk (lib : Libm F) (sqrt : F → F) (n days : ℤ) (finals : List F) (nonempty : returns ≠ []) :
    (∃ r, PricerHaskell.mcResult lib n days finals returns = some r ∧
      r.cvar95 = mean (returns.filter (· ≤ r.var95)) ∧ Bounded returns r.var95 (returns.filter (· ≤ r.var95))) ∧
    (∃ var, HubGleam.percentileP (.exactly sqrt) returns 5 = .ok var ∧
      returns.mergeSort[(HubGleam.percentileIdx returns.length (5 : F)).toNat]? = some var ∧
      HubGleam.listMean (.exactly sqrt) (returns.filter (· ≤ var)) = .ok (mean (returns.filter (· ≤ var))) ∧
      Bounded returns var (returns.filter (· ≤ var))) ∧
    ∃ m tail, EngineJulia.computeRiskMetrics lib returns 0.95 = some m ∧
      EngineJulia.upTo returns.mergeSort (EngineJulia.varIdx (0.95 : F) returns.length) = some tail ∧
      m.cvar95 = mean tail ∧ Bounded returns m.var95 tail :=
  ⟨PricerHaskell.mcResult_bounded lib n days finals nonempty, HubGleam.percentileP_bounded sqrt nonempty 5,
    EngineJulia.computeRiskMetrics_bounded lib nonempty⟩

theorem tail_risk_losses : IsStrictOrderedRing ℚ ∧ [-3, 1, -3, 2] ≠ ([] : List ℚ) ∧
    (∃ r, PricerHaskell.mcResult Libm.rational 4 1 [97, 101, 97, 102] [-3, 1, -3, 2] = some r ∧
      r.cvar95 = mean ([-3, 1, -3, 2].filter (· ≤ r.var95)) ∧
      Bounded [-3, 1, -3, 2] r.var95 ([-3, 1, -3, 2].filter (· ≤ r.var95))) ∧
    (∃ var, HubGleam.percentileP (.exactly id) [-3, 1, -3, 2] 5 = .ok var ∧
      ([-3, 1, -3, 2] : List ℚ).mergeSort[(HubGleam.percentileIdx 4 (5 : ℚ)).toNat]? = some var ∧
      HubGleam.listMean (.exactly id) ([-3, 1, -3, 2].filter (· ≤ var)) =
        .ok (mean ([-3, 1, -3, 2].filter (· ≤ var))) ∧
      Bounded [-3, 1, -3, 2] var ([-3, 1, -3, 2].filter (· ≤ var))) ∧
    ∃ m tail, EngineJulia.computeRiskMetrics Libm.rational [-3, 1, -3, 2] 0.95 = some m ∧
      EngineJulia.upTo ([-3, 1, -3, 2] : List ℚ).mergeSort (EngineJulia.varIdx (0.95 : ℚ) 4) = some tail ∧
      m.cvar95 = mean tail ∧ Bounded [-3, 1, -3, 2] m.var95 tail :=
  ⟨inferInstance, List.cons_ne_nil _ _,
    tail_risk Libm.rational id 4 1 [97, 101, 97, 102] (List.cons_ne_nil (-3) [1, -3, 2])⟩

end PolyglotInfinity.Engines
