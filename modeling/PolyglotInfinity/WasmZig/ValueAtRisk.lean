import PolyglotInfinity.EngineJulia.Risk
import PolyglotInfinity.Lib.Selection
import PolyglotInfinity.WasmZig.Finance

/-!
# The quantile of the finance module

The selection sort of `mcVaR95` stops as soon as the quantile is in its place. What lies in
`finals` behind the simulated returns is neither read nor written.
-/

namespace PolyglotInfinity.WasmZig

open CProgram
open Selection (Selected)

section

variable {F : Type} {finals : Array F} {cur rest : List F} {i : ℕ}

theorem cell_inside (cells : finals.toList = cur ++ rest) (i_lt : i < cur.length) :
    0 ≤ (i : ℤ) ∧ (i : ℤ) < finals.size := by
  have size := congrArg List.length cells
  rw [Array.length_toList, List.length_append] at size
  omega

theorem read_cell (cells : finals.toList = cur ++ rest) (i_lt : i < cur.length) {Q : F → Prop}
    (good : ∀ x, cur[i]? = some x → Q x) : Post (read finals i) Q := by
  refine post_read.mpr ⟨cell_inside cells i_lt, fun x found => good x ?_⟩
  rw [Int.toNat_natCast, ← Array.getElem?_toList, cells, List.getElem?_append_left i_lt] at found
  exact found

theorem write_cell (cells : finals.toList = cur ++ rest) (i_lt : i < cur.length) {x : F} {Q : Array F → Prop}
    (good : ∀ finals' : Array F, finals'.toList = cur.set i x ++ rest → Q finals') : Post (write finals i x) Q := by
  refine post_write.mpr ⟨cell_inside cells i_lt, good _ ?_⟩
  rw [Int.toNat_natCast, Array.toList_setIfInBounds, cells, List.set_append_left _ _ i_lt]

theorem set_next {filled undefined : List F} {n : ℕ} (size : filled.length = n) (n_lt : n < undefined.length) (x : F) :
    (filled ++ undefined.drop n).set n x = filled ++ [x] ++ undefined.drop (n + 1) := by
  rw [List.set_append_right _ _ size.le, size, Nat.sub_self, List.drop_eq_getElem_cons n_lt, List.set_cons_zero,
    List.append_assoc]
  rfl

end

section

variable {F : Type} [LinearOrder F] {finals : Array F} {orig cur rest : List F}

/-- The least of the elements from `j` up to `m`. -/
structure Least (cur : List F) (j m b : ℕ) : Prop where
  low : j ≤ b
  high : b < m
  least : ∀ p x v, j ≤ p → p < m → cur[b]? = some v → cur[p]? = some x → v ≤ x

theorem Least.one (cur : List F) (j : ℕ) : Least cur j (j + 1) j := by
  refine ⟨le_rfl, Nat.lt_succ_self j, fun p x v low high v_at x_at => ?_⟩
  obtain rfl : p = j := by omega
  exact (Option.some.inj (v_at.symm.trans x_at)).le

theorem Least.next {j m b : ℕ} (least : Least cur j m b) {candidate v : F} (at_m : cur[m]? = some candidate)
    (at_b : cur[b]? = some v) : Least cur j (m + 1) (if candidate < v then m else b) := by
  obtain ⟨low, high, least⟩ := least
  split
  · rename_i smaller
    refine ⟨by omega, Nat.lt_succ_self m, fun p x w p_ge p_lt w_at x_at => ?_⟩
    obtain rfl := Option.some.inj (at_m.symm.trans w_at)
    rcases Nat.lt_succ_iff_lt_or_eq.mp p_lt with before | rfl
    · exact smaller.le.trans (least p x v p_ge before at_b x_at)
    · exact (Option.some.inj (at_m.symm.trans x_at)).le
  · rename_i larger
    refine ⟨low, by omega, fun p x w p_ge p_lt w_at x_at => ?_⟩
    rcases Nat.lt_succ_iff_lt_or_eq.mp p_lt with before | rfl
    · exact least p x w p_ge before w_at x_at
    · obtain rfl := Option.some.inj (at_b.symm.trans w_at)
      obtain rfl := Option.some.inj (at_m.symm.trans x_at)
      exact not_lt.mp larger

theorem minIdx_post {j : ℕ} (cells : finals.toList = cur ++ rest) (j_lt : j < cur.length) (small : cur.length < 2 ^ 31) :
    Post (minIdx finals j cur.length) fun b => ∃ b' : ℕ, b = b' ∧ Least cur j cur.length b' := by
  unfold minIdx
  apply post_count (I := fun m (b : ℤ) => ∃ b' : ℕ, b = b' ∧ Least cur j m.toNat b')
  · exact_mod_cast j_lt
  · omega
  · exact_mod_cast small
  · rintro m _ m_ge m_lt ⟨b, rfl, least⟩
    lift m to ℕ using by omega
    rw [Int.toNat_natCast] at least
    have b_lt : b < cur.length := least.high.trans (by exact_mod_cast m_lt)
    rw [post_bind]
    refine read_cell cells (by exact_mod_cast m_lt) fun candidate at_m => ?_
    rw [post_bind]
    refine read_cell cells b_lt fun v at_b => ?_
    rw [post_pure]
    refine ⟨_, ?_, least.next at_m at_b⟩
    split <;> rfl
  · exact ⟨j, rfl, Least.one cur j⟩

theorem partialSort_post {k : ℕ} (cells : finals.toList = orig ++ rest) (k_le : k ≤ orig.length)
    (small : orig.length < 2 ^ 31) :
    Post (partialSort finals orig.length k) fun finals' =>
      ∃ cur, finals'.toList = cur ++ rest ∧ Selected orig cur k := by
  unfold partialSort
  apply post_count (I := fun j (finals' : Array F) => ∃ cur, finals'.toList = cur ++ rest ∧ Selected orig cur j.toNat)
  · exact Int.natCast_nonneg k
  · exact le_rfl
  · omega
  · rintro j finals' low high ⟨cur, cells, selected⟩
    lift j to ℕ using low
    have size := selected.perm.length_eq
    have j_lt : j < cur.length := by omega
    rw [post_bind, ← size]
    refine (minIdx_post cells j_lt (by omega)).mono ?_
    rintro _ ⟨b, rfl, least⟩
    rw [post_bind]
    refine read_cell cells j_lt fun tmp at_j => ?_
    rw [post_bind]
    refine read_cell cells least.high fun v at_b => ?_
    rw [post_bind]
    refine write_cell cells j_lt fun finals₁ cells₁ => ?_
    refine write_cell cells₁ (by rw [List.length_set]; exact least.high) fun finals₂ cells₂ => ⟨_, cells₂, ?_⟩
    refine selected.swap least.low at_j at_b fun m y j_le y_at => ?_
    exact least.least m y v j_le (List.getElem?_eq_some_iff.mp y_at).1 at_b y_at
  · exact ⟨orig, cells, Selected.start orig⟩

variable [Field F]

/-- The `k`-th smallest return, in whatever order they are. -/
theorem valueAtRisk_post (cells : finals.toList = orig ++ rest) (nonempty : 0 < orig.length)
    (small : orig.length < 2 ^ 31) :
    ∃ v, orig.mergeSort[max 1 (orig.length / 20) - 1]? = some v ∧ valueAtRisk finals orig.length = .ok (-v) := by
  obtain ⟨k, rounds⟩ : ∃ k, max 1 (orig.length / 20) = k + 1 := ⟨max 1 (orig.length / 20) - 1, by omega⟩
  have k_lt : k < orig.mergeSort.length := by
    rw [List.length_mergeSort]
    omega
  refine ⟨orig.mergeSort[k], ?_, ?_⟩
  · rw [rounds]
    exact List.getElem?_eq_getElem k_lt
  · have rounds' : max 1 ((orig.length : ℤ) / 20) = (k + 1 : ℕ) := by omega
    have post : Post (valueAtRisk finals orig.length) (· = -orig.mergeSort[k]) := by
      unfold valueAtRisk
      simp only [rounds']
      rw [post_bind]
      refine (partialSort_post cells (by rw [List.length_mergeSort] at k_lt; omega) small).mono ?_
      rintro finals' ⟨cur, cells', selected⟩
      have last : ((k + 1 : ℕ) : ℤ) - 1 = k := by omega
      rw [post_bind, last]
      refine read_cell cells' ?_ fun v at_k => ?_
      · rw [selected.perm.length_eq, ← List.length_mergeSort orig]
        exact k_lt
      · rw [post_pure]
        have sorted := selected.sorted (Nat.lt_succ_self k)
        rw [at_k, List.getElem?_eq_getElem k_lt] at sorted
        rw [Option.some.inj sorted]
    obtain ⟨r, ran, rfl⟩ := post
    exact ran

theorem computeRiskMetrics_var [FloorRing F] [IsStrictOrderedRing F] (lib : Libm F) {v : F}
    (ranked : orig.mergeSort[max 1 (orig.length / 20) - 1]? = some v) :
    ∃ m, EngineJulia.computeRiskMetrics lib orig 0.95 = some m ∧ m.var95 = v := by
  obtain ⟨inside, rfl⟩ := List.getElem?_eq_some_iff.mp ranked
  have idx : EngineJulia.varIdx (0.95 : F) orig.length = (max 1 (orig.length / 20) - 1 : ℕ) + 1 := by
    rw [EngineJulia.varIdx_eq]
    omega
  obtain ⟨m, metrics, var, -⟩ := EngineJulia.computeRiskMetrics_some lib 0.95 idx inside
  exact ⟨m, metrics, var⟩

/-- The sort needs nothing but the returns, does the same whatever lies behind them, and ends with
minus the value at risk of the Julia engine. -/
theorem valueAtRisk_eq [FloorRing F] [IsStrictOrderedRing F] (lib : Libm F) {paths : UInt32} (some_path : 1 ≤ paths)
    {returns : Array F} (size : returns.size = min paths.toNat maxPaths) :
    ∃ v, returns.toList.mergeSort[max 1 (returns.size / 20) - 1]? = some v ∧
      valueAtRisk returns returns.size = .ok (-v) ∧
      (∀ behind, valueAtRisk (returns ++ behind) returns.size = .ok (-v)) ∧
      ∃ m, EngineJulia.computeRiskMetrics lib returns.toList 0.95 = some m ∧ m.var95 = v := by
  have paths_pos : 1 ≤ paths.toNat := by simpa using UInt32.le_iff_toNat_le.mp some_path
  have nonempty : 0 < returns.toList.length := by
    rw [Array.length_toList, size]
    exact lt_min paths_pos (by decide)
  have small : returns.toList.length < 2 ^ 31 := by
    rw [Array.length_toList, size]
    exact (min_le_right _ _).trans_lt (by decide)
  obtain ⟨v, ranked, alone⟩ := valueAtRisk_post (List.append_nil returns.toList).symm nonempty small
  refine ⟨v, ranked, alone, fun behind => ?_, computeRiskMetrics_var lib ranked⟩
  obtain ⟨w, ranked', whole⟩ := valueAtRisk_post Array.toList_append nonempty small
  rw [ranked] at ranked'
  rw [Option.some.inj ranked']
  exact whole

theorem valueAtRisk_eq_two : IsStrictOrderedRing ℚ ∧ (1 : UInt32) ≤ 2 ∧ (#[(0.5 : ℚ), -0.5]).size = min 2 maxPaths ∧
    ∃ v, [(0.5 : ℚ), -0.5].mergeSort[max 1 (2 / 20) - 1]? = some v ∧ valueAtRisk #[0.5, -0.5] 2 = .ok (-v) ∧
      (∀ behind, valueAtRisk (#[0.5, -0.5] ++ behind) 2 = .ok (-v)) ∧
      ∃ m, EngineJulia.computeRiskMetrics Libm.rational [0.5, -0.5] 0.95 = some m ∧ m.var95 = v :=
  ⟨inferInstance, by decide, by decide, valueAtRisk_eq Libm.rational (by decide : (1 : UInt32) ≤ 2) (by decide)⟩

end

/-! ### The whole function -/

section

variable {F : Type} [Field F]

/-- The state of the generator after `n` paths, and their returns. -/
def simulate (lib : Libm F) (drift diffusion s0 : F) (days : ℕ) (seed : UInt64) : ℕ → UInt64 × List F
  | 0 => (seed, [])
  | n + 1 =>
    let (rng, returns) := simulate lib drift diffusion s0 days seed n
    let (rng, s) := path lib drift diffusion days rng s0
    (rng, returns ++ [(s - s0) / s0])

theorem simulate_length (lib : Libm F) (drift diffusion s0 : F) (days : ℕ) (seed : UInt64) (n : ℕ) :
    (simulate lib drift diffusion s0 days seed n).2.length = n := by
  induction n with
  | zero => rfl
  | succ n ih => rw [simulate, List.length_append, ih, List.length_singleton]

/-- After `i` paths the first cells hold their returns, and the others what they held before. -/
structure Filled (sim : ℕ → UInt64 × List F) (undefined : List F) (i : ℕ) (st : UInt64 × Array F) : Prop where
  rng : st.1 = (sim i).1
  cells : st.2.toList = (sim i).2 ++ undefined.drop i

theorem Filled.next {lib : Libm F} {drift diffusion s0 : F} {days : ℕ} {seed rng : UInt64} {undefined : List F} {i : ℕ}
    {finals : Array F} (filled : Filled (simulate lib drift diffusion s0 days seed) undefined i (rng, finals))
    (i_lt : i < undefined.length) :
    Post (do
      let (rng, s) := path lib drift diffusion days rng s0
      let finals ← write finals i ((s - s0) / s0)
      pure (rng, finals)) (Filled (simulate lib drift diffusion s0 days seed) undefined (i + 1)) := by
  obtain ⟨rfl, cells⟩ := filled
  have length := simulate_length lib drift diffusion s0 days seed i
  have inside : i < finals.toList.length := by
    rw [cells, List.length_append, length, List.length_drop]
    omega
  dsimp only
  rw [post_bind]
  refine write_cell (List.append_nil _).symm inside fun finals' cells' => ?_
  rw [post_pure]
  refine ⟨rfl, ?_⟩
  rw [cells', cells, List.append_nil]
  exact set_next length i_lt _

variable [LinearOrder F]

/-- A run returns minus the `k`-th smallest of the returns that it has simulated. -/
theorem mcVaR95_simulate (lib : Libm F) {undefined : Array F} (cells : undefined.size = maxPaths) (seed : UInt64)
    (s0 mu sigma : F) (days : UInt32) {paths : UInt32} (some_path : 1 ≤ paths) :
    ∃ returns : List F, returns.length = min paths.toNat maxPaths ∧
      returns = (simulate lib ((mu - 0.5 * sigma * sigma) * (1.0 / 252.0)) (sigma * lib.sqrt (1.0 / 252.0)) s0 days.toNat
        seed (min paths.toNat maxPaths)).2 ∧
      ∃ v, returns.mergeSort[max 1 (returns.length / 20) - 1]? = some v ∧
        mcVaR95 lib undefined seed s0 mu sigma days paths = .ok (-v) := by
  have paths_pos : 1 ≤ paths.toNat := by simpa using UInt32.le_iff_toNat_le.mp some_path
  obtain ⟨n, same⟩ : ∃ n, min paths.toNat maxPaths = n := ⟨_, rfl⟩
  have n_pos : 0 < n := same ▸ lt_min paths_pos (by decide)
  have n_le : n ≤ 2000 := same ▸ min_le_right _ _
  have cells' : undefined.toList.length = 2000 := cells
  rw [same]
  let sim :=
    simulate lib ((mu - 0.5 * sigma * sigma) * (1.0 / 252.0)) (sigma * lib.sqrt (1.0 / 252.0)) s0 days.toNat seed
  have length (i : ℕ) : (sim i).2.length = i := simulate_length ..
  refine ⟨(sim n).2, length n, rfl, ?_⟩
  have bound : ((min (paths.toNat : ℤ) (maxPaths : ℤ)) : ℤ) = (n : ℕ) := by
    rw [← same]
    push_cast
    rfl
  have post : Post (mcVaR95 lib undefined seed s0 mu sigma days paths) fun r =>
      ∃ v, (sim n).2.mergeSort[max 1 ((sim n).2.length / 20) - 1]? = some v ∧ r = -v := by
    unfold mcVaR95
    simp only [bound]
    rw [post_bind]
    refine (post_count (I := fun i st => Filled sim undefined.toList i.toNat st)
      (Int.natCast_nonneg n) le_rfl (by omega) ?_ ⟨rfl, rfl⟩).mono ?_
    · intro i st low high filled
      lift i to ℕ using low
      exact filled.next (by omega)
    · intro st filled
      have ranked := valueAtRisk_post filled.cells (by rw [length]; exact n_pos) (by rw [length]; omega)
      rw [length] at ranked ⊢
      obtain ⟨v, ranked, ran⟩ := ranked
      exact ⟨-v, ran, v, ranked, rfl⟩
  obtain ⟨_, ran, v, ranked, rfl⟩ := post
  exact ⟨v, ranked, ran⟩

end

end PolyglotInfinity.WasmZig
