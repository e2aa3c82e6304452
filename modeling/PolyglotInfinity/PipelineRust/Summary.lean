import PolyglotInfinity.Lib.Copies
import PolyglotInfinity.PipelineRust.BulkInsert

/-!
# The risk summary

What `risk_summary` reads from `risk_logs`. A bulk insert that commits adds one and the same
batch, since the rows depend on their numbers only, and numbers are exact.
-/

namespace PolyglotInfinity.PipelineRust

open Copies (copies average percentileCont)

variable {α : Type} [Field α] [LinearOrder α]

structure Summary (α : Type) where
  count : ℕ
  minVar : Option α
  maxVar : Option α
  avgVar : Option α
  p95Var : Option α
  deriving DecidableEq

def scores (table : List (Row α)) : List α := table.map Row.riskScore

/-- `failed` if the database refuses the query. -/
def riskSummary (floats : Floats α) (failed : Bool) (table : List (Row α)) : Except String (Summary α) :=
  if failed then .error "risk_logs 테이블이 비어있거나 /api/bulk-insert 를 먼저 실행하세요"
  else
    let round2 (v : Option α) := v.map fun x => floats.round (x * 100.0) / 100.0
    .ok {
      count := (scores table).length
      minVar := round2 (scores table).min?
      maxVar := round2 (scores table).max?
      avgVar := round2 (average (scores table))
      p95Var := round2 (percentileCont 0.95 (scores table)) }

/-- The rows of a transaction that commits. -/
def batch (floats : Floats α) : List (Row α) := (List.range recordCount).map (riskRow floats)

def Database.Commits (db : Database) : Prop :=
  db.Opens ∧ (∀ i < recordCount, db.insert i = none) ∧ db.commit = none

instance (db : Database) : Decidable db.Commits := inferInstanceAs (Decidable ((_ ∧ _) ∧ (∀ _ < _, _) ∧ _))

/-! ### The table -/

variable {floats : Floats α} {db : Database} {table : List (Row α)}

omit [Field α] [LinearOrder α] in
theorem insertRows_rows {row : ℕ → Row α} {fuel i : ℕ} {tx tx' : List (Row α)}
    (added : insertRows db row fuel i tx = (tx', none)) : tx' = tx ++ (List.range' i fuel).map row := by
  induction fuel generalizing i tx with
  | zero => simpa [insertRows] using (Prod.mk.inj added).1.symm
  | succ fuel ih =>
    rw [insertRows] at added
    split at added
    · exact absurd (Prod.mk.inj added).2 (by simp)
    · rw [ih added, List.range'_succ, List.map_cons, List.append_assoc]
      rfl

omit [LinearOrder α] in
theorem bulkInsert_table : (db.Commits ∧ (bulkInsert floats db table).2 = table ++ batch floats) ∨
    (¬ db.Commits ∧ (bulkInsert floats db table).2 = table) := by
  unfold bulkInsert Database.Commits Database.Opens
  cases ensured : db.ensure with
  | some e => exact .inr ⟨by simp, rfl⟩
  | none =>
    cases begun : db.beginTx with
    | some e => exact .inr ⟨by simp, rfl⟩
    | none =>
      rcases @insertRows_cases α db (riskRow floats) recordCount 0 [] (fun j none => absurd none (Nat.not_lt_zero j))
        with ⟨tx, i, e, stopped, i_lt, fails⟩ | ⟨tx, all, -, inserts⟩
      · rw [stopped]
        refine .inr ⟨fun ⟨_, inserts, _⟩ => fails.1 (inserts i (by omega)), rfl⟩
      · rw [all]
        cases committed : db.commit with
        | some e => exact .inr ⟨by simp, rfl⟩
        | none =>
          refine .inl ⟨⟨⟨rfl, rfl⟩, fun i i_lt => inserts i (by omega), rfl⟩, ?_⟩
          show table ++ tx = table ++ batch floats
          rw [insertRows_rows all, batch, List.range_eq_range', List.nil_append]

omit [LinearOrder α] in
theorem bulkInsert_commits (commits : db.Commits) : (bulkInsert floats db table).2 = table ++ batch floats := by
  rcases @bulkInsert_table α _ floats db table with ⟨-, after⟩ | ⟨fails, -⟩
  · exact after
  · exact absurd commits fails

omit [LinearOrder α] in
theorem bulkInsert_fails (fails : ¬ db.Commits) : (bulkInsert floats db table).2 = table := by
  rcases @bulkInsert_table α _ floats db table with ⟨commits, -⟩ | ⟨-, after⟩
  · exact absurd commits fails
  · exact after

omit [LinearOrder α] in
theorem scores_copies (k : ℕ) : scores (copies k (batch floats)) = copies k (scores (batch floats)) :=
  Copies.map_copies _ _ _

omit [LinearOrder α] in
theorem batch_length : (scores (batch floats)).length = recordCount := by
  rw [scores, List.length_map, batch, List.length_map, List.length_range]

/-- Every figure but the count is that of one batch. -/
theorem riskSummary_copies [IsStrictOrderedRing α] {k : ℕ} (some : 0 < k) : ∃ one,
    riskSummary floats false (batch floats) = .ok one ∧
      riskSummary floats false (copies k (batch floats)) = .ok { one with count := k * recordCount } := by
  have rank : (0.95 : ℚ) * (scores (batch floats)).length = (9500 : ℕ) := by
    rw [batch_length, recordCount]
    norm_num
  refine ⟨_, rfl, ?_⟩
  simp only [riskSummary, Bool.false_eq_true, if_false, scores_copies, Copies.min_copies some, Copies.max_copies some,
    Copies.average_copies some, Copies.percentileCont_copies rank (by norm_num) (by norm_num) some,
    Copies.copies_length, batch_length]

/-! ### Bounds -/

/-- The scores of a batch lie between these two. -/
def lowest (floats : Floats α) : α := 5000000 * (0.08 / floats.sqrt 252.0) * 1.6448536

def highest (floats : Floats α) : α := 100000000 * (0.55 / floats.sqrt 252.0) * 1.6448536

theorem uniform_bounds [IsStrictOrderedRing α] (x : UInt64) : 0 ≤ (uniform x : α) ∧ (uniform x : α) < 1 := by
  have masked : (x &&& 0x001FFFFFFFFFFFFF).toNat < 2 ^ 53 := by
    rw [UInt64.toNat_and]
    exact Nat.lt_of_le_of_lt Nat.and_le_right (by decide)
  have scale : (0 : α) < ((2 ^ 53 : ℕ) : α) := Nat.cast_pos.mpr (by decide)
  refine ⟨div_nonneg (Nat.cast_nonneg _) scale.le, (div_lt_one scale).mpr ?_⟩
  exact Nat.cast_lt.mpr masked

theorem dailyVar95_bounds [IsStrictOrderedRing α] (root : 0 < floats.sqrt 252.0) (userId : Int32) :
    lowest floats ≤ dailyVar95 floats userId ∧ dailyVar95 floats userId < highest floats := by
  unfold dailyVar95 xorshiftPair
  dsimp only
  generalize scramble (userId.toInt64.toUInt64 ^^^ 0xDEADBEEFCAFEF00D ^^^ 0x9e3779b97f4a7c15) = x
  obtain ⟨u_nonneg, u_lt⟩ := uniform_bounds (α := α) x
  obtain ⟨v_nonneg, v_lt⟩ := uniform_bounds (α := α) (scramble x)
  generalize (uniform x : α) = u at u_nonneg u_lt ⊢
  generalize (uniform (scramble x) : α) = v at v_nonneg v_lt ⊢
  have position_least : (5000000 : α) ≤ 5000000.0 + 95000000.0 * u := by
    norm_num
    exact u_nonneg
  have position_most : 5000000.0 + 95000000.0 * u < (100000000 : α) := by
    norm_num
    linarith
  have vol_least : (0.08 : α) ≤ 0.08 + 0.47 * v := le_add_of_nonneg_right (mul_nonneg (by norm_num) v_nonneg)
  have vol_most : 0.08 + 0.47 * v < (0.55 : α) := by
    norm_num
    linarith
  have quantile : (0 : α) < 1.6448536 := by norm_num
  have vol_pos : (0 : α) < 0.08 + 0.47 * v := lt_of_lt_of_le (by norm_num) vol_least
  unfold lowest highest
  constructor
  · refine mul_le_mul_of_nonneg_right ?_ quantile.le
    exact mul_le_mul position_least (div_le_div_of_nonneg_right vol_least root.le)
      (div_nonneg (by norm_num) root.le) (le_trans (by norm_num) position_least)
  · refine mul_lt_mul_of_pos_right ?_ quantile
    exact mul_lt_mul'' position_most (div_lt_div_of_pos_right vol_most root)
      (le_trans (by norm_num) position_least) (div_nonneg vol_pos.le root.le)

end PolyglotInfinity.PipelineRust
