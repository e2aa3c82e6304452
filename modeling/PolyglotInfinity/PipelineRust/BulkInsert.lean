import Mathlib

/-!
# Bulk insert

`bulk_insert` of the Rust pipeline: ten thousand rows in one transaction, whose steps the
database may each refuse. Rows reach the table only with a commit that succeeds.
-/

namespace PolyglotInfinity.PipelineRust

variable {α : Type}

section
variable [NatCast α] [Div α]

/-- The bits `0x001F_FFFF_FFFF_FFFF` of a word over `1 << 53`. -/
def uniform (x : UInt64) : α := ((x &&& 0x001FFFFFFFFFFFFF).toNat : α) / ((2 ^ 53 : ℕ) : α)

def scramble (x : UInt64) : UInt64 :=
  let x := x ^^^ (x <<< 13)
  let x := x ^^^ (x >>> 7)
  x ^^^ (x <<< 17)

def xorshiftPair (seed : UInt64) : α × α :=
  let x := scramble (seed ^^^ 0x9e3779b97f4a7c15)
  let u1 := uniform x
  let x := scramble x
  (u1, uniform x)

end

/-- The operations of `f64` beyond the field's. -/
structure Floats (α : Type) where
  sqrt : α → α
  round : α → α

structure Row (α : Type) where
  userId : Int32
  riskScore : α

structure Report (α : Type) where
  model : String := "daily_VaR_95"
  formula : String := "position x (annual_vol / sqrt(252)) x z_0.95"
  sampleVarFirstKrw : α
  sampleVarLastKrw : α

structure Reply (α : Type) where
  status : String
  message : Option String := none
  insertedRows : ℕ
  report : Option (Report α) := none

/-- How the database answers each step: with nothing, or with the text of an error. -/
structure Database where
  ensure : Option String
  beginTx : Option String
  insert : ℕ → Option String
  rollback : Option String
  commit : Option String

inductive Ended where
  | rolledBack (outcome : Option String)
  | committed (outcome : Option String)

def Ended.table (table tx : List (Row α)) : Ended → List (Row α)
  | .rolledBack _ => table
  | .committed (some _) => table
  | .committed none => table ++ tx

def recordCount : ℕ := 10000

/-- The loop from row `i`: the rows of the transaction, and the row that fails. -/
def insertRows (db : Database) (row : ℕ → Row α) : ℕ → ℕ → List (Row α) → List (Row α) × Option (ℕ × String)
  | 0, _, tx => (tx, none)
  | fuel + 1, i, tx =>
    match db.insert i with
    | some e => (tx, some (i, e))
    | none => insertRows db row fuel (i + 1) (tx ++ [row i])

section
variable [NatCast α] [Add α] [Mul α] [Div α] [OfScientific α]

def dailyVar95 (floats : Floats α) (userId : Int32) : α :=
  let (u1, u2) := xorshiftPair (userId.toInt64.toUInt64 ^^^ 0xDEADBEEFCAFEF00D)
  let position := 5000000.0 + 95000000.0 * u1
  let annualVol := 0.08 + 0.47 * u2
  let dailyVol := annualVol / floats.sqrt 252.0
  position * dailyVol * 1.6448536

def riskRow (floats : Floats α) (i : ℕ) : Row α := ⟨Int32.ofNat i, dailyVar95 floats (Int32.ofNat i)⟩

/-- The reply, and `risk_logs` after the request. -/
def bulkInsert (floats : Floats α) (db : Database) (table : List (Row α)) : Reply α × List (Row α) :=
  match db.ensure with
  | some e => ({ status := "error", message := some ("DB schema ensure failed: " ++ e), insertedRows := 0 }, table)
  | none =>
    match db.beginTx with
    | some e =>
      ({ status := "error", message := some ("Failed to begin transaction: " ++ e), insertedRows := 0 }, table)
    | none =>
      match insertRows db (riskRow floats) recordCount 0 [] with
      | (tx, some (i, e)) =>
        ({ status := "error", message := some ("Insert failed at row " ++ toString i ++ ": " ++ e), insertedRows := i },
          (Ended.rolledBack db.rollback).table table tx)
      | (tx, none) =>
        let after := (Ended.committed db.commit).table table tx
        match db.commit with
        | some e =>
          ({ status := "error", message := some ("Failed to commit transaction: " ++ e), insertedRows := 0 }, after)
        | none =>
          let cents (x : α) := floats.round (x * 100.0) / 100.0
          ({ status := "success", insertedRows := recordCount,
             report := some {
               sampleVarFirstKrw := cents (dailyVar95 floats 0)
               sampleVarLastKrw := cents (dailyVar95 floats (Int32.ofNat (recordCount - 1))) } }, after)

end

/-! ### The rows of a transaction -/

section
variable {db : Database} {row : ℕ → Row α} {fuel i : ℕ} {tx : List (Row α)}

def Database.FailsAt (db : Database) (i : ℕ) : Prop := db.insert i ≠ none ∧ ∀ j < i, db.insert j = none

theorem Database.FailsAt.unique {k : ℕ} (fails : db.FailsAt i) (other : db.FailsAt k) : i = k := by
  rcases Nat.lt_trichotomy i k with before | rfl | after
  · exact absurd (other.2 i before) fails.1
  · rfl
  · exact absurd (fails.2 k after) other.1

/-- The loop stops at the first row that is refused, or adds all of its rows. -/
theorem insertRows_cases (before : ∀ j < i, db.insert j = none) :
    (∃ tx' k e, insertRows db row fuel i tx = (tx', some (k, e)) ∧ k < i + fuel ∧ db.FailsAt k) ∨
      (∃ tx', insertRows db row fuel i tx = (tx', none) ∧ tx'.length = tx.length + fuel ∧
        ∀ j < i + fuel, db.insert j = none) := by
  induction fuel generalizing i tx with
  | zero => exact .inr ⟨tx, rfl, rfl, before⟩
  | succ fuel ih =>
    rw [insertRows]
    cases answered : db.insert i with
    | some e => exact .inl ⟨tx, i, e, rfl, by omega, by simp [answered], before⟩
    | none =>
      have upTo : ∀ j < i + 1, db.insert j = none := by
        intro j j_lt
        rcases Nat.lt_succ_iff_lt_or_eq.mp j_lt with old | rfl
        · exact before j old
        · exact answered
      rcases @ih (i + 1) (tx ++ [row i]) upTo with ⟨tx', k, e, stopped, k_lt, fails⟩ | ⟨tx', added, size, all⟩
      · exact .inl ⟨tx', k, e, stopped, by omega, fails⟩
      · refine .inr ⟨tx', added, ?_, fun j j_lt => all j (by omega)⟩
        rw [size, List.length_append, List.length_singleton]
        omega

end

/-! ### The count of a reply -/

section
variable [NatCast α] [Add α] [Mul α] [Div α] [OfScientific α] {floats : Floats α} {db : Database} {table : List (Row α)}

/-- Rows are added behind those of the table, as many as the reply counts. -/
def Counted (floats : Floats α) (db : Database) (table : List (Row α)) : Prop :=
  ∃ added, (bulkInsert floats db table).2 = table ++ added ∧ added.length = (bulkInsert floats db table).1.insertedRows

def Database.Opens (db : Database) : Prop := db.ensure = none ∧ db.beginTx = none

theorem counted_none (kept : (bulkInsert floats db table).2 = table) :
    Counted floats db table ↔ (bulkInsert floats db table).1.insertedRows = 0 := by
  constructor
  · rintro ⟨added, after, counted⟩
    obtain rfl := List.append_right_eq_self.mp (after.symm.trans kept)
    exact counted.symm
  · intro none
    exact ⟨[], by rw [kept, List.append_nil], none.symm⟩

/-- A request that gets to its inserts and fails in one counts the rows before it, of which none is kept. -/
theorem counted_failed {k : ℕ} (opens : db.Opens) (k_lt : k < recordCount) (fails : db.FailsAt k) :
    Counted floats db table ↔ k = 0 := by
  obtain ⟨ensured, begun⟩ := opens
  rcases @insertRows_cases α db (riskRow floats) recordCount 0 [] (fun j none => absurd none (Nat.not_lt_zero j)) with
    ⟨tx, i, e, stopped, -, failsAt⟩ | ⟨tx, -, -, all⟩
  · obtain rfl := fails.unique failsAt
    rw [counted_none (by simp [bulkInsert, ensured, begun, stopped, Ended.table])]
    simp [bulkInsert, ensured, begun, stopped]
  · exact absurd (all k (by omega)) fails.1

theorem counted_unfailed (inserts : db.Opens → ∀ i < recordCount, db.insert i = none) : Counted floats db table := by
  cases ensured : db.ensure with
  | some e => exact ⟨[], by simp [bulkInsert, ensured], by simp [bulkInsert, ensured]⟩
  | none =>
    cases begun : db.beginTx with
    | some e => exact ⟨[], by simp [bulkInsert, ensured, begun], by simp [bulkInsert, ensured, begun]⟩
    | none =>
      rcases @insertRows_cases α db (riskRow floats) recordCount 0 []
        (fun j none => absurd none (Nat.not_lt_zero j)) with ⟨-, i, -, -, i_lt, fails, -⟩ | ⟨tx, added, size, -⟩
      · exact absurd (inserts ⟨ensured, begun⟩ i (by omega)) fails
      · cases committed : db.commit with
        | some e =>
          exact ⟨[], by simp [bulkInsert, ensured, begun, added, committed, Ended.table],
            by simp [bulkInsert, ensured, begun, added, committed]⟩
        | none =>
          refine ⟨tx, by simp [bulkInsert, ensured, begun, added, committed, Ended.table], ?_⟩
          rw [size, List.length_nil, Nat.zero_add]
          simp [bulkInsert, ensured, begun, added, committed]

/-- Either the reply is a success and all rows are in the table, or it is an error and none is. -/
theorem bulkInsert_ends (floats : Floats α) (db : Database) (table : List (Row α)) :
    ((bulkInsert floats db table).1.status = "success" ∧
      ∃ added, added.length = recordCount ∧ (bulkInsert floats db table).2 = table ++ added) ∨
    ((bulkInsert floats db table).1.status = "error" ∧ (bulkInsert floats db table).2 = table) := by
  unfold bulkInsert
  cases db.ensure with
  | some e => exact .inr ⟨rfl, rfl⟩
  | none =>
    cases db.beginTx with
    | some e => exact .inr ⟨rfl, rfl⟩
    | none =>
      rcases @insertRows_cases α db (riskRow floats) recordCount 0 [] (fun j none => absurd none (Nat.not_lt_zero j))
        with ⟨tx, i, e, stopped, -, -⟩ | ⟨tx, all, size, -⟩
      · rw [stopped]
        exact .inr ⟨rfl, rfl⟩
      · rw [all]
        cases db.commit with
        | some e => exact .inr ⟨rfl, rfl⟩
        | none => exact .inl ⟨rfl, tx, by rw [size, List.length_nil, Nat.zero_add], rfl⟩

def Database.FailsLate (db : Database) : Prop := db.Opens ∧ ∃ i, 0 < i ∧ i < recordCount ∧ db.FailsAt i

theorem counted_early (early : ¬ db.FailsLate) : Counted floats db table := by
  by_cases failed : ∃ i, i < recordCount ∧ db.FailsAt i
  · obtain ⟨i, i_lt, fails⟩ := failed
    by_cases opens : db.Opens
    · refine (counted_failed opens i_lt fails).mpr (Nat.eq_zero_of_not_pos fun i_pos => ?_)
      exact early ⟨opens, i, i_pos, i_lt, fails⟩
    · exact counted_unfailed fun opened => absurd opened opens
  · refine counted_unfailed fun _ i => ?_
    induction i using Nat.strong_induction_on with
    | _ i ih =>
      intro i_lt
      by_contra refused
      exact failed ⟨i, i_lt, refused, fun j j_lt => ih j j_lt (j_lt.trans i_lt)⟩

/-- Every failure point, and the count of its reply. -/
theorem counted_iff : Counted floats db table ↔ ¬ db.FailsLate := by
  constructor
  · rintro counted ⟨opens, i, i_pos, i_lt, fails⟩
    exact i_pos.ne' ((counted_failed opens i_lt fails).mp counted)
  · exact counted_early

def second : Database := ⟨none, none, fun i => if i = 1 then some "connection closed" else none, none, none⟩

/-- The reply counts the first row, which is rolled back. -/
theorem rolled_back_row_counted :
    ¬ ∀ (floats : Floats ℚ) (db : Database) (table : List (Row ℚ)), Counted floats db table := by
  intro law
  have fails : second.FailsAt 1 := by
    refine ⟨by simp [second], fun j j_lt => ?_⟩
    simp [second, j_lt.ne]
  exact one_ne_zero ((counted_failed ⟨rfl, rfl⟩ (by decide) fails).mp (law ⟨id, id⟩ second []))

/-! ### Several requests -/

/-- The table after requests in the order of their commits. -/
def serve (floats : Floats α) (table : List (Row α)) (dbs : List Database) : List (Row α) :=
  dbs.foldl (fun table db => (bulkInsert floats db table).2) table

theorem bulkInsert_reply : (bulkInsert floats db table).1 = (bulkInsert floats db []).1 := by
  unfold bulkInsert
  repeat' split
  all_goals rfl

/-- A run without a late failure adds as many rows as its replies count together. -/
theorem serve_counted {dbs : List Database} (early : ∀ db ∈ dbs, ¬ db.FailsLate) :
    ∃ added, serve floats table dbs = table ++ added ∧
      added.length = (dbs.map fun db => (bulkInsert floats db []).1.insertedRows).sum := by
  induction dbs generalizing table with
  | nil => exact ⟨[], (List.append_nil table).symm, rfl⟩
  | cons db dbs ih =>
    obtain ⟨first, after, firstCount⟩ := @counted_early α _ _ _ _ _ floats db table (early db List.mem_cons_self)
    obtain ⟨rest, afterAll, restCount⟩ := @ih (table ++ first) fun other later => early other (.tail db later)
    refine ⟨first ++ rest, ?_, ?_⟩
    · show serve floats (bulkInsert floats db table).2 dbs = _
      rw [after, afterAll, List.append_assoc]
    · rw [List.length_append, firstCount, restCount, bulkInsert_reply]
      rfl

end

end PolyglotInfinity.PipelineRust
