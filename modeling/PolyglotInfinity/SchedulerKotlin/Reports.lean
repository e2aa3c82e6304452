import PolyglotInfinity.Lib.Transition
import PolyglotInfinity.PipelineRust.Summary

/-!
# Risk reports

The scheduler's reports over the rows that the pipeline inserts. Every call of `generateReport`
runs its two statements on its own, among the transactions of the pipeline and the statements of
other calls; the `SERIAL` of a row is drawn before the row can be seen. A bulk insert is one step,
at its commit. Numbers are exact: the last digits of a sum of doubles may change with its length.
-/

namespace PolyglotInfinity.SchedulerKotlin

open Copies (copies average)
open PipelineRust (Database Floats Row bulkInsert batch scores recordCount riskSummary lowest highest)
open Transition (run)

variable {α : Type}

structure RiskReport (α : Type) where
  id : ℕ
  generatedAt : ℕ
  avgRiskScore : α
  totalRecords : ℕ
  maxRiskScore : α
  minRiskScore : α

structure Selected (α : Type) where
  total : ℕ
  avg : α
  max : α
  min : α

inductive Call (α : Type) where
  | selected (row : Selected α)
  | inserting (report : RiskReport α)

structure System (α : Type) where
  riskLogs : List (Row α) := []
  riskReports : List (RiskReport α) := []
  /-- The next value of the sequence behind `id`. -/
  nextId : ℕ := 1
  calls : ℕ → Option (Call α) := fun _ => none

inductive Step where
  | bulkInsert (db : Database)
  /-- Call `c` of `generateReport` begins. -/
  | select (c : ℕ)
  | insert (c : ℕ) (now : ℕ)
  | commit (c : ℕ)
  /-- An `SQLException` ends the call. -/
  | fail (c : ℕ)

section
variable [Field α] [LinearOrder α]

/-- The first statement, and nothing where the call returns behind it. -/
def select (riskLogs : List (Row α)) : Option (Selected α) :=
  let total := (scores riskLogs).length
  if total = 0 then none
  -- `getDouble` of NULL is 0.
  else some {
    total
    avg := (average (scores riskLogs)).getD 0
    max := (scores riskLogs).max?.getD 0
    min := (scores riskLogs).min?.getD 0 }

def Selected.report (row : Selected α) (id now : ℕ) : RiskReport α where
  id
  generatedAt := now
  avgRiskScore := row.avg
  totalRecords := row.total
  maxRiskScore := row.max
  minRiskScore := row.min

def System.set (s : System α) (c : ℕ) (call : Option (Call α)) : System α :=
  { s with calls := Function.update s.calls c call }

def System.step (floats : Floats α) (s : System α) : Step → Option (System α)
  | .bulkInsert db => some { s with riskLogs := (bulkInsert floats db s.riskLogs).2 }
  | .select c =>
    match s.calls c with
    | none => some (s.set c ((select s.riskLogs).map .selected))
    | some _ => none
  | .insert c now =>
    match s.calls c with
    | some (.selected row) => some { s.set c (some (.inserting (row.report s.nextId now))) with nextId := s.nextId + 1 }
    | _ => none
  | .commit c =>
    match s.calls c with
    | some (.inserting report) => some { s.set c none with riskReports := s.riskReports ++ [report] }
    | _ => none
  | .fail c => some (s.set c none)

/-- The rows of `handleLatest`. -/
def handleLatest (s : System α) : List (RiskReport α) :=
  (s.riskReports.mergeSort fun a b => b.id ≤ a.id).take 10

end

/-! ### What a call can read -/

section
variable [Field α] [LinearOrder α] {floats : Floats α}

/-- The figures are those of one batch, for some of the batches that have been committed. -/
structure Repeats (floats : Floats α) (committed total : ℕ) (avg max min : α) : Prop where
  total : ∃ k, 0 < k ∧ k ≤ committed ∧ total = k * recordCount
  avg : average (scores (batch floats)) = some avg
  max : (scores (batch floats)).max? = some max
  min : (scores (batch floats)).min? = some min

def Repeats.of (floats : Floats α) (committed : ℕ) : Call α → Prop
  | .selected row => Repeats floats committed row.total row.avg row.max row.min
  | .inserting report =>
    Repeats floats committed report.totalRecords report.avgRiskScore report.maxRiskScore report.minRiskScore

omit [LinearOrder α] in
theorem scores_nonempty : scores (batch floats) ≠ [] := by
  rw [← List.length_pos_iff, PipelineRust.batch_length]
  decide

theorem select_copies [CharZero α] {k : ℕ} {row : Selected α} (read : select (copies k (batch floats)) = some row) :
    Repeats floats k row.total row.avg row.max row.min := by
  have length : (scores (copies k (batch floats))).length = k * recordCount := by
    rw [PipelineRust.scores_copies, Copies.copies_length, PipelineRust.batch_length]
  simp only [select, length] at read
  split at read
  · contradiction
  · rename_i nonzero
    have some : 0 < k := Nat.pos_of_ne_zero fun none => nonzero (by rw [none, Nat.zero_mul])
    obtain rfl := Option.some.inj read
    rw [PipelineRust.scores_copies, Copies.average_copies some, Copies.max_copies some, Copies.min_copies some]
    obtain ⟨max, max_eq⟩ := Option.isSome_iff_exists.mp (List.isSome_max?_of_ne_nil (@scores_nonempty α _ floats))
    obtain ⟨min, min_eq⟩ := Option.isSome_iff_exists.mp (List.isSome_min?_of_ne_nil (@scores_nonempty α _ floats))
    refine ⟨⟨k, some, le_rfl, rfl⟩, ?_, ?_, ?_⟩
    · rw [average, if_neg scores_nonempty, Option.getD_some]
    · rw [max_eq, Option.getD_some]
    · rw [min_eq, Option.getD_some]

theorem select_some {table : List (Row α)} (filled : scores table ≠ []) : ∃ row, select table = some row := by
  rw [select, if_neg (mt List.length_eq_zero_iff.mp filled)]
  exact ⟨_, rfl⟩

theorem Repeats.mono {committed later total : ℕ} {avg max min : α} (repeats : Repeats floats committed total avg max min)
    (le : committed ≤ later) : Repeats floats later total avg max min := by
  obtain ⟨⟨k, some, k_le, total⟩, avg, max, min⟩ := repeats
  exact ⟨⟨k, some, k_le.trans le, total⟩, avg, max, min⟩

theorem Repeats.of_mono {committed later : ℕ} {call : Call α} (repeats : Repeats.of floats committed call)
    (le : committed ≤ later) : Repeats.of floats later call := by
  cases call with
  | selected row => exact Repeats.mono repeats le
  | inserting report => exact Repeats.mono repeats le

/-! ### The invariant -/

def Step.commits : Step → Bool
  | .bulkInsert db => db.Commits
  | .select _ | .insert _ _ | .commit _ | .fail _ => false

/-- `id` belongs to the call or has been written by it. -/
def System.Drawn (s : System α) (id : ℕ) : Prop :=
  (∃ r ∈ s.riskReports, r.id = id) ∨ ∃ c r, s.calls c = some (.inserting r) ∧ r.id = id

structure Consistent (floats : Floats α) (committed : ℕ) (s : System α) : Prop where
  logs : s.riskLogs = copies committed (batch floats)
  calls : ∀ c call, s.calls c = some call → Repeats.of floats committed call
  reports : ∀ r ∈ s.riskReports, Repeats.of floats committed (.inserting r)
  below : ∀ id, s.Drawn id → id < s.nextId
  distinct : (s.riskReports.map RiskReport.id).Nodup
  unwritten : ∀ c r, s.calls c = some (.inserting r) → r.id ∉ s.riskReports.map RiskReport.id
  apart : ∀ c d r r', s.calls c = some (.inserting r) → s.calls d = some (.inserting r') → r.id = r'.id → c = d

theorem init_consistent : Consistent floats 0 {} where
  logs := rfl
  calls := nofun
  reports := nofun
  below := by simp [System.Drawn]
  distinct := List.nodup_nil
  unwritten := nofun
  apart := nofun

variable {committed : ℕ} {s t : System α} {e : Step} {c : ℕ}

omit [Field α] [LinearOrder α] in
theorem set_calls (call : Option (Call α)) (d : ℕ) : (s.set c call).calls d = if d = c then call else s.calls d :=
  Function.update_apply _ _ _ _

/-- A call that changes to what is not an insert. -/
theorem Consistent.set (consistent : Consistent floats committed s) {call : Option (Call α)}
    (repeats : ∀ x, call = some x → Repeats.of floats committed x) (read : ∀ r, call ≠ some (.inserting r)) :
    Consistent floats committed (s.set c call) := by
  have held : ∀ {d r}, (s.set c call).calls d = some (.inserting r) → s.calls d = some (.inserting r) := by
    intro d r inserting
    rw [set_calls] at inserting
    split at inserting
    · exact absurd inserting (read r)
    · exact inserting
  refine { consistent with calls := ?_, below := ?_, unwritten := ?_, apart := ?_ }
  · intro d x there
    rw [set_calls] at there
    split at there
    · exact repeats x there
    · exact consistent.calls d x there
  · rintro id (⟨r, member, rfl⟩ | ⟨d, r, inserting, rfl⟩)
    · exact consistent.below _ (.inl ⟨r, member, rfl⟩)
    · exact consistent.below _ (.inr ⟨d, r, held inserting, rfl⟩)
  · exact fun d r inserting => consistent.unwritten d r (held inserting)
  · exact fun d d' r r' there there' same => consistent.apart d d' r r' (held there) (held there') same

theorem Consistent.insert (consistent : Consistent floats committed s) {row : Selected α} {now : ℕ}
    (reads : s.calls c = some (.selected row)) : Consistent floats committed
      { s.set c (some (.inserting (row.report s.nextId now))) with nextId := s.nextId + 1 } := by
  have held : ∀ {d r}, Function.update s.calls c (some (.inserting (row.report s.nextId now))) d =
      some (.inserting r) → (d = c ∧ r = row.report s.nextId now) ∨ (d ≠ c ∧ s.calls d = some (.inserting r)) := by
    intro d r inserting
    rw [Function.update_apply] at inserting
    split at inserting
    · exact .inl ⟨‹_›, (Call.inserting.inj (Option.some.inj inserting)).symm⟩
    · exact .inr ⟨‹_›, inserting⟩
  -- No row, written or on its way, has the number that the sequence gives next.
  have old : ∀ {d r}, s.calls d = some (.inserting r) → r.id ≠ s.nextId := by
    intro d r inserting
    exact (consistent.below r.id (.inr ⟨d, r, inserting, rfl⟩)).ne
  refine { consistent with calls := ?_, below := ?_, unwritten := ?_, apart := ?_ }
  · intro d x there
    change Function.update s.calls c _ d = some x at there
    rw [Function.update_apply] at there
    split at there
    · obtain rfl := Option.some.inj there
      exact (consistent.calls c (.selected row) reads : Repeats.of floats committed (.selected row))
    · exact consistent.calls d x there
  · rintro id (⟨r, member, rfl⟩ | ⟨d, r, inserting, rfl⟩)
    · exact Nat.lt_succ_of_lt (consistent.below _ (.inl ⟨r, member, rfl⟩))
    · rcases held inserting with ⟨-, rfl⟩ | ⟨-, there⟩
      · exact Nat.lt_succ_self _
      · exact Nat.lt_succ_of_lt (consistent.below _ (.inr ⟨d, r, there, rfl⟩))
  · intro d r inserting
    rcases held inserting with ⟨-, rfl⟩ | ⟨-, there⟩
    · intro member
      obtain ⟨r, written, same⟩ := List.mem_map.mp member
      exact (consistent.below r.id (.inl ⟨r, written, rfl⟩)).ne same
    · exact consistent.unwritten d r there
  · intro d d' r r' there there' same
    rcases held there with ⟨rfl, rfl⟩ | ⟨other, before⟩
    · rcases held there' with ⟨rfl, rfl⟩ | ⟨-, before'⟩
      · rfl
      · exact absurd same.symm (old before')
    · rcases held there' with ⟨rfl, rfl⟩ | ⟨-, before'⟩
      · exact absurd same (old before)
      · exact consistent.apart d d' r r' before before' same

theorem Consistent.commit (consistent : Consistent floats committed s) {report : RiskReport α}
    (inserting : s.calls c = some (.inserting report)) :
    Consistent floats committed { s.set c none with riskReports := s.riskReports ++ [report] } := by
  have held : ∀ {d r}, Function.update s.calls c none d = some (.inserting r) →
      d ≠ c ∧ s.calls d = some (.inserting r) := by
    intro d r there
    rw [Function.update_apply] at there
    split at there
    · contradiction
    · exact ⟨‹_›, there⟩
  refine { consistent with calls := ?_, reports := ?_, below := ?_, distinct := ?_, unwritten := ?_, apart := ?_ }
  · intro d x there
    change Function.update s.calls c _ d = some x at there
    rw [Function.update_apply] at there
    split at there
    · contradiction
    · exact consistent.calls d x there
  · intro r member
    rcases List.mem_append.mp member with old | new
    · exact consistent.reports r old
    · rw [List.mem_singleton.mp new]
      exact consistent.calls c _ inserting
  · rintro id (⟨r, member, rfl⟩ | ⟨d, r, there, rfl⟩)
    · rcases List.mem_append.mp member with old | new
      · exact consistent.below _ (.inl ⟨r, old, rfl⟩)
      · rw [List.mem_singleton.mp new]
        exact consistent.below _ (.inr ⟨c, report, inserting, rfl⟩)
    · exact consistent.below _ (.inr ⟨d, r, (held there).2, rfl⟩)
  · show ((s.riskReports ++ [report]).map RiskReport.id).Nodup
    rw [List.map_append, List.nodup_append]
    refine ⟨consistent.distinct, List.nodup_singleton _, ?_⟩
    rintro id old _ new rfl
    rw [List.map_singleton, List.mem_singleton] at new
    exact consistent.unwritten c report inserting (new ▸ old)
  · intro d r there member
    obtain ⟨other, before⟩ := held there
    rw [List.map_append, List.mem_append, List.map_singleton, List.mem_singleton] at member
    rcases member with old | same
    · exact consistent.unwritten d r before old
    · exact other (consistent.apart d c r report before inserting same)
  · exact fun d d' r r' there there' same => consistent.apart d d' r r' (held there).2 (held there').2 same

theorem Consistent.bulkInsert (consistent : Consistent floats committed s) (db : Database) :
    Consistent floats (committed + if Step.commits (.bulkInsert db) then 1 else 0)
      { s with riskLogs := (bulkInsert floats db s.riskLogs).2 } := by
  have more := Nat.le_add_right committed (if Step.commits (.bulkInsert db) then 1 else 0)
  refine { consistent with logs := ?_, calls := ?_, reports := ?_ }
  · by_cases commits : db.Commits
    · rw [Step.commits, decide_eq_true commits, if_pos rfl, Copies.copies_succ, ← consistent.logs]
      exact PipelineRust.bulkInsert_commits commits
    · rw [Step.commits, decide_eq_false commits, if_neg (by simp), Nat.add_zero, ← consistent.logs]
      exact PipelineRust.bulkInsert_fails commits
  · exact fun d call there => Repeats.of_mono (consistent.calls d call there) more
  · exact fun r member => Repeats.mono (consistent.reports r member) more

theorem step_consistent [CharZero α] (consistent : Consistent floats committed s) (taken : s.step floats e = some t) :
    Consistent floats (committed + if e.commits then 1 else 0) t := by
  cases e with
  | bulkInsert db =>
    obtain rfl := Option.some.inj taken
    exact consistent.bulkInsert db
  | select c =>
    simp only [System.step] at taken
    split at taken
    · obtain rfl := Option.some.inj taken
      refine consistent.set ?_ ?_
      · intro x read
        obtain ⟨row, row_eq, rfl⟩ := Option.map_eq_some_iff.mp read
        rw [consistent.logs] at row_eq
        exact select_copies row_eq
      · intro r read
        obtain ⟨row, -, other⟩ := Option.map_eq_some_iff.mp read
        contradiction
    · contradiction
  | insert c now =>
    simp only [System.step] at taken
    split at taken
    · obtain rfl := Option.some.inj taken
      exact consistent.insert ‹_›
    · contradiction
  | commit c =>
    simp only [System.step] at taken
    split at taken
    · obtain rfl := Option.some.inj taken
      exact consistent.commit ‹_›
    · contradiction
  | fail c =>
    obtain rfl := Option.some.inj taken
    exact consistent.set nofun nofun

theorem run_consistent [CharZero α] {es : List Step} (consistent : Consistent floats committed s)
    (ran : run (System.step floats) s es = some t) : Consistent floats (committed + es.countP Step.commits) t := by
  induction es generalizing s committed with
  | nil =>
    obtain rfl := Option.some.inj ran
    exact consistent
  | cons e es ih =>
    obtain ⟨u, first, rest⟩ := Transition.run_cons.mp ran
    have later := ih (step_consistent consistent first) rest
    rw [List.countP_cons]
    rwa [Nat.add_assoc, Nat.add_comm (if e.commits then 1 else 0)] at later

/-! ### The reports of a run -/

omit [Field α] [LinearOrder α] in
/-- The latest reports, the newest first: every other one has a smaller number than ten of them. -/
theorem handleLatest_newest (distinct : (s.riskReports.map RiskReport.id).Nodup) :
    (handleLatest s).Pairwise (fun a b => b.id < a.id) ∧ (∀ r ∈ handleLatest s, r ∈ s.riskReports) ∧
      ∀ r ∈ s.riskReports, r ∉ handleLatest s → (handleLatest s).length = 10 ∧ ∀ l ∈ handleLatest s, r.id < l.id := by
  have perm := List.mergeSort_perm s.riskReports fun a b => decide (b.id ≤ a.id)
  have strict : (s.riskReports.mergeSort fun a b => b.id ≤ a.id).Pairwise (fun a b => b.id < a.id) := by
    have ordered : (s.riskReports.mergeSort fun a b => b.id ≤ a.id).Pairwise (fun a b => decide (b.id ≤ a.id) = true) :=
      List.pairwise_mergeSort (by simp only [decide_eq_true_eq]; omega)
        (by simp only [Bool.or_eq_true, decide_eq_true_eq]; omega) s.riskReports
    have apart := (perm.map RiskReport.id).nodup_iff.mpr distinct
    rw [List.Nodup, List.pairwise_map] at apart
    apply (ordered.and apart).imp
    rintro a b ⟨le, ne⟩
    exact Nat.lt_of_le_of_ne (of_decide_eq_true le) (Ne.symm ne)
  refine ⟨strict.sublist (List.take_sublist _ _), fun r member => perm.subset (List.mem_of_mem_take member), ?_⟩
  intro r member absent
  rw [← perm.mem_iff, ← List.take_append_drop 10 (s.riskReports.mergeSort _), List.mem_append] at member
  have later := member.resolve_left absent
  rw [← List.take_append_drop 10 (s.riskReports.mergeSort _)] at strict
  refine ⟨?_, fun l newest => (List.pairwise_append.mp strict).2.2 l newest r later⟩
  have left := List.length_pos_of_mem later
  rw [List.length_drop] at left
  rw [handleLatest, List.length_take]
  omega

theorem Repeats.bounds [IsStrictOrderedRing α] {total : ℕ} {avg max min : α}
    (repeats : Repeats floats committed total avg max min) : min ≤ avg ∧ avg ≤ max ∧
      (0 < floats.sqrt 252.0 → lowest floats ≤ min ∧ max < highest floats) := by
  obtain ⟨-, avg_eq, max_eq, min_eq⟩ := repeats
  obtain ⟨least, most⟩ := Copies.average_between avg_eq min_eq max_eq
  refine ⟨least, most, fun root => ?_⟩
  have score : ∀ x ∈ scores (batch floats), lowest floats ≤ x ∧ x < highest floats := by
    intro x member
    obtain ⟨row, row_mem, rfl⟩ := List.mem_map.mp member
    obtain ⟨i, -, rfl⟩ := List.mem_map.mp row_mem
    exact PipelineRust.dailyVar95_bounds root _
  exact ⟨(score min (List.min?_eq_some_iff.mp min_eq).1).1, (score max (List.max?_eq_some_iff.mp max_eq).1).2⟩

end

def answering (commit : Option String) : Database := ⟨none, none, fun _ => none, none, commit⟩

/-- Two reports that overlap, the second behind a second bulk insert; a third one fails at its commit. -/
def restarted : List Step :=
  [.bulkInsert (answering none), .select 0, .bulkInsert (answering none), .select 1,
    .bulkInsert (answering (some "closed")), .insert 1 7, .insert 0 8, .commit 0, .commit 1]

theorem restarted_reports [Field α] [LinearOrder α] (floats : Floats α) :
    ∃ s, run (System.step floats) {} restarted = some s ∧ s.riskReports.map RiskReport.id = [2, 1] := by
  have commits (table : List (Row α)) : (bulkInsert floats (answering none) table).2 = table ++ batch floats :=
    PipelineRust.bulkInsert_commits ⟨⟨rfl, rfl⟩, fun _ _ => rfl, rfl⟩
  have fails (table : List (Row α)) : (bulkInsert floats (answering (some "closed")) table).2 = table :=
    PipelineRust.bulkInsert_fails fun commits => absurd commits.2.2 (by simp [answering])
  obtain ⟨one, read⟩ := select_some (@scores_nonempty α _ floats)
  have filled : scores (batch floats ++ batch floats) ≠ [] := by simp [scores, PipelineRust.batch, PipelineRust.recordCount]
  obtain ⟨two, again⟩ := select_some filled
  apply Option.map_eq_some_iff.mp
  simp [restarted, run, System.step, commits, fails, read, again, System.set, Selected.report]

/-- With a square root of 252 that is not too far off. -/
def coarse : Floats ℚ := ⟨fun _ => 63 / 4, id⟩

end PolyglotInfinity.SchedulerKotlin
