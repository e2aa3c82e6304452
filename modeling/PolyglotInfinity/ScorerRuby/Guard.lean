import PolyglotInfinity.ScorerRuby.Dsl

/-!
# The guard of the rule language

Whether a text that passes the filter does nothing but register rules.
-/

namespace PolyglotInfinity.ScorerRuby

variable {ruby : Ruby} {s t u pre post line tail text : List Char} {name : List Char} {c : Char}

/-! ### Skipping -/

theorem skip_nil (comment : Bool) : skip comment [] = [] := by
  cases comment with
  | true => rfl
  | false => rfl

theorem skip_cons (c : Char) (s : List Char) : skip false (c :: s) =
    if endOfScript c then [] else if c = '#' then skip true s
    else if isSpace c || c = ';' then skip false s else c :: s := rfl

theorem skip_newline (comment : Bool) (u : List Char) : skip comment ('\n' :: u) = skip false u := by
  cases comment with
  | true => rfl
  | false => rfl

/-- What is skipped to the end of its line leads to the next one, or to the end of the script. -/
theorem skip_line {comment : Bool} (nothing : skip comment tail = []) (u : List Char) :
    skip comment (tail ++ '\n' :: u) = skip false u ∨ skip comment (tail ++ '\n' :: u) = [] := by
  induction tail generalizing comment with
  | nil => exact .inl (skip_newline comment u)
  | cons c tail ih =>
    cases comment with
    | true => exact ih nothing
    | false =>
      rw [skip_cons] at nothing
      rw [List.cons_append, skip_cons]
      by_cases script : endOfScript c
      · exact .inr (if_pos script)
      · rw [if_neg script] at nothing ⊢
        by_cases opens : c = '#'
        · rw [if_pos opens] at nothing ⊢
          exact ih nothing
        · rw [if_neg opens] at nothing ⊢
          split_ifs at nothing ⊢
          exact ih nothing

theorem isStripped_cases (stripped : isStripped c) : isSpace c ∨ endOfScript c := by
  rcases Bool.or_eq_true_iff.mp stripped with space | null
  · exact .inl space
  · rw [decide_eq_true_iff] at null
    subst null
    exact .inr rfl

theorem skip_stripped {comment : Bool} (stripped : ∀ c ∈ post, isStripped c) : skip comment post = [] := by
  induction post generalizing comment with
  | nil => exact skip_nil comment
  | cons c post ih =>
    have later : ∀ c ∈ post, isStripped c := fun c member => stripped c (List.mem_cons_of_mem _ member)
    cases comment with
    | true => exact ih later
    | false =>
      rw [skip_cons]
      split_ifs with script opens separator
      · rfl
      · exact ih later
      · exact ih later
      · rcases isStripped_cases (stripped c List.mem_cons_self) with space | null
        · exact absurd (by rw [space]; rfl) separator
        · exact absurd null script

theorem skip_append {comment : Bool} (nothing : skip comment tail = []) (stripped : ∀ c ∈ post, isStripped c) :
    skip comment (tail ++ post) = [] := by
  induction tail generalizing comment with
  | nil => exact skip_stripped stripped
  | cons c tail ih =>
    cases comment with
    | true => exact ih nothing
    | false =>
      rw [skip_cons] at nothing
      rw [List.cons_append, skip_cons]
      split_ifs at nothing ⊢
      · rfl
      · exact ih nothing
      · exact ih nothing

/-- Before a line either its blanks are skipped or the script ends. -/
theorem skip_before (stripped : ∀ c ∈ pre, isStripped c) (s : List Char) :
    skip false (pre ++ s) = skip false s ∨ skip false (pre ++ s) = [] := by
  induction pre with
  | nil => exact .inl rfl
  | cons c pre ih =>
    rw [List.cons_append, skip_cons]
    by_cases script : endOfScript c
    · exact .inr (if_pos script)
    · rcases isStripped_cases (stripped c List.mem_cons_self) with space | null
      · have not_comment : c ≠ '#' := by
          rintro rfl
          cases space
        have separator : (isSpace c || decide (c = ';')) = true := by rw [space]; rfl
        rw [if_neg script, if_neg not_comment, if_pos separator]
        exact ih fun c member => stripped c (List.mem_cons_of_mem _ member)
      · exact absurd null script

theorem isBlank_plain (blank : isBlank c) : endOfScript c = false ∧ c ≠ '#' ∧ isSpace c = true := by
  simp only [isBlank, Bool.or_eq_true, decide_eq_true_eq] at blank
  rcases blank with (((rfl | rfl) | rfl) | rfl) | rfl
  all_goals decide

/-- Where only skipped characters stand to the end of the line a statement ends. -/
theorem separated_line (nothing : skip false tail = []) (ends : ∀ c ∈ u.head?, c = '\n') :
    separated (tail ++ u) = true := by
  induction tail with
  | nil =>
    cases u with
    | nil => rfl
    | cons c u =>
      obtain rfl := ends c rfl
      rfl
  | cons c tail ih =>
    rw [skip_cons] at nothing
    by_cases blank : isBlank c
    · obtain ⟨script, comment, space⟩ := isBlank_plain blank
      have separator : (isSpace c || decide (c = ';')) = true := by rw [space]; rfl
      rw [script, if_neg Bool.false_ne_true, if_neg comment, if_pos separator] at nothing
      rw [separated, List.cons_append, List.dropWhile_cons_of_pos blank]
      exact ih nothing
    · rw [separated, List.cons_append, List.dropWhile_cons_of_neg blank]
      split_ifs at nothing with script comment separator
      · simp [script]
      · simp [comment]
      · simpa [isSpace, blank, or_assoc] using Or.inl separator

/-! ### Calls -/

theorem behind_iff {literal : List Char} : behind literal s = some t ↔ s = literal ++ t := by
  unfold behind
  by_cases begins : literal.isPrefixOf s
  · obtain ⟨rest, rfl⟩ := List.isPrefixOf_iff_prefix.mp begins
    rw [if_pos begins, List.drop_left, Option.some.injEq, List.append_cancel_left_eq]
  · rw [if_neg begins]
    refine iff_of_false (fun none => nomatch none) ?_
    rintro rfl
    exact begins (List.isPrefixOf_iff_prefix.mpr (List.prefix_append _ _))

theorem opening_iff : opening s = some (name, t) ↔
    name ≠ [] ∧ (∀ c ∈ name, isWord c) ∧
      ∃ blanks, (∀ c ∈ blanks, isBlank c) ∧ s = "rule(:".toList ++ (name ++ ')' :: (blanks ++ '{' :: t)) := by
  simp only [opening, Option.bind_eq_bind, Option.bind_eq_some_iff, behind_iff]
  constructor
  · rintro ⟨s₁, rfl, s₂, closes, s₃, opens, result⟩
    split_ifs at result with none
    cases result
    refine ⟨none, fun c => List.mem_takeWhile_imp, s₂.takeWhile isBlank, fun c => List.mem_takeWhile_imp, ?_⟩
    calc "rule(:".toList ++ s₁
        = "rule(:".toList ++ (s₁.takeWhile isWord ++ s₁.dropWhile isWord) := by rw [List.takeWhile_append_dropWhile]
      _ = "rule(:".toList ++ (s₁.takeWhile isWord ++ ')' :: (s₂.takeWhile isBlank ++ s₂.dropWhile isBlank)) := by
        rw [closes, List.takeWhile_append_dropWhile]
        rfl
      _ = "rule(:".toList ++ (s₁.takeWhile isWord ++ ')' :: (s₂.takeWhile isBlank ++ '{' :: t)) := by
        rw [opens]
        rfl
  · rintro ⟨some_name, word, blanks, blank, rfl⟩
    refine ⟨_, rfl, blanks ++ '{' :: t, ?_, t, ?_, ?_⟩
    · rw [List.dropWhile_append_of_pos word, List.dropWhile_cons_of_neg (by decide)]
      rfl
    · rw [List.dropWhile_append_of_pos blank, List.dropWhile_cons_of_neg (by decide)]
      rfl
    · rw [List.takeWhile_append_of_pos word, List.takeWhile_cons_of_neg (by decide), List.append_nil, if_neg some_name]
      rfl

theorem opening_append (opens : opening s = some (name, t)) (u : List Char) :
    opening (s ++ u) = some (name, t ++ u) := by
  obtain ⟨some_name, word, blanks, blank, rfl⟩ := opening_iff.mp opens
  refine opening_iff.mpr ⟨some_name, word, blanks, blank, ?_⟩
  simp only [List.append_assoc, List.cons_append]

theorem opening_split (opens : opening s = some (name, t)) : ∃ front, s = front ++ t ∧ skip false s = s := by
  obtain ⟨-, -, blanks, -, rfl⟩ := opening_iff.mp opens
  refine ⟨"rule(:".toList ++ (name ++ ')' :: (blanks ++ ['{'])), ?_, rfl⟩
  simp only [List.append_assoc, List.cons_append, List.nil_append]

variable {r : String × ruby.Block}

theorem ruleCall_iff : ruby.ruleCall s = some (r, tail) ↔
    ∃ name rest, opening s = some (name, rest) ∧ ruby.block rest = some (r.2, tail) ∧
      name.head?.any Char.isDigit = false ∧ r.1 = String.ofList name := by
  unfold Ruby.ruleCall
  constructor
  · intro call
    obtain ⟨⟨name, rest⟩, opens, call⟩ := Option.bind_eq_some_iff.mp call
    obtain ⟨⟨block, behind⟩, closes, call⟩ := Option.bind_eq_some_iff.mp call
    dsimp only at call closes
    split_ifs at call with digit
    cases call
    exact ⟨name, rest, opens, closes, Bool.not_eq_true _ ▸ digit, rfl⟩
  · rintro ⟨name, rest, opens, closes, no_digit, named⟩
    obtain ⟨_, block⟩ := r
    obtain rfl := named
    refine Option.bind_eq_some_iff.mpr ⟨(name, rest), opens, Option.bind_eq_some_iff.mpr ⟨(block, tail), closes, ?_⟩⟩
    exact if_neg (Bool.eq_false_iff.mp no_digit)

theorem ruleCall_append (call : ruby.ruleCall line = some (r, tail)) (one_line : '\n' ∉ line) (u : List Char) :
    ruby.ruleCall (line ++ u) = some (r, tail ++ u) := by
  obtain ⟨name, rest, opens, block, no_digit, named⟩ := ruleCall_iff.mp call
  obtain ⟨front, rfl, -⟩ := opening_split opens
  have rest_one_line : '\n' ∉ rest := fun member => one_line (List.mem_append_right _ member)
  exact ruleCall_iff.mpr ⟨name, rest ++ u, opening_append opens u, ruby.onLine rest_one_line block u, no_digit, named⟩

theorem ruleCall_shorter (call : ruby.ruleCall s = some (r, tail)) : tail.length < s.length := by
  obtain ⟨name, rest, opens, block, -, -⟩ := ruleCall_iff.mp call
  obtain ⟨front, rfl, -⟩ := opening_split opens
  have shorter := ruby.shorter block
  rw [List.length_append]
  omega

theorem skip_ruleCall (call : ruby.ruleCall s = some (r, tail)) : skip false s = s := by
  obtain ⟨name, rest, opens, -⟩ := ruleCall_iff.mp call
  exact (opening_split opens).choose_spec.2

/-! ### Statements -/

variable {fuel : ℕ}

theorem statements_congr (same : skip false s = skip false t) : ruby.statements fuel s = ruby.statements fuel t := by
  cases fuel with
  | zero => rfl
  | succ fuel => rw [Ruby.statements, Ruby.statements, same]

theorem statements_end (nothing : skip false s = []) : ruby.statements (fuel + 1) s = some ⟨[], none⟩ := by
  rw [Ruby.statements, nothing]

theorem statements_rule (call : ruby.ruleCall s = some (r, tail)) (ends : separated tail = true) :
    ruby.statements (fuel + 1) s = (ruby.statements fuel tail).map fun p => { p with rules := r :: p.rules } := by
  have here := skip_ruleCall call
  cases s with
  | nil => exact absurd (ruleCall_shorter call) (Nat.not_lt_zero _)
  | cons c s => simp only [Ruby.statements, here, call, if_pos ends]

/-- There is nothing to do, or a call of `rule` comes first, or something else. -/
theorem statements_cases {p : Program ruby} (ran : ruby.statements (fuel + 1) s = some p) :
    (skip false s = [] ∧ p = ⟨[], none⟩) ∨
    (∃ r rest q, ruby.ruleCall (skip false s) = some (r, rest) ∧ ruby.statements fuel rest = some q ∧
      p = { q with rules := r :: q.rules }) ∨
    ∃ code, p = ⟨[], some code⟩ := by
  have other {s : List Char} (ran : (ruby.code s).map (fun code => (⟨[], some code⟩ : Program ruby)) = some p) :
      ∃ code, p = ⟨[], some code⟩ := by
    obtain ⟨code, -, rfl⟩ := Option.map_eq_some_iff.mp ran
    exact ⟨code, rfl⟩
  unfold Ruby.statements at ran
  cases first : skip false s with
  | nil =>
    rw [first] at ran
    exact .inl ⟨rfl, (Option.some.inj ran).symm⟩
  | cons c u =>
    simp only [first] at ran
    cases call : ruby.ruleCall (c :: u) with
    | none =>
      rw [call] at ran
      exact .inr (.inr (other ran))
    | some called =>
      obtain ⟨r, rest⟩ := called
      simp only [call] at ran
      split_ifs at ran with ends
      · obtain ⟨q, later, rfl⟩ := Option.map_eq_some_iff.mp ran
        exact .inr (.inl ⟨r, rest, q, rfl, later, rfl⟩)
      · exact .inr (.inr (other ran))

/-- Where nothing is registered or executed there was nothing to do. -/
theorem skip_of_empty (empty : ruby.statements fuel s = some ⟨[], none⟩) : skip false s = [] := by
  cases fuel with
  | zero => exact nomatch empty
  | succ fuel =>
    obtain ⟨nothing, -⟩ | ⟨r, rest, q, -, -, same⟩ | ⟨code, same⟩ := statements_cases empty
    · exact nothing
    · cases same
    · cases same

/-- The block of the call that the line begins with closes where nothing but blanks, separators and a comment
follow. -/
def Ruby.Closes (ruby : Ruby) (line : List Char) : Prop :=
  ∃ r tail, ruby.ruleCall line = some (r, tail) ∧ skip false tail = []

/-! ### Lines -/

theorem strip_split (raw : List Char) : ∃ pre post, raw = pre ++ strip raw ++ post ∧ (∀ c ∈ pre, isStripped c) ∧
    ∀ c ∈ post, isStripped c := by
  refine ⟨raw.takeWhile isStripped, (raw.dropWhile isStripped).rtakeWhile isStripped, ?_,
    fun c => List.mem_takeWhile_imp, fun c => List.mem_rtakeWhile_imp⟩
  rw [strip, List.append_assoc, List.rdropWhile_append_rtakeWhile, List.takeWhile_append_dropWhile]

theorem program_line (call : ruby.ruleCall line = some (r, tail)) (nothing : skip false tail = []) :
    ruby.program line = some ⟨[r], none⟩ := by
  have ends : separated (tail ++ []) = true := separated_line nothing fun _ none => nomatch none
  rw [List.append_nil] at ends
  rw [Ruby.program, statements_rule call ends]
  obtain ⟨n, length⟩ := Nat.exists_eq_add_of_lt (ruleCall_shorter call)
  rw [length, statements_end nothing]
  rfl

/-- A line on its own is one call exactly where its block closes at the end. -/
theorem call_of_program (opens : opening line = some (name, t)) (one : ruby.program line = some ⟨[r], none⟩) :
    ∃ tail, ruby.ruleCall line = some (r, tail) ∧ skip false tail = [] := by
  have here : skip false line = line := (opening_split opens).choose_spec.2
  obtain ⟨-, same⟩ | ⟨r', rest, q, call, behind, same⟩ | ⟨code, same⟩ := statements_cases one
  · cases same
  · obtain ⟨rules, code⟩ := q
    cases same
    rw [here] at call
    exact ⟨rest, call, skip_of_empty behind⟩
  · cases same

/-- A line with its blanks, before the end or another line, unless the script ends before it. -/
theorem statements_call (fuel : ℕ) (call : ruby.ruleCall line = some (r, tail)) (one_line : '\n' ∉ line)
    (nothing : skip false (tail ++ post) = []) (stripped : ∀ c ∈ pre, isStripped c) (ends : ∀ c ∈ u.head?, c = '\n') :
    ruby.statements (fuel + 1) (pre ++ line ++ post ++ u) = some ⟨[], none⟩ ∨
      ruby.statements (fuel + 1) (pre ++ line ++ post ++ u) =
        (ruby.statements fuel (tail ++ post ++ u)).map fun p => { p with rules := r :: p.rules } := by
  have longer := ruleCall_append call one_line (post ++ u)
  rw [List.append_assoc, List.append_assoc]
  rcases skip_before stripped (line ++ (post ++ u)) with same | script_ends
  · have separate := separated_line nothing ends
    rw [List.append_assoc] at separate
    rw [statements_congr same, statements_rule longer separate, List.append_assoc]
    exact .inr rfl
  · exact .inl (statements_end script_ends)

/-- The call that a line begins with. -/
def Ruby.called (ruby : Ruby) (line : List Char) : Option (String × ruby.Block) := (ruby.ruleCall line).map Prod.fst

theorem called_nil : ruby.called [] = none := rfl

/-- Registering the rules of the lines, up to where the script ends. -/
def Registers (ruby : Ruby) (result : Option (Program ruby)) (lines : List (List Char)) : Prop :=
  ∃ rules, result = some ⟨rules, none⟩ ∧ rules <+: lines.filterMap ruby.called

theorem Registers.nothing {result : Option (Program ruby)} (ended : result = some ⟨[], none⟩)
    (lines : List (List Char)) : Registers ruby result lines :=
  ⟨[], ended, List.nil_prefix⟩

theorem Registers.blank {result : Option (Program ruby)} {lines : List (List Char)}
    (later : Registers ruby result lines) : Registers ruby result ([] :: lines) := by
  rwa [Registers, List.filterMap_cons_none called_nil]

theorem Registers.call {result : Option (Program ruby)} {lines : List (List Char)}
    (later : Registers ruby result lines) (call : ruby.ruleCall line = some (r, tail)) :
    Registers ruby (result.map fun p => { p with rules := r :: p.rules }) (line :: lines) := by
  obtain ⟨rules, rfl, begins⟩ := later
  have called : ruby.called line = some r := by rw [Ruby.called, call]; rfl
  refine ⟨r :: rules, rfl, ?_⟩
  rw [List.filterMap_cons_some called]
  exact (List.prefix_cons_inj r).mpr begins

/-- The first line, before what is `later`. -/
theorem statements_first {raw : List Char} {lines : List (List Char)} (one_line : '\n' ∉ raw)
    (ends : ∀ c ∈ u.head?, c = '\n') (closes : strip raw ≠ [] → ruby.Closes (strip raw))
    (enough : (raw ++ u).length < fuel)
    (later : ∀ fuel rest, u.length < fuel + 1 → 0 < fuel → skip false rest = [] →
      Registers ruby (ruby.statements fuel (rest ++ u)) lines) :
    Registers ruby (ruby.statements fuel (raw ++ u)) (strip raw :: lines) := by
  rw [List.length_append] at enough
  obtain ⟨pre, post, split, front, back⟩ := strip_split raw
  by_cases blank : strip raw = []
  · rw [blank, List.append_nil] at split
    have stripped : ∀ c ∈ raw, isStripped c := by
      intro c member
      rw [split] at member
      exact (List.mem_append.mp member).elim (front c) (back c)
    rw [blank]
    exact (later fuel raw (by omega) (by omega) (skip_stripped stripped)).blank
  · obtain ⟨r, tail, call, nothing⟩ := closes blank
    have line_one_line : '\n' ∉ strip raw := by
      intro member
      rw [split] at one_line
      exact one_line (List.mem_append_left _ (List.mem_append_right _ member))
    have length := congrArg List.length split
    have shorter := ruleCall_shorter call
    rw [List.length_append, List.length_append] at length
    obtain ⟨fuel, rfl⟩ := Nat.exists_eq_succ_of_ne_zero (by omega : fuel ≠ 0)
    have behind := skip_append nothing back
    rcases statements_call fuel call line_one_line behind front ends with script_ends | called
    · rw [← split] at script_ends
      exact .nothing script_ends _
    · rw [← split] at called
      rw [called]
      exact (later fuel (tail ++ post) (by omega) (by omega) behind).call call

/-- Line by line: each that is not blank is one call. -/
theorem statements_lines (text : List Char) (fuel : ℕ) (enough : text.length < fuel)
    (closes : ∀ line ∈ (Query.splitOn '\n' text).map strip, line ≠ [] → ruby.Closes line) :
    Registers ruby (ruby.statements fuel text) ((Query.splitOn '\n' text).map strip) := by
  induction length : text.length using Nat.strong_induction_on generalizing text fuel with
  | _ n ih =>
    subst length
    by_cases several : '\n' ∈ text
    · obtain ⟨raw, rest, rfl, one_line⟩ := List.eq_append_cons_of_mem several
      rw [Query.splitOn_append, Query.splitOn_whole one_line, List.map_append] at closes ⊢
      rw [List.length_append, List.length_cons] at enough
      refine statements_first one_line (fun _ head => (Option.some.inj head).symm)
        (closes _ (List.mem_append_left _ List.mem_cons_self)) (by simpa using enough)
        fun fuel behind enough _ nothing => ?_
      rw [List.length_cons] at enough
      obtain ⟨fuel, rfl⟩ := Nat.exists_eq_succ_of_ne_zero (by omega : fuel ≠ 0)
      rcases skip_line nothing rest with next | script_ends
      · rw [statements_congr next]
        refine ih rest.length ?_ rest _ (by omega) (fun line member => closes line (List.mem_append_right _ member)) rfl
        rw [List.length_append, List.length_cons]
        omega
      · exact .nothing (statements_end script_ends) _
    · rw [Query.splitOn_whole several] at closes ⊢
      have last : Registers ruby (ruby.statements fuel (text ++ [])) [strip text] := statements_first several
        (fun _ none => nomatch none) (closes _ List.mem_cons_self) (by simpa using enough)
        fun fuel behind _ fuel_pos nothing => by
          obtain ⟨fuel, rfl⟩ := Nat.exists_eq_succ_of_ne_zero fuel_pos.ne'
          rw [List.append_nil]
          exact .nothing (statements_end nothing) _
      rwa [List.append_nil] at last

theorem called_sourceLines (source : List Char) : (sourceLines source).filterMap ruby.called =
    ((Query.splitOn '\n' (strip source)).map strip).filterMap ruby.called := by
  unfold sourceLines
  induction (Query.splitOn '\n' (strip source)).map strip with
  | nil => rfl
  | cons line lines ih =>
    by_cases blank : line = []
    · subst blank
      rw [List.filter_cons_of_neg (by decide), ih, List.filterMap_cons_none called_nil]
    · have kept : (line :: lines).filter (fun x => decide (x ≠ [])) = line :: lines.filter fun x => decide (x ≠ []) :=
        List.filter_cons_of_pos (decide_eq_true blank)
      rw [kept, List.filterMap_cons, List.filterMap_cons, ih]

/-! ### The guard -/

/-- The text passes the filter, and Ruby can parse it. -/
structure Accepts (ruby : Ruby) (source : List Char) : Prop where
  filter : ∀ line ∈ sourceLines source, matchesRule line = true
  parses : (ruby.program (strip source)).isSome = true

/-- Each line is one call of `rule`, and loading registers the rules of these calls, up to where the script ends, and
executes nothing else. -/
structure OnlyRegisters (ruby : Ruby) (time : String) (dsl : RiskDsl ruby.Block) (source : List Char) : Prop where
  lines : ∀ line ∈ sourceLines source, ∃ r, ruby.program line = some ⟨[r], none⟩
  load : ∃ rules, rules <+: (sourceLines source).filterMap ruby.called ∧
    safeLoad ruby time dsl source = .loaded (dsl.register time rules) none

/-- A text that is accepted does nothing but register its rules exactly where the block on each line closes at the end
of the line. -/
theorem safeLoad_only_registers_iff (ruby : Ruby) (time : String) (dsl : RiskDsl ruby.Block) (source : List Char)
    (accepted : Accepts ruby source) :
    OnlyRegisters ruby time dsl source ↔ ∀ line ∈ sourceLines source, ruby.Closes line := by
  constructor
  · intro only line member
    obtain ⟨r, one⟩ := only.lines line member
    have matched := accepted.filter line member
    cases opens : opening line with
    | none => rw [matchesRule, opens] at matched; cases matched
    | some found =>
      obtain ⟨tail, call, nothing⟩ := call_of_program opens one
      exact ⟨r, tail, call, nothing⟩
  · intro closes
    constructor
    · intro line member
      obtain ⟨r, tail, call, nothing⟩ := closes line member
      exact ⟨r, program_line call nothing⟩
    · obtain ⟨rules, program, calls⟩ := @statements_lines ruby (strip source) _ (Nat.lt_succ_self _)
        fun line member some_line => closes line (List.mem_filter.mpr ⟨member, decide_eq_true some_line⟩)
      have passes : (sourceLines source).find? (fun line => !matchesRule line) = none := by
        rw [List.find?_eq_none]
        intro line member
        rw [accepted.filter line member]
        exact Bool.false_ne_true
      refine ⟨rules, called_sourceLines source ▸ calls, ?_⟩
      have parsed : ruby.program (strip source) = some ⟨rules, none⟩ := program
      simp only [safeLoad, passes, parsed]
      rfl

/-! ### A Ruby that counts braces -/

/-- The text up to the brace that closes, at a depth. -/
def closing : ℕ → List Char → Option (List Char × List Char)
  | _, [] => none
  | depth, c :: s =>
    if c = '}' then
      match depth with
      | 0 => some ([], s)
      | depth + 1 => (closing depth s).map fun r => (c :: r.1, r.2)
    else (closing (if c = '{' then depth + 1 else depth) s).map fun r => (c :: r.1, r.2)

theorem closing_inner {depth : ℕ} {b r : List Char}
    (inner : ∀ {b r}, closing depth s = some (b, r) →
      r.length < s.length ∧ ∀ t, closing depth (s ++ t) = some (b, r ++ t))
    (closes : (closing depth s).map (fun r => (c :: r.1, r.2)) = some (b, r)) :
    r.length < (c :: s).length ∧
      ∀ t, (closing depth (s ++ t)).map (fun r => (c :: r.1, r.2)) = some (b, r ++ t) := by
  obtain ⟨⟨b', r'⟩, found, same⟩ := Option.map_eq_some_iff.mp closes
  cases same
  obtain ⟨shorter, longer⟩ := inner found
  refine ⟨Nat.lt_succ_of_lt shorter, fun t => ?_⟩
  rw [longer]
  rfl

theorem closing_split {depth : ℕ} {b r : List Char} (closes : closing depth s = some (b, r)) :
    r.length < s.length ∧ ∀ t, closing depth (s ++ t) = some (b, r ++ t) := by
  induction s generalizing depth b r with
  | nil => exact nomatch closes
  | cons c s ih =>
    unfold closing at closes
    simp only [List.cons_append]
    unfold closing
    by_cases brace : c = '}'
    · simp only [if_pos brace] at closes ⊢
      cases depth with
      | zero =>
        cases closes
        exact ⟨Nat.lt_succ_self _, fun t => rfl⟩
      | succ depth => exact closing_inner ih closes
    · simp only [if_neg brace] at closes ⊢
      exact closing_inner ih closes

/-- Blocks and other code are their text, and the code changes no rules. -/
def braces : Ruby where
  Block := List Char
  Code := List Char
  block := closing 0
  code := some
  execute _ dsl := dsl
  inspect := String.ofList
  syntaxError _ := "syntax error"
  shorter closes := (closing_split closes).1
  onLine _ closes := (closing_split closes).2

def twoRules : List Char := "rule(:high) \x7b ltv > 0.8 \x7d\n\n  rule(:low) \x7b ltv < 0.2 \x7d # fine \x7d".toList

theorem safeLoad_only_registers_twoRules :
    OnlyRegisters braces "12:00:00" {} twoRules ↔ ∀ line ∈ sourceLines twoRules, braces.Closes line := by
  apply safeLoad_only_registers_iff
  constructor
  · decide +kernel
  · decide +kernel

def injected : List Char := "rule(:a) \x7b 1 \x7d; system(\"id\"); rule(:b) \x7b 2 \x7d".toList

theorem injected_executes : Accepts braces injected ∧ ¬ OnlyRegisters braces "12:00:00" {} injected := by
  refine ⟨⟨by decide +kernel, by decide +kernel⟩, fun only => ?_⟩
  have listed : injected ∈ sourceLines injected := by decide +kernel
  have executed : ((braces.program injected).bind Program.code).isSome = true := by decide +kernel
  obtain ⟨r, one⟩ := only.lines injected listed
  rw [one] at executed
  cases executed

end PolyglotInfinity.ScorerRuby
