import Mathlib.Tactic.Linarith
import PolyglotInfinity.HubGleam.Replies

/-!
# Scores as numerals

What the validation service replies to a score that is written as a decimal numeral.
-/

namespace PolyglotInfinity.HubGleam

/-! ### Numerals -/

inductive Sign where
  | none
  | plus
  | minus

def Sign.text : Sign → List Char
  | .none => []
  | .plus => ['+']
  | .minus => ['-']

/-- A decimal numeral, with or without a fractional part. -/
structure Numeral where
  sign : Sign
  whole : List Char
  fraction : Option (List Char)
  some_whole : whole ≠ []
  whole_digits : ∀ c ∈ whole, c.isDigit = true
  some_fraction : fraction ≠ some []
  fraction_digits : ∀ ds ∈ fraction, ∀ c ∈ ds, c.isDigit = true

namespace Numeral

def text (d : Numeral) : String :=
  String.ofList (d.sign.text ++ d.whole ++ d.fraction.elim [] ('.' :: ·))

def magnitude (d : Numeral) : ℚ :=
  ParseDouble.scale (ParseDouble.digits 10 (d.whole ++ d.fraction.getD [])) 10 (-(d.fraction.getD []).length)

def value (d : Numeral) : ℚ :=
  match d.sign with
  | .minus => -d.magnitude
  | _ => d.magnitude

variable {d : Numeral}

theorem sign_text (d : Numeral) (rest : List Char) :
    ParseDouble.sign (d.sign.text ++ d.whole ++ rest) =
      (match d.sign with | .minus => true | _ => false, d.whole ++ rest) := by
  cases d.sign with
  | minus | plus => rfl
  | none =>
    have nonempty := d.some_whole
    have digits := d.whole_digits
    cases whole : d.whole with
    | nil => exact absurd whole nonempty
    | cons c cs =>
      have digit : c.isDigit = true := digits c (by simp [whole])
      show ParseDouble.sign (c :: (cs ++ rest)) = (false, c :: (cs ++ rest))
      unfold ParseDouble.sign
      split
      · rename_i same
        rw [(List.cons.inj same).1] at digit
        cases digit
      · rename_i same
        rw [(List.cons.inj same).1] at digit
        cases digit
      · rfl

theorem whole_before (d : Numeral) {rest : List Char} (stop : rest.takeWhile Char.isDigit = [])
    (same : rest.dropWhile Char.isDigit = rest) :
    (d.whole ++ rest).takeWhile Char.isDigit = d.whole ∧ (d.whole ++ rest).dropWhile Char.isDigit = rest := by
  rw [List.takeWhile_append_of_pos d.whole_digits, List.dropWhile_append_of_pos d.whole_digits, stop, same,
    List.append_nil]
  exact ⟨rfl, rfl⟩

theorem decimal_fraction {ds : List Char} (fraction : d.fraction = some ds) : decimal d.text = some d.value := by
  have digits : ∀ c ∈ ds, c.isDigit = true := d.fraction_digits ds fraction
  have nonempty : ds ≠ [] := by
    rintro rfl
    exact d.some_fraction fraction
  have all : ds.takeWhile Char.isDigit = ds := by
    rw [← List.append_nil ds, List.takeWhile_append_of_pos digits]
    simp
  have none_left : ds.dropWhile Char.isDigit = [] := by
    rw [← List.append_nil ds, List.dropWhile_append_of_pos digits]
    rfl
  obtain ⟨before, after⟩ := @whole_before d ('.' :: ds) rfl rfl
  unfold decimal text
  rw [String.toList_ofList, fraction, Option.elim_some, d.sign_text ('.' :: ds)]
  dsimp only
  rw [before, after]
  simp only [all, none_left]
  rw [if_neg (by simp [d.some_whole, nonempty]), Json.exponent, Option.map_some]
  unfold value magnitude
  rw [fraction, Option.getD_some, Int.zero_sub]
  cases d.sign <;> rfl

theorem decimal_whole (fraction : d.fraction = none) : decimal d.text = none := by
  obtain ⟨before, after⟩ := @whole_before d [] rfl rfl
  unfold decimal text
  rw [String.toList_ofList, fraction, Option.elim_none, d.sign_text []]
  dsimp only
  rw [after]

/-- Without a fractional part a numeral in the range denotes a natural number. -/
theorem value_whole (fraction : d.fraction = none) (nonneg : 0 ≤ d.value) : ∃ k : ℕ, d.value = k := by
  have magnitude : d.magnitude = (ParseDouble.digits 10 d.whole : ℕ) := by
    unfold magnitude ParseDouble.scale
    rw [fraction]
    simp
  unfold value at nonneg ⊢
  split at nonneg
  · refine ⟨0, ?_⟩
    have zero : d.magnitude = 0 := by
      have := Nat.cast_nonneg (α := ℚ) (ParseDouble.digits 10 d.whole)
      linarith
    rw [zero]
    simp
  · exact ⟨ParseDouble.digits 10 d.whole, magnitude⟩

end Numeral

/-! ### Scores -/

section

variable {F : Type} [Field F] [LinearOrder F] [FloorRing F] {fl : Beam F} {x : F}

theorem fmtF_ok : (∃ text, fmtF fl x = .ok text) ↔ Printable fl x := by
  unfold Printable fmtF Beam.mul Beam.value
  cases fl.round (x * 1000000) with
  | none => exact iff_of_false nofun nofun
  | some y => exact iff_of_true ⟨_, rfl⟩ rfl

variable [IsStrictOrderedRing F]

theorem roundAway_int (n : ℤ) : roundAway (n : F) = n := by
  have half : ⌊(1 / 2 : F)⌋ = 0 := by
    rw [Int.floor_eq_zero_iff]
    constructor <;> norm_num
  unfold roundAway
  split
  · rw [← Int.cast_neg, Int.floor_intCast_add, half]
    omega
  · rw [Int.floor_intCast_add, half]
    omega

theorem fmtF_nat (fl : Beam F) {k : ℕ} (high : k ≤ 1000) : fmtF fl (k : F) = .ok (k.repr ++ ".000000") := by
  have wide := fl.wide
  have millions : (k : F) * 1000000 = ((k * 1000000 : ℤ) : F) := by push_cast; rfl
  have exact : fl.mul (k : F) 1000000 = .ok ((k * 1000000 : ℤ) : F) := by
    unfold Beam.mul Beam.value
    rw [millions, fl.int _ (by rw [abs_of_nonneg (by positivity)]; omega)]
    rfl
  unfold fmtF
  rw [exact]
  show Except.ok _ = _
  have pad : "." ++ padStart (toString (Int.natAbs 0)) 6 '0' = ".000000" := by decide
  rw [roundAway_int, Int.mul_tdiv_cancel _ (by decide), Int.mul_tmod_left, String.append_assoc, pad]
  rfl

theorem repr_inj {j k : ℕ} (same : j.repr = k.repr) : j = k := by
  have digits := congrArg String.toList same
  rw [Nat.toList_repr, Nat.toList_repr] at digits
  rw [← Nat.ofDigitChars_ten_toDigits (n := j), digits, Nat.ofDigitChars_ten_toDigits]

end

/-! ### The replies -/

section

variable {F : Type} [Field F] [LinearOrder F]

theorem not_outside {x : F} : ¬ Outside x ↔ 0 ≤ x ∧ x ≤ 1000 := by
  unfold Outside
  rw [not_or, not_lt, not_lt]

theorem outside_cast [IsStrictOrderedRing F] {q : ℚ} : Outside (q : F) ↔ Outside q := by
  unfold Outside
  have top : (1000 : F) = ((1000 : ℚ) : F) := by norm_num
  rw [top, Rat.cast_lt_zero, Rat.cast_lt]

/-- What is within the range stays there when it is rounded. -/
theorem round_inside [IsStrictOrderedRing F] (fl : Beam F) {q : ℚ} (inside : ¬ Outside q) :
    ∃ score : F, fl.round q = some score ∧ ¬ Outside score := by
  have wide := fl.wide
  rw [← outside_cast (F := F), not_outside] at inside
  obtain ⟨score, rounded, low, high⟩ := fl.between (n := 1000) (by simp; omega) (by norm_num; omega)
    (Int.cast_zero.trans_le inside.1) (inside.2.trans_eq (by norm_num))
  exact ⟨score, rounded, not_outside.mpr ⟨Int.cast_zero.symm.trans_le low, high.trans_eq (by norm_num)⟩⟩

variable [FloorRing F] {fl : Beam F} {d : Numeral} {grade : String} {x : F}

/-- What a client reads in the reply: a score outside of the range is rejected, and one within it
is accepted and repeated with the grade. -/
def Judged (fl : Beam F) (d : Numeral) (grade : String) (reply : Option (Run Response)) : Prop :=
  (Outside d.value → ∃ body, reply = some (.ok (.json body)) ∧ ReadsRejected body) ∧
    (¬ Outside d.value → ∃ score text body, fl.round d.value = some score ∧ fmtF fl score = .ok text ∧
      reply = some (.ok (.json body)) ∧ ReadsAccepted (scoreMessage text grade) body)

/-- A numeral with a fractional part that denotes a number outside of the range has a float
that is outside too, and whose millionfold is no overflow; one without denotes the default. -/
def Numeral.Heard (fl : Beam F) (d : Numeral) : Prop :=
  match d.fraction with
  | some _ => Outside d.value →
      ∃ score, fl.round d.value = some score ∧ Outside score ∧ Printable fl score
  | none => d.value = 500

theorem validate_route (fuel : ℕ) (params : List (String × String)) :
    handleRequest fl fuel ["api", "gleam", "validate"] params =
      some ((validateRiskJson fl (queryFloat fl params "score" 500) (queryStr params "grade" "B")).map .json) := rfl

theorem reply_json {body : Run String} {text : String} :
    some (body.map Response.json) = some (.ok (.json text)) ↔ body = .ok text := by
  cases body <;> simp [Except.map]

theorem validateRisk_inside {text : String} (inside : ¬ Outside x) (formatted : fmtF fl x = .ok text) :
    validateRiskJson fl x grade = .ok (accepted "risk" (scoreMessage text grade)) := by
  have valid : validateMessage fl (.riskScore x grade 0) = .ok (.ok (scoreMessage text grade)) := by
    show (if 0 ≤ x ∧ x ≤ 1000 then _ else _) = _
    rw [if_pos (not_outside.mp inside), formatted]
    rfl
  unfold validateRiskJson validateJson
  rw [valid]
  rfl

def outOfRange (text : String) : String := "score_out_of_range:" ++ text ++ " (valid:0-1000)"

theorem outOfRange_plain {text : String} (numeric : Numeric text) : (outOfRange text).toList.all Json.plain := by
  unfold outOfRange
  rw [String.toList_append, String.toList_append, List.all_append, List.all_append, numeric.plain]
  decide

theorem validateRisk_outside (outside : Outside x) : validateRiskJson fl x grade =
    (fmtF fl x).map fun text => rejected "risk" (outOfRange text) := by
  have invalid : validateMessage fl (.riskScore x grade 0) = .ok (.error (.scoreOutOfRange x)) := by
    show (if 0 ≤ x ∧ x ≤ 1000 then _ else _) = _
    rw [if_neg (mt not_outside.mpr (not_not_intro outside))]
    rfl
  have named : errorToString fl (.scoreOutOfRange x) = fmtF fl x >>= fun s => pure (outOfRange s) := rfl
  unfold validateRiskJson validateJson
  rw [invalid]
  show (errorToString fl (.scoreOutOfRange x) >>= fun error => pure (rejected "risk" error)) = _
  rw [named]
  cases fmtF fl x <;> rfl

/-- A score outside of the range is rejected for every client unless it crashes the handler. -/
theorem outside_rejected (outside : Outside x) :
    (∃ body, validateRiskJson fl x grade = .ok body ∧ ReadsRejected body) ↔ Printable fl x := by
  rw [← fmtF_ok, validateRisk_outside outside]
  constructor
  · rintro ⟨body, replied, -⟩
    cases formatted : fmtF fl x with
    | error crash => rw [formatted] at replied; contradiction
    | ok text => exact ⟨text, rfl⟩
  · rintro ⟨text, formatted⟩
    rw [formatted]
    exact ⟨_, rfl, rejected_reads (outOfRange_plain (fmtF_numeric formatted))⟩

theorem judged_within {score : F} {text : String} (inside : ¬ Outside score) (formatted : fmtF fl score = .ok text) :
    Judged fl d grade (some ((validateRiskJson fl score grade).map .json)) ↔ ¬ Outside d.value ∧
      grade.toList.all Json.plain ∧ ∃ nearest, fl.round d.value = some nearest ∧ fmtF fl nearest = .ok text := by
  rw [validateRisk_inside inside formatted]
  unfold Judged
  constructor
  · rintro ⟨rejects, accepts⟩
    have kept : ¬ Outside d.value := by
      intro outside
      obtain ⟨body, replied, reads⟩ := rejects outside
      obtain rfl := Response.json.inj (Except.ok.inj (Option.some.inj replied))
      exact accepted_not_rejected reads
    obtain ⟨nearest, shown, body, rounded, formats, replied, reads⟩ := accepts kept
    obtain rfl := Response.json.inj (Except.ok.inj (Option.some.inj replied))
    obtain ⟨clean, rfl⟩ := (score_reads (fmtF_numeric formats) (fmtF_numeric formatted)).mp reads
    exact ⟨kept, clean, nearest, rounded, formats⟩
  · rintro ⟨kept, clean, nearest, rounded, formats⟩
    have numeric := fmtF_numeric formatted
    exact ⟨fun outside => absurd outside kept, fun _ =>
      ⟨nearest, text, _, rounded, formats, rfl, (score_reads numeric numeric).mpr ⟨clean, rfl⟩⟩⟩

variable [IsStrictOrderedRing F]

/-- Within the range a score can be formatted. -/
theorem formats_inside (fl : Beam F) (inside : ¬ Outside x) : ∃ text, fmtF fl x = .ok text := by
  have wide := fl.wide
  obtain ⟨low, high⟩ := not_outside.mp inside
  have low' : ((0 : ℤ) : F) ≤ x * 1000000 := by
    rw [Int.cast_zero]
    positivity
  have high' : x * 1000000 ≤ ((1000000000 : ℤ) : F) := by
    push_cast
    linarith
  obtain ⟨y, rounded, -⟩ := fl.between (by simp; omega) (by norm_num; omega) low' high'
  rw [fmtF_ok, Printable, rounded]
  rfl

/-- Where the parameter is not read, the reply is that for 500. -/
theorem judged_default : Judged fl d grade (some ((validateRiskJson fl 500 grade).map .json)) ↔ ¬ Outside d.value ∧
    grade.toList.all Json.plain ∧ ∃ score, fl.round d.value = some score ∧ fmtF fl score = .ok "500.000000" := by
  have formatted : fmtF fl (500 : F) = .ok "500.000000" := by
    exact_mod_cast fmtF_nat fl (by decide : 500 ≤ 1000)
  have inside : ¬ Outside (500 : F) := by
    unfold Outside
    norm_num
  exact judged_within inside formatted

theorem judged_inside {score : F} (inside : ¬ Outside d.value) (rounded : fl.round d.value = some score) :
    Judged fl d grade (some ((validateRiskJson fl score grade).map .json)) ↔ grade.toList.all Json.plain := by
  obtain ⟨nearest, same, within⟩ := round_inside fl inside
  obtain rfl := Option.some.inj (rounded.symm.trans same)
  obtain ⟨text, formatted⟩ := formats_inside fl within
  rw [judged_within within formatted, and_iff_right inside, and_iff_left ⟨score, rounded, formatted⟩]

theorem judged_outside {score : F} (outside : Outside d.value) :
    Judged fl d grade (some ((validateRiskJson fl score grade).map .json)) ↔
      Outside score ∧ Printable fl score := by
  by_cases beyond : Outside score
  · unfold Judged
    rw [and_iff_left (fun inside => absurd outside inside), imp_iff_right outside, and_iff_right beyond]
    simp only [reply_json]
    exact outside_rejected beyond
  · obtain ⟨text, formatted⟩ := formats_inside fl beyond
    rw [judged_within beyond formatted]
    exact iff_of_false (fun both => both.1 outside) fun both => beyond both.1

/-- Of the numerals without a fractional part only those of 500 are shown as the default is. -/
theorem default_iff (fraction : d.fraction = none) :
    (¬ Outside d.value ∧ ∃ score : F, fl.round d.value = some score ∧ fmtF fl score = .ok "500.000000") ↔
      d.value = 500 := by
  have wide := fl.wide
  have whole : ∀ k : ℕ, k ≤ 1000 → fl.round ((k : ℚ) : F) = some (k : F) := by
    intro k high
    have rounded := fl.int k (by rw [Nat.abs_cast]; omega)
    exact_mod_cast rounded
  constructor
  · rintro ⟨inside, score, rounded, shown⟩
    obtain ⟨low, high⟩ := not_outside.mp inside
    obtain ⟨k, same⟩ := Numeral.value_whole fraction low
    have high : k ≤ 1000 := by exact_mod_cast same ▸ high
    rw [same, whole k high, Option.some.injEq] at rounded
    rw [← rounded, fmtF_nat fl high, Except.ok.injEq] at shown
    have digits : k.repr ++ ".000000" = (500 : ℕ).repr ++ ".000000" := shown
    rw [String.append_left_inj] at digits
    rw [same, repr_inj digits]
    rfl
  · intro same
    rw [same]
    refine ⟨by unfold Outside; norm_num, (500 : ℕ), ?_, ?_⟩
    · exact_mod_cast whole 500 (by decide)
    · exact fmtF_nat fl (by decide)

/-- The reply to a numeral is right exactly if the numeral has a fractional part, and a float outside of
the range where it should have, or if it denotes the default itself; the grade, which an acceptance
repeats, must not end its string. -/
theorem validate_judged_iff (fl : Beam F) (fuel : ℕ) (d : Numeral) {params : List (String × String)}
    (score : queryStr params "score" "" = d.text) :
    Judged fl d (queryStr params "grade" "B") (handleRequest fl fuel ["api", "gleam", "validate"] params) ↔
      d.Heard fl ∧ (¬ Outside d.value → (queryStr params "grade" "B").toList.all Json.plain) := by
  rw [validate_route]
  unfold queryFloat parseFloat Numeral.Heard
  rw [score]
  split
  · rename_i ds fraction
    rw [Numeral.decimal_fraction fraction, Option.bind_some]
    cases rounded : fl.round (d.value : F) with
    | none =>
      have outside : Outside d.value := by
        by_contra inside
        obtain ⟨nearest, same, -⟩ := round_inside fl inside
        rw [rounded] at same
        cases same
      rw [Option.getD_none, judged_default]
      exact iff_of_false (fun both => both.1 outside) fun law => by simpa using law.1 outside
    | some x =>
      rw [Option.getD_some]
      by_cases outside : Outside d.value
      · rw [judged_outside outside]
        simp [outside]
      · rw [judged_inside outside rounded]
        simp [outside]
  · rename_i fraction
    rw [Numeral.decimal_whole fraction, Option.bind_none, Option.getD_none, judged_default]
    constructor
    · rintro ⟨inside, clean, shown⟩
      exact ⟨(default_iff fraction).mp ⟨inside, shown⟩, fun _ => clean⟩
    · rintro ⟨fiveHundred, clean⟩
      obtain ⟨inside, shown⟩ := (@default_iff F _ _ _ fl d _ fraction).mpr fiveHundred
      exact ⟨inside, clean inside, shown⟩

end

def twelvePointFive : Numeral where
  sign := .plus
  whole := ['1', '2']
  fraction := some ['5']
  some_whole := by simp
  whole_digits := List.all_eq_true.mp (by decide)
  some_fraction := by simp
  fraction_digits := by simp

theorem validate_judged_iff_point : Judged plain twelvePointFive "A"
    (handleRequest plain 0 ["api", "gleam", "validate"] [("score", "+12.5"), ("grade", "A")]) := by
  have value : twelvePointFive.value = 25 / 2 := by decide +kernel
  have inside : ¬ Outside twelvePointFive.value := by
    rw [value]
    unfold Outside
    norm_num
  have heard : twelvePointFive.Heard plain := fun outside => absurd outside inside
  exact (validate_judged_iff plain 0 twelvePointFive (by decide)).mpr ⟨heard, fun _ => by decide⟩

def fiveThousand : Numeral where
  sign := .none
  whole := ['5', '0', '0', '0']
  fraction := none
  some_whole := by simp
  whole_digits := List.all_eq_true.mp (by decide)
  some_fraction := by simp
  fraction_digits := by simp

theorem whole_score_accepted :
    ¬ ∀ (fuel : ℕ) (d : Numeral) (params : List (String × String)), queryStr params "score" "" = d.text →
      Judged plain d (queryStr params "grade" "B") (handleRequest plain fuel ["api", "gleam", "validate"] params) := by
  intro law
  have score : queryStr [("score", "5000")] "score" "" = fiveThousand.text := by decide
  have judged := law 0 fiveThousand [("score", "5000")] score
  have unread : queryFloat plain [("score", "5000")] "score" 500 = 500 := by
    unfold queryFloat parseFloat
    rw [score, Numeral.decimal_whole rfl]
    rfl
  rw [validate_route, unread, judged_default] at judged
  have value : fiveThousand.value = 5000 := by decide +kernel
  apply judged.1
  right
  rw [value]
  norm_num

end PolyglotInfinity.HubGleam
