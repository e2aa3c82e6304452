import PolyglotInfinity.HubGleam.Validate
import PolyglotInfinity.Lib.JsonStrings

/-!
# The replies of the validation service

They are put together without escaping, the grade of a request among them. What a client
reads of them is compared with what the service says.
-/

namespace PolyglotInfinity.HubGleam

open Transition (run)
open Json (feed units)

def key (name : String) : Utf16 := units name.toList

/-- Not ok, with an error and no message. -/
def ReadsRejected (body : String) : Prop := ∃ members error, Json.parse body = some (.obj members) ∧
  Json.member members (key "ok") = some (.bool false) ∧
    Json.member members (key "error") = some (.str error) ∧ key "message" ∉ members.map Prod.fst

/-- Ok, with this message. -/
def ReadsAccepted (message body : String) : Prop := ∃ members, Json.parse body = some (.obj members) ∧
  Json.member members (key "ok") = some (.bool true) ∧
    Json.member members (key "message") = some (.str (units message.toList))

def scoreMessage (text grade : String) : String := "valid: score=" ++ text ++ " grade=" ++ grade

/-! ### The characters of a number -/

section

variable {F : Type} [Field F] [LinearOrder F] [FloorRing F] {fl : Beam F} {x : F} {text : String}

def Numeric (text : String) : Prop := ∀ c ∈ text.toList, c.isDigit ∨ c = '-' ∨ c = '.'

theorem toList_pushn (c : Char) (k : ℕ) : ("".pushn c k).toList = List.replicate k c := by
  rw [String.pushn_eq_repeat_push]
  induction k with
  | zero => rfl
  | succ k ih => rw [Nat.repeat, String.toList_push, ih, List.replicate_succ']

theorem toDigits_digit {n : ℕ} {c : Char} (member : c ∈ (toString n).toList) : c.isDigit = true := by
  rw [Nat.toString_eq_repr, Nat.toList_repr] at member
  exact Nat.isDigit_of_mem_toDigits (by decide) (by decide) member

theorem fmtF_numeric (formatted : fmtF fl x = .ok text) : Numeric text := by
  unfold fmtF at formatted
  cases product : fl.mul x 1000000 with
  | error crash => simp [product, bind, Except.bind] at formatted
  | ok y =>
    simp only [product, bind, Except.bind, pure, Except.pure, Except.ok.injEq] at formatted
    subst formatted
    intro c member
    simp only [String.toList_append, List.mem_append, padStart] at member
    rcases member with (whole | point) | padding | digits
    · rw [Json.toString_int] at whole
      split at whole
      · exact .inl (Nat.isDigit_of_mem_toDigits (by decide) (by decide) whole)
      · rcases List.mem_cons.mp whole with minus | digit
        · exact .inr (.inl minus)
        · exact .inl (Nat.isDigit_of_mem_toDigits (by decide) (by decide) digit)
    · exact .inr (.inr (by simpa using point))
    · have zero : c = '0' := by
        rw [toList_pushn] at padding
        exact List.eq_of_mem_replicate padding
      rw [zero]
      exact .inl rfl
    · exact .inl (toDigits_digit digits)

end

/-! ### What is read -/

/-- A reply behind its message. -/
def replyRest : List Char :=
  '"' :: ',' :: '"' :: ("service".toList ++ '"' :: ':' :: '"' :: ("risk".toList ++ '"' :: ',' ::
    '"' :: ("exhaustive".toList ++ '"' :: ':' :: ("true,".toList ++
    '"' :: ("engine".toList ++ '"' :: ':' :: '"' :: ("Gleam 1.15".toList ++ ['"', '}']))))))

def replyTail : List (Utf16 × Json) :=
  [(key "service", .str (key "risk")), (key "exhaustive", .bool true), (key "engine", .str (key "Gleam 1.15"))]

section

variable {message grade text error : String} {stack : List Json.Frame} {members : List (Utf16 × Json)}
  {name last : Utf16} {p : Json.Parser} {v : Json}

theorem run_true (rest : List Char) : run feed ⟨.value, .member members name :: stack⟩ ("true,".toList ++ rest) =
    run feed ⟨.key, .obj (members ++ [(name, .bool true)]) :: stack⟩ rest := rfl

theorem run_false (rest : List Char) : run feed ⟨.value, .member members name :: stack⟩ ("false,".toList ++ rest) =
    run feed ⟨.key, .obj (members ++ [(name, .bool false)]) :: stack⟩ rest := rfl

theorem run_replyRest : run feed ⟨.str last, .member members name :: stack⟩ replyRest =
    Json.put (.obj (members ++ (name, .str last) :: replyTail)) stack := by
  unfold replyRest
  rw [Json.run_endString, Json.run_name (.inr rfl) (by decide), Json.run_strMember (by decide),
    Json.run_name (.inr rfl) (by decide), run_true, Json.run_name (.inr rfl) (by decide)]
  have quote (members : List (Utf16 × Json)) (name : Utf16) (rest : List Char) :
      run feed ⟨.value, .member members name :: stack⟩ ('"' :: rest) =
        run feed ⟨.str [], .member members name :: stack⟩ rest := rfl
  rw [quote, Transition.run_concat, Json.run_plain (by decide), Option.bind_some]
  simp only [List.append_assoc, List.cons_append, List.nil_append]
  show (Json.put (.obj (_ ++ [_])) stack).bind some = _
  rw [Option.bind_fun_some, List.append_assoc]
  rfl

theorem rest_within {q : Json.Parser} (h : run feed p replyRest = some q) :
    ∃ last members name stack, p = ⟨.str last, .member members name :: stack⟩ :=
  Json.within_member (by decide) (by decide) h

theorem accepted_toList : (accepted "risk" message).toList = '{' :: '"' :: ("ok".toList ++ '"' :: ':' ::
    ("true,".toList ++ '"' :: ("message".toList ++ '"' :: ':' :: '"' :: (message.toList ++ replyRest)))) := by
  unfold accepted replyRest
  simp [String.toList_append]

theorem rejected_toList : (rejected "risk" error).toList = '{' :: '"' :: ("ok".toList ++ '"' :: ':' ::
    ("false,".toList ++ '"' :: ("error".toList ++ '"' :: ':' :: '"' :: (error.toList ++ replyRest)))) := by
  unfold rejected replyRest
  simp [String.toList_append]

theorem parse_accepted : Json.parse (accepted "risk" message) =
    (run feed ⟨.str [], [.member [(key "ok", .bool true)] (key "message")]⟩ message.toList).bind fun p =>
      (run feed p replyRest).bind Json.finish := by
  have opened : feed ⟨.value, []⟩ '{' = some ⟨.firstKey, [.obj []]⟩ := rfl
  have quote : feed ⟨.value, [.member [(key "ok", .bool true)] (key "message")]⟩ '"' =
      some ⟨.str [], [.member [(key "ok", .bool true)] (key "message")]⟩ := rfl
  rw [Json.parse, accepted_toList, run, opened, Option.bind_some, Json.run_name (.inl rfl) (by decide), run_true,
    Json.run_name (.inr rfl) (by decide), run, List.nil_append]
  show (Option.bind (feed ⟨.value, [.member [(key "ok", .bool true)] (key "message")]⟩ '"') _).bind _ = _
  rw [quote, Option.bind_some, Transition.run_concat, Option.bind_assoc]

theorem parse_rejected (clean : error.toList.all Json.plain) : Json.parse (rejected "risk" error) =
    some (.obj ((key "ok", .bool false) :: (key "error", .str (units error.toList)) :: replyTail)) := by
  have opened : feed ⟨.value, []⟩ '{' = some ⟨.firstKey, [.obj []]⟩ := rfl
  have quote : feed ⟨.value, [.member [(key "ok", .bool false)] (key "error")]⟩ '"' =
      some ⟨.str [], [.member [(key "ok", .bool false)] (key "error")]⟩ := rfl
  rw [Json.parse, rejected_toList, run, opened, Option.bind_some, Json.run_name (.inl rfl) (by decide), run_false,
    Json.run_name (.inr rfl) (by decide), run, List.nil_append]
  show (Option.bind (feed ⟨.value, [.member [(key "ok", .bool false)] (key "error")]⟩ '"') _).bind _ = _
  rw [quote, Option.bind_some, Transition.run_concat, Json.run_plain clean, Option.bind_some, run_replyRest]
  rfl

/-- The reply of an acceptance is an object if its message ends within a string of the outermost object. -/
theorem accepted_ends (parsed : Json.parse (accepted "risk" message) = some v) : ∃ last members name,
    run feed ⟨.str [], [.member [(key "ok", .bool true)] (key "message")]⟩ message.toList =
        some ⟨.str last, [.member members name]⟩ ∧
      v = .obj (members ++ (name, .str last) :: replyTail) := by
  rw [parse_accepted] at parsed
  obtain ⟨p, read, parsed⟩ := Option.bind_eq_some_iff.mp parsed
  obtain ⟨q, rest, finished⟩ := Option.bind_eq_some_iff.mp parsed
  obtain ⟨last, members, name, stack, rfl⟩ := rest_within rest
  rw [run_replyRest] at rest
  cases stack with
  | cons frame stack => cases frame <;> cases rest <;> contradiction
  | nil =>
    obtain rfl := Option.some.inj rest
    exact ⟨last, members, name, read, (Option.some.inj finished).symm⟩

theorem rejected_reads (clean : error.toList.all Json.plain) : ReadsRejected (rejected "risk" error) := by
  have distinct : [key "ok", key "error", key "service", key "exhaustive", key "engine"].Nodup := by decide
  have other : key "message" ∉ [key "ok", key "error", key "service", key "exhaustive", key "engine"] := by decide
  exact ⟨_, units error.toList, parse_rejected clean, Json.member_distinct distinct List.mem_cons_self,
    Json.member_distinct distinct (List.mem_cons_of_mem _ List.mem_cons_self), other⟩

theorem accepted_members (clean : message.toList.all Json.plain) : Json.parse (accepted "risk" message) =
    some (.obj ((key "ok", .bool true) :: (key "message", .str (units message.toList)) :: replyTail)) := by
  rw [parse_accepted, Json.run_plain clean, Option.bind_some, run_replyRest]
  rfl

theorem accepted_reads_plain (clean : message.toList.all Json.plain) (other : String) :
    ReadsAccepted other (accepted "risk" message) ↔ units message.toList = units other.toList := by
  have distinct : [key "ok", key "message", key "service", key "exhaustive", key "engine"].Nodup := by decide
  have found : Json.member ((key "ok", .bool true) :: (key "message", .str (units message.toList)) :: replyTail)
      (key "message") = some (.str (units message.toList)) :=
    Json.member_distinct distinct (List.mem_cons_of_mem _ List.mem_cons_self)
  constructor
  · rintro ⟨members, parsed, -, same⟩
    rw [accepted_members clean] at parsed
    obtain rfl := Json.obj.inj (Option.some.inj parsed)
    exact Json.str.inj (Option.some.inj (found.symm.trans same))
  · intro same
    exact ⟨_, accepted_members clean, Json.member_distinct distinct List.mem_cons_self, same ▸ found⟩

/-- Whatever the message does to its reply, it leaves the member `message` there. -/
theorem accepted_not_rejected : ¬ ReadsRejected (accepted "risk" message) := by
  rintro ⟨members, error, parsed, -, -, absent⟩
  obtain ⟨last, before, name, read, same⟩ := accepted_ends parsed
  obtain rfl := Json.obj.inj same
  have held : key "message" ∈ Json.Parser.keys ⟨.str last, [.member before name]⟩ :=
    @Json.keys_run _ ⟨.str [], [.member [(key "ok", .bool true)] (key "message")]⟩ _ _ List.mem_cons_self read
  apply absent
  rw [List.map_append, List.mem_append, List.map_cons, List.mem_cons]
  rcases List.mem_cons.mp held with here | there
  · exact .inr (.inl here)
  · exact .inl there

/-- A list that runs on is no longer than one that stops at what it does not have. -/
theorem length_le_of_prefix {α : Type*} {b : α} {xs ys zs ws : List α} (clean : b ∉ xs)
    (front : xs ++ ys <+: zs ++ b :: ws) : xs.length ≤ zs.length := by
  by_contra longer
  have inside : zs.length < xs.length := not_le.mp longer
  obtain ⟨rest, same⟩ := front
  have there : (xs ++ ys ++ rest)[zs.length]? = some b := by rw [same]; simp
  rw [List.append_assoc, List.getElem?_append_left inside] at there
  exact clean (List.mem_of_getElem? there)

/-! ### The message with a score -/

variable {s t : String}

theorem Numeric.narrow (numeric : Numeric text) : Json.Narrow text.toList := by
  intro c member
  rcases numeric c member with digit | rfl | rfl
  · exact (Char.isDigit_iff_toNat.mp digit).2.trans_lt (by decide)
  · decide
  · decide

theorem Numeric.plain (numeric : Numeric text) : text.toList.all Json.plain := by
  rw [List.all_eq_true]
  intro c member
  rcases numeric c member with digit | rfl | rfl
  · have quote : c ≠ '"' := by rintro rfl; contradiction
    have backslash : c ≠ '\\' := by rintro rfl; contradiction
    have first : '0' ≤ c := (Bool.and_eq_true_iff.mp digit).1 |> of_decide_eq_true
    have printable : ' ' ≤ c := Char.le_trans (by decide) first
    simp [Json.plain, quote, backslash, printable]
  · rfl
  · rfl

theorem Numeric.blank (numeric : Numeric text) : ' '.toNat.toUInt16 ∉ units text.toList := by
  intro member
  rcases numeric _ (Json.mem_units numeric.narrow (by decide) member) with digit | minus | point
  · contradiction
  · contradiction
  · contradiction

def beforeGrade (text : String) : List Char := "valid: score=".toList ++ (text.toList ++ " grade=".toList)

theorem scoreMessage_toList : (scoreMessage text grade).toList = beforeGrade text ++ grade.toList := by
  unfold scoreMessage beforeGrade
  simp only [String.toList_append, List.append_assoc]

theorem beforeGrade_plain (numeric : Numeric text) : (beforeGrade text).all Json.plain := by
  unfold beforeGrade
  rw [List.all_append, List.all_append, numeric.plain]
  decide

theorem beforeGrade_narrow (numeric : Numeric text) : Json.Narrow (beforeGrade text) := by
  have front : Json.Narrow "valid: score=".toList := by simp [Json.Narrow]
  have back : Json.Narrow " grade=".toList := by simp [Json.Narrow]
  intro c member
  rcases List.mem_append.mp member with before | member
  · exact front c before
  · rcases List.mem_append.mp member with number | behind
    · exact numeric.narrow c number
    · exact back c behind

theorem beforeGrade_inj (same : beforeGrade s = beforeGrade t) : s = t := by
  unfold beforeGrade at same
  rw [List.append_cancel_left_eq, List.append_cancel_right_eq] at same
  exact String.toList_inj.mp same

/-- A message that goes on as one with another number is no shorter before its grade. -/
theorem beforeGrade_le (numeric : Numeric t) (front : units (beforeGrade t) <+: units (scoreMessage s grade).toList) :
    (units (beforeGrade t)).length ≤ (units (beforeGrade s)).length := by
  rw [scoreMessage_toList] at front
  unfold beforeGrade at front ⊢
  simp only [Json.units_append, List.append_assoc, List.prefix_append_right_inj, List.length_append] at front ⊢
  have blank : units " grade=".toList = ' '.toNat.toUInt16 :: units "grade=".toList := rfl
  rw [blank, List.cons_append] at front
  have shorter := length_le_of_prefix numeric.blank front
  omega

/-- A grade that is not plain leaves no string that is as long as the message ought to be. -/
theorem special_misread (numeric : Numeric t) (special : ¬ grade.toList.all Json.plain) :
    ¬ ReadsAccepted (scoreMessage s grade) (accepted "risk" (scoreMessage t grade)) := by
  rintro ⟨members, parsed, -, found⟩
  obtain ⟨last, before, name, read, same⟩ := accepted_ends parsed
  obtain rfl := Json.obj.inj same
  rw [scoreMessage_toList, Transition.run_concat, Json.run_plain (beforeGrade_plain numeric), Option.bind_some,
    List.nil_append] at read
  have short : Json.Short (units (beforeGrade t)) 0 [.member [(key "ok", .bool true)] (key "message")] := by
    simp [Json.Short, Json.Frame.members]
  have grown : Json.Grown (units (beforeGrade t)) 0 (units (beforeGrade t)) := .inr ⟨List.prefix_rfl, le_rfl⟩
  obtain ⟨k, fewer, below⟩ := Json.falls_short special short grown read
  have reached : Json.Grown (units (beforeGrade t)) k (units (scoreMessage s grade).toList) := by
    rcases List.mem_append.mp (Json.member_some found) with member | member
    · exact below.stack _ List.mem_cons_self _ _ member
    · rcases List.mem_cons.mp member with here | tail
      · exact Json.str.inj (Prod.mk.inj here).2 ▸ below.text
      · have absent : key "message" ∉ replyTail.map Prod.fst := by decide
        exact absurd (List.mem_map_of_mem tail) absent
  have long : (units (scoreMessage s grade).toList).length =
      (units (beforeGrade s)).length + (units grade.toList).length := by
    rw [scoreMessage_toList, Json.units_append, List.length_append]
  rcases reached with few | ⟨front, few⟩
  · omega
  · have shorter := beforeGrade_le numeric front
    omega

/-- The reply is read as the message with a score and the grade if the grade needs no escapes and the score is that one. -/
theorem score_reads (numeric : Numeric s) (other : Numeric t) :
    ReadsAccepted (scoreMessage s grade) (accepted "risk" (scoreMessage t grade)) ↔
      grade.toList.all Json.plain ∧ t = s := by
  by_cases clean : grade.toList.all Json.plain
  · have plain : (scoreMessage t grade).toList.all Json.plain := by
      rw [scoreMessage_toList, List.all_append, beforeGrade_plain other, clean]
      rfl
    rw [accepted_reads_plain plain, and_iff_right clean]
    simp only [scoreMessage_toList, Json.units_append, List.append_cancel_right_eq]
    constructor
    · intro same
      exact beforeGrade_inj (Json.units_inj (beforeGrade_narrow other) (beforeGrade_narrow numeric) same)
    · rintro rfl
      rfl
  · exact iff_of_false (special_misread other clean) fun both => clean both.1

end

end PolyglotInfinity.HubGleam
