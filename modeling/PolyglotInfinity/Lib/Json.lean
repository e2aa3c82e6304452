import Mathlib.Data.Rat.Defs
import PolyglotInfinity.Lib.ParseDouble
import PolyglotInfinity.Lib.Transition

/-!
# Strict JSON

A text is read one character at a time by a machine with a stack of the arrays
and objects that are open. Strings are sequences of UTF-16 units, numbers keep
their exact value, and an object keeps its members as the text has them.
-/

abbrev Utf16 := List UInt16

inductive Json where
  | null
  | bool (b : Bool)
  | num (q : ℚ)
  | str (text : Utf16)
  | arr (items : List Json)
  | obj (members : List (Utf16 × Json))

namespace Json

open Transition (run)

def utf16 (c : Char) : Utf16 :=
  if c.toNat < 0x10000 then [c.toNat.toUInt16]
  else
    let v := c.toNat - 0x10000
    [(0xD800 + v / 0x400).toUInt16, (0xDC00 + v % 0x400).toUInt16]

def units (cs : List Char) : Utf16 := cs.flatMap utf16

/-- Of members with the same name the last one counts. -/
def member (members : List (Utf16 × Json)) (name : Utf16) : Option Json := members.reverse.lookup name

def isNull : Json → Bool
  | null => true
  | _ => false

/-! ### Leaves -/

def white (c : Char) : Bool := c = ' ' || c = '\t' || c = '\n' || c = '\r'

/-- Stands for itself within a string. -/
def plain (c : Char) : Bool := c ≠ '"' && c ≠ '\\' && ' ' ≤ c

def numeric (c : Char) : Bool := c.isDigit || c = '-' || c = '+' || c = '.' || c = 'e' || c = 'E'

def wellFormed : List Char → Bool
  | [] => false
  | '0' :: _ :: _ => false
  | _ => true

/-- The digits behind a point, if there is one, and what follows. -/
def fraction : List Char → Option (List Char × List Char)
  | '.' :: cs => if cs.takeWhile Char.isDigit = [] then none
      else some (cs.takeWhile Char.isDigit, cs.dropWhile Char.isDigit)
  | cs => some ([], cs)

def exponent : List Char → Option ℤ
  | [] => some 0
  | 'e' :: cs | 'E' :: cs =>
    match ParseDouble.signedInt cs with
    | some (e, []) => some e
    | _ => none
  | _ => none

def magnitude (cs : List Char) : Option ℚ :=
  let whole := cs.takeWhile Char.isDigit
  if wellFormed whole then
    (fraction (cs.dropWhile Char.isDigit)).bind fun (behind, rest) =>
      (exponent rest).map fun e =>
        ParseDouble.scale (ParseDouble.digits 10 (whole ++ behind)) 10 (e - behind.length)
  else none

def number : List Char → Option ℚ
  | '-' :: cs => (magnitude cs).map (-·)
  | cs => magnitude cs

def word (cs : List Char) : Option Json :=
  if cs = "null".toList then some null
  else if cs = "true".toList then some (bool true)
  else if cs = "false".toList then some (bool false)
  else none

def escape (c : Char) : Option UInt16 :=
  match c with
  | '"' | '\\' | '/' => some c.toNat.toUInt16
  | 'b' => some 8
  | 't' => some 9
  | 'n' => some 10
  | 'f' => some 12
  | 'r' => some 13
  | _ => none

/-! ### The machine -/

inductive Frame where
  | arr (items : List Json)
  | obj (members : List (Utf16 × Json))
  /-- An object whose member `name` has no value yet. -/
  | member (members : List (Utf16 × Json)) (name : Utf16)

inductive Mode where
  | value
  /-- A value or the end of the array. -/
  | firstValue
  | key
  | firstKey
  | colon
  /-- A comma, or the end of what is open. -/
  | next
  | finished (v : Json)
  | str (text : Utf16)
  | esc (text : Utf16)
  | hex (text : Utf16) (ds : List Char)
  | num (cs : List Char)
  | word (cs : List Char)

structure Parser where
  mode : Mode
  stack : List Frame

/-- A value is complete. -/
def put (v : Json) : List Frame → Option Parser
  | [] => some ⟨.finished v, []⟩
  | .arr items :: rest => some ⟨.next, .arr (items ++ [v]) :: rest⟩
  | .member members name :: rest => some ⟨.next, .obj (members ++ [(name, v)]) :: rest⟩
  | .obj _ :: _ => none

def endString (text : Utf16) : List Frame → Option Parser
  | .obj members :: rest => some ⟨.colon, .member members text :: rest⟩
  | [] => put (.str text) []
  | .arr items :: rest => put (.str text) (.arr items :: rest)
  | .member members name :: rest => put (.str text) (.member members name :: rest)

/-- The first character of a value. -/
def start (stack : List Frame) (c : Char) : Option Parser :=
  if c = '"' then some ⟨.str [], stack⟩
  else if c = '{' then some ⟨.firstKey, .obj [] :: stack⟩
  else if c = '[' then some ⟨.firstValue, .arr [] :: stack⟩
  else if c = '-' || c.isDigit then some ⟨.num [c], stack⟩
  else if c.isLower then some ⟨.word [c], stack⟩
  else none

def delimiter (stack : List Frame) (c : Char) : Option Parser :=
  match stack with
  | .arr items :: rest =>
    if c = ',' then some ⟨.value, stack⟩ else if c = ']' then put (.arr items) rest else none
  | .obj members :: rest =>
    if c = ',' then some ⟨.key, stack⟩ else if c = '}' then put (.obj members) rest else none
  | .member _ _ :: _ | [] => none

/-- The character behind a value. -/
def behind (p : Parser) (c : Char) : Option Parser :=
  match p.mode with
  | .next => if white c then some p else delimiter p.stack c
  | .finished _ => if white c then some p else none
  | _ => none

def feed (p : Parser) (c : Char) : Option Parser :=
  match p.mode with
  | .value => if white c then some p else start p.stack c
  | .firstValue => if white c then some p else if c = ']' then delimiter p.stack c else start p.stack c
  | .key => if white c then some p else if c = '"' then some ⟨.str [], p.stack⟩ else none
  | .firstKey =>
    if white c then some p
    else if c = '"' then some ⟨.str [], p.stack⟩
    else if c = '}' then delimiter p.stack c
    else none
  | .colon => if white c then some p else if c = ':' then some ⟨.value, p.stack⟩ else none
  | .next | .finished _ => behind p c
  | .str text =>
    if c = '"' then endString text p.stack
    else if c = '\\' then some ⟨.esc text, p.stack⟩
    else if c < ' ' then none
    else some ⟨.str (text ++ utf16 c), p.stack⟩
  | .esc text =>
    if c = 'u' then some ⟨.hex text [], p.stack⟩
    else (escape c).map fun unit => ⟨.str (text ++ [unit]), p.stack⟩
  | .hex text ds =>
    if ParseDouble.isHexDigit c then
      if ds.length = 3 then
        some ⟨.str (text ++ [(ParseDouble.digits 16 (ds ++ [c])).toUInt16]), p.stack⟩
      else some ⟨.hex text (ds ++ [c]), p.stack⟩
    else none
  | .num cs =>
    if numeric c then some ⟨.num (cs ++ [c]), p.stack⟩
    else (number cs).bind fun q => (put (.num q) p.stack).bind fun p => behind p c
  | .word cs =>
    if c.isLower then some ⟨.word (cs ++ [c]), p.stack⟩
    else (word cs).bind fun v => (put v p.stack).bind fun p => behind p c

def finish (p : Parser) : Option Json :=
  match p.stack with
  | [] =>
    match p.mode with
    | .finished v => some v
    | .num cs => (number cs).map .num
    | .word cs => word cs
    | _ => none
  | _ :: _ => none

def parse (text : String) : Option Json :=
  (run feed ⟨.value, []⟩ text.toList).bind finish

/-! ### Members -/

theorem member_some {members : List (Utf16 × Json)} {name : Utf16} {v : Json} (found : member members name = some v) :
    (name, v) ∈ members := by
  obtain ⟨before, after, split, -⟩ := List.lookup_eq_some_iff.mp found
  rw [← List.mem_reverse, split]
  simp

theorem member_distinct {members : List (Utf16 × Json)} {name : Utf16} {v : Json}
    (distinct : (members.map Prod.fst).Nodup) (present : (name, v) ∈ members) : member members name = some v := by
  obtain ⟨before, after, rfl⟩ := List.append_of_mem present
  refine List.lookup_eq_some_iff.mpr ⟨after.reverse, before.reverse, by simp, fun other later => ?_⟩
  rw [List.map_append, List.map_cons] at distinct
  have once := (List.nodup_cons.mp (List.nodup_append.mp distinct).2.1).1
  rw [bne_iff_ne]
  rintro rfl
  exact once (List.mem_map.mpr ⟨other, List.mem_reverse.mp later, rfl⟩)

/-! ### Integers -/

theorem head_toDigits {n : ℕ} (positive : n ≠ 0) : (Nat.toDigits 10 n).head? ≠ some '0' := by
  induction n using Nat.strongRecOn with
  | ind n ih =>
    by_cases small : n < 10
    · rw [Nat.toDigits_of_lt_base small, List.head?_cons]
      simpa using positive
    · rw [Nat.toDigits_of_base_le (by decide) (Nat.le_of_not_lt small), List.head?_append_of_ne_nil]
      · exact ih (n / 10) (by omega) (by omega)
      · exact Nat.toDigits_ne_nil

theorem wellFormed_toDigits (n : ℕ) : wellFormed (Nat.toDigits 10 n) = true := by
  by_cases zero : n = 0
  · subst zero
    rfl
  · have first := head_toDigits zero
    have some' := @Nat.toDigits_ne_nil n 10
    unfold wellFormed
    split
    · contradiction
    · rename_i same
      simp [same] at first
    · rfl

theorem digits_toDigits (n : ℕ) : ParseDouble.digits 10 (Nat.toDigits 10 n) = n := by
  have value : ∀ c ∈ Nat.toDigits 10 n, ParseDouble.digitVal c = c.toNat - '0'.toNat := by
    intro c member
    rw [ParseDouble.digitVal, if_pos (Nat.isDigit_of_mem_toDigits (by decide) (by decide) member)]
  have same := @Nat.ofDigitChars_toDigits 10 n (by decide) (by decide)
  rw [Nat.ofDigitChars_eq_foldl] at same
  refine Eq.trans (List.foldl_ext _ _ _ fun n c member => ?_) same
  rw [value c member, Nat.mul_comm]

theorem magnitude_toDigits (n : ℕ) : magnitude (Nat.toDigits 10 n) = some (n : ℚ) := by
  have every : ∀ c ∈ Nat.toDigits 10 n, c.isDigit := fun c => Nat.isDigit_of_mem_toDigits (by decide) (by decide)
  have whole : (Nat.toDigits 10 n).takeWhile Char.isDigit = Nat.toDigits 10 n := List.takeWhile_eq_self_iff.mpr every
  have rest : (Nat.toDigits 10 n).dropWhile Char.isDigit = [] := List.dropWhile_eq_nil_iff.mpr every
  simp [magnitude, whole, rest, wellFormed_toDigits, fraction, exponent, digits_toDigits, ParseDouble.scale]

/-- The decimal text of an integer: a minus sign or none, and digits. -/
theorem toString_int (n : ℤ) : (toString n).toList =
    if 0 ≤ n then Nat.toDigits 10 n.toNat else '-' :: Nat.toDigits 10 (-n).toNat := by
  rw [Int.toString_eq_repr, Int.repr_eq_if]
  split <;> simp

theorem number_int (n : ℤ) : number (toString n).toList = some (n : ℚ) := by
  rw [toString_int]
  split
  · rename_i nonneg
    have digits : number (Nat.toDigits 10 n.toNat) = magnitude (Nat.toDigits 10 n.toNat) := by
      unfold number
      split
      · rename_i minus
        have digit := @Nat.isDigit_of_mem_toDigits 10 n.toNat '-' (by decide) (by decide) (by simp [minus])
        exact absurd digit (by decide)
      · rfl
    have value : ((n.toNat : ℤ) : ℚ) = (n : ℚ) := by rw [Int.toNat_of_nonneg nonneg]
    rw [digits, magnitude_toDigits, ← value, Int.cast_natCast]
  · rename_i negative
    have value : (((-n).toNat : ℤ) : ℚ) = -(n : ℚ) := by rw [Int.toNat_of_nonneg (by omega), Int.cast_neg]
    rw [Int.cast_natCast] at value
    rw [number, magnitude_toDigits, Option.map_some, value, neg_neg]

/-! ### What the machine makes of well-formed pieces -/

variable {stack : List Frame} {members : List (Utf16 × Json)} {name text : Utf16} {cs : List Char} {c : Char}

theorem feed_num {cs : List Char} {text : List Char} (numerals : cs.all numeric) :
    run feed ⟨.num text, stack⟩ cs = some ⟨.num (text ++ cs), stack⟩ := by
  induction cs generalizing text with
  | nil => simp
  | cons c cs ih =>
    rw [List.all_cons, Bool.and_eq_true] at numerals
    obtain ⟨here, later⟩ := numerals
    simp [run, feed, here, ih later]

theorem number_start (opens : c = '-' ∨ c.isDigit) :
    white c = false ∧ c ≠ ']' ∧ start stack c = some ⟨.num [c], stack⟩ := by
  have chars (d : Char) (other : (d == '-' || d.isDigit) = false) : c ≠ d := by
    rintro rfl
    rcases opens with rfl | digit <;> simp_all
  refine ⟨?_, chars ']' rfl, ?_⟩
  · simp [white, chars ' ' rfl, chars '\t' rfl, chars '\n' rfl, chars '\r' rfl]
  · simp only [start, chars '"' rfl, chars '{' rfl, chars '[' rfl]
    rcases opens with rfl | digit
    · rfl
    · simp [digit]

theorem feed_value (opens : c = '-' ∨ c.isDigit) : feed ⟨.value, stack⟩ c = some ⟨.num [c], stack⟩ := by
  obtain ⟨blank, -, starts⟩ := @number_start stack c opens
  simp only [feed, blank, Bool.false_eq_true, if_false, starts]

/-- The text of an integer begins as a number does, and goes on with digits. -/
theorem opens_int (n : ℤ) :
    ∃ c cs, (toString n).toList = c :: cs ∧ (c = '-' ∨ c.isDigit) ∧ cs.all Char.isDigit := by
  have digits (n : ℕ) : (Nat.toDigits 10 n).all Char.isDigit :=
    List.all_eq_true.mpr fun c => Nat.isDigit_of_mem_toDigits (by decide) (by decide)
  rw [toString_int]
  split
  · cases text : Nat.toDigits 10 n.toNat with
    | nil => exact absurd text Nat.toDigits_ne_nil
    | cons c cs =>
      have every := digits n.toNat
      rw [text, List.all_cons, Bool.and_eq_true] at every
      exact ⟨c, cs, rfl, .inr every.1, every.2⟩
  · exact ⟨_, _, rfl, .inl rfl, digits _⟩

theorem numeric_digits (digits : cs.all Char.isDigit) : cs.all numeric := by
  rw [List.all_eq_true] at digits ⊢
  intro c member
  simp [numeric, digits c member]

theorem run_int (n : ℤ) : run feed ⟨.value, stack⟩ (toString n).toList = some ⟨.num (toString n).toList, stack⟩ := by
  obtain ⟨c, cs, text, opens, digits⟩ := opens_int n
  rw [text, run, feed_value opens, Option.bind_some, feed_num (numeric_digits digits), List.singleton_append]

theorem feed_plain (here : plain c) : feed ⟨.str text, stack⟩ c = some ⟨.str (text ++ utf16 c), stack⟩ := by
  simp only [plain, Bool.and_eq_true, decide_eq_true_eq] at here
  obtain ⟨⟨quote, backslash⟩, printable⟩ := here
  simp [feed, quote, backslash, Char.not_lt.mpr printable]

theorem feed_control (control : c < ' ') : feed ⟨.str text, stack⟩ c = none := by
  have quote : c ≠ '"' := by
    rintro rfl
    exact absurd control (by decide)
  have backslash : c ≠ '\\' := by
    rintro rfl
    exact absurd control (by decide)
  simp [feed, quote, backslash, control]

/-- Characters within a string that stand for themselves. -/
theorem run_plain (clean : cs.all plain) : run feed ⟨.str text, stack⟩ cs = some ⟨.str (text ++ units cs), stack⟩ := by
  induction cs generalizing text with
  | nil => simp [units]
  | cons c cs ih =>
    rw [List.all_cons, Bool.and_eq_true] at clean
    rw [run, feed_plain clean.1, Option.bind_some, ih clean.2]
    simp [units]

/-- The name of a member, up to its colon. -/
theorem run_name {mode : Mode} (before : mode = .firstKey ∨ mode = .key) (clean : cs.all plain) (rest : List Char) :
    run feed ⟨mode, .obj members :: stack⟩ ('"' :: (cs ++ '"' :: ':' :: rest)) =
      run feed ⟨.value, .member members (units cs) :: stack⟩ rest := by
  have opened : feed ⟨mode, .obj members :: stack⟩ '"' = some ⟨.str [], .obj members :: stack⟩ := by
    rcases before with rfl | rfl <;> rfl
  rw [run, opened, Option.bind_some, Transition.run_concat, run_plain clean, Option.bind_some]
  rfl

/-- A member whose value is an integer, and the character behind it. -/
theorem run_intMember (n : ℤ) (close : numeric c = false) (rest : List Char) :
    run feed ⟨.value, .member members name :: stack⟩ ((toString n).toList ++ c :: rest) =
      (behind ⟨.next, .obj (members ++ [(name, .num n)]) :: stack⟩ c).bind fun p => run feed p rest := by
  rw [Transition.run_concat, run_int, Option.bind_some, run]
  simp only [feed, close, Bool.false_eq_true, if_false, number_int, Option.bind_some, put]

/-- The end of a string value, and the comma behind it. -/
theorem run_endString (rest : List Char) :
    run feed ⟨.str text, .member members name :: stack⟩ ('"' :: ',' :: rest) =
      run feed ⟨.key, .obj (members ++ [(name, .str text)]) :: stack⟩ rest := by
  have quote : feed ⟨.str text, .member members name :: stack⟩ '"' =
      some ⟨.next, .obj (members ++ [(name, .str text)]) :: stack⟩ := rfl
  have comma : feed ⟨.next, .obj (members ++ [(name, .str text)]) :: stack⟩ ',' =
      some ⟨.key, .obj (members ++ [(name, .str text)]) :: stack⟩ := rfl
  rw [run, quote, Option.bind_some, run, comma, Option.bind_some]

theorem run_intComma (n : ℤ) (rest : List Char) :
    run feed ⟨.value, .member members name :: stack⟩ ((toString n).toList ++ ',' :: rest) =
      run feed ⟨.key, .obj (members ++ [(name, .num n)]) :: stack⟩ rest := by
  rw [run_intMember n rfl]
  rfl

theorem run_strMember (clean : cs.all plain) (rest : List Char) :
    run feed ⟨.value, .member members name :: stack⟩ ('"' :: (cs ++ '"' :: ',' :: rest)) =
      run feed ⟨.key, .obj (members ++ [(name, .str (units cs))]) :: stack⟩ rest := by
  have quote : feed ⟨.value, .member members name :: stack⟩ '"' = some ⟨.str [], .member members name :: stack⟩ := rfl
  rw [run, quote, Option.bind_some, Transition.run_concat, run_plain clean, Option.bind_some, run_endString,
    List.nil_append]

end Json
