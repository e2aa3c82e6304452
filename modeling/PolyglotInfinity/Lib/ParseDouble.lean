import Mathlib.Data.List.DropRight
import PolyglotInfinity.Lib.Doubles

/-!
# Reading a double

The grammar of `Double.parseDouble`: blanks around the number, a sign, `NaN`,
`Infinity`, decimal and hexadecimal literals with an optional type suffix. The
number that a literal stands for is rounded to the nearest double.
-/

namespace ParseDouble

def digitVal (c : Char) : Nat :=
  if c.isDigit then c.toNat - '0'.toNat
  else if 'a' ≤ c ∧ c ≤ 'f' then c.toNat - 'a'.toNat + 10
  else c.toNat - 'A'.toNat + 10

def isHexDigit (c : Char) : Bool :=
  c.isDigit || ('a' ≤ c && c ≤ 'f') || ('A' ≤ c && c ≤ 'F')

def digits (base : Nat) (ds : List Char) : Nat :=
  ds.foldl (fun n c => n * base + digitVal c) 0

def sign : List Char → Bool × List Char
  | '-' :: cs => (true, cs)
  | '+' :: cs => (false, cs)
  | cs => (false, cs)

/-- A signed run of decimal digits, and what follows it. -/
def signedInt (cs : List Char) : Option (Int × List Char) :=
  let (negative, cs) := sign cs
  let ds := cs.takeWhile Char.isDigit
  if ds = [] then none
  else some (if negative then -(digits 10 ds : Int) else digits 10 ds, cs.dropWhile Char.isDigit)

/-- Digits with a point somewhere among them: the digits, how many stand behind
the point, and what follows. -/
def significand (digit : Char → Bool) (cs : List Char) : Option (List Char × Nat × List Char) :=
  let whole := cs.takeWhile digit
  let (frac, rest) := match cs.dropWhile digit with
    | '.' :: more => (more.takeWhile digit, more.dropWhile digit)
    | more => ([], more)
  if whole ++ frac = [] then none else some (whole ++ frac, frac.length, rest)

def isSuffix : List Char → Bool
  | [] | ['f'] | ['F'] | ['d'] | ['D'] => true
  | _ => false

def scale (n base : Nat) (e : Int) : ℚ :=
  if 0 ≤ e then (n : ℚ) * (base : ℚ) ^ e.toNat else (n : ℚ) / (base : ℚ) ^ (-e).toNat

def decimal (cs : List Char) : Option ℚ :=
  match significand Char.isDigit cs with
  | none => none
  | some (ds, behind, rest) =>
    match rest with
    | 'e' :: more | 'E' :: more =>
      match signedInt more with
      | some (e, rest) => if isSuffix rest then some (scale (digits 10 ds) 10 (e - behind)) else none
      | none => none
    | _ => if isSuffix rest then some (scale (digits 10 ds) 10 (-behind)) else none

/-- A hexadecimal literal has to have its binary exponent. -/
def hexadecimal (cs : List Char) : Option ℚ :=
  match significand isHexDigit cs with
  | none => none
  | some (ds, behind, rest) =>
    match rest with
    | 'p' :: more | 'P' :: more =>
      match signedInt more with
      | some (e, rest) => if isSuffix rest then some (scale (digits 16 ds) 2 (e - 4 * behind)) else none
      | none => none
    | _ => none

def magnitude : List Char → Option Extended
  | ['N', 'a', 'N'] => some .nan
  | ['I', 'n', 'f', 'i', 'n', 'i', 't', 'y'] => some .posInf
  | '0' :: 'x' :: cs | '0' :: 'X' :: cs => (hexadecimal cs).map binary64
  | cs => (decimal cs).map binary64

def trim (cs : List Char) : List Char :=
  let blank : Char → Bool := fun c => c ≤ ' '
  (cs.dropWhile blank).rdropWhile blank

/-- `none` is the `NumberFormatException`. -/
def parseDouble (text : String) : Option Extended :=
  let (negative, cs) := sign (trim text.toList)
  (magnitude cs).map fun x => if negative then -x else x

def message (text : String) : String :=
  match trim text.toList with
  | [] => "empty String"
  | cs => "For input string: \"" ++ String.ofList cs ++ "\""

theorem magnitude_isDouble {cs : List Char} {x : Extended} (read : magnitude cs = some x) : IsDouble x := by
  unfold magnitude at read
  split at read
  · cases read
    exact .nan
  · cases read
    exact .posInf
  all_goals
    obtain ⟨q, -, rfl⟩ := Option.map_eq_some_iff.mp read
    exact binary64_isDouble q

theorem parseDouble_isDouble {text : String} {x : Extended} (read : parseDouble text = some x) : IsDouble x := by
  rw [parseDouble] at read
  obtain ⟨y, found, rfl⟩ := Option.map_eq_some_iff.mp read
  have double := magnitude_isDouble found
  split_ifs
  · exact double.neg
  · exact double

example : parseDouble " -1.5e1d" = some (.fin (-15)) := by decide +kernel

example : parseDouble "0.30000000000000001" = parseDouble "0.3" := by decide +kernel

end ParseDouble
