import PolyglotInfinity.Lib.Doubles
import PolyglotInfinity.Lib.ParseDouble

/-!
# Numbers in OCaml

`float_of_string` and `int_of_string`; `none` is the exception `Failure`.
-/

namespace PolyglotInfinity.RiskOcaml

open ParseDouble (digitVal digits isHexDigit scale sign signedInt significand)

/-- The doubles, with the formats in which they are written. -/
structure Floats extends Doubles where
  stringOfFloat : Extended → String
  /-- `%.4f` -/
  fixed4 : Extended → String

/-- A literal in lower case, with or without the exponent behind `mark`. -/
def literal (digit : Char → Bool) (base : ℕ) (mark : Char) (expBase perDigit : ℕ) (cs : List Char) : Option ℚ :=
  match significand digit cs with
  | none => none
  | some (ds, behind, []) => some (scale (digits base ds) expBase (-(perDigit * behind : ℕ)))
  | some (ds, behind, c :: more) =>
    match signedInt more with
    | some (e, []) => if c = mark then some (scale (digits base ds) expBase (e - (perDigit * behind : ℕ))) else none
    | _ => none

/-- What may stand between the parentheses of a NaN. -/
def isPayload (cs : List Char) : Bool := cs.getLast? = some ')' && cs.dropLast.all Char.isAlphanum

def magnitude (fl : Floats) (cs : List Char) : Option Extended :=
  match cs.map Char.toLower with
  | ['i', 'n', 'f'] | ['i', 'n', 'f', 'i', 'n', 'i', 't', 'y'] => some .posInf
  | ['n', 'a', 'n'] => some .nan
  | 'n' :: 'a' :: 'n' :: '(' :: payload => if isPayload payload then some .nan else none
  | '0' :: 'x' :: cs => (literal isHexDigit 16 'p' 2 4 cs).map fl.double
  | cs => (literal Char.isDigit 10 'e' 10 1 cs).map fl.double

/-- The blanks of `isspace`. -/
def isSpace (c : Char) : Bool := c = ' ' || ('\t' ≤ c && c ≤ '\r')

def floatOfString (fl : Floats) (text : String) : Option Extended :=
  let (negative, cs) := sign ((text.toList.filter (· ≠ '_')).dropWhile isSpace)
  (magnitude fl cs).map fun x => if negative then -x else x

/-- The base, and whether the sign bit may be a digit's. -/
def radix : List Char → ℕ × Bool × List Char
  | '0' :: 'x' :: cs | '0' :: 'X' :: cs => (16, false, cs)
  | '0' :: 'o' :: cs | '0' :: 'O' :: cs => (8, false, cs)
  | '0' :: 'b' :: cs | '0' :: 'B' :: cs => (2, false, cs)
  | '0' :: 'u' :: cs | '0' :: 'U' :: cs => (10, false, cs)
  | cs => (10, true, cs)

/-- An integer of 63 bits, in two's complement. -/
def wrap (n : ℤ) : ℤ := Int.bmod n (2 ^ 63)

def intOfString (text : String) : Option ℤ :=
  let (negative, cs) := sign text.toList
  let (base, signed, cs) := radix cs
  let ds := cs.filter (· ≠ '_')
  let value : ℤ := digits base ds
  if cs.head?.all (· = '_') || ds.any (fun c => !isHexDigit c || base ≤ digitVal c) then none
  else if signed then
    if value < 2 ^ 62 || (negative && value = 2 ^ 62) then some (if negative then -value else value) else none
  else if value < 2 ^ 63 then some (wrap (if negative then -value else value)) else none

end PolyglotInfinity.RiskOcaml
