import PolyglotInfinity.Lib.Doubles
import PolyglotInfinity.Lib.ParseDouble

/-!
# The library of Lua

Patterns, numerals and the formatting of integers in Lua 5.4. A byte of a string is the
character with its number.
-/

namespace PolyglotInfinity.StreamLua

open ParseDouble (digits isHexDigit scale sign signedInt significand)

/-! ### Patterns -/

/-- A class of characters with its repetition, or a bound of a capture. -/
inductive Item where
  | one (cls : Char → Bool)
  | plus (cls : Char → Bool)
  | star (cls : Char → Bool)
  | lazy (cls : Char → Bool)
  | optional (cls : Char → Bool)
  | opening
  | closing

/-- `%s` -/
def isSpace (c : Char) : Bool := c = ' ' || ('\t' ≤ c && c ≤ '\r')

/-- The first of the rests of `s` behind up to `n` characters that works, from the longest match on. -/
def greedy {α : Type} (n : ℕ) (s : List Char) (behind : List Char → Option α) : Option α :=
  (List.range (n + 1)).reverse.findSome? fun k => behind (s.drop k)

/-- The captures of a match at the beginning of `s`, and what follows it; the open capture begins at `start`. -/
def matchHere : List Item → List Char → List Char → Option (List (List Char) × List Char)
  | [], _, s => some ([], s)
  | .opening :: p, _, s => matchHere p s s
  | .closing :: p, start, s =>
    (matchHere p start s).map fun r => (start.take (start.length - s.length) :: r.1, r.2)
  | .one cls :: p, start, s =>
    match s with
    | [] => none
    | c :: s => if cls c then matchHere p start s else none
  | .plus cls :: p, start, s =>
    match s with
    | [] => none
    | c :: s => if cls c then greedy (s.takeWhile cls).length s (matchHere p start) else none
  | .star cls :: p, start, s => greedy (s.takeWhile cls).length s (matchHere p start)
  | .lazy cls :: p, start, s =>
    (List.range ((s.takeWhile cls).length + 1)).findSome? fun k => matchHere p start (s.drop k)
  | .optional cls :: p, start, s => greedy (s.head?.filter cls).toList.length s (matchHere p start)

/-- The captures of the matches one after another, for a pattern that no empty text matches. -/
def gmatch (p : List Item) (s : List Char) : List (List (List Char)) := go (s.length + 1) s
where
  go : ℕ → List Char → List (List (List Char))
    | 0, _ => []
    | fuel + 1, s =>
      match matchHere p s s with
      | some (captures, rest) => captures :: go fuel rest
      | none =>
        match s with
        | [] => []
        | _ :: s => go fuel s

/-! ### Numbers -/

inductive Number where
  | int (i : Int64)
  | float (x : Extended)
  deriving DecidableEq

/-- Hexadecimal integers wrap around, decimal ones must fit. -/
def str2int (s : List Char) : Option Int64 :=
  let (negative, s) := sign (s.dropWhile isSpace)
  let numeral (base : ℕ) (digit : Char → Bool) (s : List Char) : Option ℕ :=
    let ds := s.takeWhile digit
    if ds ≠ [] ∧ (s.dropWhile digit).all isSpace then some (digits base ds) else none
  let signed (a : ℕ) : ℤ := if negative then -a else a
  match s with
  | '0' :: 'x' :: hex | '0' :: 'X' :: hex => (numeral 16 isHexDigit hex).map fun a => Int64.ofInt (signed a)
  | s => (numeral 10 Char.isDigit s).bind fun a =>
    if -2 ^ 63 ≤ signed a ∧ signed a < 2 ^ 63 then some (Int64.ofInt (signed a)) else none

/-- A literal to the end of the text, with or without an exponent behind `mark`. -/
def literal (digit : Char → Bool) (base : ℕ) (mark : Char) (expBase perDigit : ℕ) (s : List Char) : Option ℚ :=
  (significand digit s).bind fun r =>
    let (ds, behind, rest) := r
    let value (e : ℤ) : ℚ := scale (digits base ds) expBase (e - (perDigit * behind : ℕ))
    match rest with
    | [] => some (value 0)
    | c :: more =>
      match signedInt more with
      | some (e, []) => if c.toLower = mark then some (value e) else none
      | _ => none

/-- `strtod` on the whole text, with blanks around it; `inf` and `nan` are not accepted. -/
def str2d (s : List Char) : Option Extended :=
  let (negative, s) := sign ((s.dropWhile isSpace).rdropWhile isSpace)
  let magnitude :=
    match s with
    | '0' :: 'x' :: hex | '0' :: 'X' :: hex => literal isHexDigit 16 'p' 2 4 hex
    | s => literal Char.isDigit 10 'e' 10 1 s
  magnitude.map fun q => binary64 (if negative then -q else q)

def tonumber : Option (List Char) → Option Number
  | none => none
  | some s =>
    match str2int s with
    | some i => some (.int i)
    | none => (str2d s).map .float

def Number.value : Number → Extended
  | .int i => .fin i.toInt
  | .float x => x

/-- `math.min` -/
def mathMin (a b : Number) : Number := if b.value < a.value then b else a

/-- `math.max` -/
def mathMax (a b : Number) : Number := if a.value < b.value then b else a

/-- The rounds of `for i = 1, limit`. -/
def Number.rounds : Number → ℕ
  | .int i => i.toInt.toNat
  | .float (.fin q) => min ⌊q⌋.toNat (2 ^ 63 - 1)
  | .float .posInf => 2 ^ 63 - 1
  | .float _ => 0

/-- `%d` of `string.format`, for the argument with this number. -/
def formatInt (arg : ℕ) (n : Number) : Except String String :=
  let unfit := .error ("bad argument #" ++ toString arg ++ " to 'format' (number has no integer representation)")
  match n with
  | .int i => .ok (toString i.toInt)
  | .float (.fin q) => if q.den = 1 ∧ -2 ^ 63 ≤ q.num ∧ q.num < 2 ^ 63 then .ok (toString q.num) else unfit
  | .float _ => unfit

example : tonumber (some " 0x1.8p1\t".toList) = some (.float (.fin 3)) := by decide +kernel

end PolyglotInfinity.StreamLua
