import PolyglotInfinity.Lib.Json

/-!
# Characters of ill-formed text

Bytes are read as UTF-8 and units as UTF-16. What is no character on its own
becomes a replacement, a byte or a unit at a time.
-/

namespace Runes

def invalid : Char := Char.ofNat 0xFFFD

/-- The characters of `bytes`, from the first byte that no character has taken. -/
def runes : ℕ → List UInt8 → List Char
  | _, [] => []
  | taken + 1, _ :: bytes => runes taken bytes
  | 0, b :: bytes =>
    match (b :: bytes).toByteArray.utf8DecodeChar? 0 with
    | some c => c :: runes (c.utf8Size - 1) bytes
    | none => invalid :: runes 0 bytes

def encode (cs : List Char) : List UInt8 := cs.flatMap String.utf8EncodeChar

def isHigh (u : UInt16) : Bool := 0xD800 ≤ u && u < 0xDC00

def isLow (u : UInt16) : Bool := 0xDC00 ≤ u && u < 0xE000

/-- A unit that is not part of a pair. -/
def single (u : UInt16) : Char := if isHigh u || isLow u then invalid else Char.ofNat u.toNat

def ofUtf16 : Utf16 → List Char
  | [] => []
  | [u] => [single u]
  | u :: v :: rest =>
    if isHigh u && isLow v then
      Char.ofNat (0x10000 + (u.toNat - 0xD800) * 0x400 + (v.toNat - 0xDC00)) :: ofUtf16 rest
    else single u :: ofUtf16 (v :: rest)

example : runes 0 [0x61, 0xED, 0x95, 0x9C, 0xFF, 0xED, 0x95] = ['a', '한', invalid, invalid, invalid] := by
  decide +kernel

theorem runes_skip (front bytes : List UInt8) : runes front.length (front ++ bytes) = runes 0 bytes := by
  induction front with
  | nil => rfl
  | cons b front ih => exact ih

theorem runes_char (c : Char) (bytes : List UInt8) :
    runes 0 (String.utf8EncodeChar c ++ bytes) = c :: runes 0 bytes := by
  have size : (String.utf8EncodeChar c).length = c.utf8Size := String.length_utf8EncodeChar c
  have read := @ByteArray.utf8DecodeChar?_utf8EncodeChar_append bytes.toByteArray c
  rw [← List.toByteArray_append] at read
  cases text : String.utf8EncodeChar c with
  | nil =>
    rw [text, List.length_nil] at size
    exact absurd c.utf8Size_pos (by omega)
  | cons b front =>
    rw [text, List.cons_append] at read
    rw [text, List.length_cons] at size
    have rest : c.utf8Size - 1 = front.length := by omega
    rw [List.cons_append, runes, read]
    simp only [rest, runes_skip]

theorem runes_encode (cs : List Char) : runes 0 (encode cs) = cs := by
  induction cs with
  | nil => rfl
  | cons c cs ih => rw [encode, List.flatMap_cons, runes_char, ← encode, ih]

end Runes
