import PolyglotInfinity.Lib.JsonText
import PolyglotInfinity.Orders.Http

/-!
# The order server's JSON text

The handlers answer with nested maps and lists, and a serializer of their own
writes them. A reader that lets control characters stand in a string reads each
value back from its text.
-/

namespace PolyglotInfinity.Orders

open Json (Data Parser Reads Style denote)
open Transition (run)

/-- Java's maps, lists, strings, integers, booleans and null. A string is its
UTF-16 units, and a map has its entries in the order of their iteration. -/
abbrev Value := Data Utf16 ℤ

def literal (text : String) : Utf16 := Json.units text.toList

/-- Java's `replace`, for a target of one unit. -/
def replace (target : UInt16) (replacement s : Utf16) : Utf16 :=
  s.flatMap fun u => if u = target then replacement else [u]

def quoteUnit : UInt16 := 34

def backslashUnit : UInt16 := 92

/-- A string between its quotes: first each backslash is doubled, then each quote
gets a backslash. -/
def escaped (s : Utf16) : Utf16 :=
  replace quoteUnit (literal "\\\"") (replace backslashUnit (literal "\\\\") s)

mutual

def toJson : Value → Utf16
  | .map entries => literal "\x7b" ++ entriesJson true entries ++ literal "\x7d"
  | .list items => literal "[" ++ itemsJson 0 items ++ literal "]"
  | .str s => literal "\"" ++ escaped s ++ literal "\""
  | .bool b => literal (toString b)
  | .null => literal "null"
  | .num n => literal (toString n)

def entriesJson (first : Bool) : List (Utf16 × Value) → Utf16
  | [] => []
  | (key, v) :: rest =>
    (if !first then literal "," else []) ++ (literal "\"" ++ key ++ literal "\":" ++ toJson v) ++
      entriesJson false rest

def itemsJson (i : ℕ) : List Value → Utf16
  | [] => []
  | v :: rest => (if i > 0 then literal "," else []) ++ toJson v ++ itemsJson (i + 1) rest

end

/-! ### Keys that need no escape -/

def cleanKey (key : Utf16) : Bool := !key.contains quoteUnit && !key.contains backslashUnit

mutual

def cleanKeys : Value → Bool
  | .map entries => cleanEntries entries
  | .list items => cleanItems items
  | .null | .bool _ | .num _ | .str _ => true

def cleanEntries : List (Utf16 × Value) → Bool
  | [] => true
  | (key, v) :: rest => cleanKey key && cleanKeys v && cleanEntries rest

def cleanItems : List Value → Bool
  | [] => true
  | v :: rest => cleanKeys v && cleanItems rest

end

/-! ### Escapes, one unit at a time -/

def escapedUnit (u : UInt16) : Utf16 :=
  if u = backslashUnit then [backslashUnit, backslashUnit]
  else if u = quoteUnit then [backslashUnit, quoteUnit]
  else [u]

/-- The second replacement leaves the backslashes of the first one alone. -/
theorem escaped_units (s : Utf16) : escaped s = s.flatMap escapedUnit := by
  unfold escaped replace
  rw [List.flatMap_assoc]
  congr 1
  funext u
  by_cases backslash : u = backslashUnit
  · subst backslash
    rfl
  · by_cases quote : u = quoteUnit
    · subst quote
      rfl
    · simp [escapedUnit, backslash, quote]

theorem escaped_clean {key : Utf16} (clean : cleanKey key) : escaped key = key := by
  simp only [cleanKey, Bool.and_eq_true, Bool.not_eq_true', List.contains_eq_mem, decide_eq_false_iff_not] at clean
  rw [escaped_units]
  have each : ∀ u ∈ key, escapedUnit u = [u] := fun u member => by
    have backslash : u ≠ backslashUnit := fun same => clean.2 (same ▸ member)
    have quote : u ≠ quoteUnit := fun same => clean.1 (same ▸ member)
    simp [escapedUnit, backslash, quote]
  rw [List.flatMap_congr each, List.flatMap_singleton']

/-! ### The style -/

def style : Style Utf16 ℤ UInt16 where
  ascii c := c.toNat.toUInt16
  body := escaped
  numeral n := (toString n).toList

theorem literal_ascii {text : String} (ascii : ∀ c ∈ text.toList, c.toNat < 128) :
    literal text = text.toList.map style.ascii := by
  unfold literal Json.units
  rw [List.map_eq_flatMap]
  refine List.flatMap_congr fun c member => ?_
  have small := ascii c member
  rw [Json.utf16, if_pos (by omega)]
  rfl

theorem toString_ascii (n : ℤ) : ∀ c ∈ (toString n).toList, c.toNat < 128 := by
  intro c member
  rw [Json.toString_int] at member
  split at member
  · exact Json.isDigit_ascii (Nat.isDigit_of_mem_toDigits (by decide) (by decide) member)
  · rcases List.mem_cons.mp member with rfl | digit
    · decide
    · exact Json.isDigit_ascii (Nat.isDigit_of_mem_toDigits (by decide) (by decide) digit)

mutual

theorem toJson_write (v : Value) (clean : cleanKeys v) : toJson v = style.write v := by
  match v with
  | .map entries =>
    rw [toJson, entriesJson_write true entries clean, Style.write_map, List.append_assoc]
    rfl
  | .list items =>
    rw [toJson, itemsJson_write 0 items clean, Style.write_list, List.append_assoc]
    rfl
  | .str s =>
    rw [toJson, List.append_assoc]
    rfl
  | .bool true => rfl
  | .bool false => rfl
  | .null => rfl
  | .num n => exact literal_ascii (toString_ascii n)

theorem entriesJson_write (first : Bool) (entries : List (Utf16 × Value)) (clean : cleanEntries entries) :
    entriesJson first entries = style.writeEntries first entries := by
  match entries with
  | [] => rfl
  | (key, v) :: rest =>
    simp only [cleanEntries, Bool.and_eq_true] at clean
    obtain ⟨⟨plain, inner⟩, later⟩ := clean
    rw [entriesJson, toJson_write v inner, entriesJson_write false rest later, Style.writeEntries, Style.quoted,
      show style.body key = key from escaped_clean plain]
    cases first
    · simp [literal, Json.units, style, Json.utf16]
    · simp [literal, Json.units, style, Json.utf16]

theorem itemsJson_write (i : ℕ) (items : List Value) (clean : cleanItems items) :
    itemsJson i items = style.writeItems (i = 0) items := by
  match items with
  | [] => rfl
  | v :: rest =>
    simp only [cleanItems, Bool.and_eq_true] at clean
    rw [itemsJson, toJson_write v clean.1, itemsJson_write (i + 1) rest clean.2, Style.writeItems]
    cases i with
    | zero => simp
    | succ i => simp [literal, Json.units, style, Json.utf16]

end

/-! ### The reader -/

/-- Strict JSON over UTF-16, except that a string may have any unit but a quote
and a backslash. -/
def readUnit (p : Parser) (u : UInt16) : Option Parser :=
  match p.mode with
  | .str text =>
    if u = quoteUnit then Json.endString text p.stack
    else if u = backslashUnit then some ⟨.esc text, p.stack⟩
    else some ⟨.str (text ++ [u]), p.stack⟩
  | _ => if u < 128 then Json.feed p (Char.ofNat u.toNat) else none

def readJson (text : Utf16) : Option Json := (run readUnit ⟨.value, []⟩ text).bind Json.finish

variable {stack : List Json.Frame} {text : Utf16}

theorem readUnit_outside {p : Parser} {c : Char} (ascii : c.toNat < 128) (outside : ∀ text, p.mode ≠ .str text) :
    readUnit p c.toNat.toUInt16 = Json.feed p c := by
  have same : c.toNat.toUInt16.toNat = c.toNat := by simp; omega
  have small : c.toNat.toUInt16 < 128 := by
    rw [UInt16.lt_iff_toNat_lt, same]
    exact ascii
  unfold readUnit
  split
  · rename_i string
    exact absurd string (outside _)
  · rw [if_pos small, same, Char.ofNat_toNat]

theorem read_escapedUnit (u : UInt16) :
    run readUnit ⟨.str text, stack⟩ (escapedUnit u) = some ⟨.str (text ++ [u]), stack⟩ := by
  unfold escapedUnit
  split
  · rename_i backslash
    subst backslash
    rfl
  · rename_i backslash
    split
    · rename_i quote
      subst quote
      rfl
    · rename_i quote
      simp [run, readUnit, backslash, quote]

theorem read_escaped (s : Utf16) :
    run readUnit ⟨.str text, stack⟩ (escaped s) = some ⟨.str (text ++ s), stack⟩ := by
  rw [escaped_units]
  induction s generalizing text with
  | nil => simp
  | cons u s ih =>
    rw [List.flatMap_cons, Transition.run_concat, read_escapedUnit, Option.bind_some, ih]
    simp

theorem style_reads : Reads style id (fun n : ℤ => (n : ℚ)) readUnit where
  step := by
    intro p q c ascii string fed
    by_cases outside : ∀ text, p.mode ≠ .str text
    · exact (readUnit_outside ascii outside).trans fed
    · obtain ⟨text, mode⟩ := not_forall_not.mp outside
      obtain rfl := string text mode
      rw [← fed]
      simp only [readUnit, Json.feed, mode]
      rfl
  body s text stack := read_escaped s
  numeral := Json.numeral_int

/-- Whatever its strings hold, a value is read back from its text, and nothing of
the text is left over. -/
theorem toJson_read {v : Value} (clean : cleanKeys v) :
    readJson (toJson v) = some (denote id (fun n : ℤ => (n : ℚ)) v) := by
  rw [toJson_write v clean]
  exact style_reads.write v

/-- A string that ends in backslashes, and one that looks like the end of its list. -/
theorem toJson_read_orders :
    readJson (toJson (.map [(literal "count", .num 2),
      (literal "orders", .list [.str (literal "a\\\\"), .str (literal "\"]\\"), .bool true, .null])])) =
      some (.obj [(literal "count", .num 2), (literal "orders",
        .arr [.str (literal "a\\\\"), .str (literal "\"]\\"), .bool true, .null])]) :=
  toJson_read (by decide)

theorem toJson_injective {v v' : Value} (clean : cleanKeys v) (clean' : cleanKeys v') (same : toJson v = toJson v') :
    v = v' := by
  rw [toJson_write v clean, toJson_write v' clean'] at same
  exact style_reads.injective Function.injective_id Rat.intCast_injective same

/-! ### Rows -/

def Row.value (row : Row) : Value := .map [
  (literal "id", .str (literal row.id)),
  (literal "type", .str (literal row.type)),
  (literal "status", .str (literal row.status.name)),
  (literal "created_at", .num row.createdAt),
  (literal "updated_at", .num row.updatedAt)]

theorem literal_append (a b : String) : literal (a ++ b) = literal a ++ literal b := by
  simp [literal, Json.units]

theorem utf16_ascii {c : Char} {u : UInt16} (member : u ∈ Json.utf16 c) (ascii : u.toNat < 128) : c.toNat = u.toNat := by
  have bound : c.toNat < 0x110000 := by
    rcases c.valid with low | high
    · exact Nat.lt_trans low (by decide)
    · exact high.2
  unfold Json.utf16 at member
  split at member
  · obtain rfl := List.mem_singleton.mp member
    simp
    omega
  · simp only [List.mem_cons, List.not_mem_nil, or_false] at member
    rcases member with rfl | rfl
    · simp at ascii
      omega
    · simp at ascii
      omega

theorem escaped_char (c : Char) : (if c = '\\' ∨ c = '"' then ['\\', c] else [c]).flatMap Json.utf16 =
    (Json.utf16 c).flatMap escapedUnit := by
  by_cases special : c = '\\' ∨ c = '"'
  · rw [if_pos special]
    rcases special with rfl | rfl <;> rfl
  · rw [if_neg special, List.flatMap_singleton]
    have each : ∀ u ∈ Json.utf16 c, escapedUnit u = [u] := fun u member => by
      have other (d : Char) (ne : c ≠ d) (small : d.toNat < 128) : u ≠ d.toNat.toUInt16 := by
        rintro rfl
        have same : d.toNat.toUInt16.toNat = d.toNat := by simp; omega
        have ascii : d.toNat.toUInt16.toNat < 128 := by omega
        exact ne (Char.toNat_inj.mp ((utf16_ascii member ascii).trans same))
      rw [not_or] at special
      have backslash : u ≠ backslashUnit := other '\\' special.1 (by decide)
      have quote : u ≠ quoteUnit := other '"' special.2 (by decide)
      simp [escapedUnit, backslash, quote]
    rw [List.flatMap_congr each, List.flatMap_singleton']

/-- The characters that `quote` escapes are the units that `escaped` escapes. -/
theorem literal_quote (text : String) :
    literal (quote text) = literal "\"" ++ escaped (literal text) ++ literal "\"" := by
  have body : literal (String.ofList (text.toList.flatMap fun c => if c = '\\' ∨ c = '"' then ['\\', c] else [c])) =
      (literal text).flatMap escapedUnit := by
    simp only [literal, Json.units, String.toList_ofList, List.flatMap_assoc]
    exact List.flatMap_congr fun c _ => escaped_char c
  rw [quote, literal_append, literal_append, escaped_units, body]

theorem Row.toJson_value (row : Row) : literal row.toJson = Orders.toJson row.value := by
  have opening : literal "\x7b\"id\":" = literal "\x7b" ++ (literal "\"" ++ literal "id" ++ literal "\":") := rfl
  have type : literal ",\"type\":" = literal "," ++ (literal "\"" ++ literal "type" ++ literal "\":") := rfl
  have status : literal ",\"status\":" = literal "," ++ (literal "\"" ++ literal "status" ++ literal "\":") := rfl
  have created : literal ",\"created_at\":" =
      literal "," ++ (literal "\"" ++ literal "created_at" ++ literal "\":") := rfl
  have updated : literal ",\"updated_at\":" =
      literal "," ++ (literal "\"" ++ literal "updated_at" ++ literal "\":") := rfl
  delta Row.toJson
  simp only [Row.value, literal_append, literal_quote, Orders.toJson, entriesJson, opening, type, status,
    created, updated, List.append_assoc, List.nil_append, List.append_nil, Bool.not_true, Bool.not_false,
    Bool.false_eq_true, if_true, if_false]

end PolyglotInfinity.Orders
