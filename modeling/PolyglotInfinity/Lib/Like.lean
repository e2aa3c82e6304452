import Mathlib.Data.List.Infix

/-!
# SQL patterns

`LIKE` with its default escape: a per cent sign stands for any text, an
underscore for any one character, a backslash takes the character after it
literally.
-/

namespace Like

inductive Token where
  | literal (c : Char)
  | one
  | many
  deriving DecidableEq

/-- `none` for a pattern that ends in its escape character, an error. -/
def tokens : List Char → Option (List Token)
  | [] => some []
  | ['\\'] => none
  | '\\' :: c :: rest => (tokens rest).map (.literal c :: ·)
  | '%' :: rest => (tokens rest).map (.many :: ·)
  | '_' :: rest => (tokens rest).map (.one :: ·)
  | c :: rest => (tokens rest).map (.literal c :: ·)

def fits : List Token → List Char → Bool
  | [], text => text.isEmpty
  | .literal _ :: _, [] => false
  | .literal c :: rest, d :: text => c == d && fits rest text
  | .one :: _, [] => false
  | .one :: rest, _ :: text => fits rest text
  | .many :: rest, text => text.tails.any fun later => fits rest later

def like (pattern text : List Char) : Bool :=
  match tokens pattern with
  | some ts => fits ts text
  | none => false

def plain (c : Char) : Bool := c != '\\' && c != '%' && c != '_'

theorem tokens_literal {c : Char} (text : plain c) (rest : List Char) :
    tokens (c :: rest) = (tokens rest).map (.literal c :: ·) := by
  simp only [plain, Bool.and_eq_true, bne_iff_ne] at text
  obtain ⟨⟨escape, many⟩, one⟩ := text
  rw [tokens.eq_def]
  split <;> simp_all

theorem tokens_plain {front : List Char} (text : front.all plain) (rest : List Char) :
    tokens (front ++ rest) = (tokens rest).map (front.map Token.literal ++ ·) := by
  induction front with
  | nil => simp
  | cons c front ih =>
    rw [List.all_cons, Bool.and_eq_true] at text
    rw [List.cons_append, tokens_literal text.1, ih text.2]
    cases tokens rest <;> rfl

theorem fits_many (text : List Char) : fits [.many] text = true :=
  List.any_eq_true.mpr ⟨[], (List.mem_tails _ _).mpr text.nil_suffix, rfl⟩

theorem fits_front (front text : List Char) :
    fits (front.map Token.literal ++ [.many]) text = true ↔ front <+: text := by
  induction front generalizing text with
  | nil => exact iff_of_true (fits_many text) text.nil_prefix
  | cons c front ih =>
    cases text with
    | nil => simp [fits]
    | cons d text => simp [fits, ih, List.cons_prefix_cons]

/-- A plain text before a per cent sign matches what starts with it. -/
theorem like_front {front : List Char} (plain : front.all plain) (text : List Char) :
    like (front ++ ['%']) text = true ↔ front <+: text := by
  have read : tokens (front ++ ['%']) = some (front.map Token.literal ++ [.many]) := by
    rw [tokens_plain plain]
    simp [tokens]
  rw [like, read, fits_front]

end Like
