import PolyglotInfinity.Lib.ParseDouble
import PolyglotInfinity.Lib.Query

/-!
# Queries of URIs

What a server reads as the query of a URI, by RFC 2396 as `java.net.URI` has it:
the fragment starts at the first `#` and the query at the first `?` before it,
both consist of legal characters, and runs of escapes are decoded as UTF-8.
-/

namespace Uri

/-- `head` is the scheme, the authority and the path. -/
structure Parts where
  head : List Char
  query : Option (List Char)
  fragment : Option (List Char)

def split (uri : List Char) : Parts :=
  let (rest, fragment) := Query.splitFirst '#' uri
  let (head, query) := Query.splitFirst '?' rest
  { head, query, fragment }

/-- Beyond ASCII: neither a space nor a control character. -/
def isOther (c : Char) : Bool :=
  0xA0 < c.toNat && !(0x2000 ≤ c.toNat && c.toNat ≤ 0x200A) &&
    c.toNat ∉ [0x1680, 0x2028, 0x2029, 0x202F, 0x205F, 0x3000]

def isUric (c : Char) : Bool :=
  c.isAlphanum || ";/?:@&=+$,[]-_.!~*'()".toList.contains c || isOther c

def legal : List Char → Bool
  | [] => true
  | c :: cs =>
    if c = '%' then
      match cs with
      | a :: b :: rest => ParseDouble.isHexDigit a && ParseDouble.isHexDigit b && legal rest
      | _ => false
    else isUric c && legal cs

/-- `URI.create`; `none` is the syntax error. What is asked of the head is left open. -/
def create (head : List Char → Bool) (uri : List Char) : Option Parts :=
  let parts := split uri
  if head parts.head && parts.query.all legal && parts.fragment.all legal then some parts else none

/-! ### UTF-8 -/

def isContinuation (b : ℕ) : Bool := 0x80 ≤ b && b < 0xC0

/-- How many bytes follow the first byte of a character, and what the second may be. -/
def trailing (b : ℕ) : ℕ × (ℕ → Bool) :=
  if 0xC2 ≤ b && b < 0xE0 then (1, isContinuation)
  else if 0xE0 ≤ b && b < 0xF0 then (2, fun x => isContinuation x && (b ≠ 0xE0 || 0xA0 ≤ x))
  else if 0xF0 ≤ b && b < 0xF5 then
    (3, fun x => isContinuation x && (b ≠ 0xF0 || 0x90 ≤ x) && (b ≠ 0xF4 || x < 0x90))
  else (0, isContinuation)

def takeTrailing : ℕ → (ℕ → Bool) → List ℕ → List ℕ
  | n + 1, ok, b :: bs => if ok b then b :: takeTrailing n isContinuation bs else []
  | _, _, _ => []

def replacement : Char := Char.ofNat 0xFFFD

/-- The character that starts with byte `b`, or its replacement, and how many
bytes after `b` it takes. -/
def character (b : ℕ) (bs : List ℕ) : Char × ℕ :=
  let (n, second) := trailing b
  let rest := takeTrailing n second bs
  let lead := if n = 0 then b else b % 2 ^ (6 - n)
  let code := rest.foldl (fun v x => v * 64 + x % 64) lead
  if rest.length = n ∧ (n = 0 → b < 0x80) ∧ code.isValidChar then (Char.ofNat code, n)
  else (replacement, rest.length)

/-- The bytes from the first that no character has taken. -/
def utf8 : ℕ → List ℕ → List Char
  | _, [] => []
  | taken + 1, _ :: bs => utf8 taken bs
  | 0, b :: bs => (character b bs).1 :: utf8 (character b bs).2 bs

/-! ### Decoding -/

/-- `pending` are the bytes of the escapes just before. -/
def decodeFrom (pending : List ℕ) : List Char → List Char
  | [] => utf8 0 pending
  | c :: cs =>
    if c = '%' then
      match cs with
      | a :: b :: rest => decodeFrom (pending ++ [ParseDouble.digitVal a * 16 + ParseDouble.digitVal b]) rest
      | _ => utf8 0 pending
    else utf8 0 pending ++ c :: decodeFrom [] cs

def decode (cs : List Char) : List Char := decodeFrom [] cs

def Parts.getQuery (parts : Parts) : Option (List Char) := parts.query.map decode

example : decode "a%ED%95%9C%2Bb%FF&%41".toList = "a한+b".toList ++ replacement :: "&A".toList := by decide +kernel

variable {pending : List ℕ} {xs ys : List Char} {c : Char} {cs : List Char}

theorem legal_cons (plain : c ≠ '%') : legal (c :: cs) = (isUric c && legal cs) := by
  rw [legal.eq_def]
  simp [plain]

theorem decodeFrom_cons (plain : c ≠ '%') : decodeFrom pending (c :: cs) = utf8 0 pending ++ c :: decodeFrom [] cs := by
  rw [decodeFrom.eq_def]
  simp [plain]

theorem decodeFrom_plain (plain : '%' ∉ xs) : decodeFrom [] (xs ++ ys) = xs ++ decodeFrom [] ys := by
  induction xs with
  | nil => rfl
  | cons c cs ih =>
    obtain ⟨other, plain⟩ := List.ne_and_not_mem_of_not_mem_cons plain
    rw [List.cons_append, decodeFrom_cons (Ne.symm other), ih plain]
    rfl

theorem decode_plain (plain : '%' ∉ xs) : decode xs = xs := by
  have whole := @decodeFrom_plain xs [] plain
  rwa [List.append_nil, decodeFrom, utf8, List.append_nil] at whole

/-- No escape reaches over a character that is no digit. -/
theorem decodeFrom_append (fine : legal (xs ++ c :: ys) = true) (plain : c ≠ '%')
    (apart : ParseDouble.isHexDigit c = false) :
    decodeFrom pending (xs ++ c :: ys) = decodeFrom pending xs ++ c :: decodeFrom [] ys := by
  induction pending, xs using decodeFrom.induct with
  | case1 pending =>
    rw [List.nil_append, decodeFrom_cons plain]
    rfl
  | case2 pending a b rest ih =>
    simp only [List.cons_append, legal, if_true, Bool.and_eq_true] at fine
    simpa [decodeFrom] using ih fine.2
  | case3 pending cs cut =>
    exfalso
    rcases cs with _ | ⟨a, _ | ⟨b, rest⟩⟩
    · cases ys <;> simp [legal, apart] at fine
    · simp [legal, apart] at fine
    · exact cut a b rest rfl
  | case4 pending d cs other ih =>
    rw [List.cons_append, legal_cons other, Bool.and_eq_true] at fine
    rw [List.cons_append, decodeFrom_cons other, decodeFrom_cons other, ih fine.2]
    simp

/-! ### The query of a URI -/

theorem split_query {head : List Char} (query : List Char) (path : '?' ∉ head) (plain : '#' ∉ head) :
    (split (head ++ '?' :: query)).query = some (Query.splitFirst '#' query).1 := by
  have apart : Query.splitFirst '#' ('?' :: query) =
      ('?' :: (Query.splitFirst '#' query).1, (Query.splitFirst '#' query).2) := by simp [Query.splitFirst]
  rw [split, Query.splitFirst_before plain, apart]
  dsimp only
  rw [Query.splitFirst_append path]

theorem create_some {check : List Char → Bool} {uri : List Char} {parts : Parts}
    (h : create check uri = some parts) : parts = split uri ∧ ∀ query, parts.query = some query → legal query := by
  simp only [create, Option.ite_none_right_eq_some, Bool.and_eq_true, Option.some.injEq] at h
  obtain ⟨⟨⟨-, fine⟩, -⟩, rfl⟩ := h
  exact ⟨rfl, fun query here => by simpa [here] using fine⟩

/-! ### Lengths -/

theorem utf8_length (n : ℕ) (bs : List ℕ) : (utf8 n bs).length ≤ bs.length := by
  induction bs generalizing n with
  | nil => simp [utf8]
  | cons b bs ih =>
    cases n with
    | zero => simpa [utf8] using ih _
    | succ n => exact Nat.le_succ_of_le (ih n)

theorem decodeFrom_length (pending : List ℕ) (cs : List Char) :
    (decodeFrom pending cs).length ≤ pending.length + cs.length := by
  have short := utf8_length 0
  induction pending, cs using decodeFrom.induct with
  | case1 pending => simpa [decodeFrom] using short pending
  | case2 pending a b rest ih =>
    simp only [decodeFrom, if_true, List.length_append, List.length_cons, List.length_nil] at ih ⊢
    omega
  | case3 pending cs cut =>
    have here := short pending
    simp only [decodeFrom, if_true, List.length_cons]
    omega
  | case4 pending c cs plain ih =>
    have here := short pending
    rw [decodeFrom_cons plain, List.length_append, List.length_cons, List.length_cons]
    simp only [List.length_nil] at ih
    omega

theorem decode_length (cs : List Char) : (decode cs).length ≤ cs.length := by
  simpa [decode] using decodeFrom_length [] cs

theorem decodeFrom_shorter (escaped : '%' ∈ cs) :
    (decodeFrom pending cs).length < pending.length + cs.length := by
  have short := utf8_length 0
  induction pending, cs using decodeFrom.induct with
  | case1 pending => simp at escaped
  | case2 pending a b rest ih =>
    have here := decodeFrom_length (pending ++ [ParseDouble.digitVal a * 16 + ParseDouble.digitVal b]) rest
    simp only [decodeFrom, if_true, List.length_append, List.length_cons, List.length_nil] at here ⊢
    omega
  | case3 pending cs cut =>
    have here := short pending
    simp only [decodeFrom, if_true, List.length_cons]
    omega
  | case4 pending c cs plain ih =>
    have here := short pending
    have later := ih ((List.mem_cons.mp escaped).resolve_left (Ne.symm plain))
    rw [decodeFrom_cons plain, List.length_append, List.length_cons, List.length_cons]
    simp only [List.length_nil] at later
    omega

theorem decode_shorter (escaped : '%' ∈ cs) : (decode cs).length < cs.length := by
  simpa [decode] using @decodeFrom_shorter [] cs escaped

end Uri
