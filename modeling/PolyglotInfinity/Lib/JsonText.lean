import PolyglotInfinity.Lib.Json

/-!
# Compact JSON text

Data of nested lists and maps is written without blanks, over any alphabet in which the
characters of ASCII stand. A reader that goes by these characters as the machine does, and
that gets every string back from its body, gets all of the data back.
-/

namespace Json

open Transition (run)

/-- Data to be written, with strings and numbers of any kind. -/
inductive Data (σ ν : Type) where
  | null
  | bool (b : Bool)
  | num (x : ν)
  | str (s : σ)
  | list (items : List (Data σ ν))
  | map (entries : List (σ × Data σ ν))

/-- How strings look between their quotes, and numbers. -/
structure Style (σ ν κ : Type) where
  ascii : Char → κ
  body : σ → List κ
  numeral : ν → List Char

variable {σ ν κ : Type}

namespace Style

def quoted (w : Style σ ν κ) (s : σ) : List κ := w.ascii '"' :: (w.body s ++ [w.ascii '"'])

mutual

def write (w : Style σ ν κ) : Data σ ν → List κ
  | .null => "null".toList.map w.ascii
  | .bool true => "true".toList.map w.ascii
  | .bool false => "false".toList.map w.ascii
  | .num x => (w.numeral x).map w.ascii
  | .str s => w.quoted s
  | .list items => w.ascii '[' :: (writeItems w true items ++ [w.ascii ']'])
  | .map entries => w.ascii '{' :: (writeEntries w true entries ++ [w.ascii '}'])

def writeItems (w : Style σ ν κ) (first : Bool) : List (Data σ ν) → List κ
  | [] => []
  | v :: rest => (if first then [] else [w.ascii ',']) ++ (write w v ++ writeItems w false rest)

def writeEntries (w : Style σ ν κ) (first : Bool) : List (σ × Data σ ν) → List κ
  | [] => []
  | (name, v) :: rest =>
    (if first then [] else [w.ascii ',']) ++
      (w.quoted name ++ w.ascii ':' :: (write w v ++ writeEntries w false rest))

end

theorem write_num (w : Style σ ν κ) (x : ν) : w.write (.num x) = (w.numeral x).map w.ascii := rfl

theorem write_list (w : Style σ ν κ) (items : List (Data σ ν)) :
    w.write (.list items) = w.ascii '[' :: (w.writeItems true items ++ [w.ascii ']']) := rfl

theorem write_map (w : Style σ ν κ) (entries : List (σ × Data σ ν)) :
    w.write (.map entries) = w.ascii '{' :: (w.writeEntries true entries ++ [w.ascii '}']) := rfl

end Style

/-! ### What is read back -/

section

variable (units : σ → Utf16) (value : ν → ℚ)

mutual

def denote : Data σ ν → Json
  | .null => .null
  | .bool b => .bool b
  | .num x => .num (value x)
  | .str s => .str (units s)
  | .list items => .arr (denoteItems items)
  | .map entries => .obj (denoteEntries entries)

def denoteItems : List (Data σ ν) → List Json
  | [] => []
  | v :: rest => denote v :: denoteItems rest

def denoteEntries : List (σ × Data σ ν) → List (Utf16 × Json)
  | [] => []
  | (name, v) :: rest => (units name, denote v) :: denoteEntries rest

end

end

section

variable {units : σ → Utf16} {value : ν → ℚ}

mutual

theorem denote_injective (strings : Function.Injective units) (numbers : Function.Injective value) {v v' : Data σ ν}
    (same : denote units value v = denote units value v') : v = v' := by
  match v, v' with
  | .null, .null => rfl
  | .bool b, .bool b' => rw [Json.bool.inj same]
  | .num x, .num x' => rw [numbers (Json.num.inj same)]
  | .str s, .str s' => rw [strings (Json.str.inj same)]
  | .list items, .list items' => rw [denoteItems_injective strings numbers (Json.arr.inj same)]
  | .map entries, .map entries' => rw [denoteEntries_injective strings numbers (Json.obj.inj same)]

theorem denoteItems_injective (strings : Function.Injective units) (numbers : Function.Injective value)
    {items items' : List (Data σ ν)} (same : denoteItems units value items = denoteItems units value items') :
    items = items' := by
  match items, items' with
  | [], [] => rfl
  | v :: items, v' :: items' =>
    have both := List.cons.inj same
    rw [denote_injective strings numbers both.1, denoteItems_injective strings numbers both.2]

theorem denoteEntries_injective (strings : Function.Injective units) (numbers : Function.Injective value)
    {entries entries' : List (σ × Data σ ν)}
    (same : denoteEntries units value entries = denoteEntries units value entries') : entries = entries' := by
  match entries, entries' with
  | [], [] => rfl
  | (name, v) :: entries, (name', v') :: entries' =>
    have both := List.cons.inj same
    have entry := Prod.mk.inj both.1
    rw [strings entry.1, denote_injective strings numbers entry.2, denoteEntries_injective strings numbers both.2]

end

end

mutual

/-- How many arrays and objects are open at the innermost value. -/
def depth : Json → ℕ
  | .arr items => depthItems items + 1
  | .obj members => depthMembers members + 1
  | .null | .bool _ | .num _ | .str _ => 0

def depthItems : List Json → ℕ
  | [] => 0
  | v :: rest => max (depth v) (depthItems rest)

def depthMembers : List (Utf16 × Json) → ℕ
  | [] => 0
  | (_, v) :: rest => max (depth v) (depthMembers rest)

end

/-- The text of a number: a minus sign or a digit, and what else a number may have. -/
structure Numeral (cs : List Char) (q : ℚ) : Prop where
  opens : ∃ c rest, cs = c :: rest ∧ (c = '-' ∨ c.isDigit) ∧ rest.all numeric
  number : number cs = some q

theorem numeral_int (n : ℤ) : Numeral (toString n).toList n := by
  obtain ⟨c, cs, text, opens, digits⟩ := opens_int n
  exact ⟨⟨c, cs, text, opens, numeric_digits digits⟩, number_int n⟩

/-- A reader that goes by the characters of ASCII outside of strings, and gets each
string from its body. -/
structure Reads (w : Style σ ν κ) (units : σ → Utf16) (value : ν → ℚ)
    (read : Parser → κ → Option Parser) : Prop where
  step : ∀ {p q c}, c.toNat < 128 → (∀ text, p.mode = .str text → c = '"') → feed p c = some q →
    read p (w.ascii c) = some q
  body : ∀ s text stack, run read ⟨.str text, stack⟩ (w.body s) = some ⟨.str (text ++ units s), stack⟩
  numeral : ∀ x, Numeral (w.numeral x) (value x)

/-! ### Values whose end is still to be seen -/

def closing (c : Char) : Prop := c = ',' ∨ c = ']' ∨ c = '}'

/-- The value has been read, but for the character that ends a number or a word. -/
inductive Pending (stack : List Frame) : Json → Parser → Prop
  | put {v : Json} {p : Parser} (stored : put v stack = some p) : Pending stack v p
  | num {cs : List Char} {x : ℚ} (value : number cs = some x) : Pending stack (.num x) ⟨.num cs, stack⟩
  | word {cs : List Char} {v : Json} (value : word cs = some v) : Pending stack v ⟨.word cs, stack⟩

variable {stack : List Frame} {v : Json} {p q : Parser} {c : Char} {cs : List Char}

/-- On what closes a value `p` does as `q` does behind it. -/
def Behaves (p q : Parser) : Prop := (∀ text, p.mode ≠ .str text) ∧ ∀ c, closing c → feed p c = behind q c

theorem put_mode (stored : put v stack = some q) : q.mode = .next ∨ q.mode = .finished v := by
  unfold put at stored
  split at stored
  · obtain rfl := Option.some.inj stored
    exact .inr rfl
  · obtain rfl := Option.some.inj stored
    exact .inl rfl
  · obtain rfl := Option.some.inj stored
    exact .inl rfl
  · contradiction

theorem behind_feed (ended : p.mode = .next ∨ p.mode = .finished v) : feed p c = behind p c := by
  unfold feed
  rcases ended with next | finished
  · rw [next]
  · rw [finished]

theorem closing_plain (closes : closing c) : numeric c = false ∧ c.isLower = false := by
  rcases closes with rfl | rfl | rfl <;> decide

theorem Pending.behaves (pending : Pending stack v p) (stored : Json.put v stack = some q) : Behaves p q := by
  cases pending with
  | put same =>
    obtain rfl := Option.some.inj (same.symm.trans stored)
    have ended := put_mode stored
    refine ⟨fun text string => ?_, fun c _ => behind_feed ended⟩
    rcases ended with next | finished
    · exact absurd (string.symm.trans next) (by simp)
    · exact absurd (string.symm.trans finished) (by simp)
  | num value =>
    refine ⟨fun text string => absurd string (by simp), fun c closes => ?_⟩
    simp only [feed, (closing_plain closes).1, Bool.false_eq_true, if_false, value, Option.bind_some, stored]
  | word value =>
    refine ⟨fun text string => absurd string (by simp), fun c closes => ?_⟩
    simp only [feed, (closing_plain closes).2, Bool.false_eq_true, if_false, value, Option.bind_some, stored]

theorem Pending.finish (pending : Pending [] v p) : finish p = some v := by
  cases pending with
  | put stored =>
    obtain rfl := Option.some.inj stored
    rfl
  | num value => simp only [Json.finish, value, Option.map_some]
  | word value => simp only [Json.finish, value]

/-! ### Runs over a text -/

variable {w : Style σ ν κ} {units : σ → Utf16} {value : ν → ℚ} {read : Parser → κ → Option Parser}

theorem feed_start {mode : Mode} (before : mode = .value ∨ mode = .firstValue) (blank : white c = false)
    (bracket : c ≠ ']') : feed ⟨mode, stack⟩ c = start stack c := by
  rcases before with rfl | rfl <;> simp [feed, blank, bracket]

theorem isDigit_ascii (digit : c.isDigit) : c.toNat < 128 := by
  have bounds : 48 ≤ c.toNat ∧ c.toNat ≤ 57 := by
    simpa [Char.isDigit, UInt32.le_iff_toNat_le, ← Char.toNat_val] using digit
  omega

theorem isLower_ascii (lower : c.isLower) : c.toNat < 128 := by
  have high : c.val ≤ 'z'.val := of_decide_eq_true (Bool.and_eq_true_iff.mp lower).2
  exact Nat.lt_of_le_of_lt (UInt32.le_iff_toNat_le.mp high) (by decide)

theorem numeric_ascii (numerals : numeric c) : c.toNat < 128 := by
  simp only [numeric, Bool.or_eq_true, decide_eq_true_eq] at numerals
  rcases numerals with ((((digit | rfl) | rfl) | rfl) | rfl) | rfl
  · exact isDigit_ascii digit
  all_goals decide

namespace Reads

theorem char (reads : Reads w units value read) (ascii : c.toNat < 128) (outside : ∀ text, p.mode ≠ .str text)
    (fed : feed p c = some q) (rest : List κ) : run read p (w.ascii c :: rest) = run read q rest := by
  rw [run, reads.step ascii (fun text string => absurd string (outside text)) fed, Option.bind_some]

/-- Characters that a mode takes one after another. -/
theorem more (reads : Reads w units value read) {taking : List Char → Mode} {takes : Char → Bool}
    (outside : ∀ cs text, taking cs ≠ .str text) (ascii : ∀ c, takes c → c.toNat < 128)
    (fed : ∀ text c, takes c → feed ⟨taking text, stack⟩ c = some ⟨taking (text ++ [c]), stack⟩) {text : List Char}
    (every : cs.all takes) : run read ⟨taking text, stack⟩ (cs.map w.ascii) = some ⟨taking (text ++ cs), stack⟩ := by
  induction cs generalizing text with
  | nil => simp
  | cons c cs ih =>
    rw [List.all_cons, Bool.and_eq_true] at every
    obtain ⟨here, later⟩ := every
    rw [List.map_cons, reads.char (ascii c here) (outside text) (fed text c here), ih later]
    simp

theorem numerals (reads : Reads w units value read) {text : List Char} (digits : cs.all numeric) :
    run read ⟨.num text, stack⟩ (cs.map w.ascii) = some ⟨.num (text ++ cs), stack⟩ :=
  reads.more (by simp) (fun _ => numeric_ascii) (fun text c here => by simp [feed, here]) digits

theorem letters (reads : Reads w units value read) {text : List Char} (lower : cs.all Char.isLower) :
    run read ⟨.word text, stack⟩ (cs.map w.ascii) = some ⟨.word (text ++ cs), stack⟩ :=
  reads.more (by simp) (fun _ => isLower_ascii) (fun text c here => by simp [feed, here]) lower

variable {mode : Mode}

theorem word (reads : Reads w units value read) (before : mode = .value ∨ mode = .firstValue)
    (lower : (c :: cs).all Char.isLower) (starts : start stack c = some ⟨.word [c], stack⟩)
    (blank : white c = false) (bracket : c ≠ ']') :
    run read ⟨mode, stack⟩ ((c :: cs).map w.ascii) = some ⟨.word (c :: cs), stack⟩ := by
  rw [List.all_cons, Bool.and_eq_true] at lower
  have outside : ∀ text, (⟨mode, stack⟩ : Parser).mode ≠ .str text := by
    rcases before with rfl | rfl <;> simp
  rw [List.map_cons, reads.char (isLower_ascii lower.1) outside ((feed_start before blank bracket).trans starts),
    reads.letters lower.2]
  rfl

theorem number (reads : Reads w units value read) (before : mode = .value ∨ mode = .firstValue)
    (opens : c = '-' ∨ c.isDigit) (digits : cs.all numeric) :
    run read ⟨mode, stack⟩ ((c :: cs).map w.ascii) = some ⟨.num (c :: cs), stack⟩ := by
  obtain ⟨blank, bracket, starts⟩ := @number_start stack c opens
  have ascii : c.toNat < 128 := by
    rcases opens with rfl | digit
    · decide
    · exact isDigit_ascii digit
  have outside : ∀ text, (⟨mode, stack⟩ : Parser).mode ≠ .str text := by
    rcases before with rfl | rfl <;> simp
  rw [List.map_cons, reads.char ascii outside ((feed_start before blank bracket).trans starts),
    reads.numerals digits]
  rfl

theorem quoted (reads : Reads w units value read) (s : σ) (outside : ∀ text, p.mode ≠ .str text)
    (opened : feed p '"' = some ⟨.str [], p.stack⟩) (ended : endString (units s) p.stack = some q) (rest : List κ) :
    run read p (w.quoted s ++ rest) = run read q rest := by
  have quote : feed ⟨.str (units s), p.stack⟩ '"' = some q := ended
  have last : run read ⟨.str (units s), p.stack⟩ (w.ascii '"' :: rest) = run read q rest := by
    rw [run, reads.step (by decide) (fun _ _ => rfl) quote, Option.bind_some]
  unfold Style.quoted
  rw [List.cons_append, reads.char (by decide) outside opened, List.append_assoc, Transition.run_concat,
    reads.body s [] p.stack, Option.bind_some, List.nil_append]
  exact last

/-- The name of an entry, up to its colon. -/
theorem name (reads : Reads w units value read) {acc : List (Utf16 × Json)} (s : σ)
    (outside : ∀ text, p.mode ≠ .str text) (opened : feed p '"' = some ⟨.str [], .obj acc :: stack⟩)
    (top : p.stack = .obj acc :: stack) (rest : List κ) :
    run read p (w.quoted s ++ w.ascii ':' :: rest) = run read ⟨.value, .member acc (units s) :: stack⟩ rest := by
  rw [← top] at opened
  have ended : endString (units s) p.stack = some ⟨.colon, .member acc (units s) :: stack⟩ := by rw [top]; rfl
  rw [reads.quoted s outside opened ended]
  have colon : feed ⟨.colon, .member acc (units s) :: stack⟩ ':' = some ⟨.value, .member acc (units s) :: stack⟩ := rfl
  exact reads.char (by decide) (by simp) colon rest

end Reads

/-- A string is a value wherever any value may stand. -/
theorem endString_put {text : Utf16} (stored : put (.str text) stack = some q) : endString text stack = some q := by
  match stack with
  | [] | .arr _ :: _ | .member _ _ :: _ => exact stored
  | .obj _ :: _ => exact absurd stored (by simp [put])

mutual

theorem run_write (reads : Reads w units value read) (v : Data σ ν) {mode : Mode} {stack : List Frame} {q : Parser}
    (before : mode = .value ∨ mode = .firstValue) (stored : put (denote units value v) stack = some q) :
    ∃ p, run read ⟨mode, stack⟩ (w.write v) = some p ∧ Pending stack (denote units value v) p := by
  have outside : ∀ text, (⟨mode, stack⟩ : Parser).mode ≠ .str text := by
    rcases before with rfl | rfl <;> simp
  match v with
  | .null => exact ⟨_, reads.word before rfl rfl rfl (by decide), .word rfl⟩
  | .bool true => exact ⟨_, reads.word before rfl rfl rfl (by decide), .word rfl⟩
  | .bool false => exact ⟨_, reads.word before rfl rfl rfl (by decide), .word rfl⟩
  | .num x =>
    obtain ⟨⟨c, rest, text, opens, digits⟩, number⟩ := reads.numeral x
    rw [Style.write_num, text]
    exact ⟨_, reads.number before opens digits, .num (text ▸ number)⟩
  | .str s =>
    have quote : feed ⟨mode, stack⟩ '"' = some ⟨.str [], stack⟩ := feed_start before rfl (by decide)
    refine ⟨q, ?_, .put stored⟩
    have text := reads.quoted s outside quote (endString_put stored) []
    rwa [List.append_nil] at text
  | .list [] =>
    have opened : feed ⟨mode, stack⟩ '[' = some ⟨.firstValue, .arr [] :: stack⟩ := feed_start before rfl (by decide)
    have closed : feed ⟨.firstValue, .arr [] :: stack⟩ ']' = some q := stored
    refine ⟨q, ?_, .put stored⟩
    rw [Style.write_list, reads.char (by decide) outside opened]
    exact reads.char (by decide) (by simp) closed []
  | .list (item :: items) =>
    have opened : feed ⟨mode, stack⟩ '[' = some ⟨.firstValue, .arr [] :: stack⟩ := feed_start before rfl (by decide)
    have added : put (denote units value item) (.arr [] :: stack) =
        some ⟨.next, .arr [denote units value item] :: stack⟩ := rfl
    obtain ⟨p, first, pending⟩ := run_write reads item (.inr rfl) added
    obtain ⟨p', others, behaves⟩ := run_items reads items (pending.behaves added)
    refine ⟨q, ?_, .put stored⟩
    rw [Style.write_list, reads.char (by decide) outside opened, Style.writeItems, if_pos rfl, List.nil_append,
      List.append_assoc, Transition.run_concat, first, Option.bind_some, Transition.run_concat, others, Option.bind_some]
    have closed : feed p' ']' = some q := (behaves.2 _ (.inr (.inl rfl))).trans stored
    exact reads.char (by decide) behaves.1 closed []
  | .map [] =>
    have opened : feed ⟨mode, stack⟩ '{' = some ⟨.firstKey, .obj [] :: stack⟩ := feed_start before rfl (by decide)
    have closed : feed ⟨.firstKey, .obj [] :: stack⟩ '}' = some q := stored
    refine ⟨q, ?_, .put stored⟩
    rw [Style.write_map, reads.char (by decide) outside opened]
    exact reads.char (by decide) (by simp) closed []
  | .map ((name, item) :: entries) =>
    have opened : feed ⟨mode, stack⟩ '{' = some ⟨.firstKey, .obj [] :: stack⟩ := feed_start before rfl (by decide)
    have added : put (denote units value item) (.member [] (units name) :: stack) =
        some ⟨.next, .obj [(units name, denote units value item)] :: stack⟩ := rfl
    obtain ⟨p, first, pending⟩ := run_write reads item (.inl rfl) added
    obtain ⟨p', others, behaves⟩ := run_entries reads entries (pending.behaves added)
    refine ⟨q, ?_, .put stored⟩
    rw [Style.write_map, reads.char (by decide) outside opened, Style.writeEntries, if_pos rfl, List.nil_append,
      List.append_assoc, List.cons_append, reads.name name (by simp) rfl rfl, List.append_assoc,
      Transition.run_concat, first, Option.bind_some, Transition.run_concat, others, Option.bind_some]
    have closed : feed p' '}' = some q := (behaves.2 _ (.inr (.inr rfl))).trans stored
    exact reads.char (by decide) behaves.1 closed []

theorem run_items (reads : Reads w units value read) (items : List (Data σ ν)) {acc : List Json}
    {stack : List Frame} {p : Parser} (behaves : Behaves p ⟨.next, .arr acc :: stack⟩) :
    ∃ p', run read p (w.writeItems false items) = some p' ∧
      Behaves p' ⟨.next, .arr (acc ++ denoteItems units value items) :: stack⟩ := by
  match items with
  | [] => exact ⟨p, rfl, by rwa [denoteItems, List.append_nil]⟩
  | item :: items =>
    have comma : feed p ',' = some ⟨.value, .arr acc :: stack⟩ := (behaves.2 _ (.inl rfl)).trans rfl
    have added : put (denote units value item) (.arr acc :: stack) =
        some ⟨.next, .arr (acc ++ [denote units value item]) :: stack⟩ := rfl
    obtain ⟨p, first, pending⟩ := run_write reads item (.inl rfl) added
    obtain ⟨p', others, after⟩ := run_items reads items (pending.behaves added)
    refine ⟨p', ?_, by rwa [List.append_assoc] at after⟩
    rw [Style.writeItems, if_neg (by simp), List.singleton_append, reads.char (by decide) behaves.1 comma,
      Transition.run_concat, first, Option.bind_some, others]

theorem run_entries (reads : Reads w units value read) (entries : List (σ × Data σ ν))
    {acc : List (Utf16 × Json)} {stack : List Frame} {p : Parser} (behaves : Behaves p ⟨.next, .obj acc :: stack⟩) :
    ∃ p', run read p (w.writeEntries false entries) = some p' ∧
      Behaves p' ⟨.next, .obj (acc ++ denoteEntries units value entries) :: stack⟩ := by
  match entries with
  | [] => exact ⟨p, rfl, by rwa [denoteEntries, List.append_nil]⟩
  | (name, item) :: entries =>
    have comma : feed p ',' = some ⟨.key, .obj acc :: stack⟩ := (behaves.2 _ (.inl rfl)).trans rfl
    have added : put (denote units value item) (.member acc (units name) :: stack) =
        some ⟨.next, .obj (acc ++ [(units name, denote units value item)]) :: stack⟩ := rfl
    obtain ⟨p, first, pending⟩ := run_write reads item (.inl rfl) added
    obtain ⟨p', others, after⟩ := run_entries reads entries (pending.behaves added)
    refine ⟨p', ?_, by rwa [List.append_assoc] at after⟩
    rw [Style.writeEntries, if_neg (by simp), List.singleton_append, reads.char (by decide) behaves.1 comma,
      reads.name name (by simp) rfl rfl, Transition.run_concat, first, Option.bind_some, others]

end

/-- What is written is read to its end, and is one value. -/
theorem Reads.write (reads : Reads w units value read) (v : Data σ ν) :
    (run read ⟨.value, []⟩ (w.write v)).bind finish = some (denote units value v) := by
  have alone : put (denote units value v) [] = some ⟨.finished (denote units value v), []⟩ := rfl
  obtain ⟨p, text, pending⟩ := run_write reads v (.inl rfl) alone
  rw [text, Option.bind_some, pending.finish]

theorem Reads.injective (reads : Reads w units value read) (strings : Function.Injective units)
    (numbers : Function.Injective value) {v v' : Data σ ν} (same : w.write v = w.write v') :
    v = v' := by
  have back := reads.write v
  rw [same, reads.write v'] at back
  exact denote_injective strings numbers (Option.some.inj back.symm)

/-! ### Characters of a text -/

section

variable {P : κ → Prop}

theorem quoted_all (ascii : ∀ c, ' ' ≤ c → P (w.ascii c)) (body : ∀ s, ∀ x ∈ w.body s, P x) (s : σ) :
    ∀ x ∈ w.quoted s, P x := by
  have quote := ascii '"' (by decide)
  exact List.forall_mem_cons.mpr ⟨quote, List.forall_mem_append.mpr ⟨body s, List.forall_mem_singleton.mpr quote⟩⟩

mutual

/-- What holds of printable characters, of the bodies of strings and of numerals, holds of a text. -/
theorem write_all (ascii : ∀ c, ' ' ≤ c → P (w.ascii c)) (body : ∀ s, ∀ x ∈ w.body s, P x)
    (numeral : ∀ x, ∀ c ∈ w.numeral x, ' ' ≤ c) (v : Data σ ν) : ∀ x ∈ w.write v, P x := by
  have word : ∀ cs : List Char, (∀ c ∈ cs, ' ' ≤ c) → ∀ x ∈ cs.map w.ascii, P x := by
    intro cs printable x member
    obtain ⟨c, c_mem, rfl⟩ := List.mem_map.mp member
    exact ascii c (printable c c_mem)
  match v with
  | .null => exact word "null".toList (by simp)
  | .bool true => exact word "true".toList (by simp)
  | .bool false => exact word "false".toList (by simp)
  | .num n => exact word _ (numeral n)
  | .str s => exact quoted_all ascii body s
  | .list items =>
    rw [Style.write_list]
    refine List.forall_mem_cons.mpr ⟨ascii _ (by decide), List.forall_mem_append.mpr ⟨?_, ?_⟩⟩
    · exact writeItems_all ascii body numeral true items
    · exact List.forall_mem_singleton.mpr (ascii _ (by decide))
  | .map entries =>
    rw [Style.write_map]
    refine List.forall_mem_cons.mpr ⟨ascii _ (by decide), List.forall_mem_append.mpr ⟨?_, ?_⟩⟩
    · exact writeEntries_all ascii body numeral true entries
    · exact List.forall_mem_singleton.mpr (ascii _ (by decide))

theorem writeItems_all (ascii : ∀ c, ' ' ≤ c → P (w.ascii c)) (body : ∀ s, ∀ x ∈ w.body s, P x)
    (numeral : ∀ x, ∀ c ∈ w.numeral x, ' ' ≤ c) (first : Bool) (items : List (Data σ ν)) :
    ∀ x ∈ w.writeItems first items, P x := by
  match items with
  | [] => exact nofun
  | v :: rest =>
    rw [Style.writeItems]
    refine List.forall_mem_append.mpr ⟨?_, List.forall_mem_append.mpr ⟨write_all ascii body numeral v, ?_⟩⟩
    · cases first
      · exact List.forall_mem_singleton.mpr (ascii _ (by decide))
      · exact nofun
    · exact writeItems_all ascii body numeral false rest

theorem writeEntries_all (ascii : ∀ c, ' ' ≤ c → P (w.ascii c)) (body : ∀ s, ∀ x ∈ w.body s, P x)
    (numeral : ∀ x, ∀ c ∈ w.numeral x, ' ' ≤ c) (first : Bool) (entries : List (σ × Data σ ν)) :
    ∀ x ∈ w.writeEntries first entries, P x := by
  match entries with
  | [] => exact nofun
  | (name, v) :: rest =>
    rw [Style.writeEntries]
    refine List.forall_mem_append.mpr ⟨?_, List.forall_mem_append.mpr ⟨quoted_all ascii body name, ?_⟩⟩
    · cases first
      · exact List.forall_mem_singleton.mpr (ascii _ (by decide))
      · exact nofun
    · refine List.forall_mem_cons.mpr ⟨ascii _ (by decide), List.forall_mem_append.mpr ⟨?_, ?_⟩⟩
      · exact write_all ascii body numeral v
      · exact writeEntries_all ascii body numeral false rest

end

end

end Json
