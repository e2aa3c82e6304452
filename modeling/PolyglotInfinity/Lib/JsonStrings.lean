import PolyglotInfinity.Lib.Json

/-!
# Strings in a JSON text

Bounds on the strings that the machine can have read from a text, the members that
an object does not lose, and where a text can stand that goes on with another member.
-/

namespace Json

open Transition (run)

def Frame.members : Frame → List (Utf16 × Json)
  | .arr _ => []
  | .obj members | .member members _ => members

/-- What has been read of a string that is not at its end. -/
def Mode.text : Mode → Utf16
  | .str text | .esc text | .hex text _ => text
  | _ => []

variable {stack : List Frame} {members : List (Utf16 × Json)} {name text : Utf16} {cs : List Char} {c : Char}
  {p q : Parser}

/-! ### Characters of one unit -/

def Narrow (cs : List Char) : Prop := ∀ c ∈ cs, c.toNat < 0x10000

variable {as bs : List Char}

theorem units_append (as bs : List Char) : units (as ++ bs) = units as ++ units bs := List.flatMap_append

theorem units_narrow (narrow : Narrow cs) : units cs = cs.map fun c => c.toNat.toUInt16 := by
  unfold units
  rw [List.map_eq_flatMap]
  exact List.flatMap_congr fun c member => if_pos (narrow c member)

theorem toNat_unit (narrow : c.toNat < 0x10000) : c.toNat.toUInt16.toNat = c.toNat := by
  simp [Nat.toUInt16, Nat.mod_eq_of_lt narrow]

theorem mem_units (narrow : Narrow cs) (here : c.toNat < 0x10000) (member : c.toNat.toUInt16 ∈ units cs) : c ∈ cs := by
  rw [units_narrow narrow, List.mem_map] at member
  obtain ⟨d, known, same⟩ := member
  have code := congrArg UInt16.toNat same
  rw [toNat_unit (narrow d known), toNat_unit here] at code
  exact Char.toNat_inj.mp code ▸ known

theorem units_inj (left : Narrow as) (right : Narrow bs) (same : units as = units bs) : as = bs := by
  have back {cs : List Char} (narrow : Narrow cs) : (units cs).map (fun u => Char.ofNat u.toNat) = cs := by
    rw [units_narrow narrow, List.map_map]
    conv_rhs => rw [← List.map_id cs]
    exact List.map_congr_left fun c member => by simp [toNat_unit (narrow c member)]
  rw [← back left, same, back right]

/-! ### What a character does -/

theorem utf16_pos (c : Char) : 0 < (utf16 c).length := by
  unfold utf16
  split <;> exact Nat.succ_pos _

def Mode.done : Mode → Bool
  | .finished _ => true
  | _ => false

inductive Fed (c : Char) : Parser → Parser → Prop where
  /-- A string grows by no more units than the character has, and what is open stays so. -/
  | reads {mode mode' : Mode} {stack : List Frame} {add : Utf16} (going : mode.done = false) (goes : mode'.done = false)
      (text : mode'.text = mode.text ++ add) (few : add.length ≤ (utf16 c).length) : Fed c ⟨mode, stack⟩ ⟨mode', stack⟩
  | starts {mode : Mode} {stack : List Frame} {q : Parser} (going : mode.done = false) (h : start stack c = some q) :
      Fed c ⟨mode, stack⟩ q
  | delimits {mode : Mode} {stack : List Frame} {q : Parser} (going : mode.done = false)
      (h : delimiter stack c = some q) : Fed c ⟨mode, stack⟩ q
  | quotes {text : Utf16} {stack : List Frame} {q : Parser} (h : endString text stack = some q) : Fed c ⟨.str text, stack⟩ q
  /-- The first character behind a number or a word. -/
  | ends {mode : Mode} {stack : List Frame} {v : Json} {settled q : Parser} (going : mode.done = false)
      (other : ∀ text, v ≠ .str text) (put : put v stack = some settled) (h : behind settled c = some q) :
      Fed c ⟨mode, stack⟩ q
  | behind {mode : Mode} {stack : List Frame} {q : Parser} (quiet : mode.text = [])
      (h : behind ⟨mode, stack⟩ c = some q) : Fed c ⟨mode, stack⟩ q

theorem word_other {v : Json} (read : word cs = some v) (text : Utf16) : v ≠ .str text := by
  rintro rfl
  unfold word at read
  split_ifs at read <;> simp at read

theorem Fed.stays {mode mode' : Mode} (h : some ⟨mode', stack⟩ = some q) (going : mode.done = false)
    (goes : mode'.done = false) (text : mode'.text = mode.text) : Fed c ⟨mode, stack⟩ q := by
  obtain rfl := Option.some.inj h
  exact .reads going goes (text.trans (List.append_nil _).symm) (Nat.zero_le _)

theorem feed_cases (h : feed p c = some q) : Fed c p q := by
  obtain ⟨mode, stack⟩ := p
  have one := utf16_pos c
  unfold feed at h
  cases mode with
  | value =>
    simp only at h
    split_ifs at h
    · exact .stays h rfl rfl rfl
    · exact .starts rfl h
  | firstValue =>
    simp only at h
    split_ifs at h
    · exact .stays h rfl rfl rfl
    · exact .delimits rfl h
    · exact .starts rfl h
  | key =>
    simp only at h
    split_ifs at h <;> exact .stays h rfl rfl rfl
  | firstKey =>
    simp only at h
    split_ifs at h
    · exact .stays h rfl rfl rfl
    · exact .stays h rfl rfl rfl
    · exact .delimits rfl h
  | colon =>
    simp only at h
    split_ifs at h <;> exact .stays h rfl rfl rfl
  | next | finished v => exact .behind rfl h
  | str text =>
    simp only at h
    split_ifs at h
    · exact .quotes h
    · exact .stays h rfl rfl rfl
    · exact Option.some.inj h ▸ .reads rfl rfl rfl le_rfl
  | esc text =>
    simp only at h
    split_ifs at h
    · exact .stays h rfl rfl rfl
    · obtain ⟨unit, -, rfl⟩ := Option.map_eq_some_iff.mp h
      exact .reads rfl rfl rfl one
  | hex text ds =>
    simp only at h
    split_ifs at h
    · exact Option.some.inj h ▸ .reads rfl rfl rfl one
    · exact .stays h rfl rfl rfl
  | num cs =>
    simp only at h
    split_ifs at h
    · exact .stays h rfl rfl rfl
    · obtain ⟨x, -, h⟩ := Option.bind_eq_some_iff.mp h
      obtain ⟨settled, put, h⟩ := Option.bind_eq_some_iff.mp h
      exact .ends rfl (by simp) put h
  | word cs =>
    simp only at h
    split_ifs at h
    · exact .stays h rfl rfl rfl
    · obtain ⟨v, read, h⟩ := Option.bind_eq_some_iff.mp h
      obtain ⟨settled, put, h⟩ := Option.bind_eq_some_iff.mp h
      exact .ends rfl (word_other read) put h

/-! ### How long a string can get -/

/-- A string that has got at most `n` units, either from nothing or behind `base`. -/
def Grown (base : Utf16) (n : ℕ) (text : Utf16) : Prop :=
  text.length ≤ n ∨ base <+: text ∧ text.length ≤ base.length + n

/-- Every string of a member of an open object has grown so. -/
def Short (base : Utf16) (n : ℕ) (stack : List Frame) : Prop :=
  ∀ frame ∈ stack, ∀ name text, (name, str text) ∈ frame.members → Grown base n text

structure Below (base : Utf16) (n : ℕ) (p : Parser) : Prop where
  stack : Short base n p.stack
  text : Grown base n p.mode.text

variable {base : Utf16} {n k : ℕ} {frame : Frame} {v : Json}

theorem grown_nil : Grown [] n text ↔ text.length ≤ n := by simp [Grown]

theorem Grown.empty : Grown base n [] := .inl (Nat.zero_le n)

theorem Grown.mono (grown : Grown base n text) (more : n ≤ k) : Grown base k text :=
  grown.imp (fun few => few.trans more) fun ⟨starts, few⟩ => ⟨starts, few.trans (Nat.add_le_add_left more _)⟩

theorem Grown.append {add : Utf16} (grown : Grown base n text) (few : add.length ≤ k) :
    Grown base (n + k) (text ++ add) := by
  unfold Grown at grown ⊢
  rw [List.length_append]
  rcases grown with short | ⟨starts, short⟩
  · exact .inl (Nat.add_le_add short few)
  · exact .inr ⟨starts.trans (List.prefix_append _ _), by omega⟩

theorem Short.mono (short : Short base n stack) (more : n ≤ k) : Short base k stack :=
  fun frame member name text value => (short frame member name text value).mono more

theorem short_cons : Short base n (frame :: stack) ↔
    (∀ name text, (name, str text) ∈ frame.members → Grown base n text) ∧ Short base n stack :=
  List.forall_mem_cons

theorem Below.quiet (short : Short base n stack) {mode : Mode} (silent : mode.text = []) :
    Below base n ⟨mode, stack⟩ :=
  ⟨short, by rw [silent]; exact .empty⟩

theorem Below.put (short : Short base n stack) (value : ∀ text, v = .str text → Grown base n text)
    (h : put v stack = some q) : Below base n q := by
  unfold Json.put at h
  split at h <;> simp only [Option.some.injEq, reduceCtorEq] at h
  · subst h
    exact .quiet short rfl
  · subst h
    rw [short_cons] at short
    exact .quiet (short_cons.mpr ⟨by simp [Frame.members], short.2⟩) rfl
  · subst h
    rw [short_cons] at short
    refine .quiet (short_cons.mpr ⟨fun other text member => ?_, short.2⟩) rfl
    rcases List.mem_append.mp member with before | now
    · exact short.1 other text before
    · exact value text (Prod.mk.inj (List.mem_singleton.mp now)).2.symm

theorem Below.endString (short : Short base n stack) (fits : Grown base n text)
    (h : endString text stack = some q) : Below base n q := by
  have value (other : Utf16) (same : str text = .str other) : Grown base n other := by
    cases same
    exact fits
  unfold Json.endString at h
  split at h
  · simp only [Option.some.injEq] at h
    subst h
    have both := short_cons.mp short
    exact ⟨short_cons.mpr both, .empty⟩
  · exact Below.put short value h
  · exact Below.put short value h
  · exact Below.put short value h

theorem Below.start (short : Short base n stack) (h : Json.start stack c = some q) : Below base n q := by
  unfold Json.start at h
  split_ifs at h <;> simp only [Option.some.injEq] at h <;> subst h
  · exact .quiet short rfl
  · exact .quiet (short_cons.mpr ⟨by simp [Frame.members], short⟩) rfl
  · exact .quiet (short_cons.mpr ⟨by simp [Frame.members], short⟩) rfl
  · exact .quiet short rfl
  · exact .quiet short rfl

theorem Below.delimiter (short : Short base n stack) (h : delimiter stack c = some q) : Below base n q := by
  unfold Json.delimiter at h
  split at h
  · split_ifs at h
    · simp only [Option.some.injEq] at h
      subst h
      exact .quiet short rfl
    · exact Below.put (short_cons.mp short).2 (by simp) h
  · split_ifs at h
    · simp only [Option.some.injEq] at h
      subst h
      exact .quiet short rfl
    · exact Below.put (short_cons.mp short).2 (by simp) h
  · contradiction
  · contradiction

theorem Below.behind (below : Below base n p) (h : behind p c = some q) : Below base n q := by
  unfold Json.behind at h
  split at h
  · split_ifs at h
    · exact Option.some.inj h ▸ below
    · exact Below.delimiter below.stack h
  · split_ifs at h
    exact Option.some.inj h ▸ below
  · contradiction

/-- A character adds no more units to a string than it has itself. -/
theorem Below.feed (below : Below base n p) (h : feed p c = some q) : Below base (n + (utf16 c).length) q := by
  have short := below.stack.mono (Nat.le_add_right n (utf16 c).length)
  cases feed_cases h with
  | reads going goes text few => exact ⟨short, text ▸ below.text.append few⟩
  | starts going h => exact Below.start short h
  | delimits going h => exact Below.delimiter short h
  | quotes h => exact Below.endString short (below.text.mono (Nat.le_add_right _ _)) h
  | ends going other put h => exact Below.behind (Below.put short (fun text same => absurd same (other text)) put) h
  | behind quiet h => exact Below.behind (.quiet short quiet) h

theorem Below.run (below : Below base n p) (h : run Json.feed p cs = some q) :
    Below base (n + (units cs).length) q := by
  induction cs generalizing n p with
  | nil =>
    obtain rfl := Option.some.inj h
    exact below
  | cons c cs ih =>
    obtain ⟨x, first, rest⟩ := Transition.run_cons.mp h
    have later := ih (below.feed first) rest
    rwa [Nat.add_assoc, ← List.length_append] at later

/-- Where a character in a text is special, every string that the text leaves behind is shorter than the text. -/
theorem falls_short (special : ¬ cs.all plain) (short : Short base n stack) (grown : Grown base n text)
    (h : run Json.feed ⟨.str text, stack⟩ cs = some q) : ∃ k < n + (units cs).length, Below base k q := by
  induction cs generalizing n text with
  | nil => exact absurd rfl special
  | cons c cs ih =>
    have total : (units (c :: cs)).length = (utf16 c).length + (units cs).length := List.length_append
    have more := utf16_pos c
    obtain ⟨x, first, later⟩ := Transition.run_cons.mp h
    by_cases here : plain c
    · rw [feed_plain here] at first
      obtain rfl := Option.some.inj first
      obtain ⟨k, fewer, below⟩ := ih (by simpa [here] using special) (short.mono (Nat.le_add_right _ _))
        (grown.append le_rfl) later
      exact ⟨k, by omega, below⟩
    · refine ⟨n + (units cs).length, by omega, Below.run ?_ later⟩
      by_cases quote : c = '"'
      · subst quote
        exact Below.endString short grown first
      · by_cases backslash : c = '\\'
        · subst backslash
          obtain rfl := Option.some.inj first
          exact ⟨short, grown⟩
        · have control : c < ' ' := by simpa [plain, quote, backslash] using here
          rw [feed_control control] at first
          contradiction

/-! ### The members of the outermost object -/

def Frame.keys : Frame → List Utf16
  | .arr _ => []
  | .obj members => members.map Prod.fst
  | .member members name => name :: members.map Prod.fst

/-- The names that the outermost of the open objects has. -/
def outermost : List Frame → List Utf16
  | [] => []
  | [frame] => frame.keys
  | _ :: frame :: rest => outermost (frame :: rest)

def Parser.keys (p : Parser) : List Utf16 :=
  match p.mode with
  | .finished (.obj members) => members.map Prod.fst
  | _ => outermost p.stack

variable {key : Utf16}

theorem outermost_open (held : key ∈ outermost stack) : key ∈ outermost (frame :: stack) := by
  cases stack with
  | nil => cases held
  | cons top rest => exact held

theorem outermost_top {other : Frame} (same : ∀ key ∈ frame.keys, key ∈ other.keys)
    (held : key ∈ outermost (frame :: stack)) : key ∈ outermost (other :: stack) := by
  cases stack with
  | nil => exact same key held
  | cons top rest => exact held

theorem keys_put (held : key ∈ outermost stack) (h : put v stack = some q) : key ∈ q.keys := by
  unfold Json.put at h
  split at h <;> simp only [Option.some.injEq, reduceCtorEq] at h
  · cases held
  · rename_i items rest
    subst h
    have same : ∀ key ∈ (Frame.arr items).keys, key ∈ (Frame.arr (items ++ [v])).keys := fun _ none => none
    exact outermost_top same held
  · rename_i members name rest
    subst h
    have same : ∀ key ∈ (Frame.member members name).keys, key ∈ (Frame.obj (members ++ [(name, v)])).keys := by
      simp [Frame.keys, or_comm]
    exact outermost_top same held

theorem keys_endString (held : key ∈ outermost stack) (h : endString text stack = some q) : key ∈ q.keys := by
  unfold Json.endString at h
  split at h
  · rename_i members rest
    obtain rfl := Option.some.inj h
    have more : ∀ key ∈ (Frame.obj members).keys, key ∈ (Frame.member members text).keys :=
      fun _ known => List.mem_cons_of_mem _ known
    exact outermost_top more held
  · exact keys_put held h
  · exact keys_put held h
  · exact keys_put held h

theorem keys_start (held : key ∈ outermost stack) (h : start stack c = some q) : key ∈ q.keys := by
  unfold Json.start at h
  split_ifs at h <;> simp only [Option.some.injEq] at h <;> subst h
  · exact held
  · exact outermost_open held
  · exact outermost_open held
  · exact held
  · exact held

/-- The members of an object that ends are not lost with it. -/
theorem keys_delimiter (held : key ∈ outermost stack) (h : delimiter stack c = some q) : key ∈ q.keys := by
  unfold Json.delimiter at h
  split at h
  · rename_i items rest
    split_ifs at h
    · obtain rfl := Option.some.inj h
      exact held
    · cases rest with
      | nil => cases held
      | cons top rest => exact keys_put (show key ∈ outermost (top :: rest) from held) h
  · rename_i members rest
    split_ifs at h
    · obtain rfl := Option.some.inj h
      exact held
    · cases rest with
      | nil =>
        obtain rfl := Option.some.inj h
        exact held
      | cons top rest => exact keys_put (show key ∈ outermost (top :: rest) from held) h
  · contradiction
  · contradiction

theorem keys_behind (held : key ∈ p.keys) (h : behind p c = some q) : key ∈ q.keys := by
  obtain ⟨mode, stack⟩ := p
  unfold Json.behind at h
  split at h
  · rename_i next
    split_ifs at h
    · exact Option.some.inj h ▸ held
    · obtain rfl : mode = .next := next
      exact keys_delimiter held h
  · split_ifs at h
    exact Option.some.inj h ▸ held
  · contradiction

theorem keys_going {mode : Mode} (going : mode.done = false) : Parser.keys ⟨mode, stack⟩ = outermost stack := by
  cases mode with
  | finished v => cases going
  | _ => rfl

/-- No character takes a member from the outermost object. -/
theorem keys_feed (held : key ∈ p.keys) (h : feed p c = some q) : key ∈ q.keys := by
  cases feed_cases h with
  | reads going goes => exact keys_going goes ▸ keys_going going ▸ held
  | starts going h => exact keys_start (keys_going going ▸ held) h
  | delimits going h => exact keys_delimiter (keys_going going ▸ held) h
  | quotes h => exact keys_endString held h
  | ends going other put h => exact keys_behind (keys_put (keys_going going ▸ held) put) h
  | behind quiet h => exact keys_behind held h

theorem keys_run (held : key ∈ p.keys) (h : run feed p cs = some q) : key ∈ q.keys :=
  @Transition.run_invariant _ _ _ (fun p => key ∈ p.keys) _ _ _ (fun _ _ _ held first => keys_feed held first) held h

/-! ### Where a member can end -/

theorem behind_quote : behind p '"' = none := by
  obtain ⟨mode, stack⟩ := p
  cases mode with
  | next =>
    cases stack with
    | nil => rfl
    | cons frame _ => cases frame <;> rfl
  | _ => rfl

theorem lower_ne {d : Char} (lower : c.isLower) (other : d.isLower = false) : c ≠ d := by
  rintro rfl
  rw [lower] at other
  contradiction

theorem endString_letter (lower : c.isLower) : (endString text stack).bind (feed · c) = none := by
  have blank : white c = false := by
    simp [white, lower_ne (d := ' ') lower rfl, lower_ne (d := '\t') lower rfl, lower_ne (d := '\n') lower rfl,
      lower_ne (d := '\r') lower rfl]
  have comma := lower_ne (d := ',') lower rfl
  unfold endString
  split
  · simp [feed, blank, lower_ne (d := ':') lower rfl]
  · simp [put, feed, behind, blank]
  · simp [put, feed, behind, delimiter, blank, comma, lower_ne (d := ']') lower rfl]
  · simp [put, feed, behind, delimiter, blank, comma, lower_ne (d := '}') lower rfl]

theorem misquoted (lower : c.isLower) (rest : List Char) :
    run feed ⟨.str text, stack⟩ (',' :: '"' :: c :: rest) = none := by
  have quote : feed ⟨.str (text ++ utf16 ','), stack⟩ '"' = endString (text ++ utf16 ',') stack := rfl
  have refused := @endString_letter stack (text ++ utf16 ',') c lower
  rw [run, feed_plain (by decide), Option.bind_some, run, quote]
  cases ended : endString (text ++ utf16 ',') stack with
  | none => rfl
  | some q =>
    rw [ended] at refused
    rw [Option.bind_some] at refused ⊢
    rw [run, refused]
    rfl

/-- A text that goes on with another member stands within the string value of a member. -/
theorem within_member {rest : List Char} (lower : c.isLower) (clean : (c :: cs).all plain)
    (h : run feed p ('"' :: ',' :: '"' :: (c :: cs ++ '"' :: ':' :: rest)) = some q) :
    ∃ text members name stack, p = ⟨.str text, .member members name :: stack⟩ := by
  obtain ⟨mode, stack⟩ := p
  have refused {text : Utf16} (opened : feed ⟨mode, stack⟩ '"' = some ⟨.str text, stack⟩) : False := by
    rw [run, opened, Option.bind_some, List.cons_append, misquoted lower] at h
    contradiction
  have stuck (none : feed ⟨mode, stack⟩ '"' = none) : False := by
    rw [run, none] at h
    contradiction
  cases mode with
  | str text =>
    cases stack with
    | nil => rw [run] at h; contradiction
    | cons frame stack =>
      cases frame with
      | arr items =>
        have quote : feed ⟨.str text, .arr items :: stack⟩ '"' =
            some ⟨.next, .arr (items ++ [.str text]) :: stack⟩ := rfl
        have comma : feed ⟨.next, .arr (items ++ [.str text]) :: stack⟩ ',' =
            some ⟨.value, .arr (items ++ [.str text]) :: stack⟩ := rfl
        have again : feed ⟨.value, .arr (items ++ [.str text]) :: stack⟩ '"' =
            some ⟨.str [], .arr (items ++ [.str text]) :: stack⟩ := rfl
        rw [run, quote, Option.bind_some, run, comma, Option.bind_some, run, again, Option.bind_some,
          Transition.run_concat, run_plain clean] at h
        contradiction
      | obj members => rw [run] at h; contradiction
      | member members name => exact ⟨text, members, name, stack, rfl⟩
  | value | firstValue | key | firstKey => exact (refused rfl).elim
  | esc text => exact (refused rfl).elim
  | colon | finished v | hex text ds => exact (stuck rfl).elim
  | next => exact (stuck (@behind_quote ⟨.next, stack⟩)).elim
  | num digits =>
    apply (stuck _).elim
    simp [feed, numeric, behind_quote]
  | word letters =>
    apply (stuck _).elim
    simp [feed, behind_quote]

end Json
