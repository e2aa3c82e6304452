import PolyglotInfinity.Lib.Query

/-!
# The rule language of the scorer

`RiskDSL.safe_load` and the request that loads rules. The filter goes by lines, then Ruby
evaluates the whole text. Of a program this is read here: calls of `rule` with a symbol and a
block in braces, up to the first thing that is no such call; the rest is left to Ruby.
-/

namespace PolyglotInfinity.ScorerRuby

/-! ### Characters -/

/-- A blank within a line. -/
def isBlank (c : Char) : Bool := c = ' ' || c = '\t' || c = '\r' || c = Char.ofNat 11 || c = Char.ofNat 12

/-- `\s` -/
def isSpace (c : Char) : Bool := isBlank c || c = '\n'

/-- `\w` -/
def isWord (c : Char) : Bool := c.isAlphanum || c = '_'

/-- The characters at which Ruby takes a script to end. -/
def endOfScript (c : Char) : Bool := c = Char.ofNat 0 || c = Char.ofNat 4 || c = Char.ofNat 26

/-- What `strip` takes away. -/
def isStripped (c : Char) : Bool := isSpace c || c = Char.ofNat 0

def strip (s : List Char) : List Char := (s.dropWhile isStripped).rdropWhile isStripped

/-! ### The filter -/

/-- What follows a literal text. -/
def behind (literal s : List Char) : Option (List Char) :=
  if literal.isPrefixOf s then some (s.drop literal.length) else none

/-- `rule\(:\w+\)\s*\{` within a line: the name, and what follows the brace. -/
def opening (s : List Char) : Option (List Char × List Char) := do
  let s ← behind "rule(:".toList s
  let name := s.takeWhile isWord
  let s ← behind [')'] (s.dropWhile isWord)
  let s ← behind ['{'] (s.dropWhile isBlank)
  if name = [] then none else return (name, s)

/-- `/\Arule\(:\w+\)\s*\{.*\}\s*\z/` -/
def matchesRule (line : List Char) : Bool :=
  match opening line with
  | none => false
  | some (_, rest) =>
    let rest := rest.rdropWhile isSpace
    rest.getLast? = some '}' && !(rest.contains '\n')

def sourceLines (source : List Char) : List (List Char) :=
  ((Query.splitOn '\n' (strip source)).map strip).filter (· ≠ [])

/-! ### Rules -/

/-- The rules, in the order in which their names came up, and when they were loaded. -/
structure RiskDsl (Block : Type) where
  rules : List (String × Block) := []
  loadedAt : List (String × String) := []

/-- `hash[key] = v` -/
def store {α : Type} (key : String) (v : α) : List (String × α) → List (String × α)
  | [] => [(key, v)]
  | (other, w) :: rest => if other = key then (key, v) :: rest else (other, w) :: store key v rest

def RiskDsl.rule {Block : Type} (dsl : RiskDsl Block) (time : String) (name : String) (block : Block) :
    RiskDsl Block where
  rules := store name block dsl.rules
  loadedAt := store name time dsl.loadedAt

def RiskDsl.register {Block : Type} (dsl : RiskDsl Block) (time : String) (rules : List (String × Block)) :
    RiskDsl Block :=
  rules.foldl (fun dsl r => dsl.rule time r.1 r.2) dsl

/-! ### Programs -/

/-- Ruby, as far as it is not defined here. -/
structure Ruby where
  Block : Type
  Code : Type
  /-- The block from behind its opening brace, and what follows its closing one. -/
  block : List Char → Option (Block × List Char)
  /-- A program from something on that is no call of `rule` as above. -/
  code : List Char → Option Code
  /-- What the code leaves of the rules. -/
  execute : Code → RiskDsl Block → RiskDsl Block
  inspect : List Char → String
  syntaxError : List Char → String
  shorter : ∀ {s b r}, block s = some (b, r) → r.length < s.length
  /-- A block that ends on its line is read without what follows. -/
  onLine : ∀ {s b r}, '\n' ∉ s → block s = some (b, r) → ∀ t, block (s ++ t) = some (b, r ++ t)

/-- The first statement behind blanks, separators and comments; there is none behind the end of the script. -/
def skip : Bool → List Char → List Char
  | _, [] => []
  | true, c :: s => skip (c ≠ '\n') s
  | false, c :: s =>
    if endOfScript c then []
    else if c = '#' then skip true s
    else if isSpace c || c = ';' then skip false s
    else c :: s

/-- A statement ends here, in a text whose lines do not begin with a dot. -/
def separated (s : List Char) : Bool :=
  match s.dropWhile isBlank with
  | [] => true
  | c :: _ => c = '\n' || c = ';' || c = '#' || endOfScript c

structure Program (ruby : Ruby) where
  rules : List (String × ruby.Block)
  code : Option ruby.Code

namespace Ruby

variable (ruby : Ruby)

/-- A call of `rule`, and what follows it; a symbol does not begin with a digit. -/
def ruleCall (s : List Char) : Option ((String × ruby.Block) × List Char) := do
  let (name, s) ← opening s
  let (block, s) ← ruby.block s
  if name.head?.any Char.isDigit then none else return ((String.ofList name, block), s)

def statements : ℕ → List Char → Option (Program ruby)
  | 0, _ => none
  | fuel + 1, s =>
    match skip false s with
    | [] => some ⟨[], none⟩
    | c :: s =>
      match ruby.ruleCall (c :: s) with
      | some (r, rest) =>
        if separated rest then (statements fuel rest).map fun p => { p with rules := r :: p.rules }
        else (ruby.code (c :: s)).map fun code => ⟨[], some code⟩
      | none => (ruby.code (c :: s)).map fun code => ⟨[], some code⟩

/-- `none` is a syntax error. -/
def program (s : List Char) : Option (Program ruby) := ruby.statements (s.length + 1) s

def run (time : String) (p : Program ruby) (dsl : RiskDsl ruby.Block) : RiskDsl ruby.Block :=
  let dsl := dsl.register time p.rules
  match p.code with
  | none => dsl
  | some code => ruby.execute code dsl

end Ruby

/-! ### Loading -/

inductive Load (ruby : Ruby) where
  /-- `ArgumentError` -/
  | refused (message : String)
  /-- `SyntaxError` -/
  | unparsed (message : String)
  /-- The rules after the load, and what was executed beside the calls of `rule`. -/
  | loaded (dsl : RiskDsl ruby.Block) (executed : Option ruby.Code)

def safeLoad (ruby : Ruby) (time : String) (dsl : RiskDsl ruby.Block) (source : List Char) : Load ruby :=
  let stripped := strip source
  match (sourceLines source).find? fun line => !matchesRule line with
  | some line => .refused
      ("허용되지 않는 DSL 구문: " ++ ruby.inspect line ++ "\nrule(:name) \x7b 조건 \x7d 형식만 허용됩니다")
  | none =>
    match ruby.program stripped with
    | none => .unparsed (ruby.syntaxError stripped)
    | some p => .loaded (ruby.run time p dsl) p.code

inductive LoadReply where
  | loaded (rulesBefore rulesAfter : ℕ) (engine : String)
  | failed (error : String)

/-- The rules after the request, and its reply. -/
def handleLoadRules (ruby : Ruby) (time : String) (dsl : RiskDsl ruby.Block) (body : List Char) :
    RiskDsl ruby.Block × LoadReply :=
  match safeLoad ruby time dsl (strip body) with
  | .refused message => (dsl, .failed message)
  | .unparsed message => (dsl, .failed message)
  | .loaded after _ => (after, .loaded dsl.rules.length after.rules.length "Ruby 3.0 instance_eval DSL")

end PolyglotInfinity.ScorerRuby
