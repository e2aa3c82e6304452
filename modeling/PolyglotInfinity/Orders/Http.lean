import PolyglotInfinity.Lib.ParseDouble
import PolyglotInfinity.Lib.Query
import PolyglotInfinity.Orders.Store

/-!
# Requests and replies of the order server

What the POST and PUT handlers read from a request before they touch the
database, with their error replies, and the texts they answer with.
-/

namespace PolyglotInfinity.Orders

structure Reply where
  code : ℕ
  body : String
  deriving DecidableEq, Repr

/-- `query` is the decoded query, empty when there is none. -/
structure Request where
  query : String
  correlationId : String
  deriving DecidableEq, Repr

def parseQuery (qs : String) : List (String × String) := Query.pairs (fun _ => true) qs

def Request.param (req : Request) (key : String) : Option String := Query.get (parseQuery req.query) key

/-- The characters whose upper case is in ASCII; the callers compare the result
with ASCII words only. -/
def upperChar : Char → List Char
  | 'ı' => ['I']
  | 'ſ' => ['S']
  | 'ß' => ['S', 'S']
  | 'ﬀ' => ['F', 'F']
  | 'ﬁ' => ['F', 'I']
  | 'ﬂ' => ['F', 'L']
  | 'ﬃ' => ['F', 'F', 'I']
  | 'ﬄ' => ['F', 'F', 'L']
  | 'ﬅ' | 'ﬆ' => ['S', 'T']
  | c => [c.toUpper]

def toUpperCase (text : String) : String := String.ofList (text.toList.flatMap upperChar)

def errorBody (message : String) : String := "\x7b\"error\":\"" ++ message ++ "\"\x7d"

def errorBodyFor (message id : String) : String :=
  "\x7b\"error\":\"" ++ message ++ "\",\"id\":\"" ++ id ++ "\"\x7d"

structure NewOrder where
  id : String
  type : String
  fromAccount : String
  toAccount : String
  amount : Extended
  correlationId : String
  deriving DecidableEq, Repr

def parsePost (req : Request) : Except Reply NewOrder :=
  let id := (req.param "id").getD ""
  let type := toUpperCase ((req.param "type").getD "BUY")
  if id = "" then .error ⟨400, errorBody "id parameter required"⟩
  else if type ≠ "BUY" ∧ type ≠ "SELL" then .error ⟨400, errorBody "type must be BUY or SELL"⟩
  else match ParseDouble.parseDouble ((req.param "amount").getD "100.0") with
    | none => .error ⟨400, errorBody "amount must be a positive number"⟩
    | some amount =>
      if amount ≤ 0 then .error ⟨400, errorBody "amount must be a positive number"⟩
      else .ok {
        id, type, amount
        fromAccount := (req.param "from").getD "ACC-001"
        toAccount := (req.param "to").getD "ACC-002"
        correlationId := req.correlationId }

/-- The order id, the event and the event's text as the client wrote it. -/
def parsePut (req : Request) : Except Reply (String × OrderEvent × String) :=
  match req.param "id", req.param "event" with
  | some id, some evt =>
    match OrderEvent.valueOf (toUpperCase evt) with
    | some event => .ok (id, event, evt)
    | none => .error ⟨400, errorBody ("unknown event: " ++ evt)⟩
  | _, _ => .error ⟨400, errorBody "id and event parameters required"⟩

def quote (text : String) : String :=
  "\"" ++ String.ofList (text.toList.flatMap fun c => if c = '\\' ∨ c = '"' then ['\\', c] else [c]) ++ "\""

def Row.toJson (row : Row) : String :=
  "\x7b\"id\":" ++ quote row.id ++ ",\"type\":" ++ quote row.type ++
    ",\"status\":" ++ quote row.status.name ++
    ",\"created_at\":" ++ toString row.createdAt ++ ",\"updated_at\":" ++ toString row.updatedAt ++ "\x7d"

theorem parsePost_ok {req : Request} {o : NewOrder} (h : parsePost req = .ok o) :
    o.id ≠ "" ∧ (o.type = "BUY" ∨ o.type = "SELL") ∧ ¬ o.amount ≤ 0 := by
  unfold parsePost at h
  generalize (req.param "id").getD "" = id, toUpperCase ((req.param "type").getD "BUY") = type,
    ParseDouble.parseDouble ((req.param "amount").getD "100.0") = read at h
  dsimp only at h
  split_ifs at h with unnamed side
  cases read with
  | none => cases h
  | some amount =>
    simp only at h
    split_ifs at h with unpaid
    simp only [Except.ok.injEq] at h
    subst h
    refine ⟨unnamed, ?_, unpaid⟩
    by_contra other
    exact side (not_or.mp other)

theorem parsePost_accounts {req : Request} {o : NewOrder} (h : parsePost req = .ok o) :
    o.fromAccount = (req.param "from").getD "ACC-001" ∧ o.toAccount = (req.param "to").getD "ACC-002" := by
  unfold parsePost at h
  dsimp only at h
  split_ifs at h
  split at h
  · cases h
  · split_ifs at h
    simp only [Except.ok.injEq] at h
    subst h
    exact ⟨rfl, rfl⟩

theorem parsePost_amount {req : Request} {o : NewOrder} (h : parsePost req = .ok o) : IsDouble o.amount := by
  unfold parsePost at h
  dsimp only at h
  split_ifs at h
  split at h
  · cases h
  · rename_i amount read
    split_ifs at h
    simp only [Except.ok.injEq] at h
    subst h
    exact ParseDouble.parseDouble_isDouble read

theorem param_piece {req : Request} {key value : String} (h : req.param key = some value) : '&' ∉ value.toList := by
  have piece := Query.splitOn_pieces (Query.get_piece h)
  simp only [List.mem_append, List.mem_cons, not_or] at piece
  exact piece.2.2

end PolyglotInfinity.Orders
