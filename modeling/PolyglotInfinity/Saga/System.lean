import PolyglotInfinity.Gateway.Breaker
import PolyglotInfinity.Ledger.Server
import PolyglotInfinity.Orders.History

/-!
# The order saga

The order service, the gateway and the ledger with the messages between them.
Messages are bags: they arrive in any order, late or never. A saga's remote call
ends when a reply arrives, or when the coordinator gives up, whatever is still
under way then.
-/

namespace PolyglotInfinity.Saga

open Orders (NewOrder SagaPhase)
open Gateway (CircuitBreaker)

/-- What the coordinator takes from its surroundings: the gateway's address, the
text of a double, and the JDK's treatment of headers and URLs. -/
structure Platform where
  gatewayUrl : String
  doubleText : Extended → String
  header : String → Bool
  /-- The decoded query that a server reads from a request for the URL; `none`
  when the URL is malformed. -/
  query : String → Option String

def Platform.url (p : Platform) (o : NewOrder) : String :=
  p.gatewayUrl ++ "/api/clojure/transfer" ++ "?from=" ++ o.fromAccount ++ "&to=" ++ o.toAccount ++
    "&amount=" ++ p.doubleText o.amount

/-- The query that the ledger will read; `none` when building the request throws. -/
def Platform.request (p : Platform) (o : NewOrder) : Option String :=
  if p.header o.correlationId ∧ p.header o.id then p.query (p.url o) else none

structure Call where
  saga : ℕ
  query : String
  deriving DecidableEq

structure System where
  orders : Orders.State
  ledger : Ledger.Server := .initial
  breaker : CircuitBreaker := {}
  requests : List Call := []
  /-- Held by a proxy handler that waits for the ledger. -/
  proxied : List Call := []
  upstream : List Call := []
  /-- Replies of the ledger, with their status, on the way to the gateway. -/
  answers : List (Call × ℕ) := []
  /-- Replies of the gateway on the way to a saga. -/
  replies : List (ℕ × ℕ) := []
  /-- The log entries committed for each saga's requests. Ghost. -/
  commits : List (ℕ × Ledger.Entry Extended) := []

def System.initial (table : String → Option Orders.Row) : System := { orders := .initial table }

inductive Event where
  /-- A step of the order service other than the end of a remote call. -/
  | orders (e : Orders.Event)
  /-- The HTTP client sends the request, or repeats it on a new connection. -/
  | send (i : ℕ)
  | serve (c : Call) (now : ℤ)
  /-- The proxy's transport repeats the request on a new connection. -/
  | resend (c : Call)
  | execute (c : Call) (now : ℤ)
  | forward (c : Call) (status : ℕ) (now : ℤ)
  | transportError (c : Call) (now : ℤ)
  | receive (i : ℕ) (status : ℕ)
  /-- The remote call throws: a timeout, a broken connection, or no request at all. -/
  | giveUp (i : ℕ)
  | ledger (r : Ledger.Request)
  /-- A request of somebody else through the same breaker. -/
  | breaker (call : Gateway.CbCall)

def System.serve (s : System) (c : Call) (now : ℤ) : System :=
  let (breaker, allowed) := s.breaker.allow now
  let s := { s with breaker, requests := s.requests.erase c }
  if allowed then { s with proxied := c :: s.proxied, upstream := c :: s.upstream }
  else { s with replies := (c.saga, Gateway.fallbackStatus) :: s.replies }

theorem serve_allowed {s : System} {c : Call} {now : ℤ} (allowed : (s.breaker.allow now).2 = true) :
    s.serve c now = { s with
      breaker := (s.breaker.allow now).1, requests := s.requests.erase c
      proxied := c :: s.proxied, upstream := c :: s.upstream } :=
  if_pos allowed

theorem serve_refused {s : System} {c : Call} {now : ℤ} (refused : ¬ (s.breaker.allow now).2 = true) :
    s.serve c now = { s with
      breaker := (s.breaker.allow now).1, requests := s.requests.erase c
      replies := (c.saga, Gateway.fallbackStatus) :: s.replies } :=
  if_neg refused

/-- The entries that handling the request adds to the ledger's log. -/
def System.entries (s : System) (c : Call) (now : ℤ) : List (Ledger.Entry Extended) :=
  let after := (Ledger.handleTransfer s.ledger.ledger c.query now).1
  after.transferLog.drop s.ledger.ledger.transferLog.length

def System.execute (s : System) (c : Call) (now : ℤ) : System :=
  let handled := Ledger.handleTransfer s.ledger.ledger c.query now
  { s with
    ledger := { s.ledger with ledger := handled.1 }
    upstream := s.upstream.erase c
    answers := (c, handled.2.code) :: s.answers
    commits := s.commits ++ (s.entries c now).map fun entry => (c.saga, entry) }

@[simp] theorem execute_orders (s : System) (c : Call) (now : ℤ) : (s.execute c now).orders = s.orders := by
  simp only [System.execute]

@[simp] theorem execute_requests (s : System) (c : Call) (now : ℤ) :
    (s.execute c now).requests = s.requests := by
  simp only [System.execute]

@[simp] theorem execute_proxied (s : System) (c : Call) (now : ℤ) : (s.execute c now).proxied = s.proxied := by
  simp only [System.execute]

@[simp] theorem execute_upstream (s : System) (c : Call) (now : ℤ) :
    (s.execute c now).upstream = s.upstream.erase c := by
  simp only [System.execute]

@[simp] theorem execute_answers (s : System) (c : Call) (now : ℤ) :
    (s.execute c now).answers = (c, 200) :: s.answers := by
  simp only [System.execute, Ledger.handleTransfer_code]

@[simp] theorem execute_replies (s : System) (c : Call) (now : ℤ) : (s.execute c now).replies = s.replies := by
  simp only [System.execute]

@[simp] theorem execute_commits (s : System) (c : Call) (now : ℤ) :
    (s.execute c now).commits = s.commits ++ (s.entries c now).map fun entry => (c.saga, entry) := by
  simp only [System.execute]

/-- The status check of `runSaga`. -/
def success (status : ℕ) : Bool := 200 ≤ status && status < 300

def step (p : Platform) (s : System) : Event → Option System
  | .orders (.resolve _ _) => none
  | .orders e => (Orders.step s.orders e).map fun orders => { s with orders }
  | .send i =>
    match s.orders.sagas i with
    | .running o => (p.request o).map fun query => { s with requests := ⟨i, query⟩ :: s.requests }
    | _ => none
  | .serve c now => if c ∈ s.requests then some (s.serve c now) else none
  | .resend c => if c ∈ s.proxied then some { s with upstream := c :: s.upstream } else none
  | .execute c now => if c ∈ s.upstream then some (s.execute c now) else none
  | .forward c status now =>
    if (c, status) ∈ s.answers ∧ c ∈ s.proxied then
      some { s with
        breaker := s.breaker.modifyResponse status now
        answers := s.answers.erase (c, status)
        proxied := s.proxied.erase c
        replies := (c.saga, status) :: s.replies }
    else none
  | .transportError c now =>
    if c ∈ s.proxied then
      some { s with
        breaker := s.breaker.recordFailure now
        proxied := s.proxied.erase c
        replies := (c.saga, Gateway.fallbackStatus) :: s.replies }
    else none
  | .receive i status =>
    if (i, status) ∈ s.replies then
      (Orders.step s.orders (.resolve i (success status))).map fun orders =>
        { s with orders, replies := s.replies.erase (i, status) }
    else none
  | .giveUp i => (Orders.step s.orders (.resolve i false)).map fun orders => { s with orders }
  | .ledger r => (s.ledger.step r).map fun ledger => { s with ledger }
  | .breaker call => some { s with breaker := s.breaker.call call }

end PolyglotInfinity.Saga
