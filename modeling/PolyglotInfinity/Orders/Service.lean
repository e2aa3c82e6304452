import PolyglotInfinity.Orders.Http

/-!
# The order service

POST handlers, PUT handlers and saga coordinators as threads over one orders
table. POST thread `i` may start saga `i`; PUT thread `t` runs transaction `t`.
An event is one step of one thread, and threads interleave freely. How a saga's
remote call ends is an input here.
-/

namespace PolyglotInfinity.Orders

inductive Writer where
  | put (t : ℕ)
  | saga (i : ℕ)
  deriving DecidableEq, Repr

/-- A change of a row's status, as the table shows it. Ghost history. -/
structure Change where
  order : String
  writer : Writer
  prev : OrderStatus
  new : OrderStatus
  deriving DecidableEq, Repr

/-- The arguments of `publishOrderEvent`; `writer` is ghost. -/
structure Message where
  orderId : String
  type : String
  prevStatus : String
  newStatus : String
  event : String
  writer : Option Writer
  deriving DecidableEq, Repr

inductive PostPhase where
  | idle
  /-- The row is committed and the 202 not yet sent. -/
  | inserted (req : Request) (o : NewOrder) (row : Row)
  | answered (req : Request) (o : NewOrder) (reply : Reply)
  | announced (req : Request) (o : NewOrder) (reply : Reply)
  | coordinated (req : Request) (o : NewOrder) (reply : Reply)
  /-- Sending the 202 threw, and the catch-all ended the handler. -/
  | broken (req : Request) (o : NewOrder)
  | rejected (req : Request) (reply : Reply)
  deriving DecidableEq

inductive SagaPhase where
  | absent
  | running (o : NewOrder)
  | resolved (o : NewOrder) (success : Bool)
  | written (o : NewOrder) (success : Bool)
  | published (o : NewOrder) (success : Bool)
  | failed (o : NewOrder) (success : Bool)
  deriving DecidableEq

def SagaPhase.order : SagaPhase → Option NewOrder
  | absent => none
  | running o | resolved o _ | written o _ | published o _ | failed o _ => some o

def SagaPhase.wrote : SagaPhase → Option (NewOrder × Bool)
  | written o success | published o success => some (o, success)
  | _ => none

structure State where
  db : Db
  posts : ℕ → PostPhase := fun _ => .idle
  sagas : ℕ → SagaPhase := fun _ => .absent
  puts : ℕ → Option Request := fun _ => none
  replies : ℕ → Option Reply := fun _ => none
  outbox : List Message := []
  published : List Message := []
  /-- The POST threads whose insert succeeded, with the order's id. Ghost. -/
  inserts : List (ℕ × String) := []
  /-- The sagas started, with the POST thread that started each. Ghost. -/
  started : List (ℕ × NewOrder) := []
  changes : List Change := []

def State.initial (table : String → Option Row) : State := { db := .initial table }

inductive Event where
  | post (i : ℕ) (req : Request) (now : Int)
  /-- The insert throws; `fault` names the exception. -/
  | postFails (i : ℕ) (req : Request) (fault : String)
  | respond (i : ℕ) (sent : Bool)
  | announce (i : ℕ)
  | executeSaga (i : ℕ)
  | resolve (i : ℕ) (success : Bool)
  | write (i : ℕ) (now : Int)
  | writeFails (i : ℕ)
  | publishSaga (i : ℕ) (sent : Bool)
  | put (t : ℕ) (req : Request) (now : Int)
  | select (t : ℕ)
  | update (t : ℕ)
  | commit (t : ℕ)
  | abort (t : ℕ)
  | reply (t : ℕ)
  /-- `applyTransition`, `findOrder` or sending the reply threw. -/
  | replyFails (t : ℕ) (fault : String)
  | publish (m : Message) (sent : Bool)

/-! ### The POST handler -/

def State.setPost (s : State) (i : ℕ) (p : PostPhase) : State :=
  { s with posts := Function.update s.posts i p }

def State.setSaga (s : State) (i : ℕ) (p : SagaPhase) : State :=
  { s with sagas := Function.update s.sagas i p }

def State.post (s : State) (i : ℕ) (req : Request) (now : Int) : Option State :=
  match s.posts i with
  | .idle =>
    match parsePost req with
    | .error reply => some (s.setPost i (.rejected req reply))
    | .ok o =>
      match s.db.insertOrderPending o.id o.type now with
      | none => some (s.setPost i (.rejected req ⟨409, errorBodyFor "order already exists" o.id⟩))
      | some (db, row) =>
        some { s.setPost i (.inserted req o row) with db, inserts := s.inserts ++ [(i, o.id)] }
  | _ => none

def State.postFails (s : State) (i : ℕ) (req : Request) (fault : String) : Option State :=
  match s.posts i, parsePost req with
  | .idle, .ok _ => some (s.setPost i (.rejected req ⟨500, errorBody fault⟩))
  | _, _ => none

def State.respond (s : State) (i : ℕ) (sent : Bool) : Option State :=
  match s.posts i with
  | .inserted req o row => some (s.setPost i (if sent then .answered req o ⟨202, row.toJson⟩ else .broken req o))
  | _ => none

def State.announce (s : State) (i : ℕ) : Option State :=
  match s.posts i with
  | .answered req o reply =>
    some { s.setPost i (.announced req o reply) with
      outbox := s.outbox ++ [⟨o.id, o.type, "", "PENDING", "INSERT", none⟩] }
  | _ => none

def State.executeSaga (s : State) (i : ℕ) : Option State :=
  match s.posts i with
  | .announced req o reply =>
    some { (s.setPost i (.coordinated req o reply)).setSaga i (.running o) with started := s.started ++ [(i, o)] }
  | _ => none

/-! ### The saga coordinator, from the end of its remote call -/

def State.resolve (s : State) (i : ℕ) (success : Bool) : Option State :=
  match s.sagas i with
  | .running o => some (s.setSaga i (.resolved o success))
  | _ => none

def finalStatus (success : Bool) : OrderStatus := if success then .completed else .canceled

def sagaEvent (success : Bool) : String := if success then "SAGA_COMPLETE" else "SAGA_COMPENSATE"

/-- The change that writing `new` over the row makes, if the row is there and differs. -/
def statusChange (db : Db) (id : String) (writer : Writer) (new : OrderStatus) : List Change :=
  match db.table id with
  | none => []
  | some row => if row.status = new then [] else [⟨id, writer, row.status, new⟩]

def State.write (s : State) (i : ℕ) (now : Int) : Option State :=
  match s.sagas i with
  | .resolved o success =>
    match s.db.updateOrderStatus o.id (finalStatus success) now with
    | none => none
    | some db =>
      some { s.setSaga i (.written o success) with
        db, changes := s.changes ++ statusChange s.db o.id (.saga i) (finalStatus success) }
  | _ => none

def State.writeFails (s : State) (i : ℕ) : Option State :=
  match s.sagas i with
  | .resolved o success => some (s.setSaga i (.failed o success))
  | _ => none

def sagaMessage (i : ℕ) (o : NewOrder) (success : Bool) : Message :=
  ⟨o.id, o.type, "PENDING", (finalStatus success).name, sagaEvent success, some (.saga i)⟩

def State.publishSaga (s : State) (i : ℕ) (sent : Bool) : Option State :=
  match s.sagas i with
  | .written o success =>
    some { s.setSaga i (.published o success) with
      published := if sent then s.published ++ [sagaMessage i o success] else s.published }
  | _ => none

/-! ### The PUT handler -/

def State.answer (s : State) (t : ℕ) (reply : Reply) : State :=
  { s with replies := Function.update s.replies t (some reply) }

def State.put (s : State) (t : ℕ) (req : Request) (now : Int) : Option State :=
  match s.puts t with
  | some _ => none
  | none =>
    let s := { s with puts := Function.update s.puts t (some req) }
    match parsePut req with
    | .error reply => some (s.answer t reply)
    | .ok (id, event, _) => (s.db.step (.begin t id ⟨event, now⟩)).map fun db => { s with db }

def State.statement (s : State) (e : DbEvent) : Option State :=
  (s.db.step e).map fun db => { s with db }

def State.commit (s : State) (t : ℕ) : Option State :=
  match s.db.txs t with
  | .updated id _ _ row' =>
    (s.db.step (.commit t)).map fun db =>
      { s with db, changes := s.changes ++ statusChange s.db id (.put t) row'.status }
  | _ => none

/-- What the handler does after `applyTransition`: `findOrder` and the message
on OK, an error reply otherwise. -/
def State.reply (s : State) (t : ℕ) : Option State :=
  match s.replies t, s.puts t with
  | none, some req =>
    match s.db.txs t with
    | .committed id _ row row' =>
      match s.db.table id with
      | none => some (s.answer t ⟨200, "null"⟩)
      | some updated =>
        some { s.answer t ⟨200, updated.toJson⟩ with
          outbox := s.outbox ++
            [⟨id, updated.type, row.status.name, row'.status.name, (req.param "event").getD "",
              some (.put t)⟩] }
    | .notFound id _ => some (s.answer t ⟨404, errorBodyFor "ORDER_NOT_FOUND" id⟩)
    | .refused _ call row =>
      some (s.answer t ⟨400, errorBody
        (TransitionResult.invalidTransition row.status call.event.targetStatus).text⟩)
    | _ => none
  | _, _ => none

def State.replyFails (s : State) (t : ℕ) (fault : String) : Option State :=
  match s.replies t, s.db.txs t with
  | none, .committed _ _ _ _ | none, .notFound _ _ | none, .refused _ _ _ | none, .aborted _ _ =>
    some (s.answer t ⟨500, errorBody fault⟩)
  | _, _ => none

/-- A publishing thread runs; without Redis the message is lost. -/
def State.publish (s : State) (m : Message) (sent : Bool) : Option State :=
  if m ∈ s.outbox then
    some { s with
      outbox := s.outbox.erase m
      published := if sent then s.published ++ [m] else s.published }
  else none

def step (s : State) : Event → Option State
  | .post i req now => s.post i req now
  | .postFails i req fault => s.postFails i req fault
  | .respond i sent => s.respond i sent
  | .announce i => s.announce i
  | .executeSaga i => s.executeSaga i
  | .resolve i success => s.resolve i success
  | .write i now => s.write i now
  | .writeFails i => s.writeFails i
  | .publishSaga i sent => s.publishSaga i sent
  | .put t req now => s.put t req now
  | .select t => s.statement (.select t)
  | .update t => s.statement (.update t)
  | .commit t => s.commit t
  | .abort t => s.statement (.abort t)
  | .reply t => s.reply t
  | .replyFails t fault => s.replyFails t fault
  | .publish m sent => s.publish m sent

end PolyglotInfinity.Orders
