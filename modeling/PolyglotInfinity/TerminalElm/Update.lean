import PolyglotInfinity.Lib.Extended
import PolyglotInfinity.Lib.Transition

/-!
# The update function of the Elm terminal

The model, the messages and the requests that the messages start. The runtime
delivers the replies to the requests under way in any order, each once.
-/

namespace PolyglotInfinity.TerminalElm

open Transition (run Along Always)

inductive OrderType where
  | market | limit | stop
  deriving DecidableEq, Repr

structure OrderForm where
  symbol : String
  quantity : String
  price : String
  orderType : OrderType
  deriving DecidableEq, Repr

structure RiskSnapshot where
  var95 : Extended
  sharpeRatio : Extended
  maxDrawdown : Extended

structure Greeks where
  iv : Extended
  delta : Extended
  gamma : Extended

inductive RemoteData (ε α : Type) where
  | notAsked
  | loading
  | failure (e : ε)
  | success (a : α)

structure Model where
  form : OrderForm
  risk : RemoteData String RiskSnapshot
  greeks : RemoteData String Greeks
  submission : RemoteData String String
  /-- Milliseconds since the epoch. -/
  tick : Option ℤ

inductive HttpError where
  | badUrl (url : String)
  | timeout
  | networkError
  | badStatus (code : ℤ)
  | badBody (body : String)

def httpErrorToString : HttpError → String
  | .badUrl url => "bad url: " ++ url
  | .timeout => "request timed out"
  | .networkError => "network error"
  | .badStatus code => "status " ++ toString code
  | .badBody body => "decode error: " ++ body

inductive Msg where
  | symbolChanged (sym : String)
  | quantityChanged (qty : String)
  | priceChanged (prc : String)
  | orderTypeSelected (ot : OrderType)
  | submitOrder
  | gotRisk (result : Except HttpError RiskSnapshot)
  | gotGreeks (result : Except HttpError Greeks)
  | gotSubmitResponse (result : Except HttpError String)
  | tick (posix : ℤ)

inductive Request where
  | risk (url : String)
  /-- Issued for a symbol, which the reply does not name. -/
  | greeks (symbol url : String)
  | order (url : String) (body : List (String × String))
  deriving DecidableEq

def fetchRisk : Request := .risk "http://localhost:8081/api/risk"

def fetchGreeks (symbol : String) : Request :=
  .greeks symbol ("http://localhost:9001/api/fsharp/iv" ++ "?symbol=" ++ symbol ++
    "&strike=150&expiry=0.25&rate=0.05&underlying=148.5")

def orderTypeToString : OrderType → String
  | .market => "MARKET"
  | .limit => "LIMIT"
  | .stop => "STOP"

def encodeOrderForm (form : OrderForm) : List (String × String) := [
  ("symbol", form.symbol),
  ("quantity", form.quantity),
  ("price", form.price),
  ("order_type", orderTypeToString form.orderType)]

def submitOrder (form : OrderForm) : Request := .order "http://localhost:8080/api/orders" (encodeOrderForm form)

def defaultForm : OrderForm := { symbol := "AAPL", quantity := "100", price := "150.00", orderType := .limit }

def init : Model × List Request :=
  ({ form := defaultForm, risk := .loading, greeks := .loading, submission := .notAsked, tick := none },
    [fetchRisk, fetchGreeks defaultForm.symbol])

def update (msg : Msg) (model : Model) : Model × List Request :=
  match msg with
  | .symbolChanged sym =>
    ({ model with form := { model.form with symbol := sym }, greeks := .loading }, [fetchGreeks sym])
  | .quantityChanged qty => ({ model with form := { model.form with quantity := qty } }, [])
  | .priceChanged prc => ({ model with form := { model.form with price := prc } }, [])
  | .orderTypeSelected ot => ({ model with form := { model.form with orderType := ot } }, [])
  | .submitOrder => ({ model with submission := .loading }, [submitOrder model.form])
  | .gotRisk (.ok snapshot) => ({ model with risk := .success snapshot }, [])
  | .gotRisk (.error err) => ({ model with risk := .failure (httpErrorToString err) }, [])
  | .gotGreeks (.ok data) => ({ model with greeks := .success data }, [])
  | .gotGreeks (.error err) => ({ model with greeks := .failure (httpErrorToString err) }, [])
  | .gotSubmitResponse (.ok status) => ({ model with submission := .success status }, [])
  | .gotSubmitResponse (.error err) => ({ model with submission := .failure (httpErrorToString err) }, [])
  | .tick posix => ({ model with tick := some posix }, [])

/-- The messages that the view and the clock send. -/
def Msg.local : Msg → Bool
  | .gotRisk _ | .gotGreeks _ | .gotSubmitResponse _ => false
  | _ => true

/-- The message that a request's `expect` makes of its reply. -/
def Request.expects : Request → Msg → Bool
  | .risk _, .gotRisk _ | .greeks _ _, .gotGreeks _ | .order _ _, .gotSubmitResponse _ => true
  | _, _ => false

structure Terminal where
  model : Model
  inFlight : List Request
  /-- The symbol of the last reply to `fetchGreeks`. Ghost. -/
  answered : Option String := none

inductive Event where
  | local (msg : Msg)
  | reply (request : Request) (msg : Msg)

def Terminal.start : Terminal := { model := init.1, inFlight := init.2 }

def Terminal.receive (t : Terminal) (msg : Msg) : Terminal :=
  { t with model := (update msg t.model).1, inFlight := t.inFlight ++ (update msg t.model).2 }

def Terminal.step (t : Terminal) : Event → Option Terminal
  | .local msg => if msg.local then some (t.receive msg) else none
  | .reply request msg =>
    if request ∈ t.inFlight ∧ request.expects msg then
      let t := { t with inFlight := t.inFlight.erase request }
      match request with
      | .greeks symbol _ => some { t.receive msg with answered := some symbol }
      | _ => some (t.receive msg)
    else none

/-- The Greeks on show come from a request for the symbol in the form. -/
def Current (t : Terminal) : Prop :=
  ∀ g, t.model.greeks = .success g → t.answered = some t.model.form.symbol

/-- A reply with Greeks comes while the form has the symbol of its request. -/
def Timely (t : Terminal) : Event → Prop
  | .reply (.greeks symbol _) (.gotGreeks (.ok _)) => symbol = t.model.form.symbol
  | _ => True

variable {t t' : Terminal} {msg : Msg} {request : Request}

theorem update_greeks (model : Model) (quiet : ∀ result, msg ≠ .gotGreeks result) :
    (update msg model).1.greeks = .loading ∨
      (update msg model).1.greeks = model.greeks ∧ (update msg model).1.form.symbol = model.form.symbol := by
  unfold update
  split <;> simp_all

theorem receive_current (current : Current t) (quiet : ∀ result, msg ≠ .gotGreeks result) :
    Current (t.receive msg) := by
  intro g shown
  rcases update_greeks t.model quiet with loading | ⟨greeks, symbol⟩
  · have none_shown : (t.receive msg).model.greeks = .loading := loading
    rw [none_shown] at shown
    cases shown
  · have same : (t.receive msg).model.form.symbol = t.model.form.symbol := symbol
    rw [same]
    exact current g (greeks.symm.trans shown)

theorem step_current {e : Event} (current : Current t) (h : t.step e = some t') : Current t' ↔ Timely t e := by
  cases e with
  | «local» msg =>
    obtain ⟨own, rfl⟩ := Option.ite_some_none_eq_some.mp h
    refine iff_of_true (receive_current current ?_) trivial
    rintro result rfl
    cases own
  | reply request msg =>
    obtain ⟨⟨-, expected⟩, h⟩ := Option.ite_none_right_eq_some.mp h
    cases request with
    | greeks symbol url =>
      obtain rfl := Option.some.inj h
      cases msg with
      | gotGreeks result =>
        cases result with
        | ok g =>
          show (∀ shown, _ → some symbol = some t.model.form.symbol) ↔ symbol = t.model.form.symbol
          rw [Option.some.injEq]
          exact ⟨fun law => law g rfl, fun same _ _ => same⟩
        | error err =>
          refine iff_of_true ?_ trivial
          intro g shown
          cases shown
      | _ => cases expected
    | risk _ | order _ _ =>
      obtain rfl := Option.some.inj h
      refine iff_of_true (receive_current current ?_) trivial
      rintro result rfl
      cases expected

/-- In every state of a run the Greeks on show are those of the form's symbol,
exactly if each reply with Greeks comes while its symbol is in the form. -/
theorem greeks_current_iff (events : List Event) :
    Always Terminal.step Current Terminal.start events ↔ Along Terminal.step Timely Terminal.start events := by
  apply Transition.always_iff_along (fun _ _ _ _ _ _ => trivial)
    (fun _ _ _ _ current h => step_current current h) trivial
  intro g shown
  cases shown

/-- The reply for the first symbol comes after the form has another one. -/
def overtaken (g : Greeks) : List Event :=
  [.local (.symbolChanged "MSFT"), .reply (fetchGreeks "AAPL") (.gotGreeks (.ok g))]

theorem stale_greeks_shown : ¬ ∀ events, Always Terminal.step Current Terminal.start events := by
  intro law
  have last := Transition.always_last (law (overtaken ⟨0, 0, 0⟩)) rfl
  have answered : some "AAPL" = some "MSFT" := last ⟨0, 0, 0⟩ rfl
  revert answered
  decide

end PolyglotInfinity.TerminalElm
