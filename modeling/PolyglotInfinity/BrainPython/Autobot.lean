import Mathlib.Algebra.Order.Field.Rat
import PolyglotInfinity.Lib.Transition

/-!
# The trading bot

The loop of `run_bot`, frame by frame, over any type of floats. How an order fares
at the gateway leaves no trace in the loop.
-/

namespace PolyglotInfinity.BrainPython

/-- What `json.loads` makes of a text. -/
inductive Value (F : Type) where
  | none
  | bool (b : Bool)
  | int (i : ℤ)
  | float (x : F)
  | str (text : String)
  | list (items : List (Value F))
  | dict (items : List (String × Value F))

inductive LoadError where
  | jsonDecodeError
  /-- Any other exception, as for bytes that are no text or digits without end. -/
  | other

inductive FloatError where
  | typeError
  | valueError
  | overflowError

/-- The functions of Python that the loop calls. -/
structure Python (F Raw : Type) where
  loads : Raw → Except LoadError (Value F)
  /-- `none` where the conversion overflows. -/
  ofInt : ℤ → Option F
  /-- `none` where the text is no float. -/
  ofStr : String → Option F
  isFinite : F → Bool
  sum : List F → F

inductive Side where
  | buy
  | sell
  deriving DecidableEq

structure Order (F : Type) where
  side : Side
  price : F

structure Bot (F : Type) where
  prices : List F
  prevAbove : Option Bool
  lastOrderTime : F
  connected : Bool
  /-- In seconds. -/
  backoff : ℕ
  orders : List (Order F)
  /-- The crossovers that the cooldown has suppressed since the last order. Ghost. -/
  suppressed : ℕ

inductive Event (F Raw : Type) where
  | connect
  | refused
  | closed
  | dropped
  | frame (raw : Raw) (now : F)

def smaWindow : ℕ := 10

def reconnectBase : ℕ := 1

def reconnectCap : ℕ := 30

section
variable {F Raw : Type} (py : Python F Raw)

/-- `float(raw_price)`. -/
def Python.toFloat : Value F → Except FloatError F
  | .bool b => (py.ofInt b.toInt).elim (.error .overflowError) .ok
  | .int i => (py.ofInt i).elim (.error .overflowError) .ok
  | .float x => .ok x
  | .str text => (py.ofStr text).elim (.error .valueError) .ok
  | .none | .list _ | .dict _ => .error .typeError

inductive Reading (F : Type) where
  | skip
  | price (x : F)
  | raises

/-- A frame up to its price. What is no dictionary has no `get`. -/
def Python.read (raw : Raw) : Reading F :=
  match py.loads raw with
  | .error .jsonDecodeError => .skip
  | .error .other => .raises
  | .ok (.dict items) =>
    match items.lookup "price" with
    | none | some .none => .skip
    | some rawPrice =>
      match py.toFloat rawPrice with
      | .ok price => .price price
      | .error .overflowError => .raises
      | .error _ => .skip
  | .ok _ => .raises

/-- `append` on a deque with `maxlen`. -/
def append (prices : List F) (price : F) : List F := (prices ++ [price]).drop (prices.length + 1 - smaWindow)

def Bot.lost (s : Bot F) : Bot F := { s with connected := false, backoff := min (s.backoff * 2) reconnectCap }

variable [NatCast F] [Sub F] [Div F] [LT F] [DecidableLT F] [LE F] [DecidableLE F]

def orderCooldown : F := (2 : ℕ)

def Python.computeSma (prices : List F) : Option F :=
  if prices.length < smaWindow then none else some (py.sum prices / (prices.length : F))

def Bot.crossover (s : Bot F) (currentAbove : Bool) (price now : F) : Bot F :=
  if orderCooldown ≤ now - s.lastOrderTime then
    { s with
      orders := s.orders ++ [{ side := if currentAbove then .buy else .sell, price }]
      lastOrderTime := now
      suppressed := 0 }
  else { s with suppressed := s.suppressed + 1 }

def Bot.onPrice (s : Bot F) (price now : F) : Bot F :=
  let s := { s with prices := append s.prices price }
  match py.computeSma s.prices with
  | none => s
  | some sma =>
    let currentAbove := decide (price > sma)
    let s := if s.prevAbove = some !currentAbove then s.crossover currentAbove price now else s
    { s with prevAbove := some currentAbove }

def Bot.step (s : Bot F) : Event F Raw → Option (Bot F)
  | .connect => if s.connected then none else some { s with connected := true, backoff := reconnectBase }
  | .refused => if s.connected then none else some s.lost
  | .closed => if s.connected then some { s with connected := false } else none
  | .dropped => if s.connected then some s.lost else none
  | .frame raw now =>
    if s.connected then
      match py.read raw with
      | .skip => some s
      | .price price => some (s.onPrice py price now)
      | .raises => some s.lost
    else none

def Bot.start : Bot F :=
  { prices := [], prevAbove := none, lastOrderTime := (0 : ℕ), connected := false, backoff := reconnectBase,
    orders := [], suppressed := 0 }

variable {s : Bot F} {price now : F}

theorem step_frame {raw : Raw} (connected : s.connected = true) :
    s.step py (.frame raw now) =
      match py.read raw with
      | .skip => some s
      | .price price => some (s.onPrice py price now)
      | .raises => some s.lost :=
  if_pos connected

theorem onPrice_filling (filling : py.computeSma (append s.prices price) = none) :
    s.onPrice py price now = { s with prices := append s.prices price } := by
  unfold Bot.onPrice
  simp only [filling]

theorem onPrice_full {sma : F} (full : py.computeSma (append s.prices price) = some sma) :
    s.onPrice py price now =
      let s := { s with prices := append s.prices price }
      { (if s.prevAbove = some !decide (price > sma) then s.crossover (decide (price > sma)) price now else s) with
        prevAbove := some (decide (price > sma)) } := by
  unfold Bot.onPrice
  simp only [full]

theorem onPrice_suppressed {sma : F} (full : py.computeSma (append s.prices price) = some sma)
    (crossed : s.prevAbove = some !decide (price > sma)) (hot : ¬ orderCooldown ≤ now - s.lastOrderTime) :
    s.onPrice py price now =
      { s with
        prices := append s.prices price
        prevAbove := some (decide (price > sma))
        suppressed := s.suppressed + 1 } := by
  rw [onPrice_full py full]
  dsimp only
  rw [if_pos crossed, Bot.crossover, if_neg hot]

theorem onPrice_ordered {sma : F} (full : py.computeSma (append s.prices price) = some sma)
    (crossed : s.prevAbove = some !decide (price > sma)) (cool : orderCooldown ≤ now - s.lastOrderTime) :
    s.onPrice py price now =
      { s with
        prices := append s.prices price
        prevAbove := some (decide (price > sma))
        lastOrderTime := now
        orders := s.orders ++ [{ side := if decide (price > sma) then .buy else .sell, price }]
        suppressed := 0 } := by
  rw [onPrice_full py full]
  dsimp only
  rw [if_pos crossed, Bot.crossover, if_pos cool]

end

end PolyglotInfinity.BrainPython
