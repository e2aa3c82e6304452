import Mathlib.Data.Nat.Notation

/-!
# Order status and events

`OrderStatus` and `OrderEvent` of the virtual-thread order server. The
transition graph is acyclic: `rank` falls along every edge.
-/

namespace PolyglotInfinity.Orders

inductive OrderStatus where
  | pending | ordered | paid | processing | shipped | delivered | completed | canceled | refunded
  deriving DecidableEq, Repr

namespace OrderStatus

def canTransitionTo : OrderStatus → OrderStatus → Bool
  | pending, next => next == completed || next == canceled
  | ordered, next => next == paid || next == canceled
  | paid, next => next == processing || next == canceled
  | processing, next => next == shipped
  | shipped, next => next == delivered
  | canceled, next => next == refunded
  | _, _ => false

def name : OrderStatus → String
  | pending => "PENDING"
  | ordered => "ORDERED"
  | paid => "PAID"
  | processing => "PROCESSING"
  | shipped => "SHIPPED"
  | delivered => "DELIVERED"
  | completed => "COMPLETED"
  | canceled => "CANCELED"
  | refunded => "REFUNDED"

/-- The number of transitions that can still follow. -/
def rank : OrderStatus → ℕ
  | ordered => 4
  | paid => 3
  | pending | processing => 2
  | shipped | canceled => 1
  | delivered | completed | refunded => 0

theorem rank_le (s : OrderStatus) : s.rank ≤ 4 := by cases s <;> decide

theorem rank_lt {s t : OrderStatus} (h : s.canTransitionTo t = true) : t.rank < s.rank := by
  cases s <;> cases t <;> first | decide | exact absurd h (by decide)

end OrderStatus

inductive OrderEvent where
  | pay | process | ship | deliver | cancel | refund | complete
  deriving DecidableEq, Repr

namespace OrderEvent

def targetStatus : OrderEvent → OrderStatus
  | pay => .paid
  | process => .processing
  | ship => .shipped
  | deliver => .delivered
  | cancel => .canceled
  | refund => .refunded
  | complete => .completed

/-- `Enum.valueOf`; `none` is the `IllegalArgumentException`. -/
def valueOf : String → Option OrderEvent
  | "PAY" => some pay
  | "PROCESS" => some process
  | "SHIP" => some ship
  | "DELIVER" => some deliver
  | "CANCEL" => some cancel
  | "REFUND" => some refund
  | "COMPLETE" => some complete
  | _ => none

def fulfils : OrderEvent → Bool
  | pay | process | ship | deliver => true
  | _ => false

theorem pending_accepts {e : OrderEvent} :
    OrderStatus.pending.canTransitionTo e.targetStatus = true ↔ e = cancel ∨ e = complete := by
  cases e <;> decide

end OrderEvent

end PolyglotInfinity.Orders
