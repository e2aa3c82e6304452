import Mathlib.Data.Nat.Notation
import Mathlib.Logic.Basic

/-!
# Buffered channels

The operations of one goroutine on a buffered channel of Go, one step each. To
close a closed channel is a panic, and so is to send on one.
-/

structure Channel (α : Type*) where
  capacity : ℕ
  buffer : List α
  closed : Bool
  fits : buffer.length ≤ capacity

namespace Channel

variable {α : Type*}

def make (capacity : ℕ) : Channel α := ⟨capacity, [], false, Nat.zero_le _⟩

inductive Sent (α : Type*) where
  | panicked
  | sent (ch : Channel α)
  | full

def push (ch : Channel α) (x : α) (room : ch.buffer.length < ch.capacity) : Channel α :=
  { ch with buffer := ch.buffer ++ [x], fits := by rwa [List.length_append] }

/-- A send with a default case, which is taken where the buffer is full. -/
def trySend (ch : Channel α) (x : α) : Sent α :=
  if ch.closed then .panicked
  else if room : ch.buffer.length < ch.capacity then .sent (ch.push x room)
  else .full

/-- No channel is left after the panic. -/
def close (ch : Channel α) : Option (Channel α) :=
  if ch.closed then none else some { ch with closed := true }

/-- A receive that does not block. A closed channel is still drained. -/
def receive (ch : Channel α) : Option (α × Channel α) :=
  match full : ch.buffer with
  | [] => none
  | x :: xs =>
    some (x, { ch with buffer := xs, fits := Nat.le_of_succ_le (by simpa [full] using ch.fits) })

variable {ch ch' : Channel α} {x : α}

@[simp] theorem make_closed (capacity : ℕ) : (make capacity : Channel α).closed = false := rfl

theorem close_eq : ch.close = some ch' ↔ ch.closed = false ∧ ch' = { ch with closed := true } := by
  cases shut : ch.closed <;> simp [close, shut, eq_comm]

theorem trySend_open (live : ch.closed = false) :
    (∃ ch', ch.trySend x = .sent ch' ∧ ch'.closed = false) ∨ ch.trySend x = .full := by
  by_cases room : ch.buffer.length < ch.capacity
  · exact .inl ⟨ch.push x room, by simp [trySend, live, room], live⟩
  · exact .inr (by simp [trySend, live, room])

theorem trySend_sent (sent : ch.trySend x = .sent ch') : ch'.buffer = ch.buffer ++ [x] := by
  unfold trySend at sent
  split at sent
  · cases sent
  split at sent
  · cases sent
    rfl
  · cases sent

theorem receive_front (h : ch.receive = some (x, ch')) :
    ch.buffer = x :: ch'.buffer ∧ ch'.capacity = ch.capacity ∧ ch'.closed = ch.closed := by
  unfold receive at h
  split at h
  · cases h
  · rename_i full
    cases h
    exact ⟨full, rfl, rfl⟩

theorem receive_closed (h : ch.receive = some (x, ch')) : ch'.closed = ch.closed := (receive_front h).2.2

end Channel
