import Mathlib.Data.Finset.Basic
import Mathlib.Logic.Function.Basic
import PolyglotInfinity.Lib.Transition

/-!
# The sockets of the Swift server

The accept loop and the threads of the connections, over the process's table of
descriptors. The kernel gives an accepted connection the lowest number that is free.
-/

namespace PolyglotInfinity.ActorSwift

open Transition (run Along)

inductive Holder where
  /-- Opened before the accept loop: the standard streams, the listening socket. -/
  | server
  | connection (c : ℕ)
  deriving DecidableEq, Repr

/-- Where a thread stands in `handleConnection`. -/
inductive Stage where
  | reading
  | answering
  /-- The request was empty, and the deferred `close` is next. -/
  | leaving
  /-- `sendResponse` has closed the descriptor, and the deferred `close` is next. -/
  | responded
  deriving DecidableEq, Repr

/-- Connections are numbered as they are accepted. -/
structure Sockets where
  holder : ℕ → Option Holder
  threads : ℕ → Option (ℕ × Stage) := fun _ => none
  accepted : ℕ := 0

inductive SocketEvent where
  | accept (fd : ℕ)
  /-- `readRequest` returns an empty text. -/
  | readEmpty (c : ℕ)
  | readRequest (c : ℕ)
  | sendResponse (c : ℕ)
  | deferredClose (c : ℕ)

/-- Closing a number that is not open does nothing. -/
def Sockets.close (s : Sockets) (fd : ℕ) : Sockets := { s with holder := Function.update s.holder fd none }

def Sockets.move (s : Sockets) (c : ℕ) (thread : Option (ℕ × Stage)) : Sockets :=
  { s with threads := Function.update s.threads c thread }

def Sockets.accept (s : Sockets) (fd : ℕ) : Sockets where
  holder := Function.update s.holder fd (some (.connection s.accepted))
  threads := Function.update s.threads s.accepted (some (fd, .reading))
  accepted := s.accepted + 1

def Sockets.step (s : Sockets) : SocketEvent → Option Sockets
  | .accept fd =>
    if s.holder fd = none ∧ ∀ lower < fd, s.holder lower ≠ none then some (s.accept fd) else none
  | .readEmpty c =>
    match s.threads c with
    | some (fd, .reading) => some (s.move c (some (fd, .leaving)))
    | _ => none
  | .readRequest c =>
    match s.threads c with
    | some (fd, .reading) => some (s.move c (some (fd, .answering)))
    | _ => none
  | .sendResponse c =>
    match s.threads c with
    | some (fd, .answering) => some ((s.close fd).move c (some (fd, .responded)))
    | _ => none
  | .deferredClose c =>
    match s.threads c with
    | some (fd, .leaving) | some (fd, .responded) => some ((s.close fd).move c none)
    | _ => none

/-- The server when its accept loop begins. -/
def Sockets.listening (opened : Finset ℕ) : Sockets :=
  { holder := fun fd => if fd ∈ opened then some .server else none }

/-- The connection whose thread calls `close` in the step. -/
def SocketEvent.closer : SocketEvent → Option ℕ
  | .sendResponse c | .deferredClose c => some c
  | .accept _ | .readEmpty _ | .readRequest _ => none

/-- No `close` of the step is on a number of another connection. -/
def ClosesOwn (s : Sockets) (e : SocketEvent) : Prop :=
  ∀ c fd stage d, e.closer = some c → s.threads c = some (fd, stage) → s.holder fd = some (.connection d) → d = c

/-- No thread that has responded on the accepted number has its deferred `close` still to come. -/
def Retired (s : Sockets) : SocketEvent → Prop
  | .accept fd => ∀ c < s.accepted, s.threads c ≠ some (fd, .responded)
  | .readEmpty _ | .readRequest _ | .sendResponse _ | .deferredClose _ => True

instance (s : Sockets) : (e : SocketEvent) → Decidable (Retired s e)
  | .accept _ => inferInstanceAs (Decidable (∀ _ < _, _))
  | .readEmpty _ | .readRequest _ | .sendResponse _ | .deferredClose _ => .isTrue trivial

structure Owning (s : Sockets) : Prop where
  numbered : ∀ c thread, s.threads c = some thread → c < s.accepted
  own : ∀ c fd stage, s.threads c = some (fd, stage) → stage ≠ .responded → s.holder fd = some (.connection c)
  given : ∀ c fd d, s.threads c = some (fd, .responded) → s.holder fd ≠ some (.connection d)

variable {s s' : Sockets} {c fd : ℕ}

theorem accept_eq : s.step (.accept fd) = some s' ↔
    s.holder fd = none ∧ (∀ lower < fd, s.holder lower ≠ none) ∧ s' = s.accept fd := by
  simp [Sockets.step, and_assoc, @eq_comm _ _ s']

theorem readEmpty_eq : s.step (.readEmpty c) = some s' ↔
    ∃ fd, s.threads c = some (fd, .reading) ∧ s' = s.move c (some (fd, .leaving)) := by
  rcases thread : s.threads c with - | ⟨fd, - | - | - | -⟩ <;> simp [Sockets.step, thread, @eq_comm _ _ s']

theorem readRequest_eq : s.step (.readRequest c) = some s' ↔
    ∃ fd, s.threads c = some (fd, .reading) ∧ s' = s.move c (some (fd, .answering)) := by
  rcases thread : s.threads c with - | ⟨fd, - | - | - | -⟩ <;> simp [Sockets.step, thread, @eq_comm _ _ s']

theorem sendResponse_eq : s.step (.sendResponse c) = some s' ↔
    ∃ fd, s.threads c = some (fd, .answering) ∧ s' = (s.close fd).move c (some (fd, .responded)) := by
  rcases thread : s.threads c with - | ⟨fd, - | - | - | -⟩ <;> simp [Sockets.step, thread, @eq_comm _ _ s']

theorem deferredClose_eq : s.step (.deferredClose c) = some s' ↔
    ∃ fd stage, s.threads c = some (fd, stage) ∧ (stage = .leaving ∨ stage = .responded) ∧
      s' = (s.close fd).move c none := by
  rcases thread : s.threads c with - | ⟨fd, - | - | - | -⟩ <;> simp [Sockets.step, thread, @eq_comm _ _ s']

theorem Owning.advance {stage stage' : Stage} (owning : Owning s) (here : s.threads c = some (fd, stage))
    (before : stage ≠ .responded) (after : stage' ≠ .responded) : Owning (s.move c (some (fd, stage'))) := by
  have held := owning.own c fd stage here before
  refine ⟨fun d thread there => ?_, fun d fd' stage'' there early => ?_, fun d fd' other there => ?_⟩
  · by_cases same : d = c
    · subst d
      exact owning.numbered c _ here
    · exact owning.numbered d thread (by simpa [Sockets.move, same] using there)
  · by_cases same : d = c
    · subst d
      obtain ⟨rfl, -⟩ : fd = fd' ∧ stage' = stage'' := by simpa [Sockets.move] using there
      exact held
    · exact owning.own d fd' stage'' (by simpa [Sockets.move, same] using there) early
  · by_cases same : d = c
    · subst d
      have wrong : stage' = .responded := by simpa [Sockets.move] using congrArg (Option.map Prod.snd) there
      exact absurd wrong after
    · exact owning.given d fd' other (by simpa [Sockets.move, same] using there)

/-- A thread closes a number that no other connection holds. -/
theorem Owning.close {stage : Stage} {thread : Option (ℕ × Stage)} (owning : Owning s)
    (here : s.threads c = some (fd, stage)) (own : ∀ d, s.holder fd = some (.connection d) → d = c)
    (after : thread = none ∨ thread = some (fd, .responded)) : Owning ((s.close fd).move c thread) := by
  refine ⟨fun d thread' there => ?_, fun d fd' stage' there early => ?_, fun d fd' other there => ?_⟩
  · by_cases same : d = c
    · subst d
      exact owning.numbered c _ here
    · exact owning.numbered d thread' (by simpa [Sockets.move, Sockets.close, same] using there)
  · by_cases same : d = c
    · subst d
      have now : thread = some (fd', stage') := by simpa [Sockets.move] using there
      rcases after with rfl | rfl
      · cases now
      · cases now
        exact absurd rfl early
    · have held := owning.own d fd' stage' (by simpa [Sockets.move, Sockets.close, same] using there) early
      have apart : fd' ≠ fd := by
        rintro rfl
        exact same (own d held)
      simpa [Sockets.move, Sockets.close, apart] using held
  · by_cases closed : fd' = fd
    · subst fd'
      simp [Sockets.move, Sockets.close]
    · by_cases same : d = c
      · subst d
        have now : thread = some (fd', .responded) := by simpa [Sockets.move] using there
        rcases after with rfl | rfl
        · cases now
        · cases now
          exact absurd rfl closed
      · have free := owning.given d fd' other (by simpa [Sockets.move, Sockets.close, same] using there)
        simpa [Sockets.move, Sockets.close, closed] using free

theorem Owning.accept (owning : Owning s) (free : s.holder fd = none) (retired : Retired s (.accept fd)) :
    Owning (s.accept fd) := by
  refine ⟨fun d thread there => ?_, fun d fd' stage there early => ?_, fun d fd' other there => ?_⟩
  · by_cases new : d = s.accepted
    · subst d
      exact Nat.lt_succ_self _
    · exact Nat.lt_succ_of_lt (owning.numbered d thread (by simpa [Sockets.accept, new] using there))
  · by_cases new : d = s.accepted
    · subst d
      obtain ⟨rfl, -⟩ : fd = fd' ∧ .reading = stage := by simpa [Sockets.accept] using there
      simp [Sockets.accept]
    · have held := owning.own d fd' stage (by simpa [Sockets.accept, new] using there) early
      have apart : fd' ≠ fd := by
        rintro rfl
        rw [free] at held
        cases held
      simpa [Sockets.accept, apart] using held
  · by_cases new : d = s.accepted
    · subst d
      simp [Sockets.accept] at there
    · have old : s.threads d = some (fd', .responded) := by simpa [Sockets.accept, new] using there
      have apart : fd' ≠ fd := by
        rintro rfl
        exact retired d (owning.numbered d _ old) old
      simpa [Sockets.accept, apart] using owning.given d fd' other old

/-- Until its deferred `close` is over, a thread's number is its own or no connection's. -/
theorem Owning.holder {stage : Stage} {d : ℕ} (owning : Owning s) (here : s.threads c = some (fd, stage))
    (held : s.holder fd = some (.connection d)) : d = c := by
  by_cases done : stage = .responded
  · subst stage
    exact absurd held (owning.given c fd d here)
  · rw [owning.own c fd stage here done] at held
    simpa using held.symm

theorem step_owning {e : SocketEvent} (owning : Owning s) (retired : Retired s e) (h : s.step e = some s') :
    Owning s' := by
  cases e with
  | accept fd =>
    obtain ⟨free, -, rfl⟩ := accept_eq.mp h
    exact owning.accept free retired
  | readEmpty c =>
    obtain ⟨fd, here, rfl⟩ := readEmpty_eq.mp h
    exact owning.advance here (by decide) (by decide)
  | readRequest c =>
    obtain ⟨fd, here, rfl⟩ := readRequest_eq.mp h
    exact owning.advance here (by decide) (by decide)
  | sendResponse c =>
    obtain ⟨fd, here, rfl⟩ := sendResponse_eq.mp h
    exact owning.close here (fun d => owning.holder here) (.inr rfl)
  | deferredClose c =>
    obtain ⟨fd, stage, here, -, rfl⟩ := deferredClose_eq.mp h
    exact owning.close here (fun d => owning.holder here) (.inl rfl)

theorem listening_owning (opened : Finset ℕ) : Owning (Sockets.listening opened) :=
  ⟨by simp [Sockets.listening], by simp [Sockets.listening], by simp [Sockets.listening]⟩

/-- When no number is given out again before the last `close` on it, no thread
closes another connection. Where one is, the next `close` on it does. -/
theorem closes_own (opened : Finset ℕ) (events : List SocketEvent)
    (retired : Along Sockets.step Retired (Sockets.listening opened) events) :
    Along Sockets.step ClosesOwn (Sockets.listening opened) events ∧
      ∀ s fd s', s.step (.accept fd) = some s' → ¬ Retired s (.accept fd) →
        ∃ c t, s'.step (.deferredClose c) = some t ∧ ¬ ClosesOwn s' (.deferredClose c) := by
  constructor
  · apply Transition.along_along (fun _ _ _ owning ok h => step_owning owning ok h) _ (listening_owning opened) retired
    intro s e owning _ c fd stage d _ here held
    exact owning.holder here held
  · intro s fd s' h given
    obtain ⟨-, -, rfl⟩ := accept_eq.mp h
    unfold Retired at given
    push Not at given
    obtain ⟨c, old, here⟩ := given
    have there : (s.accept fd).threads c = some (fd, .responded) := by
      simpa [Sockets.accept, Nat.ne_of_lt old] using here
    refine ⟨c, _, deferredClose_eq.mpr ⟨fd, .responded, there, .inr rfl, rfl⟩, ?_⟩
    intro own
    have struck := own c fd .responded s.accepted rfl there (by simp [Sockets.accept])
    omega

/-- Two connections, the second on the number of the first. -/
def reused : List SocketEvent := [.accept 4, .readRequest 0, .sendResponse 0, .deferredClose 0, .accept 4, .readEmpty 1,
  .deferredClose 1]

theorem closes_own_reused : Along Sockets.step ClosesOwn (Sockets.listening {0, 1, 2, 3}) reused :=
  (closes_own {0, 1, 2, 3} reused (by decide +kernel)).1

/-- The second connection comes between the two calls of `close`. -/
theorem late_close_strikes : ¬ ∀ opened events, Along Sockets.step ClosesOwn (Sockets.listening opened) events := by
  intro law
  have history : (run Sockets.step (Sockets.listening {0, 1, 2, 3}) [.accept 4, .readRequest 0, .sendResponse 0,
      .accept 4]).map (fun s => (s.threads 0, s.holder 4)) = some (some (4, .responded), some (.connection 1)) := by
    decide +kernel
  obtain ⟨s, reached, shown⟩ := Option.map_eq_some_iff.mp history
  obtain ⟨here, held⟩ := Prod.mk.inj shown
  have taken := deferredClose_eq.mpr ⟨4, .responded, here, .inr rfl, rfl⟩
  have own := Transition.along_at (law {0, 1, 2, 3} (_ ++ [.deferredClose 0])) reached taken
  exact absurd (own 0 4 .responded 1 rfl here held) (by decide)

end PolyglotInfinity.ActorSwift
