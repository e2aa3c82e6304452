import PolyglotInfinity.Gateway.Atomic

/-!
# Overlapping calls of one breaker

Two rules that hold while calls are left alone, the single probe of a HalfOpen
breaker and the agreement of its state with its counter, and the steps of
overlapping calls that break them.
-/

namespace PolyglotInfinity.Gateway

open Transition (run Along Always)

/-! ### The probe -/

/-- Whether the breaker goes from Open to HalfOpen. -/
def Shared.switches (s : Shared) : Access → Bool
  | .lock _ now => s.cb.state = .open && s.cb.resetAfter < now - s.cb.lastFailure
  | _ => false

/-- Whether a call of `RecordSuccess` or `RecordFailure` ends. -/
def Shared.records (s : Shared) : Access → Bool
  | .storeClosed _ | .storeOpen _ => true
  | .setLastFailure t _ =>
    match s.calls t with
    | .counted f => f < s.cb.threshold
    | _ => false
  | _ => false

/-- `probes` counts the calls of `Allow` that have returned true since the
breaker went from Open to HalfOpen, while no outcome has been recorded since. -/
structure Watched where
  shared : Shared := {}
  probes : Option ℕ := none

def Watched.step (w : Watched) (e : Access) : Option Watched :=
  (w.shared.step e).map fun shared => {
    shared
    probes :=
      if w.shared.records e then none
      else if w.shared.switches e then some 1
      else if w.shared.returned e = some true then w.probes.map (· + 1)
      else w.probes }

def LoneProbe (w : Watched) : Prop := ∀ n, w.probes = some n → n ≤ 1

/-- While the probe is out, no call of `Allow` loads the state, and none that
loaded Open before takes the lock after the reset time. -/
def NoSecond (w : Watched) : Access → Prop
  | .load _ => w.probes = none
  | .lock _ now => w.probes ≠ none → now - w.shared.cb.lastFailure ≤ w.shared.cb.resetAfter
  | _ => True

/-- While the probe is out, the breaker is HalfOpen. -/
def Probing (w : Watched) : Prop := ∀ n, w.probes = some n → 1 ≤ n ∧ w.shared.cb.state = .halfOpen

theorem Probing.out {w : Watched} (probing : Probing w) (shown : w.shared.cb.state ≠ .halfOpen) :
    w.probes = none := by
  cases probes : w.probes with
  | none => rfl
  | some n => exact absurd (probing n probes).2 shown

theorem lone_succ {w : Watched} (probing : Probing w) :
    (∀ n, w.probes.map (· + 1) = some n → n ≤ 1) ↔ w.probes = none := by
  cases probes : w.probes with
  | none => simp
  | some n =>
    have started := (probing n probes).1
    simp only [Option.map_some, Option.some.injEq, forall_eq', reduceCtorEq, iff_false]
    omega

theorem step_probing {w w' : Watched} {e : Access} (probing : Probing w) (lone : LoneProbe w)
    (h : w.step e = some w') : Probing w' ∧ (LoneProbe w' ↔ NoSecond w e) := by
  obtain ⟨shared, taken, rfl⟩ := Option.map_eq_some_iff.mp h
  -- The probe that is out stays out, or an outcome has been recorded.
  have unchanged : shared.cb.state = w.shared.cb.state →
      Probing { shared, probes := w.probes } ∧ (LoneProbe { shared, probes := w.probes } ↔ True) :=
    fun same => ⟨fun n out => same ▸ probing n out, iff_of_true lone trivial⟩
  have recorded : Probing { shared, probes := none } ∧ (LoneProbe { shared, probes := none } ↔ True) :=
    ⟨by simp [Probing], by simp [LoneProbe]⟩
  cases e with
  | load t =>
    obtain ⟨-, ⟨shown, rfl⟩ | ⟨shown, rfl⟩⟩ := load_eq.mp taken
    · have out := probing.out (by simp [shown])
      simp [Probing, LoneProbe, NoSecond, Shared.records, Shared.switches, Shared.returned, shown, out]
    · simp only [Shared.records, Shared.switches, Shared.returned, shown, NoSecond, if_false]
      refine ⟨fun n next => ?_, lone_succ probing⟩
      obtain ⟨m, out, rfl⟩ := Option.map_eq_some_iff.mp next
      exact ⟨Nat.le_add_left 1 m, (probing m out).2⟩
  | lock t now =>
    obtain ⟨-, ⟨late, rfl⟩ | ⟨early, rfl⟩⟩ := lock_eq.mp taken
    · by_cases shown : w.shared.cb.state = .open
      · have out := probing.out (by simp [shown])
        simp [Probing, LoneProbe, NoSecond, Shared.records, Shared.switches, shown, late, out]
      · have second : (∀ n, w.probes.map (· + 1) = some n → n ≤ 1) ↔ NoSecond w (.lock t now) := by
          rw [lone_succ probing, NoSecond]
          exact ⟨fun out probe => absurd out probe, fun law => by_contra fun out => by have := law out; omega⟩
        simp only [Shared.records, Shared.switches, Shared.returned, shown, late, decide_true,
          decide_false, Bool.and_true, Bool.false_eq_true, if_true, if_false]
        refine ⟨fun n next => ?_, second⟩
        obtain ⟨m, -, rfl⟩ := Option.map_eq_some_iff.mp next
        exact ⟨Nat.le_add_left 1 m, rfl⟩
    · have late : now - w.shared.cb.lastFailure ≤ w.shared.cb.resetAfter := by omega
      simpa [Shared.records, Shared.switches, Shared.returned, NoSecond, early, late] using unchanged rfl
  | resetFailures t =>
    obtain ⟨-, rfl⟩ := resetFailures_eq.mp taken
    exact unchanged rfl
  | addSuccess t =>
    obtain ⟨-, rfl⟩ := addSuccess_eq.mp taken
    exact unchanged rfl
  | storeClosed t => exact recorded
  | addFailure t =>
    obtain ⟨-, rfl⟩ := addFailure_eq.mp taken
    exact unchanged rfl
  | setLastFailure t now =>
    obtain ⟨f, call, ⟨reached, rfl⟩ | ⟨short, rfl⟩⟩ := setLastFailure_eq.mp taken
    · simpa [Shared.records, Shared.switches, Shared.returned, NoSecond, call, Int32.not_lt.mpr reached] using
        unchanged rfl
    · simpa [Shared.records, NoSecond, call, short] using recorded
  | storeOpen t => exact recorded

/-- A breaker that has gone from Open to HalfOpen lets one call of `Allow`
return true before an outcome, exactly if no second call loads the state or
takes the lock after the reset time while the probe is out. -/
theorem single_probe (cb : CircuitBreaker) (events : List Access) :
    Always Watched.step LoneProbe { shared := { cb } } events ↔
      Along Watched.step NoSecond { shared := { cb } } events := by
  have start : Probing { shared := { cb } } := by simp [Probing]
  exact Transition.always_iff_along (fun _ _ _ probing lone h => (step_probing probing lone h).1)
    (fun _ _ _ probing lone h => (step_probing probing lone h).2) start (by simp [LoneProbe])

/-- Three failures of goroutine 0 open the breaker. -/
def opened : List Access := [.addFailure 0, .setLastFailure 0 1, .addFailure 0, .setLastFailure 0 2,
  .addFailure 0, .setLastFailure 0 3, .storeOpen 0]

theorem second_probe_admitted : ¬ Always Watched.step LoneProbe {}
    (opened ++ [.load 1, .lock 1 30000000004, .load 2]) := by
  intro law
  have history : (run Watched.step {} (opened ++ [.load 1, .lock 1 30000000004, .load 2])).map Watched.probes =
      some (some 2) := by decide
  obtain ⟨w, h, probes⟩ := Option.map_eq_some_iff.mp history
  exact absurd (Transition.always_last law h 2 probes) (by decide)

/-! ### State and counter -/

def Call.closing : Call → Bool
  | cleared | added => true
  | _ => false

def Call.tripping (threshold : Int32) : Call → Bool
  | counted f => threshold ≤ f
  | opening => true
  | idle | locking | cleared | added => false

/-- A call of `RecordSuccess` has reset the counter and has still to store Closed. -/
def ClosePending (s : Shared) : Prop := ∃ t, (s.calls t).closing

/-- A call of `RecordFailure` has counted enough and has still to store Open. -/
def OpenPending (s : Shared) : Prop := ∃ t, (s.calls t).tripping s.cb.threshold

/-- The state and the counter contradict each other only while a call is on its
way that will change the state. -/
structure Settling (s : Shared) : Prop where
  opened : s.cb.state = .open → s.cb.failures < s.cb.threshold → ClosePending s
  closed : s.cb.state = .closed → s.cb.threshold ≤ s.cb.failures → OpenPending s

/-- Closed is stored on a count below the threshold, Open on one that reaches it,
and the counter does not overflow on an open breaker, except with a call on its
way that will change the state after. -/
def InOrder (s : Shared) : Access → Prop
  | .storeClosed _ => s.cb.threshold ≤ s.cb.failures → OpenPending s
  | .storeOpen _ => s.cb.failures < s.cb.threshold → ClosePending s
  | .addFailure _ => s.cb.state = .open → s.cb.failures = Int32.maxValue → ClosePending s
  | _ => True

theorem pending_enter {p : Call → Bool} {calls : ℕ → Call} {t : ℕ} {c : Call} (same : p c = p (calls t)) :
    (∃ u, p (Function.update calls t c u) = true) ↔ ∃ u, p (calls u) = true := by
  refine exists_congr fun u => ?_
  by_cases mine : u = t
  · subst u; rw [Function.update_self, same]
  · rw [Function.update_of_ne mine]

theorem enter_pending {p : Call → Bool} {calls : ℕ → Call} {t : ℕ} {c : Call} (pending : p c = true) :
    ∃ u, p (Function.update calls t c u) = true :=
  ⟨t, by rw [Function.update_self, pending]⟩

theorem step_threshold {s s' : Shared} {e : Access} (h : s.step e = some s') : s'.cb.threshold = s.cb.threshold := by
  cases e with
  | load t => obtain ⟨-, ⟨-, rfl⟩ | ⟨-, rfl⟩⟩ := load_eq.mp h <;> rfl
  | lock t now => obtain ⟨-, ⟨-, rfl⟩ | ⟨-, rfl⟩⟩ := lock_eq.mp h <;> rfl
  | resetFailures t => obtain ⟨-, rfl⟩ := resetFailures_eq.mp h; rfl
  | addSuccess t => obtain ⟨-, rfl⟩ := addSuccess_eq.mp h; rfl
  | storeClosed t => obtain ⟨-, rfl⟩ := storeClosed_eq.mp h; rfl
  | addFailure t => obtain ⟨-, rfl⟩ := addFailure_eq.mp h; rfl
  | setLastFailure t now => obtain ⟨f, -, ⟨-, rfl⟩ | ⟨-, rfl⟩⟩ := setLastFailure_eq.mp h <;> rfl
  | storeOpen t => obtain ⟨-, rfl⟩ := storeOpen_eq.mp h; rfl

/-- A step that touches neither state nor count, and moves its call without a change of what is pending. -/
theorem Settling.enter {s : Shared} (settling : Settling s) (cb : CircuitBreaker) {t : ℕ} {c : Call}
    (state : cb.state = s.cb.state) (failures : cb.failures = s.cb.failures) (threshold : cb.threshold = s.cb.threshold)
    (closing : c.closing = (s.calls t).closing)
    (tripping : c.tripping s.cb.threshold = (s.calls t).tripping s.cb.threshold) :
    Settling { s.enter t c with cb } := by
  constructor
  · intro shown low
    exact (pending_enter closing).mpr (settling.opened (state ▸ shown) (by rwa [← failures, ← threshold]))
  · intro shown high
    rw [OpenPending, threshold]
    exact (pending_enter tripping).mpr (settling.closed (state ▸ shown) (by rwa [← failures, ← threshold]))

theorem addFailure_settling {s s' : Shared} {t : ℕ} (positive : 0 < s.cb.threshold) (settling : Settling s)
    (h : s.step (.addFailure t) = some s') : Settling s' ↔ InOrder s (.addFailure t) := by
  obtain ⟨idle, rfl⟩ := addFailure_eq.mp h
  have same : ClosePending { s.enter t (.counted (s.cb.failures + 1)) with
      cb := { s.cb with failures := s.cb.failures + 1 } } ↔ ClosePending s :=
    pending_enter (by rw [idle]; rfl)
  constructor
  · intro next shown full
    apply same.mp
    apply next.opened shown
    have wrapped : (Int32.maxValue + 1 : Int32).toInt < 0 := by decide
    rw [Int32.lt_iff_toInt_lt] at positive
    simp only [full, Int32.lt_iff_toInt_lt]
    exact Int.lt_trans wrapped positive
  · intro inOrder
    constructor
    · intro shown low
      apply same.mpr
      by_cases full : s.cb.failures = Int32.maxValue
      · exact inOrder shown full
      · exact settling.opened shown (succ_below low full)
    · intro _ high
      exact enter_pending (p := Call.tripping s.cb.threshold) (by simpa [Call.tripping] using high)

theorem step_settling {s s' : Shared} {e : Access} (positive : 0 < s.cb.threshold) (settling : Settling s)
    (h : s.step e = some s') : Settling s' ↔ InOrder s e := by
  cases e with
  | load t =>
    refine iff_of_true ?_ trivial
    obtain ⟨idle, ⟨-, rfl⟩ | ⟨-, rfl⟩⟩ := load_eq.mp h
    · exact settling.enter s.cb rfl rfl rfl (by rw [idle]; rfl) (by rw [idle]; rfl)
    · exact settling
  | lock t now =>
    refine iff_of_true ?_ trivial
    obtain ⟨locking, ⟨-, rfl⟩ | ⟨-, rfl⟩⟩ := lock_eq.mp h
    · constructor <;> exact fun shown => by cases shown
    · exact settling.enter s.cb rfl rfl rfl (by rw [locking]; rfl) (by rw [locking]; rfl)
  | resetFailures t =>
    refine iff_of_true ?_ trivial
    obtain ⟨idle, rfl⟩ := resetFailures_eq.mp h
    constructor
    · exact fun _ _ => enter_pending (p := Call.closing) rfl
    · exact fun _ high => absurd positive (Int32.not_lt.mpr high)
  | addSuccess t =>
    refine iff_of_true ?_ trivial
    obtain ⟨cleared, rfl⟩ := addSuccess_eq.mp h
    exact settling.enter _ rfl rfl rfl (by rw [cleared]; rfl) (by rw [cleared]; rfl)
  | storeClosed t =>
    obtain ⟨added, rfl⟩ := storeClosed_eq.mp h
    have same : OpenPending { s.enter t .idle with cb := { s.cb with state := .closed } } ↔ OpenPending s :=
      pending_enter (by rw [added]; rfl)
    constructor
    · exact fun next high => same.mp (next.closed rfl high)
    · intro inOrder
      constructor
      · exact fun shown => by cases shown
      · exact fun _ high => same.mpr (inOrder high)
  | addFailure t => exact addFailure_settling positive settling h
  | setLastFailure t now =>
    refine iff_of_true ?_ trivial
    obtain ⟨f, counted, ⟨reached, rfl⟩ | ⟨short, rfl⟩⟩ := setLastFailure_eq.mp h
    · exact settling.enter _ rfl rfl rfl (by rw [counted]; rfl) (by rw [counted]; simp [Call.tripping, reached])
    · exact settling.enter _ rfl rfl rfl (by rw [counted]; rfl)
        (by rw [counted]; simp [Call.tripping, Int32.not_le.mpr short])
  | storeOpen t =>
    obtain ⟨opening, rfl⟩ := storeOpen_eq.mp h
    have same : ClosePending { s.enter t .idle with cb := { s.cb with state := .open } } ↔ ClosePending s :=
      pending_enter (by rw [opening]; rfl)
    constructor
    · exact fun next low => same.mp (next.opened rfl low)
    · intro inOrder
      constructor
      · exact fun _ low => same.mpr (inOrder low)
      · exact fun shown => by cases shown

theorem fresh_settling {threshold : Int32} (positive : 0 < threshold) (resetAfter : ℤ) :
    Settling { cb := fresh threshold resetAfter } := by
  constructor
  · exact fun shown => by cases shown
  · exact fun _ high => absurd positive (Int32.not_lt.mpr high)

/-- What a run in order comes to, and no other: contradictions that are settled. -/
theorem settling_iff_inOrder {threshold : Int32} {resetAfter : ℤ} (positive : 0 < threshold) (events : List Access) :
    Always Shared.step Settling { cb := fresh threshold resetAfter } events ↔
      Along Shared.step InOrder { cb := fresh threshold resetAfter } events := by
  have keep : ∀ s e s', 0 < s.cb.threshold → Settling s → s.step e = some s' → 0 < s'.cb.threshold :=
    fun _ _ _ above _ h => by rw [step_threshold h]; exact above
  exact Transition.always_iff_along keep (fun _ _ _ above settling h => step_settling above settling h) positive
    (fresh_settling positive resetAfter)

/-- Where every step of a run was in order and no call is in progress, the breaker
is not Closed on a count that reaches the threshold and not Open on one below it. -/
theorem state_matches_counter {threshold : Int32} {resetAfter : ℤ} (positive : 0 < threshold)
    {events : List Access} {s : Shared} (h : run Shared.step { cb := fresh threshold resetAfter } events = some s)
    (inOrder : Along Shared.step InOrder { cb := fresh threshold resetAfter } events)
    (quiet : ∀ t, s.calls t = .idle) :
    ¬ (s.cb.state = .closed ∧ s.cb.threshold ≤ s.cb.failures) ∧
      ¬ (s.cb.state = .open ∧ s.cb.failures < s.cb.threshold) := by
  have settling := Transition.always_last ((settling_iff_inOrder positive events).mpr inOrder) h
  constructor
  · rintro ⟨shown, high⟩
    obtain ⟨t, pending⟩ := settling.closed shown high
    simp [quiet t, Call.tripping] at pending
  · rintro ⟨shown, low⟩
    obtain ⟨t, pending⟩ := settling.opened shown low
    simp [quiet t, Call.closing] at pending

theorem state_matches_counter_opened : ∃ s, run Shared.step { cb := fresh 3 30 } opened = some s ∧
    s.cb.state = .open ∧ ¬ s.cb.failures < s.cb.threshold := by
  have inOrder : Along Shared.step InOrder { cb := fresh 3 30 } opened := by
    simp [opened, Along, Shared.step, Shared.enter, InOrder, fresh]
  refine ⟨_, rfl, rfl, fun low => (state_matches_counter (by decide) rfl inOrder ?_).2 ⟨rfl, low⟩⟩
  intro t
  rcases t with _ | t <;> rfl

/-- A success of goroutine 1 that three failures overtake. -/
def overtaken : List Access := [.resetFailures 1] ++ opened ++ [.addSuccess 1, .storeClosed 1]

theorem overtaken_stays_closed : ¬ ∀ s, run Shared.step {} overtaken = some s → (∀ t, s.calls t = .idle) →
    ¬ (s.cb.state = .closed ∧ s.cb.threshold ≤ s.cb.failures) ∧
      ¬ (s.cb.state = .open ∧ s.cb.failures < s.cb.threshold) := by
  intro law
  refine (law _ rfl ?_).1 ⟨rfl, by decide⟩
  intro t
  rcases t with _ | _ | t <;> rfl

end PolyglotInfinity.Gateway
