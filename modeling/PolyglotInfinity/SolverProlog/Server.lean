import Mathlib.Logic.Function.Basic
import PolyglotInfinity.Lib.Extended
import PolyglotInfinity.Lib.Transition

/-!
# The risk flags of the Prolog server

`/api/prolog/infer` and `/api/prolog/explain` use the one dynamic predicate
`risk_flag/1` in the same way. Each access to it is one step, and the requests'
steps interleave freely. A call sees the clauses that are there when it is made.
-/

namespace PolyglotInfinity.SolverProlog

open Transition (run Along Always)

inductive Flag where
  | excessiveDebt | highVolatility | elevatedVolatility | hasDefaults
  deriving DecidableEq, Repr

inductive Grade where
  | critical | high | medium | low
  deriving DecidableEq, Repr

structure Args where
  debt : Extended
  vol : Extended
  defaults : Extended
  deriving DecidableEq

/-- The flags that `set_risk_flags` asserts, in its order. -/
def Args.flags (a : Args) : List Flag :=
  (if .fin (7 / 10) < a.debt then [.excessiveDebt] else []) ++
  (if .fin (35 / 100) < a.vol then [.highVolatility] else []) ++
  (if .fin (25 / 100) < a.vol then [.elevatedVolatility] else []) ++
  (if 0 < a.defaults then [.hasDefaults] else [])

/-- `risk_flag(f)` and its negation as goals. -/
inductive Goal where
  | flag (f : Flag)
  | noFlag (f : Flag)

abbrev Verdict := Grade × String

/-- What is left to prove of a clause, and its head. -/
abbrev Branch := List Goal × Verdict

def riskGrade : List Branch := [
  ([.flag .excessiveDebt, .flag .highVolatility], (.critical, "CRITICAL: 즉시 부채비율 개선 필요")),
  ([.flag .hasDefaults, .flag .excessiveDebt], (.critical, "CRITICAL: 연체 이력과 과도한 레버리지")),
  ([.flag .highVolatility, .flag .hasDefaults], (.high, "HIGH: 높은 변동성 + 연체 이력")),
  ([.flag .excessiveDebt], (.high, "HIGH: 과도한 부채비율")),
  ([.flag .elevatedVolatility], (.medium, "MEDIUM: 변동성 주의 구간")),
  ([.flag .hasDefaults], (.medium, "MEDIUM: 소액 연체 이력 존재")),
  ([.noFlag .excessiveDebt, .noFlag .highVolatility, .noFlag .hasDefaults], (.low, "LOW: 모든 지표 정상 범위"))]

/-- One call: a goal that the database satisfies `n` times leaves `n` branches. -/
def callGoal (facts : List Flag) (goal : Goal) (rest : List Goal) (v : Verdict) : List Branch :=
  match goal with
  | .flag f => List.replicate (facts.count f) (rest, v)
  | .noFlag f => if f ∈ facts then [] else [(rest, v)]

structure Response where
  flagsFired : List Flag
  /-- The head of each match of a rule. -/
  matched : List Verdict
  verdict : Verdict
  deriving DecidableEq

def verdictOf (matched : List Verdict) : Verdict :=
  let worst : Option Verdict := [.critical, .high, .medium].findSome? fun g => matched.find? fun v => v.1 = g
  worst.getD (.low, "LOW: 모든 지표 정상 범위")

def respond (flagsFired : List Flag) (matched : List Verdict) : Response :=
  { flagsFired, matched, verdict := verdictOf matched }

inductive Phase where
  /-- Behind the `retractall`, with the flags still to assert. -/
  | asserting (a : Args) (todo : List Flag)
  /-- The first `findall`, with the clauses that its call has seen. -/
  | collecting (a : Args) (seen found : List Flag)
  | grading (a : Args) (flagsFired : List Flag) (todo : List Branch) (found : List Verdict)

structure Server where
  /-- The clauses of `risk_flag/1`. -/
  facts : List Flag := []
  requests : ℕ → Option Phase := fun _ => none
  responses : List (Args × Response) := []

inductive Event where
  /-- Request `r` arrives at its `retractall`. -/
  | retractall (r : ℕ) (a : Args)
  | next (r : ℕ)

def Event.request : Event → ℕ
  | .retractall r _ | .next r => r

def Server.enter (s : Server) (r : ℕ) (p : Phase) : Server :=
  { s with requests := Function.update s.requests r (some p) }

@[simp] theorem Server.enter_self (s : Server) (r : ℕ) (p : Phase) : (s.enter r p).requests r = some p :=
  Function.update_self _ _ _

def Server.answer (s : Server) (r : ℕ) (a : Args) (response : Response) : Server :=
  { s with requests := Function.update s.requests r none, responses := s.responses ++ [(a, response)] }

def Server.next (s : Server) (r : ℕ) : Phase → Server
  | .asserting a (f :: todo) => { s.enter r (.asserting a todo) with facts := s.facts ++ [f] }
  | .asserting a [] => s.enter r (.collecting a s.facts [])
  | .collecting a (f :: seen) found => s.enter r (.collecting a seen (found ++ [f]))
  | .collecting a [] found => s.enter r (.grading a found riskGrade [])
  | .grading a flags (([], v) :: todo) found => s.enter r (.grading a flags todo (found ++ [v]))
  | .grading a flags ((goal :: rest, v) :: todo) found =>
    s.enter r (.grading a flags (callGoal s.facts goal rest v ++ todo) found)
  | .grading a flags [] found => s.answer r a (respond flags found)

def Server.step (s : Server) : Event → Option Server
  | .retractall r a =>
    match s.requests r with
    | none => some { s.enter r (.asserting a a.flags) with facts := [] }
    | some _ => none
  | .next r => (s.requests r).map (s.next r)

/-! ### What a request finds when the database does not change -/

/-- The solutions of a clause with the goals that are left. -/
def solutions (facts : List Flag) : List Goal → Verdict → List Verdict
  | [], v => [v]
  | .flag f :: rest, v => (List.replicate (facts.count f) (solutions facts rest v)).flatten
  | .noFlag f :: rest, v => if f ∈ facts then [] else solutions facts rest v

def allSolutions (facts : List Flag) (branches : List Branch) : List Verdict :=
  branches.flatMap fun branch => solutions facts branch.1 branch.2

def Response.of (facts : List Flag) : Response := respond facts (allSolutions facts riskGrade)

theorem callGoal_solutions (facts : List Flag) (goal : Goal) (rest : List Goal) (v : Verdict) :
    allSolutions facts (callGoal facts goal rest v) = solutions facts (goal :: rest) v := by
  cases goal with
  | flag f => simp [callGoal, allSolutions, solutions, List.flatMap_replicate]
  | noFlag f => by_cases held : f ∈ facts <;> simp [callGoal, allSolutions, solutions, held]

/-! ### Requests that nothing disturbs -/

/-- The request has still to look at the database. -/
def Phase.Reads : Phase → Prop
  | .grading _ _ [] _ => False
  | .asserting _ _ | .collecting _ _ _ | .grading _ _ (_ :: _) _ => True

/-- A step changes the database only when no other request has still to look at it. -/
def Undisturbed (s : Server) (e : Event) : Prop :=
  ∀ s', s.step e = some s' → s'.facts ≠ s.facts → ∀ r p, r ≠ e.request → s.requests r = some p → ¬ p.Reads

/-- What a request has found, and what the database has for it, comes from its own arguments. -/
def Phase.Own (facts : List Flag) : Phase → Prop
  | .asserting a todo => facts ++ todo = a.flags
  | .collecting a seen found => facts = a.flags ∧ found ++ seen = a.flags
  | .grading a flagsFired todo found => (todo ≠ [] → facts = a.flags) ∧ flagsFired = a.flags ∧
      found ++ allSolutions a.flags todo = allSolutions a.flags riskGrade

structure Own (s : Server) : Prop where
  requests : ∀ r p, s.requests r = some p → p.Own s.facts
  responses : ∀ x ∈ s.responses, x.2 = .of x.1.flags

variable {s s' : Server} {e : Event} {r : ℕ} {p : Phase}

theorem Phase.Own.frame {facts facts' : List Flag} (own : p.Own facts) (done : ¬ p.Reads) : p.Own facts' := by
  cases p with
  | asserting a todo => exact absurd trivial done
  | collecting a seen found => exact absurd trivial done
  | grading a flagsFired todo found =>
    cases todo with
    | nil => exact ⟨nofun, own.2⟩
    | cons branch todo => exact absurd trivial done

theorem next_others {q : ℕ} (other : q ≠ r) : (s.next r p).requests q = s.requests q := by
  unfold Server.next
  split <;> exact Function.update_of_ne other _ _

theorem step_others (h : s.step e = some s') {q : ℕ} (other : q ≠ e.request) : s'.requests q = s.requests q := by
  cases e with
  | retractall r a =>
    unfold Server.step at h
    cases fresh : s.requests r <;> simp [fresh] at h
    subst h
    exact Function.update_of_ne other _ _
  | next r =>
    obtain ⟨p, -, rfl⟩ := Option.map_eq_some_iff.mp h
    exact next_others other

theorem next_own (own : p.Own s.facts) {p' : Phase} (after : (s.next r p).requests r = some p') :
    p'.Own (s.next r p).facts := by
  cases p with
  | asserting a todo =>
    cases todo with
    | nil =>
      simp only [Server.next, Server.enter_self, Option.some.injEq] at after
      subst after
      have complete : s.facts = a.flags := by simpa [Phase.Own] using own
      exact ⟨complete, complete⟩
    | cons f todo =>
      simp only [Server.next, Server.enter_self, Option.some.injEq] at after
      subst after
      show s.facts ++ [f] ++ todo = a.flags
      rw [List.append_assoc]
      exact own
  | collecting a seen found =>
    obtain ⟨complete, collected⟩ := own
    cases seen with
    | nil =>
      simp only [Server.next, Server.enter_self, Option.some.injEq] at after
      subst after
      rw [List.append_nil] at collected
      exact ⟨fun _ => complete, collected, rfl⟩
    | cons f seen =>
      simp only [Server.next, Server.enter_self, Option.some.injEq] at after
      subst after
      refine ⟨complete, ?_⟩
      rw [List.append_assoc]
      exact collected
  | grading a flagsFired todo found =>
    obtain ⟨complete, fired, graded⟩ := own
    cases todo with
    | nil => simp [Server.next, Server.answer] at after
    | cons branch todo =>
      obtain ⟨goals, v⟩ := branch
      have unchanged : s.facts = a.flags := complete (List.cons_ne_nil _ _)
      cases goals with
      | nil =>
        simp only [Server.next, Server.enter_self, Option.some.injEq] at after
        subst after
        refine ⟨fun _ => unchanged, fired, ?_⟩
        rw [← graded, List.append_assoc]
        rfl
      | cons goal rest =>
        simp only [Server.next, Server.enter_self, Option.some.injEq] at after
        subst after
        refine ⟨fun _ => unchanged, fired, ?_⟩
        rw [unchanged, ← graded, allSolutions, List.flatMap_append, ← allSolutions, callGoal_solutions]
        rfl

theorem next_responses (own : p.Own s.facts) {x : Args × Response} (member : x ∈ (s.next r p).responses) :
    x ∈ s.responses ∨ x.2 = .of x.1.flags := by
  unfold Server.next at member
  split at member
  case h_7 a flagsFired found =>
    obtain ⟨-, rfl, graded⟩ := own
    rcases List.mem_append.mp member with old | now
    · exact .inl old
    · obtain rfl := List.mem_singleton.mp now
      rw [allSolutions, List.flatMap_nil, List.append_nil] at graded
      right
      rw [graded]
      rfl
  all_goals exact .inl member

theorem step_own (own : Own s) (undisturbed : Undisturbed s e) (h : s.step e = some s') : Own s' := by
  have others : ∀ q p, q ≠ e.request → s'.requests q = some p → p.Own s'.facts := by
    intro q p other held
    rw [step_others h other] at held
    have before := own.requests q p held
    by_cases same : s'.facts = s.facts
    · rw [same]
      exact before
    · exact before.frame (undisturbed s' h same q p other held)
  cases e with
  | retractall r a =>
    unfold Server.step at h
    cases fresh : s.requests r <;> simp [fresh] at h
    subst h
    refine ⟨fun q p held => ?_, own.responses⟩
    by_cases mine : q = r
    · subst mine
      simp only [Server.enter_self, Option.some.injEq] at held
      subst held
      rfl
    · exact others q p mine held
  | next r =>
    obtain ⟨p, here, rfl⟩ := Option.map_eq_some_iff.mp h
    have mine := own.requests r p here
    refine ⟨fun q p' held => ?_, fun x member => ?_⟩
    · by_cases self : q = r
      · subst self
        exact next_own mine held
      · exact others q p' self held
    · rcases next_responses mine member with old | now
      · exact own.responses x old
      · exact now

/-! ### A request that goes on alone -/

/-- Request `r` takes some steps, and no other request any. -/
def Alone (r : ℕ) (s t : Server) : Prop := ∃ n, run Server.step s (List.replicate n (.next r)) = some t

variable {t u : Server} {a : Args}

theorem Alone.refl : Alone r s s := ⟨0, rfl⟩

theorem Alone.trans (left : Alone r s t) (right : Alone r t u) : Alone r s u := by
  obtain ⟨n, left⟩ := left
  obtain ⟨k, right⟩ := right
  refine ⟨n + k, ?_⟩
  rw [← List.replicate_append_replicate]
  exact Transition.run_append.mpr ⟨t, left, right⟩

theorem Alone.step (here : s.requests r = some p) : Alone r s (s.next r p) := by
  refine ⟨1, ?_⟩
  simp [run, Server.step, here]

/-- Request `r` has come to phase `p` alone, and the database has become `facts`. -/
def Comes (r : ℕ) (s : Server) (facts : List Flag) (p : Phase) : Prop :=
  ∃ t, Alone r s t ∧ t.facts = facts ∧ t.requests r = some p ∧ t.responses = s.responses

theorem Comes.step {facts : List Flag} {p' : Phase} (here : s.requests r = some p)
    (quiet : (s.next r p).responses = s.responses) (later : Comes r (s.next r p) facts p') : Comes r s facts p' := by
  obtain ⟨t, alone, database, phase, responses⟩ := later
  exact ⟨t, (Alone.step here).trans alone, database, phase, responses.trans quiet⟩

theorem Comes.trans {facts facts' : List Flag} {p p' : Phase} (first : Comes r s facts p)
    (second : ∀ t, t.facts = facts → t.requests r = some p → Comes r t facts' p') : Comes r s facts' p' := by
  obtain ⟨t, alone, database, phase, responses⟩ := first
  obtain ⟨u, alone', database', phase', responses'⟩ := second t database phase
  exact ⟨u, alone.trans alone', database', phase', responses'.trans responses⟩

theorem asserts_alone {todo : List Flag} (here : s.requests r = some (.asserting a todo)) :
    Comes r s (s.facts ++ todo) (.asserting a []) := by
  induction todo generalizing s with
  | nil => exact ⟨s, .refl, (List.append_nil _).symm, here, rfl⟩
  | cons f todo ih =>
    apply Comes.step here rfl
    have later := @ih (s.next r (.asserting a (f :: todo))) (Server.enter_self s r _)
    rw [show (s.next r (.asserting a (f :: todo))).facts = s.facts ++ [f] from rfl, List.append_assoc] at later
    exact later

theorem collects_alone {seen found : List Flag} (here : s.requests r = some (.collecting a seen found)) :
    Comes r s s.facts (.collecting a [] (found ++ seen)) := by
  induction seen generalizing s found with
  | nil => exact ⟨s, .refl, rfl, by rw [List.append_nil]; exact here, rfl⟩
  | cons f seen ih =>
    apply Comes.step here rfl
    have later := @ih (s.next r (.collecting a (f :: seen) found)) (found ++ [f]) (Server.enter_self s r _)
    rw [List.append_assoc] at later
    exact later

/-- The search of a branch goes on to the next one with the branch's solutions. -/
def Searches (r : ℕ) (a : Args) (flagsFired : List Flag) (branch : Branch) : Prop :=
  ∀ s todo found, s.requests r = some (.grading a flagsFired (branch :: todo) found) →
    Comes r s s.facts (.grading a flagsFired todo (found ++ solutions s.facts branch.1 branch.2))

theorem branches_alone {flagsFired : List Flag} {branches todo : List Branch} {found : List Verdict}
    (each : ∀ branch ∈ branches, Searches r a flagsFired branch)
    (here : s.requests r = some (.grading a flagsFired (branches ++ todo) found)) :
    Comes r s s.facts (.grading a flagsFired todo (found ++ allSolutions s.facts branches)) := by
  induction branches generalizing s found with
  | nil => exact ⟨s, .refl, rfl, by rw [allSolutions, List.flatMap_nil, List.append_nil]; exact here, rfl⟩
  | cons branch branches ih =>
    apply (each branch List.mem_cons_self s (branches ++ todo) found here).trans
    intro t database phase
    have later := ih (fun other member => each other (List.mem_cons_of_mem _ member)) phase
    rw [database, List.append_assoc] at later
    rw [allSolutions, List.flatMap_cons]
    exact later

theorem callGoal_rest {facts : List Flag} {goal : Goal} {rest : List Goal} {v : Verdict} {branch : Branch}
    (member : branch ∈ callGoal facts goal rest v) : branch = (rest, v) := by
  unfold callGoal at member
  cases goal with
  | flag f => exact List.eq_of_mem_replicate member
  | noFlag f => split at member <;> simp_all

theorem branch_alone {flagsFired : List Flag} (goals : List Goal) (v : Verdict) :
    Searches r a flagsFired (goals, v) := by
  induction goals with
  | nil =>
    intro s todo found here
    apply Comes.step here rfl
    exact ⟨_, .refl, rfl, Server.enter_self s r _, rfl⟩
  | cons goal rest ih =>
    intro s todo found here
    apply Comes.step here rfl
    have entered : (s.next r (.grading a flagsFired ((goal :: rest, v) :: todo) found)).requests r =
        some (.grading a flagsFired (callGoal s.facts goal rest v ++ todo) found) := Server.enter_self s r _
    have later := branches_alone (fun branch member => callGoal_rest member ▸ ih) entered
    rw [← callGoal_solutions]
    exact later

theorem answers_alone {todo : List Flag} (here : s.requests r = some (.asserting a todo)) :
    ∃ t, Alone r s t ∧ t.responses = s.responses ++ [(a, .of (s.facts ++ todo))] := by
  have graded : Comes r s (s.facts ++ todo)
      (.grading a (s.facts ++ todo) [] (allSolutions (s.facts ++ todo) riskGrade)) := by
    apply (asserts_alone here).trans
    intro x database phase
    rw [← database]
    apply Comes.step phase rfl
    apply (collects_alone (Server.enter_self x r _)).trans
    intro y database' phase'
    apply Comes.step phase' rfl
    have same : y.facts = x.facts := database'
    have later := branches_alone (fun branch _ => branch_alone branch.1 branch.2) (Server.enter_self y r
      (.grading a x.facts (riskGrade ++ []) []))
    rw [show (y.enter r _).facts = x.facts from same] at later
    exact later
  obtain ⟨t, alone, database, phase, responses⟩ := graded
  refine ⟨_, alone.trans (Alone.step phase), ?_⟩
  show t.responses ++ [_] = _
  rw [responses]
  rfl

/-- As long as the database changes only when no other request has still to look
at it, every response comes from the request's own arguments. A change while
another request asserts its flags spoils the flags of that one. -/
theorem responses_own (events : List Event) (undisturbed : Along Server.step Undisturbed {} events) :
    Always Server.step (fun s => ∀ x ∈ s.responses, x.2 = .of x.1.flags) {} events ∧
      ∀ s e s' r a todo, run Server.step {} events = some s → s.step e = some s' → s'.facts ≠ s.facts →
        r ≠ e.request → s.requests r = some (.asserting a todo) →
        ∃ t, Alone r s' t ∧ ∃ response, (a, response) ∈ t.responses ∧ response.flagsFired ≠ a.flags := by
  have start : Own {} := ⟨by simp, by simp⟩
  constructor
  · apply Transition.always_along (fun _ _ _ own ok h => step_own own ok h) _ start undisturbed
    intro _ own
    exact own.responses
  · intro s e s' r a todo reached h changed other here
    have own := Transition.run_along (fun _ _ _ own ok h => step_own own ok h) start undisturbed reached
    have mine : s.facts ++ todo = a.flags := own.requests r _ here
    have phase := (step_others h other).trans here
    obtain ⟨t, alone, responses⟩ := answers_alone phase
    have answered : (a, Response.of (s'.facts ++ todo)) ∈ t.responses := by
      rw [responses]
      exact List.mem_append_right _ List.mem_cons_self
    refine ⟨t, alone, _, answered, ?_⟩
    intro fired
    exact changed (List.append_cancel_right (fired.trans mine.symm))

theorem request_alone (fresh : s.requests r = none) : ∃ s' t, s.step (.retractall r a) = some s' ∧ Alone r s' t ∧
    t.responses = s.responses ++ [(a, .of a.flags)] := by
  obtain ⟨t, alone, responses⟩ :=
    @answers_alone { s.enter r (.asserting a a.flags) with facts := [] } r a a.flags (Server.enter_self s r _)
  refine ⟨_, t, ?_, alone, responses⟩
  simp [Server.step, fresh]

instance : DecidablePred Phase.Reads
  | .grading _ _ [] _ => .isFalse id
  | .asserting _ _ | .collecting _ _ _ | .grading _ _ (_ :: _) _ => .isTrue trivial

/-- An undisturbed step of one of some requests, where there are no others. -/
def UndisturbedAmong (requests : List ℕ) (s : Server) (e : Event) : Prop :=
  e.request ∈ requests ∧ ∀ s' ∈ s.step e, s'.facts ≠ s.facts →
    ∀ r ∈ requests, r ≠ e.request → ∀ p ∈ s.requests r, ¬ p.Reads

instance (requests : List ℕ) (s : Server) (e : Event) : Decidable (UndisturbedAmong requests s e) :=
  inferInstanceAs (Decidable (_ ∧ _))

theorem among_undisturbed {requests : List ℕ} {events : List Event} (idle : ∀ q ∉ requests, s.requests q = none)
    (among : Along Server.step (UndisturbedAmong requests) s events) : Along Server.step Undisturbed s events := by
  refine @Transition.along_along _ _ _ (fun s => ∀ q ∉ requests, s.requests q = none) _ _ _ _ ?_ ?_ idle among
  · intro s e s' idle among h q outside
    have other : q ≠ e.request := fun same => outside (same ▸ among.1)
    rw [step_others h other]
    exact idle q outside
  · intro s e idle among s' h changed r p other held
    by_cases inside : r ∈ requests
    · exact among.2 s' h changed r inside other p held
    · rw [idle r inside] at held
      contradiction

def indebted : Args := ⟨.fin (8 / 10), .fin (2 / 10), .fin 2⟩

def healthy : Args := ⟨.fin (1 / 10), .fin (1 / 10), .fin 0⟩

/-- Request 0 asserts its flags between the last look of request 1 and its answer, and request 2 retracts them
between the last look of request 0 and its answer. -/
def staggered : List Event :=
  [.retractall 1 healthy, .next 1, .retractall 0 indebted] ++ List.replicate 11 (.next 1) ++
    [.next 0, .next 0, .next 1] ++ List.replicate 16 (.next 0) ++
    [.retractall 2 healthy, .next 2, .next 0] ++ List.replicate 12 (.next 2)

theorem responses_own_staggered : ∃ s, run Server.step {} staggered = some s ∧
    (∀ x ∈ s.responses, x.2 = .of x.1.flags) ∧
      s.responses.map (fun x => (x.1, x.2.flagsFired, x.2.verdict.1)) =
        [(healthy, [], .low), (indebted, [.excessiveDebt, .hasDefaults], .critical), (healthy, [], .low)] := by
  have history : (run Server.step {} staggered).map (fun s => s.responses) =
      some [(healthy, .of []), (indebted, .of [.excessiveDebt, .hasDefaults]), (healthy, .of [])] := by decide +kernel
  obtain ⟨s, h, responses⟩ := Option.map_eq_some_iff.mp history
  have undisturbed : Along Server.step Undisturbed {} staggered :=
    @among_undisturbed _ [0, 1, 2] _ (fun _ _ => rfl) (by decide +kernel)
  refine ⟨s, h, Transition.always_last (responses_own _ undisturbed).1 h, ?_⟩
  rw [responses]
  decide +kernel

/-- The flags of request 0 are retracted by request 1 before request 0 collects them. -/
def overlapping : List Event :=
  [.retractall 0 indebted, .next 0, .next 0, .retractall 1 healthy] ++ List.replicate 13 (.next 0)

theorem overlapping_answers_low : ¬ ∀ s, run Server.step {} overlapping = some s →
    ∀ x ∈ s.responses, x.2.flagsFired = x.1.flags ∧ x.2.verdict = (Response.of x.1.flags).verdict := by
  intro law
  have history : (run Server.step {} overlapping).map (fun s => s.responses) =
      some [(indebted, .of [])] := by decide +kernel
  obtain ⟨s, h, responses⟩ := Option.map_eq_some_iff.mp history
  have own := law s h (indebted, .of []) (by rw [responses]; exact List.mem_cons_self)
  exact absurd own.2 (by decide +kernel)

end PolyglotInfinity.SolverProlog
