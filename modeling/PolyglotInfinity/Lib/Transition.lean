import Mathlib.Data.Nat.Notation
import Mathlib.Data.Option.Basic

/-!
# Partial transition systems

A step function may refuse an event. A run takes a list of events and fails at
the first refused one, so every statement about `run` is about one interleaving
of the parties' events.
-/

namespace Transition

variable {σ ε : Type*} {step : σ → ε → Option σ}

def run (step : σ → ε → Option σ) : σ → List ε → Option σ
  | s, [] => some s
  | s, e :: es => (step s e).bind fun t => run step t es

/-- Every step the run takes meets `P` in the state before it. -/
def Along (step : σ → ε → Option σ) (P : σ → ε → Prop) : σ → List ε → Prop
  | _, [] => True
  | s, e :: es => ∀ t, step s e = some t → P s e ∧ Along step P t es

def Always (step : σ → ε → Option σ) (Q : σ → Prop) : σ → List ε → Prop
  | s, [] => Q s
  | s, e :: es => Q s ∧ ∀ t, step s e = some t → Always step Q t es

/-- The run takes every event, and each of its steps meets `R`. -/
def Through (step : σ → ε → Option σ) (R : σ → ε → σ → Prop) : σ → List ε → Prop
  | _, [] => True
  | s, e :: es => ∃ t, step s e = some t ∧ R s e t ∧ Through step R t es

instance decidableAlong {P : σ → ε → Prop} [∀ s e, Decidable (P s e)] :
    (s : σ) → (es : List ε) → Decidable (Along step P s es)
  | _, [] => .isTrue trivial
  | s, e :: es =>
    match taken : step s e with
    | none => .isTrue (by simp [Along, taken])
    | some t =>
      have : Decidable (Along step P t es) := decidableAlong t es
      decidable_of_iff (P s e ∧ Along step P t es) (by simp [Along, taken])

@[simp] theorem run_nil (s : σ) : run step s [] = some s := rfl

theorem run_cons {s t : σ} {e : ε} {es : List ε} :
    run step s (e :: es) = some t ↔ ∃ x, step s e = some x ∧ run step x es = some t :=
  Option.bind_eq_some_iff

theorem run_append {s t : σ} {es fs : List ε} :
    run step s (es ++ fs) = some t ↔ ∃ x, run step s es = some x ∧ run step x fs = some t := by
  induction es generalizing s with
  | nil => simp
  | cons e es ih =>
    simp only [List.cons_append, run_cons, ih]
    constructor
    · rintro ⟨x, first, y, rest, last⟩
      exact ⟨y, ⟨x, first, rest⟩, last⟩
    · rintro ⟨y, ⟨x, first, rest⟩, last⟩
      exact ⟨x, first, y, rest, last⟩

theorem run_concat (s : σ) (es fs : List ε) :
    run step s (es ++ fs) = (run step s es).bind fun x => run step x fs := by
  apply Option.ext
  intro t
  rw [Option.bind_eq_some_iff]
  exact run_append

theorem run_invariant {Inv : σ → Prop} {s t : σ} {es : List ε}
    (keep : ∀ s e t, Inv s → step s e = some t → Inv t)
    (init : Inv s) (h : run step s es = some t) : Inv t := by
  induction es generalizing s with
  | nil => exact Option.some.inj h ▸ init
  | cons e es ih =>
    obtain ⟨x, first, rest⟩ := run_cons.mp h
    exact ih (keep s e x init first) rest

theorem run_along {Inv : σ → Prop} {P : σ → ε → Prop} {s t : σ} {es : List ε}
    (keep : ∀ s e t, Inv s → P s e → step s e = some t → Inv t)
    (init : Inv s) (along : Along step P s es) (h : run step s es = some t) : Inv t := by
  induction es generalizing s with
  | nil => exact Option.some.inj h ▸ init
  | cons e es ih =>
    obtain ⟨x, first, rest⟩ := run_cons.mp h
    obtain ⟨ok, along⟩ := along x first
    exact ih (keep s e x init ok first) along rest

/-- A run as one of its parties sees it: where every step shows in the party's view as
the run of the party's own event, if it has one, the whole run shows as the run of these events. -/
theorem run_filterMap {τ κ : Type*} {seen : τ → κ → Option τ} {own : ε → Option κ} {view : σ → τ} {Inv : σ → Prop}
    {s t : σ} {es : List ε} (keep : ∀ s e t, Inv s → step s e = some t → Inv t)
    (shows : ∀ s e t, Inv s → step s e = some t → run seen (view s) (own e).toList = some (view t))
    (init : Inv s) (h : run step s es = some t) : run seen (view s) (es.filterMap own) = some (view t) := by
  induction es generalizing s with
  | nil => rw [Option.some.inj h, List.filterMap_nil, run_nil]
  | cons e es ih =>
    obtain ⟨x, first, rest⟩ := run_cons.mp h
    have split : (e :: es).filterMap own = (own e).toList ++ es.filterMap own := by
      cases own_e : own e <;> simp [own_e]
    rw [split, run_append]
    exact ⟨view x, shows s e x init first, ih (keep s e x init first) rest⟩

/-- A run of which some events show, each as the run of its own event. -/
theorem run_sublist {τ κ : Type*} {seen : τ → κ → Option τ} {own : ε → Option κ} {view : σ → τ} {Inv : σ → Prop}
    {s t : σ} {es : List ε} (keep : ∀ s e t, Inv s → step s e = some t → Inv t)
    (shows : ∀ s e t, Inv s → step s e = some t →
      view t = view s ∨ ∃ k, own e = some k ∧ seen (view s) k = some (view t))
    (init : Inv s) (h : run step s es = some t) :
    ∃ ks, ks.Sublist (es.filterMap own) ∧ run seen (view s) ks = some (view t) := by
  induction es generalizing s with
  | nil => exact ⟨[], List.Sublist.refl _, congrArg _ (congrArg view (Option.some.inj h))⟩
  | cons e es ih =>
    obtain ⟨x, first, rest⟩ := run_cons.mp h
    obtain ⟨ks, fewer, later⟩ := ih (keep s e x init first) rest
    obtain same | ⟨k, mine, taken⟩ := shows s e x init first
    · exact ⟨ks, fewer.trans (List.Sublist.filterMap own (List.sublist_cons_self e es)), same ▸ later⟩
    · rw [List.filterMap_cons_some mine]
      exact ⟨k :: ks, fewer.cons_cons k, run_cons.mpr ⟨view x, taken, later⟩⟩

theorem along_along {Inv : σ → Prop} {P R : σ → ε → Prop} {s : σ} {es : List ε}
    (keep : ∀ s e t, Inv s → P s e → step s e = some t → Inv t) (holds : ∀ s e, Inv s → P s e → R s e)
    (init : Inv s) (along : Along step P s es) : Along step R s es := by
  induction es generalizing s with
  | nil => trivial
  | cons e es ih =>
    intro t taken
    obtain ⟨ok, later⟩ := along t taken
    exact ⟨holds s e init ok, ih (keep s e t init ok taken) later⟩

theorem along_at {P : σ → ε → Prop} {s t u : σ} {e : ε} {es fs : List ε} (along : Along step P s (es ++ e :: fs))
    (reached : run step s es = some t) (taken : step t e = some u) : P t e := by
  induction es generalizing s with
  | nil =>
    obtain rfl := Option.some.inj reached
    exact (along u taken).1
  | cons d es ih =>
    obtain ⟨x, first, rest⟩ := run_cons.mp reached
    exact ih (along x first).2 rest

theorem through_iff {Inv : σ → Prop} {R : σ → ε → σ → Prop} {Ok : ε → Prop} {s : σ} {es : List ε}
    (keep : ∀ s e t, Inv s → step s e = some t → Inv t)
    (exact : ∀ s e, Inv s → ((∃ t, step s e = some t ∧ R s e t) ↔ Ok e))
    (init : Inv s) : Through step R s es ↔ ∀ e ∈ es, Ok e := by
  induction es generalizing s with
  | nil => exact iff_of_true trivial nofun
  | cons e es ih =>
    rw [List.forall_mem_cons]
    constructor
    · rintro ⟨t, taken, meets, later⟩
      exact ⟨(exact s e init).mp ⟨t, taken, meets⟩, (ih (keep s e t init taken)).mp later⟩
    · rintro ⟨here, later⟩
      obtain ⟨t, taken, meets⟩ := (exact s e init).mpr here
      exact ⟨t, taken, meets, (ih (keep s e t init taken)).mpr later⟩

theorem always_last {Q : σ → Prop} {s t : σ} {es : List ε} (always : Always step Q s es)
    (h : run step s es = some t) : Q t := by
  induction es generalizing s with
  | nil => exact Option.some.inj h ▸ always
  | cons e es ih =>
    obtain ⟨x, first, rest⟩ := run_cons.mp h
    exact ih (always.2 x first) rest

theorem always_along {Inv Q : σ → Prop} {P : σ → ε → Prop} {s : σ} {es : List ε}
    (keep : ∀ s e t, Inv s → P s e → step s e = some t → Inv t) (holds : ∀ s, Inv s → Q s)
    (init : Inv s) (along : Along step P s es) : Always step Q s es := by
  induction es generalizing s with
  | nil => exact holds s init
  | cons e es ih =>
    refine ⟨holds s init, fun t taken => ?_⟩
    obtain ⟨ok, later⟩ := along t taken
    exact ih (keep s e t init ok taken) later

theorem Along.and {P R : σ → ε → Prop} {s : σ} {es : List ε} (left : Along step P s es)
    (right : Along step R s es) : Along step (fun s e => P s e ∧ R s e) s es := by
  induction es generalizing s with
  | nil => trivial
  | cons e es ih =>
    intro t taken
    obtain ⟨p, left⟩ := left t taken
    obtain ⟨r, right⟩ := right t taken
    exact ⟨⟨p, r⟩, ih left right⟩

/-- When, under an invariant, a step keeps `Q` exactly if it meets `P`, a run
keeps `Q` exactly if all its steps meet `P`. -/
theorem always_iff_along {Inv Q : σ → Prop} {P : σ → ε → Prop} {s : σ} {es : List ε}
    (keep : ∀ s e t, Inv s → Q s → step s e = some t → Inv t)
    (exact : ∀ s e t, Inv s → Q s → step s e = some t → (Q t ↔ P s e))
    (inv : Inv s) (init : Q s) : Always step Q s es ↔ Along step P s es := by
  induction es generalizing s with
  | nil => exact ⟨fun _ => trivial, fun _ => init⟩
  | cons e es ih =>
    constructor
    · rintro ⟨_, later⟩ t taken
      have next := later t taken
      have here : Q t := by
        cases es with
        | nil => exact next
        | cons => exact next.1
      exact ⟨(exact s e t inv init taken).mp here, (ih (keep s e t inv init taken) here).mp next⟩
    · intro along
      refine ⟨init, fun t taken => ?_⟩
      obtain ⟨ok, later⟩ := along t taken
      have here := (exact s e t inv init taken).mpr ok
      exact (ih (keep s e t inv init taken) here).mpr later

theorem run_regains {Q : σ → Prop} {s t : σ} {es : List ε}
    (lost : ∀ s e t, step s e = some t → Q t → Q s) (h : run step s es = some t) (last : Q t) : Q s := by
  induction es generalizing s with
  | nil => exact Option.some.inj h ▸ last
  | cons e es ih =>
    obtain ⟨x, first, rest⟩ := run_cons.mp h
    exact lost s e x first (ih rest)

/-- Where a law once lost is never regained, the last state meets it exactly if
every step of the run meets `P`. -/
theorem last_iff_along {Inv Q : σ → Prop} {P : σ → ε → Prop} {s t : σ} {es : List ε}
    (keep : ∀ s e t, Inv s → step s e = some t → Inv t)
    (lost : ∀ s e t, step s e = some t → Q t → Q s)
    (exact : ∀ s e t, Inv s → Q s → step s e = some t → (Q t ↔ P s e))
    (inv : Inv s) (init : Q s) (h : run step s es = some t) : Q t ↔ Along step P s es := by
  induction es generalizing s with
  | nil => exact ⟨fun _ => trivial, fun _ => Option.some.inj h ▸ init⟩
  | cons e es ih =>
    obtain ⟨x, first, rest⟩ := run_cons.mp h
    constructor
    · intro last y taken
      obtain rfl := Option.some.inj (first.symm.trans taken)
      have here := run_regains lost rest last
      exact ⟨(exact s e x inv init first).mp here, (ih (keep s e x inv first) here rest).mp last⟩
    · intro along
      obtain ⟨ok, later⟩ := along x first
      have here := (exact s e x inv init first).mpr ok
      exact (ih (keep s e x inv first) here rest).mpr later

def tally (step : σ → ε → Option σ) (P : σ → ε → Prop) [∀ s e, Decidable (P s e)] : σ → List ε → ℕ
  | _, [] => 0
  | s, e :: es => (if P s e then 1 else 0) + ((step s e).map fun t => tally step P t es).getD 0

/-- An invariant that speaks of the steps counted so far. -/
theorem run_tally {P : σ → ε → Prop} [∀ s e, Decidable (P s e)] {Inv : ℕ → σ → Prop} {n : ℕ} {s t : σ}
    {es : List ε} (keep : ∀ n s e t, Inv n s → step s e = some t → Inv (n + if P s e then 1 else 0) t)
    (init : Inv n s) (h : run step s es = some t) : Inv (n + tally step P s es) t := by
  induction es generalizing n s with
  | nil => exact Option.some.inj h ▸ init
  | cons e es ih =>
    obtain ⟨x, first, rest⟩ := run_cons.mp h
    have later := ih (keep n s e x init first) rest
    rwa [tally, first, Option.map_some, Option.getD_some, ← Nat.add_assoc]

end Transition
