import PolyglotInfinity.BrainPython.Autobot
import PolyglotInfinity.Lib.Transition

/-!
# Frames without a price

What the bot does with a frame that is no JSON object with a finite numeric price.
-/

namespace PolyglotInfinity.BrainPython

open Transition (run)

section

variable {F Raw : Type} (py : Python F Raw)

/-- A JSON object with a finite numeric price. -/
def Priced (raw : Raw) : Prop :=
  ∃ items value, py.loads raw = .ok (.dict items) ∧ items.lookup "price" = some value ∧
    ((∃ i, value = .int i) ∨ ∃ x, value = .float x ∧ py.isFinite x = true)

/-- No JSON, or an object whose price is missing, null or nothing that `float` takes. -/
def Harmless (raw : Raw) : Prop :=
  py.loads raw = .error .jsonDecodeError ∨ ∃ items, py.loads raw = .ok (.dict items) ∧
    ∀ value, items.lookup "price" = some value →
      value = .none ∨ py.toFloat value = .error .typeError ∨ py.toFloat value = .error .valueError

theorem read_skip {raw : Raw} : py.read raw = .skip ↔ Harmless py raw := by
  unfold Python.read Harmless
  split
  · rename_i failed
    exact iff_of_true rfl (Or.inl failed)
  · rename_i failed
    rw [failed]
    exact iff_of_false nofun (by simp)
  · rename_i items loaded
    rw [loaded]
    simp only [reduceCtorEq, false_or, Except.ok.injEq, Value.dict.injEq, exists_eq_left']
    split
    · rename_i missing
      refine iff_of_true rfl fun value present => ?_
      rw [missing] at present
      cases present
    · rename_i null
      refine iff_of_true rfl fun value present => Or.inl ?_
      exact Option.some.inj (present.symm.trans null)
    · rename_i value other present
      rw [present]
      simp only [Option.some.injEq, forall_eq']
      have some : value ≠ .none := other
      split
      · rename_i price float
        exact iff_of_false nofun (by simp [some, float])
      · rename_i float
        exact iff_of_false nofun (by simp [some, float])
      · rename_i error finite float
        refine iff_of_true rfl (Or.inr ?_)
        rw [float]
        cases error with
        | typeError => exact Or.inl rfl
        | valueError => exact Or.inr rfl
        | overflowError => exact absurd rfl finite
  · rename_i value other loaded
    rw [loaded]
    refine iff_of_false nofun ?_
    rintro (failed | ⟨items, dict, -⟩)
    · cases failed
    · exact other items (Except.ok.inj dict)

theorem eq_replicate_of_snoc {first price : F} {rest : List F} (same : rest ++ [price] = first :: rest) :
    first = price ∧ rest = List.replicate rest.length price := by
  induction rest generalizing first with
  | nil => exact ⟨(List.cons.inj same).1.symm, rfl⟩
  | cons second rest ih =>
    obtain ⟨first_eq, shifted⟩ := List.cons.inj same
    obtain ⟨second_eq, rest_eq⟩ := ih shifted
    refine ⟨first_eq.symm.trans second_eq, ?_⟩
    rw [List.length_cons, List.replicate_succ, ← rest_eq, second_eq]

theorem append_same {prices : List F} {price : F} :
    append prices price = prices ↔ prices = List.replicate smaWindow price := by
  have window : smaWindow = 10 := rfl
  unfold append
  constructor
  · intro same
    have length := congrArg List.length same
    rw [List.length_drop, List.length_append, List.length_singleton] at length
    have full : prices.length = 10 := by omega
    cases prices with
    | nil => cases full
    | cons first rest =>
      have shifted : rest ++ [price] = first :: rest := by
        rw [full] at same
        exact same
      obtain ⟨rfl, rest_eq⟩ := eq_replicate_of_snoc shifted
      have nine : rest.length = 9 := Nat.succ.inj full
      rw [nine] at rest_eq
      rw [rest_eq]
      rfl
  · rintro rfl
    rfl

variable [NatCast F] [Div F] {s : Bot F} {price now : F}

theorem computeSma_full (full : s.prices = List.replicate smaWindow price) :
    py.computeSma (append s.prices price) = some (py.sum s.prices / (s.prices.length : F)) := by
  have length : s.prices.length = smaWindow := by rw [full, List.length_replicate]
  rw [append_same.mpr full, Python.computeSma, length, if_neg (by decide)]

variable [Sub F] [LT F] [DecidableLT F] [LE F] [DecidableLE F]

/-- The frame changes nothing, now or in the orders later. -/
def Ignored (s : Bot F) (raw : Raw) (now : F) : Prop :=
  ∃ t, s.step py (.frame raw now) = some t ∧
    (t.prices = s.prices ∧ t.prevAbove = s.prevAbove ∧ t.lastOrderTime = s.lastOrderTime ∧ t.connected = s.connected) ∧
    ∀ later, (run (Bot.step py) t later).map Bot.orders = (run (Bot.step py) s later).map Bot.orders

/-- The price repeats what the window already consists of, on the side last seen. -/
def Repeats (s : Bot F) (raw : Raw) : Prop :=
  ∃ price, py.read raw = .price price ∧ s.prices = List.replicate smaWindow price ∧
    s.prevAbove = some (decide (price > py.sum s.prices / (s.prices.length : F)))

theorem onPrice_prices : (s.onPrice py price now).prices = append s.prices price := by
  cases sma : py.computeSma (append s.prices price) with
  | none => rw [onPrice_filling py sma]
  | some mean =>
    rw [onPrice_full py sma]
    dsimp only
    split
    · unfold Bot.crossover
      split <;> rfl
    · rfl

theorem onPrice_same :
    ((s.onPrice py price now).prices = s.prices ∧ (s.onPrice py price now).prevAbove = s.prevAbove) ↔
      s.prices = List.replicate smaWindow price ∧
        s.prevAbove = some (decide (price > py.sum s.prices / (s.prices.length : F))) := by
  rw [onPrice_prices, append_same]
  refine and_congr_right fun full => ?_
  rw [onPrice_full py (computeSma_full py full)]
  exact eq_comm

theorem onPrice_still (full : s.prices = List.replicate smaWindow price)
    (side : s.prevAbove = some (decide (price > py.sum s.prices / (s.prices.length : F)))) :
    s.onPrice py price now = s := by
  rw [onPrice_full py (computeSma_full py full), append_same.mpr full]
  dsimp only
  rw [if_neg (by rw [side]; simp), ← side]

theorem ignored_iff (connected : s.connected = true) (raw : Raw) (now : F) :
    Ignored py s raw now ↔ Harmless py raw ∨ Repeats py s raw := by
  rw [← read_skip]
  unfold Ignored Repeats
  rw [step_frame py connected]
  cases reading : py.read raw with
  | skip => exact iff_of_true ⟨s, rfl, ⟨rfl, rfl, rfl, rfl⟩, fun _ => rfl⟩ (Or.inl rfl)
  | raises =>
    refine iff_of_false ?_ (by simp)
    rintro ⟨t, taken, ⟨-, -, -, open_still⟩, -⟩
    obtain rfl := Option.some.inj taken
    rw [connected] at open_still
    cases open_still
  | price price =>
    constructor
    · rintro ⟨t, taken, ⟨prices, side, -, -⟩, -⟩
      obtain rfl := Option.some.inj taken
      exact Or.inr ⟨price, rfl, (onPrice_same py).mp ⟨prices, side⟩⟩
    · rintro (skips | ⟨other, same, full, side⟩)
      · cases skips
      · obtain rfl := Reading.price.inj same
        refine ⟨s, congrArg some (onPrice_still py full side), ⟨rfl, rfl, rfl, rfl⟩, fun _ => rfl⟩

/-- In whatever state a frame without a price arrives, it changes nothing exactly if the
loop skips it, or takes it for a price that the window repeats already. -/
theorem junk_ignored_iff (connected : s.connected = true) (raw : Raw) (now : F) :
    (¬ Priced py raw → Ignored py s raw now) ↔ Priced py raw ∨ Harmless py raw ∨ Repeats py s raw := by
  rw [ignored_iff py connected]
  exact or_iff_not_imp_left.symm

end

/-- Python, as far as one frame with an array needs it. -/
def arrays : Python ℚ String where
  loads := fun raw => if raw = "[1]" then .ok (.list [.int 1]) else .error .jsonDecodeError
  ofInt := fun i => some i
  ofStr := fun _ => none
  isFinite := fun _ => true
  sum := List.sum

def listening : Bot ℚ := { Bot.start with connected := true }

theorem junk_ignored_iff_array :
    listening.connected = true ∧ ((¬ Priced arrays "[1]" → Ignored arrays listening "[1]" 0) ↔
      Priced arrays "[1]" ∨ Harmless arrays "[1]" ∨ Repeats arrays listening "[1]") :=
  ⟨rfl, junk_ignored_iff arrays rfl "[1]" 0⟩

theorem array_disconnects :
    ¬ ∀ events s raw now, run (Bot.step arrays) Bot.start events = some s → s.connected = true →
      ¬ Priced arrays raw → Ignored arrays s raw now := by
  intro law
  have loaded : arrays.loads "[1]" = .ok (.list [.int 1]) := rfl
  have junk : ¬ Priced arrays "[1]" := by
    rintro ⟨items, value, dict, -⟩
    rw [loaded] at dict
    cases dict
  obtain ⟨t, taken, ⟨-, -, -, connected⟩, -⟩ := law [.connect] listening "[1]" 0 rfl rfl junk
  obtain rfl : listening.lost = t := Option.some.inj taken
  cases connected

end PolyglotInfinity.BrainPython
