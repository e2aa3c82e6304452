import Mathlib.Algebra.Group.Nat.Even
import Mathlib.Data.List.Chain
import PolyglotInfinity.BrainPython.Autobot
import PolyglotInfinity.Lib.Transition

/-!
# The sides of the bot's orders

Along a run, the side that the price was last seen on against the side of the last
order: each suppressed crossover turns the one and not the other.
-/

namespace PolyglotInfinity.BrainPython

open Transition (run Along Always)

section

variable {F Raw : Type} (py : Python F Raw)

def Alternates (s : Bot F) : Prop := (s.orders.map Order.side).IsChain (· ≠ ·)

theorem alternates_snoc {orders : List (Order F)} {order : Order F} :
    ((orders ++ [order]).map Order.side).IsChain (· ≠ ·) ↔
      (orders.map Order.side).IsChain (· ≠ ·) ∧ ∀ last ∈ orders.getLast?, last.side ≠ order.side := by
  simp [List.isChain_append]

theorem side_apart {side : Side} {above : Bool} {even : Prop} (kept : side = .buy ↔ ((!above) = true ↔ even)) :
    side ≠ (if above then .buy else .sell) ↔ even := by
  cases above <;> cases side <;> simp_all

variable [NatCast F] [Sub F] [Div F] [LT F] [DecidableLT F] [LE F] [DecidableLE F]

/-- The price crosses the average of the window that it completes. -/
def Crosses (s : Bot F) (price : F) : Prop :=
  ∃ sma, py.computeSma (append s.prices price) = some sma ∧ s.prevAbove = some !decide (price > sma)

/-- Where a crossover makes an order that is not the first, the cooldown has suppressed
an even number of them since the last one. -/
def Balanced (s : Bot F) : Event F Raw → Prop
  | .frame raw now => ∀ price, py.read raw = .price price → Crosses py s price →
      orderCooldown ≤ now - s.lastOrderTime → s.orders ≠ [] → Even s.suppressed
  | _ => True

/-- The price was last seen on the side of the last order, but for the suppressed crossovers. -/
def Tracks (s : Bot F) : Prop :=
  ∀ order ∈ s.orders.getLast?, ∃ above,
    s.prevAbove = some above ∧ (order.side = .buy ↔ (above = true ↔ Even s.suppressed))

variable {s t : Bot F} {price now : F}

/-- Without a crossover nothing is ordered, and the side does not change once it is known. -/
theorem onPrice_quiet (now : F) (quiet : ¬ Crosses py s price) :
    (s.onPrice py price now).orders = s.orders ∧ (s.onPrice py price now).suppressed = s.suppressed ∧
      (s.prevAbove = none ∨ (s.onPrice py price now).prevAbove = s.prevAbove) := by
  cases sma : py.computeSma (append s.prices price) with
  | none =>
    rw [onPrice_filling py sma]
    exact ⟨rfl, rfl, Or.inr rfl⟩
  | some mean =>
    have same : ¬ s.prevAbove = some !decide (price > mean) := fun crossed => quiet ⟨mean, sma, crossed⟩
    rw [onPrice_full py sma]
    dsimp only
    rw [if_neg same]
    refine ⟨rfl, rfl, ?_⟩
    cases before : s.prevAbove with
    | none => exact Or.inl rfl
    | some prev =>
      right
      rw [before, Option.some.injEq] at same
      have kept : decide (price > mean) = prev := by
        cases prev <;> cases side : decide (price > mean) <;> simp_all
      exact congrArg some kept

theorem onPrice_tracks (tracks : Tracks s) : Tracks (s.onPrice py price now) := by
  by_cases crosses : Crosses py s price
  · obtain ⟨sma, full, crossed⟩ := crosses
    by_cases cool : orderCooldown ≤ now - s.lastOrderTime
    · rw [onPrice_ordered py full crossed cool]
      intro order last
      rw [List.getLast?_concat, Option.mem_some_iff] at last
      subst order
      refine ⟨_, rfl, ?_⟩
      cases decide (price > sma) <;> simp
    · rw [onPrice_suppressed py full crossed cool]
      intro order last
      obtain ⟨above, side, kept⟩ := tracks order last
      obtain rfl := Option.some.inj (side.symm.trans crossed)
      refine ⟨_, rfl, ?_⟩
      dsimp only
      rw [kept, Nat.even_add_one]
      cases decide (price > sma) <;> simp
  · obtain ⟨orders, suppressed, known⟩ := onPrice_quiet py now crosses
    intro order last
    rw [orders] at last
    obtain ⟨above, side, kept⟩ := tracks order last
    rcases known with new | same
    · rw [new] at side
      cases side
    · exact ⟨above, same.trans side, suppressed ▸ kept⟩

theorem onPrice_alternates (tracks : Tracks s) (alternates : Alternates s) :
    Alternates (s.onPrice py price now) ↔
      (Crosses py s price → orderCooldown ≤ now - s.lastOrderTime → s.orders ≠ [] → Even s.suppressed) := by
  by_cases crosses : Crosses py s price
  · obtain ⟨sma, full, crossed⟩ := crosses
    have crosses : Crosses py s price := ⟨sma, full, crossed⟩
    by_cases cool : orderCooldown ≤ now - s.lastOrderTime
    · rw [onPrice_ordered py full crossed cool]
      unfold Alternates at alternates ⊢
      rw [alternates_snoc]
      cases last : s.orders.getLast? with
      | none =>
        have empty := List.getLast?_eq_none_iff.mp last
        exact iff_of_true ⟨alternates, nofun⟩ fun _ _ some => absurd empty some
      | some order =>
        obtain ⟨above, side, kept⟩ := tracks order last
        obtain rfl := Option.some.inj (side.symm.trans crossed)
        have some : s.orders ≠ [] := by
          intro empty
          rw [empty] at last
          cases last
        have apart := side_apart kept
        refine ⟨fun law _ _ _ => apart.mp (law.2 order rfl), fun law => ⟨alternates, ?_⟩⟩
        intro last same
        obtain rfl := Option.mem_some_iff.mp same
        exact apart.mpr (law crosses cool some)
    · rw [onPrice_suppressed py full crossed cool]
      exact iff_of_true alternates fun _ ready => absurd ready cool
  · have quiet := onPrice_quiet py now crosses
    unfold Alternates at alternates ⊢
    rw [quiet.1]
    exact iff_of_true alternates fun crossed => absurd crossed crosses

/-- Only a frame with a price touches the orders and what the next crossover depends on. -/
theorem step_cases {e : Event F Raw} (taken : s.step py e = some t) :
    (t.orders = s.orders ∧ t.prevAbove = s.prevAbove ∧ t.suppressed = s.suppressed ∧ Balanced py s e) ∨
      ∃ raw now price, e = .frame raw now ∧ py.read raw = .price price ∧ t = s.onPrice py price now := by
  cases e with
  | frame raw now =>
    obtain ⟨connected, -⟩ := Option.ite_none_right_eq_some.mp taken
    rw [step_frame py connected] at taken
    cases reading : py.read raw with
    | price price =>
      rw [reading] at taken
      exact Or.inr ⟨raw, now, price, rfl, reading, (Option.some.inj taken).symm⟩
    | skip | raises =>
      rw [reading] at taken
      obtain rfl := Option.some.inj taken
      refine Or.inl ⟨rfl, rfl, rfl, fun price read => ?_⟩
      rw [reading] at read
      cases read
  | connect | refused =>
    obtain ⟨-, taken⟩ := Option.ite_none_left_eq_some.mp taken
    obtain rfl := Option.some.inj taken
    exact Or.inl ⟨rfl, rfl, rfl, trivial⟩
  | closed | dropped =>
    obtain ⟨-, rfl⟩ := Option.ite_some_none_eq_some.mp taken
    exact Or.inl ⟨rfl, rfl, rfl, trivial⟩

theorem step_tracks {e : Event F Raw} (tracks : Tracks s) (taken : s.step py e = some t) : Tracks t := by
  rcases step_cases py taken with ⟨orders, side, suppressed, -⟩ | ⟨raw, now, price, -, -, rfl⟩
  · unfold Tracks
    rw [orders, side, suppressed]
    exact tracks
  · exact onPrice_tracks py tracks

theorem step_alternates {e : Event F Raw} (tracks : Tracks s) (alternates : Alternates s)
    (taken : s.step py e = some t) : Alternates t ↔ Balanced py s e := by
  rcases step_cases py taken with ⟨orders, -, -, balanced⟩ | ⟨raw, now, price, rfl, reading, rfl⟩
  · unfold Alternates at alternates ⊢
    rw [orders]
    exact iff_of_true alternates balanced
  · rw [onPrice_alternates py tracks alternates]
    constructor
    · intro law other read
      obtain rfl := Reading.price.inj (reading.symm.trans read)
      exact law
    · intro law
      exact law price reading

/-- The sides alternate in every state of a run exactly if every order but the first
comes after an even number of suppressed crossovers. -/
theorem sides_alternate_iff (events : List (Event F Raw)) :
    Always (Bot.step py) Alternates Bot.start events ↔ Along (Bot.step py) (Balanced py) Bot.start events := by
  refine Transition.always_iff_along (fun _ _ _ tracks _ taken => step_tracks py tracks taken)
    (fun _ _ _ tracks alternates taken => step_alternates py tracks alternates taken) ?_ List.isChain_nil
  intro order last
  cases last

end

/-- Python, as far as three frames with integer prices need it. -/
def quotes : Python ℚ String where
  loads := fun raw =>
    if raw = "\x7b\"price\": 8\x7d" then .ok (.dict [("price", .int 8)])
    else if raw = "\x7b\"price\": 10\x7d" then .ok (.dict [("price", .int 10)])
    else if raw = "\x7b\"price\": 12\x7d" then .ok (.dict [("price", .int 12)])
    else .error .jsonDecodeError
  ofInt := fun i => some i
  ofStr := fun _ => none
  isFinite := fun _ => true
  sum := List.sum

/-- Ten prices fill the window; the crossover after the first order comes a second later. -/
def straddle : List (Event ℚ String) :=
  .connect :: List.replicate 10 (.frame "\x7b\"price\": 10\x7d" 0) ++
    [.frame "\x7b\"price\": 12\x7d" 100, .frame "\x7b\"price\": 8\x7d" 101, .frame "\x7b\"price\": 12\x7d" 103]

theorem two_buys_in_a_row : ¬ ∀ events, Always (Bot.step quotes) Alternates Bot.start events := by
  intro law
  have sides : (run (Bot.step quotes) Bot.start straddle).map (fun s => s.orders.map Order.side) =
      some [.buy, .buy] := by
    decide +kernel
  obtain ⟨s, ran, orders⟩ := Option.map_eq_some_iff.mp sides
  have alternates := Transition.always_last (law straddle) ran
  unfold Alternates at alternates
  rw [orders] at alternates
  revert alternates
  decide

end PolyglotInfinity.BrainPython
