import Mathlib.Algebra.Order.Round
import Mathlib.Data.Rat.Floor
import Mathlib.Tactic.Linarith
import Mathlib.Tactic.NormNum
import Mathlib.Tactic.Positivity
import Mathlib.Tactic.Ring
import PolyglotInfinity.Lib.Backtracking
import PolyglotInfinity.Lib.Doubles

/-!
# The portfolio search of the Prolog server

`/api/prolog/portfolio` takes the first solution of `valid_portfolio/10`. The goals of its body
are the clause's own, in their order; the variables of the clause are the bindings.
-/

namespace PolyglotInfinity.SolverProlog

open Backtracking (Goal choose test solutions search)

/-- The variables of the clause; none is read before it is bound. -/
structure Vars where
  eqMin : ℕ := 0
  eqMax : ℕ := 0
  boMin : ℕ := 0
  boMax : ℕ := 0
  eq : ℕ := 0
  bo : ℕ := 0
  al : ℕ := 0
  re : ℕ := 0
  risk : Extended := 0
  deriving DecidableEq

def weightCandidates : List ℕ := [0, 10, 20, 30, 40, 50, 60, 70, 80, 90, 100]

structure PortfolioType where
  name : String
  eqMin : ℕ
  eqMax : ℕ
  boMin : ℕ
  boMax : ℕ

def portfolioTypes : List PortfolioType := [
  ⟨"aggressive", 30, 70, 10, 40⟩,
  ⟨"balanced", 20, 50, 20, 50⟩,
  ⟨"conservative", 5, 30, 30, 70⟩]

/-- A number for each asset: equity, bond, alternative, cash. -/
structure Assets where
  equity : ℚ
  bond : ℚ
  alternative : ℚ
  cash : ℚ

def expectedReturn : Assets := ⟨12, 4.5, 7, 2⟩

def assetVolatility : Assets := ⟨22, 6, 14, 0.5⟩

variable (fmt : Doubles)

/-- `(Eq * VEq + Bo * VBo + Al * VAl + Re * VRe) / 100`, rounded at each operation. -/
def weighted (a : Assets) (eq bo al re : ℕ) : Extended :=
  let equity := fmt.double (eq * a.equity)
  let bond := fmt.double (bo * a.bond)
  let alternative := fmt.double (al * a.alternative)
  let cash := fmt.double (re * a.cash)
  fmt.round (fmt.round (fmt.round (fmt.round (equity + bond) + alternative) + cash) * .fin (1 / 100))

def portfolioRisk (eq bo al re : ℕ) : Extended := weighted fmt assetVolatility eq bo al re

def portfolioReturn (eq bo al re : ℕ) : Extended := weighted fmt expectedReturn eq bo al re

def callType (type : String) : Goal Vars := fun v =>
  (portfolioTypes.filter fun t => t.name = type).map fun t =>
    { v with eqMin := t.eqMin, eqMax := t.eqMax, boMin := t.boMin, boMax := t.boMax }

def callRisk : Goal Vars := fun v => [{ v with risk := portfolioRisk fmt v.eq v.bo v.al v.re }]

/-- The body of `valid_portfolio` behind the four candidates. -/
def constraints (riskMax : Extended) : List (Goal Vars) := [
  test fun v => v.eq + v.bo + v.al + v.re = 100,
  test fun v => v.eqMin ≤ v.eq, test fun v => v.eq ≤ v.eqMax,
  test fun v => v.boMin ≤ v.bo, test fun v => v.bo ≤ v.boMax,
  test fun v => 5 ≤ v.al, test fun v => v.re ≤ 20,
  callRisk fmt,
  test fun v => v.risk ≤ riskMax]

def validPortfolio (type : String) (riskMax : Extended) : List (Goal Vars) :=
  callType type ::
    choose weightCandidates (fun v w => { v with eq := w }) :: choose weightCandidates (fun v w => { v with bo := w }) ::
    choose weightCandidates (fun v w => { v with al := w }) :: choose weightCandidates (fun v w => { v with re := w }) ::
    constraints fmt riskMax

/-- `round(X * 100) / 100` of a number that is not negative; there is no integer near an infinity. -/
def hundredths (x : Extended) : Option Extended :=
  match fmt.round (x * .fin 100) with
  | .fin q => some (fmt.double (round q / 100))
  | _ => none

inductive Reply where
  | found (type : String) (v : Vars) (riskMax risk ret : Extended)
  | notFound (type : String) (riskMax : Extended)
  deriving DecidableEq

/-- What the handler replies, by what the condition of its `->` finds. -/
def reply (type : String) (riskMax : Extended) : Option Vars → Option Reply
  | some v => do
    let roundRisk ← hundredths fmt (portfolioRisk fmt v.eq v.bo v.al v.re)
    let roundRet ← hundredths fmt (portfolioReturn fmt v.eq v.bo v.al v.re)
    return .found type v riskMax roundRisk roundRet
  | none => some (.notFound type riskMax)

/-- With so much fuel for the search; `riskMax` is what `atom_number` makes of the parameter. -/
def handlePortfolio (fuel : ℕ) (type : String) (riskMax : Option Extended) : Option Reply := do
  let riskMax ← riskMax
  let answer ← search fuel [⟨validPortfolio fmt type riskMax, {}⟩]
  reply fmt type riskMax answer.bindings

/-! ## The solutions -/

/-- A format that has the halves of the sums of the percentages with the volatilities or returns. -/
def HasHalves : Prop := ∀ n : ℕ, n ≤ 4400 → fmt.double (n / 2) = .fin (n / 2)

/-- A hundredth of the volatilities' weighted sum. -/
def Vars.exactRisk (v : Vars) : ℚ := (44 * v.eq + 12 * v.bo + 28 * v.al + v.re : ℕ) / 2 / 100

/-- The portfolio with these weights, of a type. -/
def portfolio (t : PortfolioType) (eq bo al re : ℕ) : Vars :=
  { eqMin := t.eqMin, eqMax := t.eqMax, boMin := t.boMin, boMax := t.boMax, eq, bo, al, re
    risk := fmt.double ((44 * eq + 12 * bo + 28 * al + re : ℕ) / 2 / 100) }

structure Meets (type : String) (riskMax : Extended) (v : Vars) : Prop where
  type : ∃ t ∈ portfolioTypes, t.name = type ∧ v.eqMin = t.eqMin ∧ v.eqMax = t.eqMax ∧ v.boMin = t.boMin ∧
    v.boMax = t.boMax
  equity : v.eq ∈ weightCandidates ∧ v.eqMin ≤ v.eq ∧ v.eq ≤ v.eqMax
  bond : v.bo ∈ weightCandidates ∧ v.boMin ≤ v.bo ∧ v.bo ≤ v.boMax
  alternative : v.al ∈ weightCandidates ∧ 5 ≤ v.al
  cash : v.re ∈ weightCandidates ∧ v.re ≤ 20
  whole : v.eq + v.bo + v.al + v.re = 100
  risk : v.risk = fmt.double v.exactRisk ∧ v.risk ≤ riskMax

/-- In the order in which the clause enumerates the weights. -/
def Vars.Before (v w : Vars) : Prop :=
  v.eq < w.eq ∨ v.eq = w.eq ∧ (v.bo < w.bo ∨ v.bo = w.bo ∧ (v.al < w.al ∨ v.al = w.al ∧ v.re < w.re))

variable {fmt} {type : String} {riskMax : Extended} {v w : Vars}

/-- Where every product and sum is a half, only the quotient is rounded. -/
theorem weighted_eq {e b l c eq bo al re : ℕ} (halves : HasHalves fmt) (small : e ≤ 44 ∧ b ≤ 44 ∧ l ≤ 44 ∧ c ≤ 44)
    (whole : eq + bo + al + re = 100) : weighted fmt ⟨e / 2, b / 2, l / 2, c / 2⟩ eq bo al re =
      fmt.double ((e * eq + b * bo + l * al + c * re : ℕ) / 2 / 100) := by
  obtain ⟨he, hb, hl, hc⟩ := small
  have equity := Nat.mul_le_mul_right eq he
  have bond := Nat.mul_le_mul_right bo hb
  have alternative := Nat.mul_le_mul_right al hl
  have cash := Nat.mul_le_mul_right re hc
  have product {x n : ℕ} (le : n * x ≤ 4400) : fmt.double (x * (n / 2)) = .fin ((n * x : ℕ) / 2) := by
    rw [← halves _ le]
    congr 1
    push_cast
    ring
  have sum {m n : ℕ} (le : m + n ≤ 4400) : fmt.round (.fin (m / 2) + .fin (n / 2)) = .fin ((m + n : ℕ) / 2) := by
    rw [← halves _ le]
    show fmt.double (m / 2 + n / 2) = _
    congr 1
    push_cast
    ring
  simp only [weighted]
  rw [product (by omega), product (by omega), product (by omega), product (by omega), sum (by omega), sum (by omega),
    sum (by omega)]
  show fmt.double (_ * (1 / 100)) = _
  congr 1
  ring

theorem portfolioRisk_eq (halves : HasHalves fmt) (whole : v.eq + v.bo + v.al + v.re = 100) :
    portfolioRisk fmt v.eq v.bo v.al v.re = fmt.double v.exactRisk := by
  have table : assetVolatility = ⟨(44 : ℕ) / 2, (12 : ℕ) / 2, (28 : ℕ) / 2, (1 : ℕ) / 2⟩ := by norm_num [assetVolatility]
  rw [portfolioRisk, table, weighted_eq halves (by decide) whole, Nat.one_mul, Vars.exactRisk]

theorem portfolioReturn_eq (halves : HasHalves fmt) (whole : v.eq + v.bo + v.al + v.re = 100) :
    portfolioReturn fmt v.eq v.bo v.al v.re =
      fmt.double ((24 * v.eq + 9 * v.bo + 14 * v.al + 4 * v.re : ℕ) / 2 / 100) := by
  have table : expectedReturn = ⟨(24 : ℕ) / 2, (9 : ℕ) / 2, (14 : ℕ) / 2, (4 : ℕ) / 2⟩ := by norm_num [expectedReturn]
  rw [portfolioReturn, table, weighted_eq halves (by decide) whole]

theorem mem_solutions_callRisk {goals : List (Goal Vars)} : w ∈ solutions (callRisk fmt :: goals) v ↔
    w ∈ solutions goals { v with risk := portfolioRisk fmt v.eq v.bo v.al v.re } := by
  simp [Backtracking.mem_solutions_cons, callRisk]

theorem mem_solutions_callType {goals : List (Goal Vars)} : w ∈ solutions (callType type :: goals) v ↔
    ∃ t ∈ portfolioTypes, t.name = type ∧
      w ∈ solutions goals { v with eqMin := t.eqMin, eqMax := t.eqMax, boMin := t.boMin, boMax := t.boMax } := by
  simp [Backtracking.mem_solutions_cons, callType, and_assoc]

theorem mem_solutions_constraints (halves : HasHalves fmt) : w ∈ solutions (constraints fmt riskMax) v ↔
    v.eq + v.bo + v.al + v.re = 100 ∧ v.eqMin ≤ v.eq ∧ v.eq ≤ v.eqMax ∧ v.boMin ≤ v.bo ∧ v.bo ≤ v.boMax ∧
      5 ≤ v.al ∧ v.re ≤ 20 ∧ fmt.double v.exactRisk ≤ riskMax ∧ w = { v with risk := fmt.double v.exactRisk } := by
  unfold constraints
  simp only [Backtracking.mem_solutions_test, mem_solutions_callRisk, Backtracking.mem_solutions_nil]
  refine and_congr_right fun whole => ?_
  rw [portfolioRisk_eq halves whole]

theorem mem_solutions_iff (halves : HasHalves fmt) :
    v ∈ solutions (validPortfolio fmt type riskMax) {} ↔ Meets fmt type riskMax v := by
  unfold validPortfolio
  simp only [mem_solutions_callType, Backtracking.mem_solutions_choose, mem_solutions_constraints halves]
  constructor
  · rintro ⟨t, member, name, eq, inEq, bo, inBo, al, inAl, re, inRe, whole, eqMin, eqMax, boMin, boMax, five, twenty,
      le, rfl⟩
    exact ⟨⟨t, member, name, rfl, rfl, rfl, rfl⟩, ⟨inEq, eqMin, eqMax⟩, ⟨inBo, boMin, boMax⟩, ⟨inAl, five⟩,
      ⟨inRe, twenty⟩, whole, rfl, le⟩
  · rintro ⟨⟨t, member, name, eqMin, eqMax, boMin, boMax⟩, equity, bond, alternative, cash, whole, risk, le⟩
    refine ⟨t, member, name, v.eq, equity.1, v.bo, bond.1, v.al, alternative.1, v.re, cash.1, whole, ?_⟩
    rw [eqMin, eqMax] at equity
    rw [boMin, boMax] at bond
    refine ⟨equity.2.1, equity.2.2, bond.2.1, bond.2.2, alternative.2, cash.2, ?_, ?_⟩
    · exact risk ▸ le
    · rw [← eqMin, ← eqMax, ← boMin, ← boMax]
      exact congrArg (fun risk => { v with risk }) risk

theorem constraints_pairwise {R : Vars → Vars → Prop} : (solutions (constraints fmt riskMax) v).Pairwise R := by
  unfold constraints
  iterate 7 apply Backtracking.test_pairwise
  rw [solutions, callRisk, List.flatMap_singleton]
  exact Backtracking.test_pairwise (List.pairwise_singleton _ _)

/-- The clause gives its solutions in the order of the weights, each once. -/
theorem solutions_ordered (halves : HasHalves fmt) :
    (solutions (validPortfolio fmt type riskMax) {}).Pairwise Vars.Before := by
  have ascending : weightCandidates.Pairwise (· < ·) := by decide
  rw [validPortfolio, solutions, List.pairwise_flatMap]
  constructor
  · intro v _
    refine List.Pairwise.imp ?_ (@Backtracking.choose_pairwise ℕ Vars _ _ _ _ _ Vars.eq _ ascending ?_ fun x _ =>
      @Backtracking.choose_pairwise ℕ Vars _ _ _ _ _ Vars.bo _ ascending ?_ fun y _ =>
      @Backtracking.choose_pairwise ℕ Vars _ _ _ _ _ Vars.al _ ascending ?_ fun z _ =>
      @Backtracking.choose_pairwise ℕ Vars _ _ _ _ _ Vars.re (fun _ _ => False) ascending ?_ fun u _ =>
      constraints_pairwise)
    · intro v w before
      simpa [Vars.Before] using before
    all_goals simp only [Backtracking.mem_solutions_choose, mem_solutions_constraints halves]
    · rintro x - w ⟨_, -, _, -, _, -, -, -, -, -, -, -, -, -, rfl⟩
      rfl
    · rintro y - w ⟨_, -, _, -, -, -, -, -, -, -, -, -, rfl⟩
      rfl
    · rintro z - w ⟨_, -, -, -, -, -, -, -, -, -, rfl⟩
      rfl
    · rintro u - w ⟨-, -, -, -, -, -, -, -, rfl⟩
      rfl
  · -- no two types have the name
    have distinct : portfolioTypes.Pairwise fun t u => t.name ≠ u.name := by decide
    rw [callType, List.pairwise_map, List.pairwise_filter]
    refine distinct.imp fun other first second => absurd ?_ other
    rw [of_decide_eq_true first, of_decide_eq_true second]

def leastRisk (type : String) : Option ℚ :=
  if type = "aggressive" then some 10.5
  else if type = "balanced" then some 8.9
  else if type = "conservative" then some 7.3
  else none

theorem ten_le {w : ℕ} (candidate : w ∈ weightCandidates) (five : 5 ≤ w) : 10 ≤ w := by
  have each : ∀ w ∈ weightCandidates, 5 ≤ w → 10 ≤ w := by decide
  exact each w candidate five

theorem le_exactRisk {n : ℕ} (le : n ≤ 44 * v.eq + 12 * v.bo + 28 * v.al + v.re) : (n : ℚ) / 2 / 100 ≤ v.exactRisk := by
  unfold Vars.exactRisk
  gcongr

theorem least_le (meets : Meets fmt type riskMax v) : ∃ least, leastRisk type = some least ∧ least ≤ v.exactRisk := by
  obtain ⟨⟨t, member, rfl, eqMin, eqMax, boMin, boMax⟩, equity, bond, alternative, cash, whole, -⟩ := meets
  have al := ten_le alternative.1 alternative.2
  have re := cash.2
  rw [eqMin, eqMax] at equity
  rw [boMin, boMax] at bond
  simp only [portfolioTypes, List.mem_cons, List.not_mem_nil, or_false] at member
  rcases member with rfl | rfl | rfl <;> dsimp only at equity bond
  · refine ⟨10.5, rfl, le_trans ?_ (@le_exactRisk v 2100 (by omega))⟩
    norm_num
  · refine ⟨8.9, rfl, le_trans ?_ (@le_exactRisk v 1780 (by omega))⟩
    norm_num
  · have eq := ten_le equity.1 equity.2.1
    refine ⟨7.3, rfl, le_trans ?_ (@le_exactRisk v 1460 (by omega))⟩
    norm_num

theorem portfolio_meets {t : PortfolioType} {eq bo al re : ℕ} (member : t ∈ portfolioTypes)
    (grid : ∀ w ∈ [eq, bo, al, re], w ∈ weightCandidates) (whole : eq + bo + al + re = 100)
    (equity : t.eqMin ≤ eq ∧ eq ≤ t.eqMax) (bond : t.boMin ≤ bo ∧ bo ≤ t.boMax) (five : 5 ≤ al) (twenty : re ≤ 20)
    (risk : fmt.double ((44 * eq + 12 * bo + 28 * al + re : ℕ) / 2 / 100) ≤ riskMax) :
    Meets fmt t.name riskMax (portfolio fmt t eq bo al re) where
  type := ⟨t, member, rfl, rfl, rfl, rfl, rfl⟩
  equity := ⟨grid eq (by simp), equity⟩
  bond := ⟨grid bo (by simp), bond⟩
  alternative := ⟨grid al (by simp), five⟩
  cash := ⟨grid re (by simp), twenty⟩
  whole := whole
  risk := ⟨rfl, risk⟩

theorem exists_meets_iff : (∃ v, Meets fmt type riskMax v) ↔
    ∃ least, leastRisk type = some least ∧ fmt.double least ≤ riskMax := by
  constructor
  · rintro ⟨v, meets⟩
    obtain ⟨least, row, le⟩ := least_le meets
    exact ⟨least, row, Extended.le_le (fmt.mono le) (meets.risk.1 ▸ meets.risk.2)⟩
  · rintro ⟨least, row, le⟩
    unfold leastRisk at row
    split at row
    · rename_i aggressive
      obtain rfl := Option.some.inj row
      refine ⟨_, aggressive ▸ @portfolio_meets fmt riskMax ⟨"aggressive", 30, 70, 10, 40⟩ 30 40 10 20
        (by simp [portfolioTypes]) (by decide) (by decide) (by decide) (by decide) (by decide) (by decide) ?_⟩
      norm_num at le ⊢
      exact le
    split at row
    · rename_i balanced
      obtain rfl := Option.some.inj row
      refine ⟨_, balanced ▸ @portfolio_meets fmt riskMax ⟨"balanced", 20, 50, 20, 50⟩ 20 50 10 20
        (by simp [portfolioTypes]) (by decide) (by decide) (by decide) (by decide) (by decide) (by decide) ?_⟩
      norm_num at le ⊢
      exact le
    split at row
    · rename_i conservative
      obtain rfl := Option.some.inj row
      refine ⟨_, conservative ▸ @portfolio_meets fmt riskMax ⟨"conservative", 5, 30, 30, 70⟩ 10 60 10 20
        (by simp [portfolioTypes]) (by decide) (by decide) (by decide) (by decide) (by decide) (by decide) ?_⟩
      norm_num at le ⊢
      exact le
    · cases row

/-! ## The reply -/

theorem finite_between {a b : ℚ} {x : Extended} (low : .fin a ≤ x) (high : x ≤ .fin b) :
    ∃ q, x = .fin q ∧ a ≤ q ∧ q ≤ b := by
  cases x with
  | fin q => exact ⟨q, rfl, low, high⟩
  | posInf | nan => exact high.elim
  | negInf => exact low.elim

theorem double_between {q : ℚ} {n : ℕ} (halves : HasHalves fmt) (bound : n ≤ 4400) (low : 0 ≤ q) (high : q ≤ n / 2) :
    ∃ r, fmt.double q = .fin r ∧ 0 ≤ r ∧ r ≤ n / 2 := by
  have zero : fmt.double 0 = .fin 0 := by simpa using halves 0 (Nat.zero_le _)
  exact finite_between (zero ▸ fmt.mono low) (halves n bound ▸ fmt.mono high)

theorem hundredths_some {n : ℕ} (halves : HasHalves fmt) (bound : n ≤ 4400) :
    ∃ x, hundredths fmt (fmt.double (n / 2 / 100)) = some x := by
  have small : (n : ℚ) ≤ 4400 := by exact_mod_cast bound
  obtain ⟨r, is, low, high⟩ := @double_between fmt (n / 2 / 100) 44 halves (by decide) (by positivity)
    (by norm_num; linarith)
  obtain ⟨p, scaled, -⟩ := @double_between fmt (r * 100) 4400 halves le_rfl (by positivity)
    (by norm_num at high ⊢; linarith)
  refine ⟨fmt.double (round p / 100), ?_⟩
  have product : fmt.round (.fin r * .fin 100) = .fin p := scaled
  rw [hundredths, is, product]

theorem reply_some (halves : HasHalves fmt) (whole : v.eq + v.bo + v.al + v.re = 100) :
    ∃ risk ret, reply fmt type riskMax (some v) = some (.found type v riskMax risk ret) := by
  obtain ⟨risk, isRisk⟩ := @hundredths_some fmt (44 * v.eq + 12 * v.bo + 28 * v.al + v.re) halves (by omega)
  obtain ⟨ret, isRet⟩ := @hundredths_some fmt (24 * v.eq + 9 * v.bo + 14 * v.al + 4 * v.re) halves (by omega)
  refine ⟨risk, ret, ?_⟩
  rw [reply, portfolioRisk_eq halves whole, portfolioReturn_eq halves whole, Vars.exactRisk, isRisk, isRet]
  rfl

/-- The search takes the first portfolio that meets the constraints, and finds none exactly if the
limit is below the type's least risk. -/
theorem portfolio_search (halves : HasHalves fmt) (type : String) (riskMax : Extended) : ∃ enough r,
    (∀ fuel, enough ≤ fuel → handlePortfolio fmt fuel type (some riskMax) = some r) ∧
      ((∃ least, leastRisk type = some least ∧ fmt.double least ≤ riskMax) ∧
          (∃ v risk ret, r = .found type v riskMax risk ret ∧ Meets fmt type riskMax v ∧
            ∀ w, Meets fmt type riskMax w → w = v ∨ v.Before w) ∨
        (∀ least, leastRisk type = some least → ¬ fmt.double least ≤ riskMax) ∧ r = .notFound type riskMax) := by
  obtain ⟨enough, answer, found, bindings⟩ := Backtracking.search_first (validPortfolio fmt type riskMax) {}
  have replies {fuel : ℕ} (le : enough ≤ fuel) : handlePortfolio fmt fuel type (some riskMax) =
      reply fmt type riskMax (solutions (validPortfolio fmt type riskMax) {}).head? := by
    obtain ⟨m, rfl⟩ := Nat.exists_eq_add_of_le le
    simp [handlePortfolio, found m, bindings]
  cases all : solutions (validPortfolio fmt type riskMax) {} with
  | nil =>
    have none (v : Vars) : ¬ Meets fmt type riskMax v := fun meets => by
      have member := (mem_solutions_iff halves).mpr meets
      rw [all] at member
      cases member
    refine ⟨enough, .notFound type riskMax, fun fuel le => by rw [replies le, all]; rfl,
      .inr ⟨fun least row le => ?_, rfl⟩⟩
    obtain ⟨v, meets⟩ := exists_meets_iff.mpr ⟨least, row, le⟩
    exact none v meets
  | cons v others =>
    have meets : Meets fmt type riskMax v := (mem_solutions_iff halves).mp (all ▸ List.mem_cons_self)
    obtain ⟨risk, ret, is⟩ := @reply_some fmt type riskMax v halves meets.whole
    refine ⟨enough, .found type v riskMax risk ret, fun fuel le => by rw [replies le, all]; exact is,
      .inl ⟨exists_meets_iff.mp ⟨v, meets⟩, v, risk, ret, rfl, meets, fun w other => ?_⟩⟩
    have member := (mem_solutions_iff halves).mpr other
    have ordered := @solutions_ordered fmt type riskMax halves
    rw [all] at member ordered
    exact (List.mem_cons.mp member).imp_right ((List.pairwise_cons.mp ordered).1 w)

theorem portfolio_search_exactly : HasHalves Doubles.exactly ∧ ∃ enough r,
    ∀ fuel, enough ≤ fuel → handlePortfolio Doubles.exactly fuel "balanced" (some (.fin 12)) = some r ∧
      r ≠ .notFound "balanced" (.fin 12) := by
  have halves : HasHalves Doubles.exactly := fun _ _ => rfl
  obtain ⟨enough, r, replies, ⟨-, v, risk, ret, rfl, -⟩ | ⟨none, -⟩⟩ := portfolio_search halves "balanced" (.fin 12)
  · exact ⟨halves, enough, _, fun fuel le => ⟨replies fuel le, nofun⟩⟩
  · refine absurd ?_ (none 8.9 rfl)
    show (8.9 : ℚ) ≤ 12
    norm_num

end PolyglotInfinity.SolverProlog
