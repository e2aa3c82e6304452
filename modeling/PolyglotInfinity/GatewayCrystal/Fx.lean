import PolyglotInfinity.Lib.FanIn
import PolyglotInfinity.Lib.Libm
import PolyglotInfinity.Lib.Moments

/-!
# Exchange rates from many fibers

The Crystal gateway asks all sources at once. Each fiber sends its rate into a
channel with a place for each, and the handlers take them in the order in which
they come. The statistics are exact: in floating point the order of a sum may
show in its last digits, which the reply rounds off.
-/

namespace PolyglotInfinity.GatewayCrystal

open FanIn (Collects)
open Transition (run)

section

variable {F : Type} [Field F] [LinearOrder F]

structure FxSource (F : Type) where
  name : String
  latencyMs : ℤ
  rate : F
  weight : F

structure FxResult (F : Type) where
  source : String
  rate : F
  elapsedMs : ℤ
  ok : Bool

def fxSources : List (FxSource ℚ) := [
  ⟨"Bloomberg-Sim", 12, 1385.50, 0.40⟩,
  ⟨"Reuters-Sim", 28, 1384.20, 0.30⟩,
  ⟨"ExchangeRate-API", 8, 1386.00, 0.20⟩,
  ⟨"FallbackCache", 2, 1383.00, 0.10⟩]

/-- What the fiber of a source sends. `elapsed` is the time that it measures. -/
def fiber (elapsed : String → ℤ) (src : FxSource F) : FxResult F := ⟨src.name, src.rate, elapsed src.name, true⟩

/-- The fiber with a number. -/
def fiberAt (sources : List (FxSource F)) (elapsed : String → ℤ) (i : Fin sources.length) : FxResult F :=
  fiber elapsed (sources.get i)

def mean (arr : List F) : F := arr.sum / arr.length

def stdDev (lib : Libm F) (arr : List F) : F :=
  let m := mean arr
  lib.sqrt ((arr.map fun x => (x - m) ^ 2).sum / arr.length)

/-- The weight of a source by name, 0 if there is none. -/
def weightOf (sources : List (FxSource F)) (name : String) : F :=
  match sources.find? (·.name == name) with
  | some src => src.weight
  | none => 0

def weightedRate (sources : List (FxSource F)) (results : List (FxResult F)) : F :=
  (results.map fun r => weightOf sources r.source * r.rate).sum / (sources.map (·.weight)).sum

structure FxStats (F : Type) where
  collectedMs : ℤ
  sources : ℕ
  weightedAvg : F
  mean : F
  stdDev : F
  min : F
  max : F
  spread : F
  spreadBps : F

/-- What `/api/crystal/stats` works out of the results; `none` is the exception of an empty `min`. -/
def fxStats (lib : Libm F) (sources : List (FxSource F)) (totalMs : ℤ) (results : List (FxResult F)) :
    Option (FxStats F) := do
  let rates := results.map (·.rate)
  let rMean := mean rates
  let rMin ← rates.min?
  let rMax ← rates.max?
  let spread := rMax - rMin
  return {
    collectedMs := totalMs
    sources := results.length
    weightedAvg := weightedRate sources results
    mean := rMean
    stdDev := stdDev lib rates
    min := rMin
    max := rMax
    spread
    spreadBps := spread / rMean * 10000.0 }

/-- `text` writes a number, `round` rounds it to so many digits. -/
def FxStats.json (text : F → String) (round : ℕ → F → F) (s : FxStats F) : String :=
  "\x7b\"engine\":\"Crystal-FX-Stats-v1\",\"collected_ms\":" ++ toString s.collectedMs ++ ",\"sources\":" ++
    toString s.sources ++ ",\"weighted_avg\":" ++ text (round 4 s.weightedAvg) ++ ",\"mean\":" ++ text (round 4 s.mean) ++
    ",\"std_dev\":" ++ text (round 4 s.stdDev) ++ ",\"min\":" ++ text s.min ++ ",\"max\":" ++ text s.max ++
    ",\"spread\":" ++ text (round 4 s.spread) ++ ",\"spread_bps\":" ++ text (round 2 s.spreadBps) ++
    ",\"fiber_model\":\"spawn/Channel\"\x7d"

def statsReply (text : F → String) (round : ℕ → F → F) (lib : Libm F) (sources : List (FxSource F)) (totalMs : ℤ)
    (results : List (FxResult F)) : Option String :=
  (fxStats lib sources totalMs results).map (FxStats.json text round)

/-! ### Any order -/

variable {sources : List (FxSource F)} {results results' : List (FxResult F)}

omit [LinearOrder F] in
theorem mean_perm {xs ys : List F} (perm : xs.Perm ys) : mean xs = mean ys := by
  rw [mean, mean, perm.sum_eq, perm.length_eq]

omit [LinearOrder F] in
theorem stdDev_perm (lib : Libm F) {xs ys : List F} (perm : xs.Perm ys) : stdDev lib xs = stdDev lib ys := by
  unfold stdDev
  dsimp only
  rw [mean_perm perm, (perm.map _).sum_eq, perm.length_eq]

omit [Field F] in
theorem min?_perm {xs ys : List F} (perm : xs.Perm ys) : xs.min? = ys.min? := by
  apply Option.ext
  intro m
  simp only [List.min?_eq_some_iff, perm.mem_iff]

omit [Field F] in
theorem max?_perm {xs ys : List F} (perm : xs.Perm ys) : xs.max? = ys.max? := by
  apply Option.ext
  intro m
  simp only [List.max?_eq_some_iff, perm.mem_iff]

theorem fxStats_perm (lib : Libm F) (totalMs : ℤ) (perm : results.Perm results') :
    fxStats lib sources totalMs results = fxStats lib sources totalMs results' := by
  have rates := perm.map (·.rate)
  unfold fxStats weightedRate
  dsimp only
  rw [mean_perm rates, stdDev_perm lib rates, min?_perm rates, max?_perm rates, perm.length_eq, (perm.map _).sum_eq]

omit [Field F] [LinearOrder F] in
theorem fiberAt_all (sources : List (FxSource F)) (elapsed : String → ℤ) :
    (List.finRange sources.length).map (fiberAt sources elapsed) = sources.map (fiber elapsed) := by
  have each : fiberAt sources elapsed = fiber elapsed ∘ sources.get := rfl
  rw [each, ← List.map_map, List.map_get_finRange]

omit [LinearOrder F] in
theorem weightOf_member (distinct : (sources.map (·.name)).Nodup) {src : FxSource F} (member : src ∈ sources) :
    weightOf sources src.name = src.weight := by
  induction sources with
  | nil => cases member
  | cons first rest ih =>
    obtain ⟨fresh, distinct⟩ := List.nodup_cons.mp distinct
    unfold weightOf
    rw [List.find?_cons]
    rcases List.mem_cons.mp member with rfl | later
    · simp
    · have other : (first.name == src.name) = false := by
        rw [beq_eq_false_iff_ne]
        exact fun same => fresh (List.mem_map.mpr ⟨src, later, same.symm⟩)
      rw [other]
      exact ih distinct later

omit [LinearOrder F] in
/-- All in, the weighted rate is the weighted mean of the sources. -/
theorem weightedRate_all (distinct : (sources.map (·.name)).Nodup) (elapsed : String → ℤ) :
    weightedRate sources (sources.map (fiber elapsed)) =
      (sources.map fun src => src.weight * src.rate).sum / (sources.map (·.weight)).sum := by
  rw [weightedRate, List.map_map]
  congr 2
  apply List.map_congr_left
  intro src member
  show weightOf sources src.name * src.rate = _
  rw [weightOf_member distinct member]

variable [IsStrictOrderedRing F]

theorem weighted_between {lo hi : F} (some_source : sources ≠ []) (weights : ∀ src ∈ sources, 0 < src.weight)
    (between : ∀ src ∈ sources, lo ≤ src.rate ∧ src.rate ≤ hi) :
    lo ≤ (sources.map fun src => src.weight * src.rate).sum / (sources.map (·.weight)).sum ∧
      (sources.map fun src => src.weight * src.rate).sum / (sources.map (·.weight)).sum ≤ hi := by
  have total : 0 < (sources.map (·.weight)).sum := by
    refine List.sum_pos _ (fun w member => ?_) (by simpa using some_source)
    obtain ⟨src, here, rfl⟩ := List.mem_map.mp member
    exact weights src here
  rw [le_div_iff₀ total, div_le_iff₀ total, ← List.sum_map_mul_left, ← List.sum_map_mul_left]
  constructor
  · apply List.sum_le_sum
    intro src member
    rw [mul_comm]
    exact mul_le_mul_of_nonneg_left (between src member).1 (weights src member).le
  · apply List.sum_le_sum
    intro src member
    rw [mul_comm hi]
    exact mul_le_mul_of_nonneg_left (between src member).2 (weights src member).le

end

theorem stdDev_le {xs : List ℝ} {lo hi : ℝ} (some_element : xs ≠ []) (low : ∀ x ∈ xs, lo ≤ x) (high : ∀ x ∈ xs, x ≤ hi) :
    stdDev .real xs ≤ (hi - lo) / 2 := by
  have length : (0 : ℝ) < xs.length := by exact_mod_cast List.length_pos_of_ne_nil some_element
  have total : xs.sum = xs.length * mean xs := by rw [mean, mul_div_cancel₀ _ length.ne']
  have spread := Moments.sum_squares_sub_mean_le total low high
  obtain ⟨above, below⟩ := Moments.mean_between some_element total low high
  refine Real.sqrt_le_iff.mpr ⟨by linarith, ?_⟩
  rw [div_le_iff₀ length]
  apply spread.trans
  rw [mul_comm]
  apply mul_le_mul_of_nonneg_right _ length.le
  have parts := four_mul_le_sq_add (hi - mean xs) (mean xs - lo)
  rw [sub_add_sub_cancel] at parts
  linarith

/-- What the statistics of the rates are, whatever the order. -/
structure Described (sources : List (FxSource ℝ)) (totalMs : ℤ) (s : FxStats ℝ) : Prop where
  counted : s.collectedMs = totalMs ∧ s.sources = sources.length
  least : IsLeast {r | ∃ src ∈ sources, src.rate = r} s.min
  greatest : IsGreatest {r | ∃ src ∈ sources, src.rate = r} s.max
  weighted : s.weightedAvg * (sources.map (·.weight)).sum = (sources.map fun src => src.weight * src.rate).sum
  between : s.weightedAvg ∈ Set.Icc s.min s.max ∧ s.mean ∈ Set.Icc s.min s.max
  deviation : s.stdDev ≤ s.spread / 2

theorem fxStats_described {sources : List (FxSource ℝ)} (some_source : sources ≠ [])
    (distinct : (sources.map (·.name)).Nodup) (weights : ∀ src ∈ sources, 0 < src.weight) (elapsed : String → ℤ)
    (totalMs : ℤ) : ∃ s, fxStats .real sources totalMs (sources.map (fiber elapsed)) = some s ∧
      Described sources totalMs s := by
  have rates : (sources.map (fiber elapsed)).map (·.rate) = sources.map (·.rate) := by
    rw [List.map_map]
    rfl
  have some_rate : sources.map (·.rate) ≠ [] := by simpa using some_source
  obtain ⟨lo, least⟩ := Option.isSome_iff_exists.mp (List.isSome_min?_of_ne_nil some_rate)
  obtain ⟨hi, greatest⟩ := Option.isSome_iff_exists.mp (List.isSome_max?_of_ne_nil some_rate)
  obtain ⟨lo_mem, low⟩ := List.min?_eq_some_iff.mp least
  obtain ⟨hi_mem, high⟩ := List.max?_eq_some_iff.mp greatest
  have between : ∀ src ∈ sources, lo ≤ src.rate ∧ src.rate ≤ hi := fun src member =>
    ⟨low _ (List.mem_map_of_mem member), high _ (List.mem_map_of_mem member)⟩
  have total : 0 < (sources.map (·.weight)).sum := by
    refine List.sum_pos _ (fun w member => ?_) (by simpa using some_source)
    obtain ⟨src, here, rfl⟩ := List.mem_map.mp member
    exact weights src here
  have length : (0 : ℝ) < (sources.map (·.rate)).length := by exact_mod_cast List.length_pos_of_ne_nil some_rate
  refine ⟨_, by rw [fxStats, rates, least, greatest]; rfl, ⟨rfl, List.length_map _⟩, ⟨?_, ?_⟩, ⟨?_, ?_⟩, ?_, ⟨?_, ?_⟩, ?_⟩
  · exact List.mem_map.mp lo_mem
  · rintro r ⟨src, member, rfl⟩
    exact (between src member).1
  · exact List.mem_map.mp hi_mem
  · rintro r ⟨src, member, rfl⟩
    exact (between src member).2
  · show weightedRate _ _ * _ = _
    rw [weightedRate_all distinct, div_mul_cancel₀ _ total.ne']
  · show weightedRate _ _ ∈ Set.Icc lo hi
    rw [weightedRate_all distinct]
    exact weighted_between some_source weights between
  · exact Moments.mean_between some_rate (by rw [mean, mul_div_cancel₀ _ length.ne']) low high
  · exact stdDev_le some_rate low high

/-- However the fibers are scheduled, none waits for its send, the statistics get every source's
rate once, and the reply is the same. -/
theorem fx_in_any_order {sources : List (FxSource ℝ)} (some_source : sources ≠ [])
    (distinct : (sources.map (·.name)).Nodup) (weights : ∀ src ∈ sources, 0 < src.weight) (elapsed : String → ℤ)
    (totalMs : ℤ) (text : ℝ → String) (round : ℕ → ℝ → ℝ) {events : List (FanIn.Event (Fin sources.length))}
    {s : FanIn.State (Fin sources.length) (FxResult ℝ)}
    (ran : run (FanIn.step (fiberAt sources elapsed)) (FanIn.start (List.finRange sources.length)) events = some s) :
    Collects (List.finRange sources.length) (fiberAt sources elapsed)
        (statsReply text round .real sources totalMs) events s ∧
      (s.received.length = sources.length → ∃ stats, fxStats .real sources totalMs s.received = some stats ∧
        Described sources totalMs stats) := by
  refine ⟨FanIn.collects (fun received perm => ?_) ran, fun all => ?_⟩
  · rw [statsReply, statsReply, fxStats_perm .real totalMs perm]
  · have balanced := FanIn.run_balanced ran
    obtain ⟨-, -, perm⟩ := balanced.finished (by rw [all, balanced.expected, List.length_finRange])
    rw [fiberAt_all] at perm
    rw [fxStats_perm .real totalMs perm]
    exact fxStats_described some_source distinct weights elapsed totalMs

noncomputable def FxSource.real (src : FxSource ℚ) : FxSource ℝ := ⟨src.name, src.latencyMs, src.rate, src.weight⟩

/-- The sources of the gateway. The faster one answers first. -/
noncomputable def gatewaySources : List (FxSource ℝ) := fxSources.map FxSource.real

noncomputable def arrivals : List (FanIn.Event (Fin gatewaySources.length)) :=
  [.send ⟨3, by decide⟩, .receive, .send ⟨2, by decide⟩, .send ⟨0, by decide⟩, .receive, .receive,
    .send ⟨1, by decide⟩, .receive]

theorem gatewaySources_weights : ∀ src ∈ gatewaySources, 0 < src.weight := by
  intro src member
  obtain ⟨x, here, rfl⟩ := List.mem_map.mp member
  have positive : ∀ x ∈ fxSources, 0 < x.weight := by decide +kernel
  exact Rat.cast_pos.mpr (positive x here)

theorem fx_in_any_order_gateway : ∃ s,
    run (FanIn.step (fiberAt gatewaySources fun _ => 5)) (FanIn.start (List.finRange gatewaySources.length)) arrivals =
      some s ∧ s.received.length = gatewaySources.length ∧
      Collects (List.finRange gatewaySources.length) (fiberAt gatewaySources fun _ => 5)
        (statsReply (fun x => toString ⌊x⌋) (fun _ x => x) .real gatewaySources 28) arrivals s ∧
      (s.received.length = gatewaySources.length → ∃ stats, fxStats .real gatewaySources 28 s.received = some stats ∧
        Described gatewaySources 28 stats) := by
  have ran : run (FanIn.step (fiberAt gatewaySources fun _ => 5)) (FanIn.start (List.finRange gatewaySources.length))
    arrivals = some _ := rfl
  exact ⟨_, ran, rfl, fx_in_any_order (List.cons_ne_nil _ _) (by decide) gatewaySources_weights (fun _ => 5) 28
    (fun x => toString ⌊x⌋) (fun _ x => x) ran⟩

end PolyglotInfinity.GatewayCrystal
