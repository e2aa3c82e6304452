import Mathlib.Data.List.Sort
import PolyglotInfinity.Apm.Server
import PolyglotInfinity.Lib.Rank

/-!
# Percentiles of the metrics

What `computeStats` says of finite durations, and how the groups of `buildMetrics` divide
the events among the services.
-/

namespace PolyglotInfinity.Apm

open Rank (IsPercentile)

/-! ### One set of durations -/

/-- The statistics of some durations: nearest ranks, in order, up to the largest. -/
structure Summarises (stats : Stats) (durations : List ℚ) : Prop where
  count : stats.count = durations.length
  ranks : ∃ p50 p95 p99 max, stats.p50 = .fin p50 ∧ stats.p95 = .fin p95 ∧ stats.p99 = .fin p99 ∧
    stats.max = .fin max ∧ IsPercentile 50 durations p50 ∧ IsPercentile 95 durations p95 ∧
    IsPercentile 99 durations p99 ∧ p50 ≤ p95 ∧ p95 ≤ p99 ∧ p99 ≤ max ∧ max ∈ durations ∧ ∀ d ∈ durations, d ≤ max

section

variable {sorted durations : List ℚ} {p q : ℕ}

/-- The index that `percentile` reads. -/
def rankIndex (p n : ℕ) : ℕ := (max 0 (⌈(p / 100 : ℚ) * n⌉ - 1)).toNat

theorem rankIndex_spec {n : ℕ} (p_pos : 0 < p) (percent : p ≤ 100) (n_pos : 0 < n) :
    rankIndex p n < n ∧ p * n ≤ 100 * (rankIndex p n + 1) ∧ 100 * rankIndex p n < p * n := by
  have low : ((p / 100 : ℚ) * n) ≤ ⌈(p / 100 : ℚ) * n⌉ := Int.le_ceil _
  have high : (⌈(p / 100 : ℚ) * n⌉ : ℚ) < (p / 100 : ℚ) * n + 1 := Int.ceil_lt_add_one _
  have positive : 0 < ⌈(p / 100 : ℚ) * n⌉ := Int.ceil_pos.mpr (by positivity)
  unfold rankIndex
  generalize ⌈(p / 100 : ℚ) * n⌉ = c at low high positive ⊢
  have reaches : ((p * n : ℕ) : ℤ) ≤ 100 * c := by
    have : ((p * n : ℕ) : ℚ) ≤ 100 * c := by
      push_cast
      linarith
    exact_mod_cast this
  have short : 100 * c < ((p * n + 100 : ℕ) : ℤ) := by
    have : 100 * (c : ℚ) < ((p * n + 100 : ℕ) : ℚ) := by
      push_cast
      linarith
    exact_mod_cast this
  have share : p * n ≤ 100 * n := Nat.mul_le_mul_right n percent
  generalize p * n = m at reaches short share ⊢
  omega

theorem rankIndex_mono {n : ℕ} (le : p ≤ q) : rankIndex p n ≤ rankIndex q n := by
  have share : (p / 100 : ℚ) * n ≤ (q / 100 : ℚ) * n := by
    have : (p : ℚ) ≤ q := by exact_mod_cast le
    gcongr
  have ceil := Int.ceil_le_ceil share
  unfold rankIndex
  omega

theorem percentile_eq (p_pos : 0 < p) (percent : p ≤ 100) (nonempty : sorted ≠ []) :
    ∃ inside : rankIndex p sorted.length < sorted.length,
      percentile (sorted.map .fin) p = .fin sorted[rankIndex p sorted.length] := by
  have inside := (rankIndex_spec p_pos percent (List.length_pos_iff.mpr nonempty)).1
  refine ⟨inside, ?_⟩
  have some : sorted.map Extended.fin ≠ [] := by simpa using nonempty
  rw [percentile, if_neg some]
  show (sorted.map Extended.fin).getD (rankIndex p (sorted.map Extended.fin).length) 0 = _
  rw [List.length_map, List.getD_eq_getElem?_getD, List.getElem?_map, List.getElem?_eq_getElem inside]
  rfl

theorem sort_fin : (durations.map Extended.fin).mergeSort (fun a b => ¬ 0 < a - b) =
    (durations.mergeSort (· ≤ ·)).map .fin := by
  refine (List.map_mergeSort fun a _ b _ => ?_).symm
  rw [decide_eq_decide]
  show a ≤ b ↔ ¬ 0 < a + -b
  rw [not_lt, ← sub_eq_add_neg, sub_nonpos]

theorem computeStats_summarises (nonempty : durations ≠ []) :
    Summarises (computeStats (durations.map .fin)) durations := by
  have perm := List.mergeSort_perm durations (· ≤ ·)
  have ordered : (durations.mergeSort (· ≤ ·)).Pairwise (· ≤ ·) := List.pairwise_mergeSort' (· ≤ ·) durations
  have some : durations.map Extended.fin ≠ [] := by simpa using nonempty
  rw [computeStats, if_neg some, sort_fin]
  generalize durations.mergeSort (· ≤ ·) = sorted at perm ordered ⊢
  have sorted_nonempty : sorted ≠ [] := fun none => nonempty (by
    rw [none] at perm
    exact perm.nil_eq.symm)
  have length_pos := List.length_pos_iff.mpr sorted_nonempty
  obtain ⟨in50, eq50⟩ := percentile_eq (by decide : 0 < 50) (by decide) sorted_nonempty
  obtain ⟨in95, eq95⟩ := percentile_eq (by decide : 0 < 95) (by decide) sorted_nonempty
  obtain ⟨in99, eq99⟩ := percentile_eq (by decide : 0 < 99) (by decide) sorted_nonempty
  have rank : ∀ p, 0 < p → p ≤ 100 → ∀ inside : rankIndex p sorted.length < sorted.length,
      IsPercentile p durations sorted[rankIndex p sorted.length] := by
    intro p p_pos percent inside
    obtain ⟨-, reaches, short⟩ := rankIndex_spec p_pos percent length_pos
    exact (Rank.isPercentile_getElem ordered inside reaches short).perm perm
  have climbs : ∀ i j (i_lt : i < sorted.length) (j_lt : j < sorted.length), i ≤ j → sorted[i] ≤ sorted[j] := by
    intro i j i_lt j_lt le
    rcases Nat.lt_or_eq_of_le le with before | rfl
    · exact List.pairwise_iff_getElem.mp ordered i j i_lt j_lt before
    · exact le_rfl
  have last : sorted.length - 1 < sorted.length := by omega
  refine ⟨by simp [perm.length_eq], _, _, _, sorted[sorted.length - 1], eq50, eq95, eq99, ?_, rank 50 (by decide)
    (by decide) in50, rank 95 (by decide) (by decide) in95, rank 99 (by decide) (by decide) in99,
    climbs _ _ in50 in95 (rankIndex_mono (by decide)), climbs _ _ in95 in99 (rankIndex_mono (by decide)),
    climbs _ _ in99 last (by omega), ?_, fun d d_mem => ?_⟩
  · show (sorted.map Extended.fin).getLastD 0 = _
    rw [List.getLastD_eq_getLast?, List.getLast?_map, List.getLast?_eq_getElem?, List.getElem?_eq_getElem last]
    rfl
  · exact perm.mem_iff.mp (List.getElem_mem last)
  · obtain ⟨i, i_lt, rfl⟩ := List.getElem_of_mem (perm.mem_iff.mpr d_mem)
    exact climbs i _ i_lt last (by omega)

end

/-! ### Groups of events -/

def durationOf : Json → Option ℚ
  | .obj members =>
    match Json.member members (Json.units "responseMs".toList) with
    | some (.num q) =>
      match binary64 q with
      | .fin v => some v
      | _ => none
    | _ => none
  | _ => none

def durations (events : List Json) : List ℚ := events.filterMap durationOf

def durationsOf (svc : Utf16) (events : List Json) : List ℚ := durations (events.filter (serviceOf · = svc))

theorem aggregate_duration {acc : Groups × List Extended} {e : Json} {v : ℚ} (timed : durationOf e = some v) :
    aggregate acc e = .ok (acc.1.push (serviceOf e) (.fin v), acc.2 ++ [.fin v]) := by
  unfold durationOf at timed
  split at timed
  · rename_i members
    split at timed
    · rename_i q found
      split at timed
      · rename_i w finite
        obtain rfl := Option.some.inj timed
        have read : property (.obj members) "responseMs" = .ok (some (.num q)) := congrArg Except.ok found
        simp only [aggregate, read, finite]
      · contradiction
    · contradiction
  · contradiction

theorem push_names {groups : Groups} {svc : Utf16} {ms : Extended} :
    ((groups.push svc ms).map Prod.fst) =
      if svc ∈ groups.map Prod.fst then groups.map Prod.fst else groups.map Prod.fst ++ [svc] := by
  induction groups with
  | nil => rfl
  | cons group rest ih =>
    obtain ⟨name, values⟩ := group
    unfold Groups.push
    by_cases here : name = svc
    · simp [here]
    · have apart : svc ≠ name := Ne.symm here
      simp only [here, if_false, List.map_cons, ih, List.mem_cons, apart, false_or]
      split <;> rfl

theorem mem_push_names {groups : Groups} {svc other : Utf16} {ms : Extended} :
    other ∈ (groups.push svc ms).map Prod.fst ↔ other ∈ groups.map Prod.fst ∨ other = svc := by
  rw [push_names]
  split
  · rename_i known
    refine (or_iff_left_of_imp ?_).symm
    rintro rfl
    exact known
  · rw [List.mem_append, List.mem_singleton]

theorem push_nodup {groups : Groups} {svc : Utf16} {ms : Extended} (distinct : (groups.map Prod.fst).Nodup) :
    ((groups.push svc ms).map Prod.fst).Nodup := by
  rw [push_names]
  split
  · exact distinct
  · rename_i fresh
    rw [List.nodup_append]
    refine ⟨distinct, List.nodup_singleton _, fun other old name new => ?_⟩
    obtain rfl := List.mem_singleton.mp new
    rintro rfl
    exact fresh old

theorem push_total {groups : Groups} {svc : Utf16} {ms : Extended} :
    ((groups.push svc ms).map (·.2.length)).sum = (groups.map (·.2.length)).sum + 1 := by
  induction groups with
  | nil => rfl
  | cons group rest ih =>
    obtain ⟨name, values⟩ := group
    unfold Groups.push
    split
    · simp only [List.map_cons, List.sum_cons, List.length_append, List.length_singleton]
      omega
    · simp only [List.map_cons, List.sum_cons, ih]
      omega

/-- A push adds to the group of its service, or opens it. -/
theorem mem_push {groups : Groups} {svc : Utf16} {ms : Extended} {group : Utf16 × List Extended}
    (distinct : (groups.map Prod.fst).Nodup) (pushed : group ∈ groups.push svc ms) :
    (group.1 ≠ svc ∧ group ∈ groups) ∨ (∃ values, (svc, values) ∈ groups ∧ group = (svc, values ++ [ms])) ∨
      (svc ∉ groups.map Prod.fst ∧ group = (svc, [ms])) := by
  induction groups with
  | nil => exact .inr (.inr ⟨List.not_mem_nil, List.mem_singleton.mp pushed⟩)
  | cons first rest ih =>
    obtain ⟨name, values⟩ := first
    obtain ⟨fresh, distinct⟩ := List.nodup_cons.mp distinct
    unfold Groups.push at pushed
    split at pushed
    · rename_i here
      obtain rfl := here
      rcases List.mem_cons.mp pushed with rfl | later
      · exact .inr (.inl ⟨values, List.mem_cons_self, rfl⟩)
      · refine .inl ⟨fun same => ?_, .tail _ later⟩
        have known : group.1 ∈ rest.map Prod.fst := List.mem_map_of_mem later
        rw [same] at known
        exact fresh known
    · rename_i here
      rcases List.mem_cons.mp pushed with rfl | later
      · exact .inl ⟨here, List.mem_cons_self⟩
      · rcases ih distinct later with ⟨other, old⟩ | ⟨values', found, same⟩ | ⟨absent, same⟩
        · exact .inl ⟨other, .tail _ old⟩
        · exact .inr (.inl ⟨values', .tail _ found, same⟩)
        · refine .inr (.inr ⟨fun present => ?_, same⟩)
          rcases List.mem_cons.mp present with first | rest
          · exact here first.symm
          · exact absent rest

/-- The groups hold the durations of some events, each service its own. -/
structure Grouped (groups : Groups) (events : List Json) : Prop where
  distinct : (groups.map Prod.fst).Nodup
  names : ∀ svc, svc ∈ groups.map Prod.fst ↔ ∃ e ∈ events, serviceOf e = svc
  values : ∀ group ∈ groups, group.2 = (durationsOf group.1 events).map .fin
  total : (groups.map (·.2.length)).sum = (durations events).length

theorem Grouped.push {groups : Groups} {events : List Json} {e : Json} {v : ℚ} (grouped : Grouped groups events)
    (timed : durationOf e = some v) : Grouped (groups.push (serviceOf e) (.fin v)) (events ++ [e]) := by
  obtain ⟨distinct, names, values, total⟩ := grouped
  have same : durationsOf (serviceOf e) (events ++ [e]) = durationsOf (serviceOf e) events ++ [v] := by
    simp [durationsOf, durations, timed]
  have other : ∀ svc, svc ≠ serviceOf e → durationsOf svc (events ++ [e]) = durationsOf svc events := by
    intro svc apart
    simp [durationsOf, durations, Ne.symm apart]
  refine ⟨push_nodup distinct, fun svc => ?_, fun group pushed => ?_, ?_⟩
  · rw [mem_push_names, names svc]
    constructor
    · rintro (⟨e', e'_mem, named⟩ | rfl)
      · exact ⟨e', List.mem_append_left _ e'_mem, named⟩
      · exact ⟨e, List.mem_append_right _ List.mem_cons_self, rfl⟩
    · rintro ⟨e', e'_mem, named⟩
      rcases List.mem_append.mp e'_mem with old | new
      · exact .inl ⟨e', old, named⟩
      · exact .inr (List.mem_singleton.mp new ▸ named.symm)
  · rcases mem_push distinct pushed with ⟨apart, old⟩ | ⟨held, found, rfl⟩ | ⟨absent, rfl⟩
    · rw [other group.1 apart]
      exact values group old
    · rw [same, List.map_append, ← values _ found]
      rfl
    · have none : durationsOf (serviceOf e) events = [] := by
        have nobody : events.filter (serviceOf · = serviceOf e) = [] := by
          rw [List.filter_eq_nil_iff]
          intro e' e'_mem named
          exact absent ((names _).mpr ⟨e', e'_mem, of_decide_eq_true named⟩)
        rw [durationsOf, nobody]
        rfl
      rw [same, none]
      rfl
  · rw [push_total, total]
    simp [durations, timed]

theorem aggregates_grouped {buffer : List Json} (timed : ∀ e ∈ buffer, (durationOf e).isSome) :
    ∃ groups, buffer.foldlM aggregate ([], []) = .ok (groups, (durations buffer).map .fin) ∧ Grouped groups buffer := by
  induction buffer using List.reverseRecOn with
  | nil => exact ⟨[], rfl, List.nodup_nil, by simp, by simp, rfl⟩
  | append_singleton earlier e ih =>
    obtain ⟨groups, ran, grouped⟩ := ih fun e' e'_mem => timed e' (List.mem_append_left _ e'_mem)
    obtain ⟨v, duration⟩ := Option.isSome_iff_exists.mp (timed e (List.mem_append_right _ List.mem_cons_self))
    refine ⟨_, ?_, grouped.push duration⟩
    rw [List.foldlM_append, ran]
    show [e].foldlM aggregate (groups, (durations earlier).map .fin) = _
    rw [List.foldlM_cons, aggregate_duration duration]
    simp [durations, duration, pure, Except.pure, bind, Except.bind]

/-! ### The metrics -/

/-- The metrics summarise the durations of a buffer, over all and service by service. -/
structure Summary (payload : Metrics) (buffer : List Json) : Prop where
  overall : Summarises payload.overallStats (durations buffer)
  distinct : (payload.serviceStats.map Prod.fst).Nodup
  names : ∀ svc, svc ∈ payload.serviceStats.map Prod.fst ↔ ∃ e ∈ buffer, serviceOf e = svc
  service : ∀ group ∈ payload.serviceStats, Summarises group.2 (durationsOf group.1 buffer)
  counts : (payload.serviceStats.map (·.2.count)).sum = payload.overallStats.count
  max_mem : ∃ group ∈ payload.serviceStats, group.2.max = payload.overallStats.max
  max_le : ∀ group ∈ payload.serviceStats, group.2.max ≤ payload.overallStats.max

variable {buffer : List Json}

theorem mem_durationsOf {svc : Utf16} {v : ℚ} :
    v ∈ durationsOf svc buffer ↔ ∃ e ∈ buffer, serviceOf e = svc ∧ durationOf e = some v := by
  simp only [durationsOf, durations, List.mem_filterMap, List.mem_filter, decide_eq_true_eq, and_assoc]

theorem Grouped.summary {groups : Groups} {payload : Metrics} (grouped : Grouped groups buffer)
    (nonempty : buffer ≠ []) (timed : ∀ e ∈ buffer, (durationOf e).isSome)
    (overall : payload.overallStats = computeStats ((durations buffer).map .fin))
    (services : payload.serviceStats = groups.map fun group => (group.1, computeStats group.2)) :
    Summary payload buffer := by
  have names : payload.serviceStats.map Prod.fst = groups.map Prod.fst := by
    rw [services, List.map_map]
    rfl
  have some : ∀ svc, (∃ e ∈ buffer, serviceOf e = svc) → durationsOf svc buffer ≠ [] := by
    rintro svc ⟨e, e_mem, named⟩
    obtain ⟨v, duration⟩ := Option.isSome_iff_exists.mp (timed e e_mem)
    exact List.ne_nil_of_mem (mem_durationsOf.mpr ⟨e, e_mem, named, duration⟩)
  have all : durations buffer ≠ [] := by
    obtain ⟨e, e_mem⟩ := List.exists_mem_of_ne_nil buffer nonempty
    obtain ⟨v, duration⟩ := Option.isSome_iff_exists.mp (timed e e_mem)
    exact List.ne_nil_of_mem (List.mem_filterMap.mpr ⟨e, e_mem, duration⟩)
  have whole : Summarises payload.overallStats (durations buffer) := overall ▸ computeStats_summarises all
  have service : ∀ group ∈ payload.serviceStats, Summarises group.2 (durationsOf group.1 buffer) := by
    intro group group_mem
    rw [services] at group_mem
    obtain ⟨⟨svc, values⟩, held, rfl⟩ := List.mem_map.mp group_mem
    show Summarises (computeStats values) (durationsOf svc buffer)
    have content : values = (durationsOf svc buffer).map .fin := grouped.values _ held
    rw [content]
    exact computeStats_summarises (some svc ((grouped.names svc).mp (List.mem_map_of_mem held)))
  obtain ⟨-, -, -, max, -, -, -, max_eq, -, -, -, -, -, -, max_mem, max_le⟩ := whole.ranks
  refine ⟨whole, by rw [names]; exact grouped.distinct, fun svc => by rw [names]; exact grouped.names svc, service,
    ?_, ?_, fun group group_mem => ?_⟩
  · rw [whole.count, ← grouped.total, services, List.map_map]
    refine congrArg List.sum (List.map_congr_left fun group group_mem => ?_)
    have counted := (service (group.1, computeStats group.2)
      (by rw [services]; exact List.mem_map_of_mem group_mem)).count
    show (computeStats group.2).count = group.2.length
    rw [counted, grouped.values group group_mem, List.length_map]
  · -- the largest duration of all belongs to the service of its event
    obtain ⟨e, e_mem, duration⟩ := List.mem_filterMap.mp max_mem
    have present := (grouped.names _).mpr ⟨e, e_mem, rfl⟩
    rw [← names] at present
    obtain ⟨group, group_mem, named⟩ := List.mem_map.mp present
    obtain ⟨-, -, -, top, -, -, -, top_eq, -, -, -, -, -, -, top_mem, top_le⟩ := (service group group_mem).ranks
    obtain ⟨e', e'_mem, -, duration'⟩ := mem_durationsOf.mp top_mem
    have below := max_le top (List.mem_filterMap.mpr ⟨e', e'_mem, duration'⟩)
    have above := top_le max (mem_durationsOf.mpr ⟨e, e_mem, named.symm, duration⟩)
    exact ⟨group, group_mem, by rw [top_eq, max_eq, le_antisymm below above]⟩
  · obtain ⟨-, -, -, top, -, -, -, top_eq, -, -, -, -, -, -, top_mem, -⟩ := (service group group_mem).ranks
    obtain ⟨e, e_mem, -, duration⟩ := mem_durationsOf.mp top_mem
    rw [top_eq, max_eq]
    exact max_le top (List.mem_filterMap.mpr ⟨e, e_mem, duration⟩)

/-- The metrics of events with finite durations, whatever their services. -/
theorem buildMetrics_summary (limit : ℕ) (nonempty : buffer ≠ []) (timed : ∀ e ∈ buffer, (durationOf e).isSome) :
    ∃ payload, buildMetrics buffer limit = .ok payload ∧ Summary payload buffer := by
  obtain ⟨groups, ran, grouped⟩ := aggregates_grouped timed
  obtain ⟨payload, built, overall, services⟩ : ∃ payload, buildMetrics buffer limit = .ok payload ∧
      payload.overallStats = computeStats ((durations buffer).map .fin) ∧
      payload.serviceStats = groups.map fun group => (group.1, computeStats group.2) := by
    unfold buildMetrics
    rw [ran]
    exact ⟨_, rfl, rfl, rfl⟩
  exact ⟨payload, built, grouped.summary nonempty timed overall services⟩

/-- An event of `time` milliseconds. -/
def event (service : String) (time : ℕ) : Json :=
  .obj [(Json.units "service".toList, .str (Json.units service.toList)),
    (Json.units "responseMs".toList, .num time)]

theorem buildMetrics_summary_three : ∃ payload,
    buildMetrics [event "gateway" 12, event "ledger" 7, event "gateway" 3] 5 = .ok payload ∧
      Summary payload [event "gateway" 12, event "ledger" 7, event "gateway" 3] :=
  buildMetrics_summary 5 (by simp) (by decide +kernel)

end PolyglotInfinity.Apm
