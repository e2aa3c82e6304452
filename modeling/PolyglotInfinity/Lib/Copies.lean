import Mathlib

/-!
# Samples that repeat

A sample that is taken several times over has the statistics of the sample itself: its mean
and its bounds always, and a percentile that the database interpolates where the rank behind it
is a whole number.
-/

namespace Copies

variable {α : Type*}

def copies (k : ℕ) (xs : List α) : List α := (List.replicate k xs).flatten

theorem copies_succ (k : ℕ) (xs : List α) : copies (k + 1) xs = copies k xs ++ xs := by
  rw [copies, copies, List.replicate_succ', List.flatten_concat]

theorem copies_length (k : ℕ) (xs : List α) : (copies k xs).length = k * xs.length := by
  simp [copies]

theorem mem_copies {k : ℕ} (some : 0 < k) {xs : List α} {x : α} : x ∈ copies k xs ↔ x ∈ xs := by
  simp [copies, List.mem_flatten, List.mem_replicate, some.ne']

theorem sum_copies [AddCommMonoid α] (k : ℕ) (xs : List α) : (copies k xs).sum = k • xs.sum := by
  induction k with
  | zero => simp [copies]
  | succ k ih => rw [copies_succ, List.sum_append, ih, succ_nsmul]

theorem map_copies {β : Type*} (f : α → β) (k : ℕ) (xs : List α) : (copies k xs).map f = copies k (xs.map f) := by
  rw [copies, List.map_flatten, List.map_replicate, copies]

/-! ### Aggregates -/

/-- `AVG`, exactly. -/
def average [DivisionRing α] (xs : List α) : Option α := if xs = [] then none else some (xs.sum / xs.length)

theorem average_copies [Field α] [CharZero α] {k : ℕ} (some : 0 < k) (xs : List α) :
    average (copies k xs) = average xs := by
  have empty : copies k xs = [] ↔ xs = [] := by
    rw [← List.length_eq_zero_iff, copies_length, Nat.mul_eq_zero, List.length_eq_zero_iff]
    exact or_iff_right some.ne'
  unfold average
  simp only [empty]
  split
  · rfl
  · have times : (k : α) ≠ 0 := Nat.cast_ne_zero.mpr some.ne'
    rw [sum_copies, copies_length, nsmul_eq_mul, Nat.cast_mul, mul_div_mul_left _ _ times]

theorem average_between [Field α] [LinearOrder α] [IsStrictOrderedRing α] {xs : List α} {a least most : α}
    (mean : average xs = some a) (min : xs.min? = some least) (max : xs.max? = some most) : least ≤ a ∧ a ≤ most := by
  unfold average at mean
  split at mean
  · contradiction
  · rename_i nonempty
    obtain rfl := Option.some.inj mean
    have count : (0 : α) < xs.length := by exact_mod_cast List.length_pos_iff.mpr nonempty
    rw [le_div_iff₀ count, div_le_iff₀ count, mul_comm, mul_comm most, ← nsmul_eq_mul, ← nsmul_eq_mul]
    exact ⟨List.card_nsmul_le_sum xs least fun x member => (List.min?_eq_some_iff.mp min).2 x member,
      List.sum_le_card_nsmul xs most fun x member => (List.max?_eq_some_iff.mp max).2 x member⟩

section Order

variable [LinearOrder α]

theorem max_copies {k : ℕ} (some : 0 < k) (xs : List α) : (copies k xs).max? = xs.max? := by
  apply Option.ext
  intro m
  rw [List.max?_eq_some_iff, List.max?_eq_some_iff]
  simp only [mem_copies some]

theorem min_copies {k : ℕ} (some : 0 < k) (xs : List α) : (copies k xs).min? = xs.min? := by
  apply Option.ext
  intro m
  rw [List.min?_eq_some_iff, List.min?_eq_some_iff]
  simp only [mem_copies some]

/-! ### Order statistics -/

def sorted (xs : List α) : List α := xs.mergeSort (· ≤ ·)

theorem sorted_perm (xs : List α) : (sorted xs).Perm xs := List.mergeSort_perm _ _

theorem sorted_sorted (xs : List α) : (sorted xs).Pairwise (· ≤ ·) := List.pairwise_mergeSort' _ xs

/-- Every element as often as the sample, next to each other. -/
def stretched (k : ℕ) (xs : List α) : List α := xs.flatMap (List.replicate k)

omit [LinearOrder α] in
theorem stretched_perm (k : ℕ) (xs : List α) : (copies k xs).Perm (stretched k xs) := by
  classical
  rw [List.perm_iff_count]
  intro x
  induction xs with
  | nil => simp [copies, stretched]
  | cons y xs ih =>
    have counted : ∀ (k : ℕ) (xs : List α), (copies k xs).count x = k * xs.count x := by
      intro k xs
      rw [copies, List.count_flatten, List.map_replicate, List.sum_replicate, smul_eq_mul]
    rw [counted] at ih
    rw [counted, stretched, List.flatMap_cons, List.count_append, List.count_cons, ← stretched, ← ih,
      List.count_replicate]
    split <;> ring

theorem stretched_sorted (k : ℕ) {xs : List α} (ordered : xs.Pairwise (· ≤ ·)) :
    (stretched k xs).Pairwise (· ≤ ·) := by
  induction xs with
  | nil => exact List.Pairwise.nil
  | cons x xs ih =>
    obtain ⟨least, rest⟩ := List.pairwise_cons.mp ordered
    refine List.pairwise_append.mpr ⟨List.pairwise_replicate.mpr (.inr le_rfl), ih rest, ?_⟩
    intro a a_mem b b_mem
    obtain ⟨y, member, b_mem⟩ := List.mem_flatMap.mp b_mem
    rw [List.eq_of_mem_replicate a_mem, List.eq_of_mem_replicate b_mem]
    exact least y member

theorem sorted_copies (k : ℕ) (xs : List α) : sorted (copies k xs) = stretched k (sorted xs) := by
  have same : (sorted (copies k xs)).Perm (stretched k (sorted xs)) := by
    refine (sorted_perm _).trans ((stretched_perm k xs).trans ?_)
    exact List.Perm.flatMap_right _ (sorted_perm xs).symm
  exact same.eq_of_pairwise' (sorted_sorted _) (stretched_sorted k (sorted_sorted xs))

omit [LinearOrder α] in
theorem stretched_getElem? {k : ℕ} (some : 0 < k) (xs : List α) (i : ℕ) : (stretched k xs)[i]? = xs[i / k]? := by
  induction xs generalizing i with
  | nil => simp [stretched]
  | cons x xs ih =>
    rw [stretched, List.flatMap_cons, ← stretched]
    by_cases first : i < k
    · rw [List.getElem?_append_left (by rwa [List.length_replicate]), List.getElem?_replicate, if_pos first,
        Nat.div_eq_of_lt first]
      rfl
    · have step : i / k = (i - k) / k + 1 := by
        rw [← Nat.add_div_right _ some, Nat.sub_add_cancel (Nat.le_of_not_lt first)]
      rw [List.getElem?_append_right (by rw [List.length_replicate]; exact Nat.le_of_not_lt first),
        List.length_replicate, ih, step, List.getElem?_cons_succ]

end Order

/-! ### The interpolated percentile -/

section Percentile

variable [Field α] [LinearOrder α]

/-- `PERCENTILE_CONT(p) WITHIN GROUP (ORDER BY ...)`, for a share that is a rational number. -/
def percentileCont (p : ℚ) (xs : List α) : Option α :=
  if xs = [] then none
  else
    let position : ℚ := p * (xs.length - 1)
    let first := (sorted xs).getD ⌊position⌋.toNat 0
    let second := (sorted xs).getD ⌈position⌉.toNat 0
    some (if ⌊position⌋ = ⌈position⌉ then first else first + ((position - ⌊position⌋ : ℚ) : α) * (second - first))

/-- With a whole number `m` of the elements below the percentile, it lies between the elements number `m` and `m + 1`. -/
theorem percentileCont_rank {p : ℚ} {xs : List α} {m : ℕ} (rank : p * xs.length = m) (positive : 0 < p) (below : p < 1)
    (nonempty : xs ≠ []) : percentileCont p xs =
      some ((sorted xs).getD (m - 1) 0 + ((1 - p : ℚ) : α) *
        ((sorted xs).getD m 0 - (sorted xs).getD (m - 1) 0)) := by
  have elements : 0 < (xs.length : ℚ) := by exact_mod_cast List.length_pos_iff.mpr nonempty
  have some : 0 < m := by
    have product : 0 < (m : ℚ) := rank ▸ mul_pos positive elements
    exact_mod_cast product
  have position : p * ((xs.length : ℚ) - 1) = ((m - 1 : ℤ) : ℚ) + (1 - p) := by
    rw [mul_sub, rank]
    push_cast
    ring
  have floor : ⌊p * ((xs.length : ℚ) - 1)⌋ = m - 1 := by
    rw [Int.floor_eq_iff, position]
    constructor <;> linarith
  have ceil : ⌈p * ((xs.length : ℚ) - 1)⌉ = m := by
    rw [Int.ceil_eq_iff, position]
    push_cast
    constructor <;> linarith
  have parts : (p * ((xs.length : ℚ) - 1) - ((m - 1 : ℤ) : ℚ)) = 1 - p := by rw [position, add_sub_cancel_left]
  have index : ((m : ℤ) - 1).toNat = m - 1 := by omega
  have apart : ¬ ((m : ℤ) - 1 = m) := by omega
  unfold percentileCont
  simp only [nonempty, floor, ceil, parts, apart, if_false, Int.toNat_natCast, index]

theorem percentileCont_copies {p : ℚ} {xs : List α} {k m : ℕ} (rank : p * xs.length = m) (positive : 0 < p)
    (below : p < 1) (some : 0 < k) : percentileCont p (copies k xs) = percentileCont p xs := by
  rcases eq_or_ne xs [] with rfl | nonempty
  · have empty : copies k ([] : List α) = [] := by simp [copies]
    rw [empty]
  have elements : 0 < (xs.length : ℚ) := by exact_mod_cast List.length_pos_iff.mpr nonempty
  have ranked : 0 < m := by
    have product : 0 < (m : ℚ) := rank ▸ mul_pos positive elements
    exact_mod_cast product
  have all : copies k xs ≠ [] := by
    rw [← List.length_pos_iff, copies_length]
    exact Nat.mul_pos some (List.length_pos_iff.mpr nonempty)
  have rankAll : p * (copies k xs).length = (k * m : ℕ) := by
    rw [copies_length, Nat.cast_mul, Nat.cast_mul, ← rank]
    ring
  have lower : (k * m - 1) / k = m - 1 := by
    obtain ⟨n, rfl⟩ := Nat.exists_eq_succ_of_ne_zero ranked.ne'
    have last : k * (n + 1) - 1 = k - 1 + k * n := by
      rw [Nat.mul_succ]
      omega
    rw [Nat.succ_eq_add_one, last, Nat.add_mul_div_left _ _ some, Nat.div_eq_of_lt (by omega), Nat.zero_add,
      Nat.add_sub_cancel]
  have upper : k * m / k = m := Nat.mul_div_cancel_left m some
  rw [percentileCont_rank rankAll positive below all, percentileCont_rank rank positive below nonempty, sorted_copies]
  simp only [List.getD_eq_getElem?_getD, stretched_getElem? some, lower, upper]

end Percentile

end Copies
