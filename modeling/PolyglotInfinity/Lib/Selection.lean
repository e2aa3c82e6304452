import Mathlib.Data.List.Sort

/-!
# Partial selection sort

After some rounds the first elements of a list are in their final places, whatever the
order of the others is.
-/

namespace Selection

section

variable {α : Type*} {cur : List α} {j b m : ℕ} {u v x : α}

theorem swap_perm (at_j : cur[j]? = some u) (at_b : cur[b]? = some v) : ((cur.set j v).set b u).Perm cur := by
  obtain ⟨j_lt, rfl⟩ := List.getElem?_eq_some_iff.mp at_j
  obtain ⟨b_lt, rfl⟩ := List.getElem?_eq_some_iff.mp at_b
  exact List.set_set_perm j_lt b_lt

theorem swap_first (at_j : cur[j]? = some u) (at_b : cur[b]? = some v) : ((cur.set j v).set b u)[j]? = some v := by
  obtain ⟨j_lt, rfl⟩ := List.getElem?_eq_some_iff.mp at_j
  obtain ⟨b_lt, rfl⟩ := List.getElem?_eq_some_iff.mp at_b
  by_cases same : b = j
  · subst same
    rw [List.getElem?_set_self (by rwa [List.length_set])]
  · rw [List.getElem?_set_ne same, List.getElem?_set_self j_lt]

/-- An element before `j` has not been moved, and one from `j` on comes from there. -/
theorem swap_source (j_le : j ≤ b) (at_j : cur[j]? = some u) (at_b : cur[b]? = some v)
    (found : ((cur.set j v).set b u)[m]? = some x) :
    m < j ∧ cur[m]? = some x ∨ j ≤ m ∧ ∃ m', j ≤ m' ∧ cur[m']? = some x := by
  obtain ⟨j_lt, -⟩ := List.getElem?_eq_some_iff.mp at_j
  obtain ⟨b_lt, -⟩ := List.getElem?_eq_some_iff.mp at_b
  by_cases here : b = m
  · subst here
    rw [List.getElem?_set_self (by rwa [List.length_set])] at found
    exact .inr ⟨j_le, j, le_rfl, at_j.trans found⟩
  rw [List.getElem?_set_ne here] at found
  by_cases first : j = m
  · subst first
    rw [List.getElem?_set_self j_lt] at found
    exact .inr ⟨le_rfl, b, j_le, at_b.trans found⟩
  rw [List.getElem?_set_ne first] at found
  rcases Nat.lt_or_gt_of_ne first with later | before
  · exact .inr ⟨later.le, m, later.le, found⟩
  · exact .inl ⟨before, found⟩

end

variable {α : Type*} [LinearOrder α] {orig cur : List α} {j b : ℕ} {u v : α}

/-- Each of the first `j` elements is no larger than any behind it. -/
structure Selected (orig cur : List α) (j : ℕ) : Prop where
  perm : cur.Perm orig
  least : ∀ i m x y, i < j → i ≤ m → cur[i]? = some x → cur[m]? = some y → x ≤ y

theorem Selected.start (orig : List α) : Selected orig orig 0 :=
  ⟨.refl _, fun _ _ _ _ none => absurd none (Nat.not_lt_zero _)⟩

/-- A round puts the least of the others in front of them. -/
theorem Selected.swap (selected : Selected orig cur j) (j_le : j ≤ b) (at_j : cur[j]? = some u)
    (at_b : cur[b]? = some v) (min : ∀ m y, j ≤ m → cur[m]? = some y → v ≤ y) :
    Selected orig ((cur.set j v).set b u) (j + 1) := by
  refine ⟨(swap_perm at_j at_b).trans selected.perm, fun i m x y i_lt i_le x_at y_at => ?_⟩
  rcases Nat.lt_succ_iff_lt_or_eq.mp i_lt with before | rfl
  · have x_source : cur[i]? = some x := by
      rcases swap_source j_le at_j at_b x_at with ⟨-, source⟩ | ⟨late, -⟩
      · exact source
      · exact absurd late (not_le.mpr before)
    rcases swap_source j_le at_j at_b y_at with ⟨-, y_source⟩ | ⟨-, m', m'_ge, y_source⟩
    · exact selected.least i m x y before i_le x_source y_source
    · exact selected.least i m' x y before (before.le.trans m'_ge) x_source y_source
  · obtain rfl : v = x := Option.some.inj ((swap_first at_j at_b).symm.trans x_at)
    rcases swap_source j_le at_j at_b y_at with ⟨early, -⟩ | ⟨-, m', m'_ge, y_source⟩
    · exact absurd early (not_lt.mpr i_le)
    · exact min m' y m'_ge y_source

/-- The first elements are those of the sorted list. -/
theorem Selected.sorted (selected : Selected orig cur j) {i : ℕ} (i_lt : i < j) : orig.mergeSort[i]? = cur[i]? := by
  have whole : (cur.take j ++ (cur.drop j).mergeSort).Perm orig.mergeSort := by
    refine ((List.Perm.append_left _ (List.mergeSort_perm _ _)).trans ?_).trans (List.mergeSort_perm _ _).symm
    rw [List.take_append_drop]
    exact selected.perm
  have ordered : (cur.take j ++ (cur.drop j).mergeSort).Pairwise (· ≤ ·) := by
    rw [List.pairwise_append]
    refine ⟨?_, List.pairwise_mergeSort' (· ≤ ·) _, fun x x_mem y y_mem => ?_⟩
    · rw [List.pairwise_iff_getElem]
      intro p q p_lt q_lt before
      rw [List.length_take] at p_lt q_lt
      rw [List.getElem_take, List.getElem_take]
      exact selected.least p q _ _ (by omega) before.le (List.getElem?_eq_getElem _) (List.getElem?_eq_getElem _)
    · obtain ⟨p, p_lt, rfl⟩ := List.mem_take_iff_getElem.mp x_mem
      obtain ⟨q, q_lt, rfl⟩ := List.mem_drop_iff_getElem.mp (List.mem_mergeSort.mp y_mem)
      exact selected.least p (j + q) _ _ (by omega) (by omega) (List.getElem?_eq_getElem _) (List.getElem?_eq_getElem _)
  rw [← whole.eq_of_pairwise' ordered (List.pairwise_mergeSort' (· ≤ ·) orig)]
  rcases Nat.lt_or_ge i cur.length with inside | outside
  · rw [List.getElem?_append_left (by rw [List.length_take]; omega), List.getElem?_take_of_lt i_lt]
  · have empty : cur.drop j = [] := List.drop_of_length_le (by omega)
    rw [empty, List.mergeSort_nil, List.append_nil, List.take_of_length_le (by omega)]

end Selection
