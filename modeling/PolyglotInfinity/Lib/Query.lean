import Mathlib.Algebra.Order.BigOperators.Group.List
import Mathlib.Algebra.Order.Ring.Nat
import Mathlib.Data.List.DropRight
import Mathlib.Data.List.Perm.Subperm

/-!
# Query strings

Splitting a decoded query at `&` and at the first `=` of each pair.
-/

namespace Query

def splitOn (sep : Char) : List Char → List (List Char)
  | [] => [[]]
  | c :: cs =>
    if c = sep then [] :: splitOn sep cs
    else match splitOn sep cs with
      | [] => [[c]]
      | w :: ws => (c :: w) :: ws

/-- `String.split` with no limit: trailing empty pieces are dropped, and a text
without the separator is its own only piece. -/
def split (sep : Char) (cs : List Char) : List (List Char) :=
  if sep ∈ cs then (splitOn sep cs).rdropWhile List.isEmpty else [cs]

/-- `String.split` with limit 2: what stands before the first separator, and
what stands behind it if there is one. -/
def splitFirst (sep : Char) : List Char → List Char × Option (List Char)
  | [] => ([], none)
  | c :: cs =>
    if c = sep then ([], some cs)
    else let (k, v) := splitFirst sep cs; (c :: k, v)

def pairs (keep : List Char → Bool) (query : String) : List (String × String) :=
  (split '&' query.toList).filterMap fun piece =>
    match splitFirst '=' piece with
    | (k, some v) => if keep k then some (String.ofList k, String.ofList v) else none
    | (_, none) => none

/-- The value of `key`; a later pair replaces an earlier one. -/
def get (params : List (String × String)) (key : String) : Option String :=
  params.reverse.lookup key

variable {sep : Char} {xs ys p q : List Char}

/-! ### Pieces -/

theorem splitOn_eq : splitOn sep xs = xs.splitOn sep := by
  induction xs with
  | nil => rfl
  | cons c cs ih =>
    rw [splitOn, ih, List.splitOn_cons_eq_if_modifyHead]
    by_cases here : c = sep
    · simp [here]
    · cases pieces : cs.splitOn sep with
      | nil => exact absurd pieces (List.splitOn_ne_nil _ _)
      | cons w ws => simp [here]

theorem splitOn_ne_nil : splitOn sep xs ≠ [] := by
  rw [splitOn_eq]
  exact List.splitOn_ne_nil _ _

theorem splitOn_append : splitOn sep (xs ++ sep :: ys) = splitOn sep xs ++ splitOn sep ys := by
  rw [splitOn_eq, splitOn_eq, splitOn_eq, List.splitOn_append_cons_self]

theorem splitOn_whole (whole : sep ∉ xs) : splitOn sep xs = [xs] := by
  rw [splitOn_eq, List.splitOn_eq_singleton whole]

theorem splitOn_pieces : p ∈ splitOn sep xs → sep ∉ p := by
  induction xs generalizing p with
  | nil =>
    intro piece
    simp [List.mem_singleton.mp piece]
  | cons c cs ih =>
    rw [splitOn]
    by_cases here : c = sep
    · simp only [here, if_true, List.mem_cons]
      rintro (rfl | later)
      · simp
      · exact ih later
    · cases pieces : splitOn sep cs with
      | nil => exact absurd pieces splitOn_ne_nil
      | cons w ws =>
        simp only [here, if_false, List.mem_cons]
        rintro (rfl | later)
        · exact List.not_mem_cons_of_ne_of_not_mem (Ne.symm here) (ih (by simp [pieces]))
        · exact ih (by simp [pieces, later])

/-- The pieces, each with a separator, are one separator longer than the text. -/
theorem splitOn_length : ((splitOn sep xs).map fun p => p.length + 1).sum = xs.length + 1 := by
  induction xs with
  | nil => rfl
  | cons c cs ih =>
    rw [splitOn]
    by_cases here : c = sep
    · simp only [here, if_true, List.map_cons, List.sum_cons, ih, List.length_nil, List.length_cons]
      omega
    · cases pieces : splitOn sep cs with
      | nil => exact absurd pieces splitOn_ne_nil
      | cons w ws =>
        rw [pieces, List.map_cons, List.sum_cons] at ih
        simp only [here, if_false, List.map_cons, List.sum_cons, List.length_cons]
        omega

theorem pieces_length {ps : List (List Char)} (distinct : ps.Nodup) (pieces : ps ⊆ splitOn sep xs) :
    (ps.map fun p => p.length + 1).sum ≤ xs.length + 1 := by
  obtain ⟨qs, same, sub⟩ := distinct.subperm pieces
  rw [← @splitOn_length sep xs, ← (same.map _).sum_eq]
  exact (sub.map _).sum_le_sum fun _ _ => Nat.zero_le _

theorem split_subset : split sep xs ⊆ splitOn sep xs := by
  unfold split
  split
  · exact (List.rdropWhile_prefix _ _).subset
  · rename_i whole
    rw [splitOn_whole whole]
    exact List.Subset.refl _

theorem mem_split (piece : p ∈ splitOn sep xs) (nonempty : p ≠ []) : p ∈ split sep xs := by
  unfold split
  split
  · rw [← List.rdropWhile_append_rtakeWhile (p := List.isEmpty) (l := splitOn sep xs)] at piece
    refine (List.mem_append.mp piece).resolve_right fun dropped => ?_
    exact nonempty (List.isEmpty_iff.mp (List.mem_rtakeWhile_imp dropped))
  · rename_i whole
    rwa [splitOn_whole whole] at piece

/-! ### The first separator -/

theorem splitFirst_before (before : sep ∉ xs) :
    splitFirst sep (xs ++ ys) = (xs ++ (splitFirst sep ys).1, (splitFirst sep ys).2) := by
  induction xs with
  | nil => rfl
  | cons c cs ih =>
    obtain ⟨other, before⟩ := List.ne_and_not_mem_of_not_mem_cons before
    simp [splitFirst, Ne.symm other, ih before]

theorem splitFirst_append (before : sep ∉ xs) : splitFirst sep (xs ++ sep :: ys) = (xs, some ys) := by
  rw [splitFirst_before before]
  simp [splitFirst]

theorem splitFirst_whole (whole : sep ∉ xs) : splitFirst sep xs = (xs, none) := by
  have rest := @splitFirst_before sep xs [] whole
  simpa [splitFirst] using rest

theorem splitFirst_shorter (here : sep ∈ xs) (ys : List Char) :
    (splitFirst sep (xs ++ ys)).1.length < xs.length := by
  obtain ⟨before, after, rfl, first⟩ := List.eq_append_cons_of_mem here
  rw [List.append_assoc, List.cons_append, splitFirst_append first, List.length_append]
  show before.length < before.length + (after.length + 1)
  omega

theorem splitFirst_some {k v : List Char} (h : splitFirst sep xs = (k, some v)) : xs = k ++ sep :: v := by
  induction xs generalizing k with
  | nil => simp [splitFirst] at h
  | cons c cs ih =>
    rw [splitFirst] at h
    by_cases here : c = sep
    · rw [if_pos here, Prod.mk.injEq, Option.some.injEq] at h
      obtain ⟨rfl, rfl⟩ := h
      rw [here, List.nil_append]
    · rw [if_neg here, Prod.mk.injEq] at h
      obtain ⟨rfl, rest⟩ := h
      rw [List.cons_append, ← ih (Prod.ext rfl rest)]

/-! ### The value of a key -/

variable {keep : List Char → Bool} {query key value : String}

theorem get_piece (h : get (pairs keep query) key = some value) :
    key.toList ++ '=' :: value.toList ∈ splitOn '&' query.toList := by
  obtain ⟨before, after, found, -⟩ := List.lookup_eq_some_iff.mp h
  have member : (key, value) ∈ pairs keep query := by
    rw [← List.mem_reverse, found]
    simp
  obtain ⟨piece, here, read⟩ := List.mem_filterMap.mp member
  split at read
  · rename_i k v first
    rw [Option.ite_none_right_eq_some, Option.some.injEq, Prod.mk.injEq] at read
    obtain ⟨-, rfl, rfl⟩ := read
    rw [String.toList_ofList, String.toList_ofList, ← splitFirst_some first]
    exact split_subset here
  · cases read

theorem get_isSome {v : List Char} (piece : key.toList ++ '=' :: v ∈ splitOn '&' query.toList)
    (kept : keep key.toList = true) (plain : '=' ∉ key.toList) : (get (pairs keep query) key).isSome := by
  have here := mem_split piece (by simp)
  have member : (key, String.ofList v) ∈ pairs keep query := by
    refine List.mem_filterMap.mpr ⟨_, here, ?_⟩
    rw [splitFirst_append plain]
    simp [kept]
  rw [get, List.lookup_isSome_iff]
  exact ⟨_, List.mem_reverse.mpr member, by simp⟩

/-- The only piece with its key decides a key's value. -/
theorem get_only (piece : key.toList ++ '=' :: value.toList ∈ splitOn '&' query.toList)
    (only : ∀ v, key.toList ++ '=' :: v ∈ splitOn '&' query.toList → v = value.toList)
    (kept : keep key.toList = true) (plain : '=' ∉ key.toList) : get (pairs keep query) key = some value := by
  obtain ⟨other, found⟩ := Option.isSome_iff_exists.mp (get_isSome piece kept plain)
  rw [found, String.toList_inj.mp (only _ (get_piece found))]

end Query
