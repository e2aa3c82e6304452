import Mathlib.Data.List.Nodup
import Mathlib.Data.List.Perm.Basic
import Mathlib.Order.Lattice

/-!
# Maps as lists of entries

Entries in the order of their keys. Writes to different keys can be made in any order, so a map
that is filled with one entry for each key does not depend on the order in which they come.
-/

namespace SortedMap

variable {κ β : Type*} [LinearOrder κ]

def insert (key : κ) (v : β) : List (κ × β) → List (κ × β)
  | [] => [(key, v)]
  | (other, w) :: rest =>
    if key = other then (key, v) :: rest
    else if key < other then (key, v) :: (other, w) :: rest
    else (other, w) :: insert key v rest

def fill (entries received : List (κ × β)) : List (κ × β) :=
  received.foldl (fun entries r => insert r.1 r.2 entries) entries

variable {key other : κ} {v w : β} {entries received received' : List (κ × β)}

theorem insert_comm (ne : key ≠ other) :
    insert key v (insert other w entries) = insert other w (insert key v entries) := by
  induction entries with
  | nil => grind [insert]
  | cons entry rest ih => grind [insert]

theorem fill_perm (perm : received.Perm received') (distinct : (received.map Prod.fst).Nodup) :
    fill entries received = fill entries received' := by
  refine perm.foldl_eq' ?_ entries
  intro r r_mem q q_mem entries
  rcases eq_or_ne r q with rfl | ne
  · rfl
  · apply insert_comm
    intro same
    exact ne (List.inj_on_of_nodup_map distinct r_mem q_mem same.symm)

section Lookup

variable [BEq κ] [LawfulBEq κ]

theorem lookup_insert : (insert key v entries).lookup other = if other = key then some v else entries.lookup other := by
  induction entries with
  | nil => grind [insert]
  | cons entry rest ih => grind [insert]

theorem lookup_fill_of_notMem (absent : key ∉ received.map Prod.fst) :
    (fill entries received).lookup key = entries.lookup key := by
  induction received generalizing entries with
  | nil => rfl
  | cons r rest ih =>
    rw [List.map_cons, List.mem_cons, not_or] at absent
    show (fill (insert r.1 r.2 entries) rest).lookup key = _
    rw [ih absent.2, lookup_insert, if_neg absent.1]

theorem lookup_fill (distinct : (received.map Prod.fst).Nodup) (member : (key, v) ∈ received) :
    (fill entries received).lookup key = some v := by
  induction received generalizing entries with
  | nil => contradiction
  | cons r rest ih =>
    obtain ⟨absent, others⟩ := List.nodup_cons.mp distinct
    show (fill (insert r.1 r.2 entries) rest).lookup key = _
    rcases List.mem_cons.mp member with rfl | later
    · rw [lookup_fill_of_notMem absent, lookup_insert, if_pos rfl]
    · exact ih others later

end Lookup

end SortedMap
