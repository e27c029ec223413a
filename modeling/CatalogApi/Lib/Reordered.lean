import CatalogApi.Lib.ByKey
import CatalogApi.Lib.Slices
import Mathlib.Data.List.Perm.Subperm

/-!
# Pages of a list that is ordered anew for each

A page of a list sorted by a key, where every page may come from another order of the rows that tie.
The keys of the pages are always those of the sorted list (`reordered_keys`). The pages hold every
row once as long as the rows of one key never fall on two pages (`reordered_perm`), and a row that
its ties carry from one page to another is missed by some orders (`idx_first`, `idx_last`).
-/

namespace CatalogApi.Slices

open ByKey

variable {α κ : Type} [LinearOrder κ] {key : α → κ} {all l : List α} {size page : Nat} {a : α}

/-- An order of the list by the key. -/
structure Ordered (key : α → κ) (all l : List α) : Prop where
  perm : l.Perm all
  sorted : l.Pairwise fun a b => key a ≤ key b

/-- The elements less than one by the key. -/
def ahead (key : α → κ) (all : List α) (a : α) : Nat := all.countP fun b => key b < key a

/-- The elements not greater than one by the key, itself among them. -/
def through (key : α → κ) (all : List α) (a : α) : Nat := all.countP fun b => key b ≤ key a

/-- An order of the list lists the keys as the sort does. -/
theorem Ordered.keys (h : Ordered key all l) : l.map key = (sortBy key all).map key :=
  List.Perm.eq_of_pairwise (fun _ _ _ _ => le_antisymm) (List.pairwise_map.mpr h.sorted)
    (List.pairwise_map.mpr (sort_by_sorted key all))
    ((h.perm.trans (sort_by_perm key all).symm).map key)

/-- The keys of the pages, whatever the order of each. -/
theorem reordered_keys {orders : Nat → List α} (horders : ∀ page, Ordered key all (orders page))
    (count size : Nat) :
    ((List.range count).flatMap fun page => slice (orders page) page size).map key =
      ((sortBy key all).map key).take (count * size) := by
  rw [List.map_flatMap, ← slices_take]
  refine List.flatMap_congr fun page _ => ?_
  rw [← slice_map, (horders page).keys]

section Places

variable [DecidableEq α]

theorem mem_slice_iff (hsize : 0 < size) (hnodup : l.Nodup) (ha : a ∈ l) :
    a ∈ slice l page size ↔ l.idxOf a / size = page := by
  have hindex := List.idxOf_lt_length_of_mem ha
  constructor
  · intro hmem
    obtain ⟨j, hj, hget⟩ := List.getElem_of_mem hmem
    have hshort := length_slice_le l page size
    have hat : l[page * size + j]? = some a := by
      rw [← List.getElem?_drop, ← List.getElem?_take_of_lt (Nat.lt_of_lt_of_le hj hshort)]
      exact List.getElem?_eq_some_iff.mpr ⟨hj, hget⟩
    obtain ⟨hlt, hget⟩ := List.getElem?_eq_some_iff.mp hat
    have hidx : l.idxOf a = page * size + j := by
      rw [← hget, hnodup.idxOf_getElem]
    rw [hidx, Nat.mul_comm, Nat.mul_add_div hsize, Nat.div_eq_of_lt (by omega), Nat.add_zero]
  · rintro rfl
    refine mem_slice_of_index hsize ?_
    rw [List.getElem?_eq_getElem hindex, List.getElem_idxOf]

/-- The rows before a row in a list that is in order. -/
theorem idx_split (ha : a ∈ l) :
    ∃ before after, l = before ++ a :: after ∧ l.idxOf a = before.length := by
  obtain ⟨before, after, rfl, hnot⟩ := List.eq_append_cons_of_mem ha
  refine ⟨before, after, rfl, ?_⟩
  rw [List.idxOf_append_of_notMem hnot, List.idxOf_cons_self, Nat.add_zero]

/-- A row stands after all the rows that are less and before all that are greater. -/
theorem Ordered.idx_bounds (h : Ordered key all l) (ha : a ∈ l) :
    ahead key all a ≤ l.idxOf a ∧ l.idxOf a < through key all a := by
  obtain ⟨before, after, hsplit, hidx⟩ := idx_split ha
  have hsorted := h.sorted
  rw [hsplit, List.pairwise_append, List.pairwise_cons] at hsorted
  obtain ⟨-, ⟨hafter, -⟩, hbefore⟩ := hsorted
  rw [hidx, ahead, through, ← h.perm.countP_eq, ← h.perm.countP_eq, hsplit, List.countP_append,
    List.countP_append, List.countP_cons, List.countP_cons]
  constructor
  · have hnone : after.countP (fun b => key b < key a) = 0 :=
      List.countP_eq_zero.mpr fun b hb => by
        rw [decide_eq_true_eq, not_lt]
        exact hafter b hb
    have hle : before.countP (fun b => key b < key a) ≤ before.length := List.countP_le_length
    simp [hnone, hle]
  · have hall : before.countP (fun b => key b ≤ key a) = before.length :=
      List.countP_eq_length.mpr fun b hb => decide_eq_true (hbefore b hb a List.mem_cons_self)
    rw [hall, if_pos (decide_eq_true le_rfl)]
    omega

/-- Whatever the order of each page, the pages hold every row once while the rows of one key stand
on one page. -/
theorem reordered_perm {orders : Nat → List α} (hsize : 0 < size) (hnodup : all.Nodup)
    (horders : ∀ page, Ordered key all (orders page))
    (htogether : ∀ a ∈ all, ahead key all a / size = (through key all a - 1) / size) :
    ((List.range (all.length / size + 1)).flatMap fun page => slice (orders page) page size).Perm
      all := by
  have hlength : ((List.range (all.length / size + 1)).flatMap fun page =>
      slice (orders page) page size).length = all.length := by
    have hkeys := congrArg List.length (reordered_keys horders (all.length / size + 1) size)
    rw [List.length_map, List.length_take, List.length_map, length_sort_by] at hkeys
    rw [hkeys]
    have hdiv := Nat.lt_mul_div_succ all.length hsize
    rw [Nat.mul_comm] at hdiv
    omega
  refine (List.Subperm.perm_of_length_le (List.subperm_of_subset hnodup fun a ha => ?_)
    hlength.le).symm
  have hmem : ∀ page, a ∈ orders page := fun page => (horders page).perm.mem_iff.mpr ha
  have hpage : ∀ page, (orders page).idxOf a / size = ahead key all a / size := by
    intro page
    obtain ⟨hle, hlt⟩ := (horders page).idx_bounds (hmem page)
    refine Nat.le_antisymm ?_ (Nat.div_le_div_right hle)
    rw [htogether a ha]
    exact Nat.div_le_div_right (by omega)
  refine List.mem_flatMap.mpr ⟨ahead key all a / size, ?_, ?_⟩
  · rw [List.mem_range, Nat.lt_succ_iff]
    exact Nat.div_le_div_right List.countP_le_length
  · exact (mem_slice_iff hsize ((horders _).perm.symm.nodup hnodup) (hmem _)).mpr (hpage _)

section Ties

variable {κ' : Type} [LinearOrder κ'] {order : α → κ'}

/-- In an order that puts a row before its ties, as many rows stand before it as are less. -/
theorem idx_first (hsorted : l.Pairwise fun b c => order b ≤ order c) (hnodup : l.Nodup)
    (ha : a ∈ l) (hmono : ∀ b ∈ l, order a ≤ order b → key a ≤ key b)
    (hfirst : ∀ b ∈ l, b ≠ a → order b ≤ order a → key b < key a) :
    l.idxOf a = ahead key l a := by
  obtain ⟨before, after, hsplit, hidx⟩ := idx_split ha
  rw [hidx]
  clear hidx
  subst hsplit
  rw [List.pairwise_append, List.pairwise_cons] at hsorted
  obtain ⟨-, ⟨hafter, -⟩, hbefore⟩ := hsorted
  rw [List.nodup_append] at hnodup
  have hall : before.countP (fun b => key b < key a) = before.length := by
    refine List.countP_eq_length.mpr fun b hb => decide_eq_true ?_
    exact hfirst b (List.mem_append_left _ hb) (hnodup.2.2 b hb a List.mem_cons_self)
      (hbefore b hb a List.mem_cons_self)
  have hnone : after.countP (fun b => key b < key a) = 0 := by
    refine List.countP_eq_zero.mpr fun b hb => ?_
    rw [decide_eq_true_eq, not_lt]
    exact hmono b (List.mem_append_right _ (List.mem_cons_of_mem _ hb)) (hafter b hb)
  rw [ahead, List.countP_append, List.countP_cons, hall, hnone]
  simp

/-- In an order that puts a row behind its ties, only the greater rows stand after it. -/
theorem idx_last (hsorted : l.Pairwise fun b c => order b ≤ order c) (hnodup : l.Nodup)
    (ha : a ∈ l) (hmono : ∀ b ∈ l, order b ≤ order a → key b ≤ key a)
    (hlast : ∀ b ∈ l, b ≠ a → order a ≤ order b → key a < key b) :
    l.idxOf a = through key l a - 1 := by
  obtain ⟨before, after, hsplit, hidx⟩ := idx_split ha
  rw [hidx]
  clear hidx
  subst hsplit
  rw [List.pairwise_append, List.pairwise_cons] at hsorted
  obtain ⟨-, ⟨hafter, -⟩, hbefore⟩ := hsorted
  rw [List.nodup_append, List.nodup_cons] at hnodup
  have hall : before.countP (fun b => key b ≤ key a) = before.length := by
    refine List.countP_eq_length.mpr fun b hb => decide_eq_true ?_
    exact hmono b (List.mem_append_left _ hb) (hbefore b hb a List.mem_cons_self)
  have hnone : after.countP (fun b => key b ≤ key a) = 0 := by
    refine List.countP_eq_zero.mpr fun b hb => ?_
    rw [decide_eq_true_eq, not_le]
    have hne : b ≠ a := fun heq => hnodup.2.1.1 (heq ▸ hb)
    exact hlast b (List.mem_append_right _ (List.mem_cons_of_mem _ hb)) hne (hafter b hb)
  rw [through, List.countP_append, List.countP_cons, hall, hnone]
  simp

end Ties

end Places

end CatalogApi.Slices
