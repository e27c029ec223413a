import Mathlib.Data.List.Flatten
import Mathlib.Data.List.Basic

/-!
# Pages of a list

Page `page` of a list at `size` elements a page, what the page leaves out, and the page count.
The pages partition the list (`slices_flatten`), each of them is non-empty (`slice_ne_nil`), and a
page with what it leaves out is the whole list (`slice_append_leftover`).
-/

namespace CatalogApi.Slices

variable {α : Type} {l : List α} {page size : Nat}

/-- The elements of one page. -/
def slice (l : List α) (page size : Nat) : List α :=
  (l.drop (page * size)).take size

/-- The elements off the page. -/
def leftover (l : List α) (page size : Nat) : List α :=
  l.take (page * size) ++ l.drop (page * size + size)

/-- The number of pages: the length over the size, rounded up. -/
def pageCount (length size : Nat) : Nat :=
  (length + (size - 1)) / size

theorem slice_append_leftover (l : List α) (page size : Nat) :
    (slice l page size ++ leftover l page size).Perm l := by
  have hsplit : l.take (page * size) ++ (slice l page size ++ l.drop (page * size + size)) = l := by
    rw [slice, ← List.drop_drop, List.take_append_drop, List.take_append_drop]
  calc (slice l page size ++ leftover l page size).Perm
        (l.take (page * size) ++ (slice l page size ++ l.drop (page * size + size))) := by
          rw [leftover, ← List.append_assoc, ← List.append_assoc]
          exact List.perm_append_comm.append_right _
    _ = l := hsplit

theorem slice_map {β : Type} (f : α → β) (items : List α) (page size : Nat) :
    slice (items.map f) page size = (slice items page size).map f := by
  simp [slice, List.map_take, List.map_drop]

theorem leftover_map {β : Type} (f : α → β) (items : List α) (page size : Nat) :
    leftover (items.map f) page size = (leftover items page size).map f := by
  simp [leftover, List.map_take, List.map_drop]

theorem mem_of_slice {a : α} (h : a ∈ slice l page size) : a ∈ l :=
  List.mem_of_mem_drop (List.mem_of_mem_take h)

theorem length_slice_le (l : List α) (page size : Nat) : (slice l page size).length ≤ size :=
  List.length_take_le _ _

/-- A page before the page count holds an element. -/
theorem slice_ne_nil (h : page < pageCount l.length size) : slice l page size ≠ [] := by
  have hsize : 0 < size := by
    refine Nat.pos_of_ne_zero fun hzero => ?_
    rw [hzero, pageCount, Nat.div_zero] at h
    exact Nat.not_lt_zero page h
  have hstart : page * size < l.length := by
    have hle : (page + 1) * size ≤ l.length + (size - 1) :=
      (Nat.le_div_iff_mul_le hsize).mp h
    rw [Nat.add_mul, Nat.one_mul] at hle
    omega
  intro hnil
  have hlen : (slice l page size).length = 0 := by rw [hnil, List.length_nil]
  rw [slice, List.length_take, List.length_drop] at hlen
  omega

theorem page_count_pos {length : Nat} (hlen : 0 < length) (hsize : 0 < size) : 0 < pageCount length size := by
  refine Nat.div_pos ?_ hsize
  omega

/-- A list that fits one page has nothing off the page. -/
theorem leftover_eq_nil (hfits : l.length ≤ size) (hpage : page < pageCount l.length size) :
    leftover l page size = [] := by
  have hfirst : page = 0 := by
    have hcount : pageCount l.length size ≤ 1 := by
      rcases Nat.eq_zero_or_pos size with hzero | hpos
      · rw [hzero, pageCount, Nat.div_zero]
        exact Nat.zero_le 1
      · refine Nat.le_of_lt_succ ((Nat.div_lt_iff_lt_mul hpos).mpr ?_)
        omega
    omega
  rw [leftover, hfirst, Nat.zero_mul, Nat.zero_add, List.take_zero, List.nil_append]
  exact List.drop_eq_nil_of_le hfits

theorem slices_take (l : List α) (size count : Nat) :
    (List.range count).flatMap (fun page => slice l page size) = l.take (count * size) := by
  induction count with
  | zero => rw [Nat.zero_mul, List.take_zero, List.range_zero, List.flatMap_nil]
  | succ count ih =>
      rw [List.range_succ, List.flatMap_append, ih, List.flatMap_singleton, slice, Nat.add_mul,
        Nat.one_mul, List.take_add]

/-- The pages in order are the list. -/
theorem slices_flatten (l : List α) (hsize : 0 < size) :
    (List.range (pageCount l.length size)).flatMap (fun page => slice l page size) = l := by
  rw [slices_take]
  refine List.take_of_length_le ?_
  have hceil := Nat.div_add_mod (l.length + (size - 1)) size
  have hmod := Nat.mod_lt (l.length + (size - 1)) hsize
  rw [Nat.mul_comm] at hceil
  rw [pageCount]
  omega

/-- The page of an index holds the element there. -/
theorem mem_slice_of_index (hsize : 0 < size) {index : Nat} {a : α} (h : l[index]? = some a) :
    a ∈ slice l (index / size) size := by
  have hsplit := Nat.div_add_mod index size
  have hmod := Nat.mod_lt index hsize
  rw [Nat.mul_comm] at hsplit
  have hget : (slice l (index / size) size)[index % size]? = some a := by
    rw [slice, List.getElem?_take_of_lt hmod, List.getElem?_drop, hsplit, h]
  exact List.mem_of_getElem? hget

theorem index_page_lt (hsize : 0 < size) {index : Nat} (h : index < l.length) :
    index / size < pageCount l.length size := by
  rw [pageCount]
  refine Nat.lt_of_lt_of_le (Nat.lt_succ_self _) ?_
  rw [Nat.succ_eq_add_one, ← Nat.add_div_right index hsize]
  exact Nat.div_le_div_right (by omega)

end CatalogApi.Slices
