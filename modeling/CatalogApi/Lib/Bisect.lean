import CatalogApi.Lib.Stable
import Mathlib.Data.List.GetD

/-!
# Binary search and index sorts

`bisect_left`, `bisect_right` and sorting the positions of an array by its values. In a sorted array
the search finds how many elements come before (`bisect_left_eq`, `bisect_right_eq`), and arrays
permuted by one index sort stay aligned (`permute_argsort`).
-/

namespace CatalogApi.Bisect

open ByKey

variable {α : Type}

/-- The loop of a binary search for the end of the elements below. -/
def search (below : α → Bool) (l : List α) : Nat → Nat → Nat → Nat
  | 0, low, _ => low
  | fuel + 1, low, high =>
      if low < high then
        if (l[(low + high) / 2]?).any below then search below l fuel ((low + high) / 2 + 1) high
        else search below l fuel low ((low + high) / 2)
      else low

variable [LinearOrder α]

/-- `bisect_left`. -/
def bisectLeft (l : List α) (a : α) : Nat := search (· < a) l l.length 0 l.length

/-- `bisect_right`. -/
def bisectRight (l : List α) (a : α) : Nat := search (· ≤ a) l l.length 0 l.length

omit [LinearOrder α] in
/-- The search finds the boundary of a predicate that holds below it. -/
theorem search_eq {below : α → Bool} {l : List α} {boundary : Nat}
    (hbelow : ∀ i a, l[i]? = some a → (below a = true ↔ i < boundary)) (fuel low high : Nat)
    (hfuel : high - low ≤ fuel) (hlow : low ≤ boundary) (hhigh : boundary ≤ high)
    (hlength : high ≤ l.length) : search below l fuel low high = boundary := by
  induction fuel generalizing low high with
  | zero =>
      rw [search]
      omega
  | succ fuel ih =>
      rw [search]
      split
      case isFalse => omega
      case isTrue hlt =>
        have hmid : (low + high) / 2 < l.length := by omega
        obtain ⟨a, ha⟩ : ∃ a, l[(low + high) / 2]? = some a :=
          ⟨_, List.getElem?_eq_getElem hmid⟩
        have hiff := hbelow _ a ha
        rw [ha, Option.any_some]
        split
        case isTrue htrue =>
          have hcut := hiff.mp htrue
          exact ih _ _ (by omega) (by omega) hhigh hlength
        case isFalse hfalse =>
          have hcut := mt hiff.mpr hfalse
          exact ih _ _ (by omega) hlow (by omega) (by omega)

omit [LinearOrder α] in
/-- In a list where the elements below come first, their number is the boundary. -/
theorem count_boundary {below : α → Bool} {l : List α}
    (hsorted : l.Pairwise fun a b => below b = true → below a = true) (i : Nat) (a : α)
    (ha : l[i]? = some a) : below a = true ↔ i < l.countP below := by
  induction l generalizing i with
  | nil => cases ha
  | cons b l ih =>
      rw [List.pairwise_cons] at hsorted
      rw [List.countP_cons]
      cases i with
      | zero =>
          cases ha
          by_cases hb : below a = true
          · simp [hb]
          · have hnone : l.countP below = 0 :=
              List.countP_eq_zero.mpr fun c hc hbelow => hb (hsorted.1 c hc hbelow)
            simp [hb, hnone]
      | succ i =>
          rw [ih hsorted.2 i ha]
          by_cases hb : below b = true
          · simp [hb]
          · have hnone : l.countP below = 0 :=
              List.countP_eq_zero.mpr fun c hc hbelow => hb (hsorted.1 c hc hbelow)
            simp [hb, hnone]

theorem bisect_left_eq {l : List α} (hsorted : l.Pairwise (· ≤ ·)) (a : α) :
    bisectLeft l a = l.countP (· < a) := by
  refine search_eq (count_boundary (hsorted.imp fun hle hlt => ?_)) _ _ _ (Nat.le_refl _)
    (Nat.zero_le _) List.countP_le_length (Nat.le_refl _)
  rw [decide_eq_true_eq] at hlt ⊢
  exact lt_of_le_of_lt hle hlt

theorem bisect_right_eq {l : List α} (hsorted : l.Pairwise (· ≤ ·)) (a : α) :
    bisectRight l a = l.countP (· ≤ a) := by
  refine search_eq (count_boundary (hsorted.imp fun hle hle' => ?_)) _ _ _ (Nat.le_refl _)
    (Nat.zero_le _) List.countP_le_length (Nat.le_refl _)
  rw [decide_eq_true_eq] at hle' ⊢
  exact le_trans hle hle'

/-- The search finds an element of a sorted list without repetitions at its own position. -/
theorem bisect_left_get {l : List α} (hsorted : l.Pairwise (· < ·)) {i : Nat} {a : α}
    (ha : l[i]? = some a) : bisectLeft l a = i := by
  rw [bisect_left_eq (hsorted.imp le_of_lt)]
  induction l generalizing i with
  | nil => cases ha
  | cons b l ih =>
      rw [List.pairwise_cons] at hsorted
      cases i with
      | zero =>
          cases ha
          have hnone : l.countP (· < a) = 0 := by
            refine List.countP_eq_zero.mpr fun c hc hlt => ?_
            rw [decide_eq_true_eq] at hlt
            exact absurd hlt (not_lt.mpr (le_of_lt (hsorted.1 c hc)))
          simp [hnone]
      | succ i =>
          have hlt := hsorted.1 a (List.mem_of_getElem? ha)
          rw [List.countP_cons_of_pos (by simpa using hlt), ih hsorted.2 ha]

/-- A binary search in the keys of sorted rows, and the other column at what it finds, is a lookup
of the key. -/
theorem bisect_lookup {β : Type} {rows : List (α × β)} (hsorted : rows.Pairwise fun a b => a.1 < b.1)
    (k d : α) (d' : β) :
    (if bisectLeft (rows.map (·.1)) k < (rows.map (·.1)).length ∧
          (rows.map (·.1)).getD (bisectLeft (rows.map (·.1)) k) d = k then
        some ((rows.map (·.2)).getD (bisectLeft (rows.map (·.1)) k) d')
      else none) = (rows.find? fun row => row.1 = k).map (·.2) := by
  cases hfound : rows.find? fun row => row.1 = k with
  | none =>
      refine if_neg fun ⟨hlt, heq⟩ => ?_
      rw [List.getD_eq_getElem _ _ hlt, List.getElem_map] at heq
      exact List.find?_eq_none.mp hfound _ (List.getElem_mem _) (decide_eq_true heq)
  | some row =>
      obtain ⟨i, hi, hrow⟩ := List.getElem_of_mem (List.mem_of_find?_eq_some hfound)
      have hmatch := List.find?_some hfound
      have hkey : row.1 = k := of_decide_eq_true hmatch
      have hat : (rows.map (·.1))[i]? = some k := by
        rw [List.getElem?_map, List.getElem?_eq_getElem hi, hrow, Option.map_some, hkey]
      rw [bisect_left_get (List.pairwise_map.mpr hsorted) hat, if_pos]
      · rw [List.getD_eq_getElem _ _ (by simpa using hi), List.getElem_map, hrow, Option.map_some]
      · refine ⟨by simpa using hi, ?_⟩
        rw [List.getD_eq_getElem?_getD, hat, Option.getD_some]

/-! ## Index sorts -/

section Permute

variable {β κ ρ : Type} [LinearOrder κ]

/-- The positions of an array, in stable order of its values. -/
def argsort [Inhabited κ] (l : List κ) : List Nat :=
  sortBy (fun i => l.getD i default) (List.range l.length)

/-- The array permuted by an index. -/
def permute [Inhabited β] (order : List Nat) (l : List β) : List β :=
  order.map fun i => l.getD i default

/-- The keys of the elements alone decide a sort. -/
theorem sort_by_key_congr {key key' : ρ → κ} {l : List ρ} (h : ∀ a ∈ l, key a = key' a) :
    sortBy key l = sortBy key' l := by
  have hmap := List.map_insertionSort (fun a b => key a ≤ key b) (fun a b => key' a ≤ key' b) id l
    fun a ha b hb => by rw [h a ha, h b hb]; rfl
  rw [List.map_id, List.map_id] at hmap
  exact hmap

/-- Positions sorted by the keys of rows stand for the sorted rows. -/
theorem argsort_map [Inhabited κ] (key : ρ → κ) (rows : List ρ) (row : ρ) :
    (argsort (rows.map key)).map (fun i => rows.getD i row) = sortBy key rows := by
  have hkeys : argsort (rows.map key) =
      sortBy (fun i => key (rows.getD i row)) (List.range rows.length) := by
    rw [argsort, List.length_map]
    refine sort_by_key_congr fun i hi => ?_
    have hlt := List.mem_range.mp hi
    rw [List.getD_eq_getElem _ _ (by simpa using hlt), List.getD_eq_getElem _ _ hlt,
      List.getElem_map]
  have hrows : (List.range rows.length).map (fun i => rows.getD i row) = rows := by
    refine List.ext_getElem (by simp) fun i hi hi' => ?_
    rw [List.getElem_map, List.getElem_range, List.getD_eq_getElem _ _ hi']
  rw [hkeys]
  refine (map_sort_by (fun i => ?_) _).trans (congrArg _ hrows)
  rfl

theorem mem_argsort [Inhabited κ] {l : List κ} {i : Nat} : i ∈ argsort l ↔ i < l.length := by
  rw [argsort, mem_sort_by, List.mem_range]

/-- Arrays permuted by one index sort stay aligned. -/
theorem permute_argsort [Inhabited β] [Inhabited κ] (key : ρ → κ) (field : ρ → β)
    (rows : List ρ) :
    permute (argsort (rows.map key)) (rows.map field) = (sortBy key rows).map field := by
  cases rows with
  | nil => rfl
  | cons row rows =>
      rw [← argsort_map key (row :: rows) row, List.map_map, permute]
      refine List.map_congr_left fun i hi => ?_
      rw [mem_argsort, List.length_map] at hi
      rw [Function.comp_apply, List.getD_eq_getElem _ _ (by simpa using hi),
        List.getD_eq_getElem _ _ hi, List.getElem_map]

/-- The positions of the rows that are kept pick the kept rows' column. -/
theorem map_kept (p : ρ → Bool) (field : ρ → β) (d : β) (rows : List ρ) :
    (((List.range rows.length).filter fun i => (rows.map p).getD i false).map fun i =>
      (rows.map field).getD i d) = (rows.filter p).map field := by
  induction rows with
  | nil => rfl
  | cons row rows ih =>
      have hrest : ((((List.range rows.length).map Nat.succ).filter fun i =>
          ((row :: rows).map p).getD i false).map fun i => ((row :: rows).map field).getD i d) =
          (rows.filter p).map field := by
        rw [List.filter_map, List.map_map]
        exact ih
      rw [List.length_cons, List.range_succ_eq_map, List.filter_cons, List.filter_cons]
      cases hrow : p row with
      | false => simpa [hrow] using hrest
      | true => simpa [hrow] using hrest

end Permute

end CatalogApi.Bisect
