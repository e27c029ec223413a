import CatalogApi.Lib.ByKey
import CatalogApi.Lib.Dict
import Mathlib.Data.List.Perm.Basic

/-!
# Maps filled by a loop

A loop that writes a map row by row, seen through one key: when each step changes what is read at a
key by a function of what was read there, so does the loop (`get_foldl`). Maps that read alike have
the same sorted items, whatever the order they were filled in.
-/

namespace CatalogApi.Folds

open ByKey

variable {κ V Row : Type} [DecidableEq κ]

/-- A loop over a map is a loop at each key. -/
theorem get_foldl {step : Dict κ V → Row → Dict κ V} {effect : κ → Option V → Row → Option V}
    (h : ∀ d row k, (step d row).get? k = effect k (d.get? k) row) (rows : List Row)
    (d : Dict κ V) (k : κ) :
    (rows.foldl step d).get? k = rows.foldl (effect k) (d.get? k) := by
  induction rows generalizing d with
  | nil => rfl
  | cons row rows ih => rw [List.foldl_cons, ih, h, List.foldl_cons]

/-- Writing each key of a list once, from the value it had. -/
theorem get_set_each (f : Option V → V) {keys : List κ} (hkeys : keys.Nodup) (d : Dict κ V)
    (k : κ) : (keys.foldl (fun d key => d.set key (f (d.get? key))) d).get? k =
      if k ∈ keys then some (f (d.get? k)) else d.get? k := by
  induction keys generalizing d with
  | nil => rfl
  | cons key keys ih =>
      obtain ⟨hkey, hkeys⟩ := List.nodup_cons.mp hkeys
      rw [List.foldl_cons, ih hkeys, Dict.get_set]
      by_cases hk : k = key
      · subst hk
        simp [hkey]
      · simp [hk]

/-- Writing the keys of a list by a rule that a second time changes nothing. -/
theorem get_set_idem {f : Option V → V} (hf : ∀ v, f (some (f v)) = f v) (keys : List κ)
    (d : Dict κ V) (k : κ) : (keys.foldl (fun d key => d.set key (f (d.get? key))) d).get? k =
      if k ∈ keys then some (f (d.get? k)) else d.get? k := by
  induction keys generalizing d with
  | nil => rfl
  | cons key keys ih =>
      rw [List.foldl_cons, ih, Dict.get_set]
      by_cases hk : k = key
      · subst hk
        simp [hf]
      · simp [hk]

/-- `dict(sorted(d.items()))`. -/
def sortedItems {κ : Type} [LinearOrder κ] (d : Dict κ V) : List (κ × V) :=
  sortBy (·.1) d.entries

theorem mem_sorted_items {κ : Type} [LinearOrder κ] {d : Dict κ V} {k : κ} {v : V} :
    (k, v) ∈ sortedItems d ↔ d.get? k = some v := by
  rw [sortedItems, mem_sort_by, Dict.mem_iff]

/-- Maps that read alike have the same sorted items. -/
theorem sorted_items_congr {κ : Type} [LinearOrder κ] {d other : Dict κ V}
    (h : ∀ k, d.get? k = other.get? k) : sortedItems d = sortedItems other := by
  refine sort_by_eq_of_perm ?_ fun a ha b hb heq => List.inj_on_of_nodup_map d.nodup ha hb heq
  refine (List.perm_ext_iff_of_nodup (List.Nodup.of_map _ d.nodup)
    (List.Nodup.of_map _ other.nodup)).mpr fun entry => ?_
  rw [Dict.mem_iff, Dict.mem_iff, h]

/-- The entries of sorted items are found by their keys. -/
theorem find_sorted_items {κ : Type} [LinearOrder κ] (d : Dict κ V) (k : κ) :
    ((sortedItems d).find? fun entry => entry.1 = k).map (·.2) = d.get? k := by
  refine Option.ext fun v => ?_
  rw [← Dict.mem_iff, Option.map_eq_some_iff]
  constructor
  · rintro ⟨⟨j, held⟩, hfound, rfl⟩
    have hj : j = k := by simpa using List.find?_some hfound
    have hmem := List.mem_of_find?_eq_some hfound
    rw [sortedItems, mem_sort_by, hj] at hmem
    exact hmem
  · intro hv
    cases hfound : (sortedItems d).find? fun entry => entry.1 = k with
    | none =>
        have hnot := List.find?_eq_none.mp hfound (k, v) (mem_sort_by.mpr hv)
        exact absurd (decide_eq_true rfl) hnot
    | some entry =>
        have hkey : entry.1 = k := by simpa using List.find?_some hfound
        have hmem := mem_sort_by.mp (List.mem_of_find?_eq_some hfound)
        exact ⟨entry, rfl, congrArg Prod.snd (List.inj_on_of_nodup_map d.nodup hmem hv hkey)⟩

end CatalogApi.Folds
