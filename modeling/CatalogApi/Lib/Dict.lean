import Mathlib.Data.List.Nodup

/-!
# Finite maps

A finite map is its entries in the order their keys were inserted, each key once.
-/

namespace CatalogApi

/-- A finite map with its keys in insertion order. -/
structure Dict (κ α : Type) where
  entries : List (κ × α)
  nodup : (entries.map (·.1)).Nodup
  deriving DecidableEq

namespace Dict

variable {κ α : Type}

/-- The map without an entry. -/
def empty : Dict κ α := ⟨[], List.nodup_nil⟩

/-- `d.get(key)`. -/
def get? [DecidableEq κ] (d : Dict κ α) (key : κ) : Option α :=
  (d.entries.find? fun entry => entry.1 = key).map (·.2)

@[simp]
theorem get_empty [DecidableEq κ] (key : κ) : (empty : Dict κ α).get? key = none := rfl

/-- A key is read back with the value of its only entry. -/
theorem get_of_mem [DecidableEq κ] {d : Dict κ α} {key : κ} {value : α}
    (h : (key, value) ∈ d.entries) : d.get? key = some value := by
  unfold get?
  cases hfind : d.entries.find? fun entry => entry.1 = key with
  | none =>
      rw [List.find?_eq_none] at hfind
      exact absurd (hfind _ h) (by simp)
  | some entry =>
      have hkey : entry.1 = key := by simpa using List.find?_some hfind
      have hmem := List.mem_of_find?_eq_some hfind
      rw [List.inj_on_of_nodup_map d.nodup hmem h hkey, Option.map_some]

theorem mem_of_get [DecidableEq κ] {d : Dict κ α} {key : κ} {value : α}
    (h : d.get? key = some value) : (key, value) ∈ d.entries := by
  obtain ⟨⟨found, held⟩, hfind, rfl⟩ := Option.map_eq_some_iff.mp h
  have hkey : found = key := by simpa using List.find?_some hfind
  exact hkey ▸ List.mem_of_find?_eq_some hfind

theorem mem_iff [DecidableEq κ] {d : Dict κ α} {key : κ} {value : α} :
    (key, value) ∈ d.entries ↔ d.get? key = some value :=
  ⟨get_of_mem, mem_of_get⟩

section Set

variable [DecidableEq κ]

/-- The entries after `d[key] = value`. -/
def assigned (entries : List (κ × α)) (key : κ) (value : α) : List (κ × α) :=
  if key ∈ entries.map (·.1) then
    entries.map fun entry => if entry.1 = key then (key, value) else entry
  else entries ++ [(key, value)]

theorem assigned_nodup {entries : List (κ × α)} (h : (entries.map (·.1)).Nodup) (key : κ)
    (value : α) : ((assigned entries key value).map (·.1)).Nodup := by
  rw [assigned]
  split
  case isTrue hmem =>
    have hkeys : (entries.map fun entry => if entry.1 = key then (key, value) else entry).map
        (·.1) = entries.map (·.1) := by
      rw [List.map_map]
      refine List.map_congr_left fun entry _ => ?_
      rw [Function.comp_apply]
      split
      case isTrue heq => exact heq.symm
      case isFalse => rfl
    rwa [hkeys]
  case isFalse hmem =>
    rw [List.map_append, List.nodup_append]
    refine ⟨h, List.nodup_singleton _, fun k hk other hother => ?_⟩
    rw [List.map_singleton, List.mem_singleton] at hother
    subst hother
    exact fun heq => hmem (heq ▸ hk)

/-- `d[key] = value`. -/
def set (d : Dict κ α) (key : κ) (value : α) : Dict κ α :=
  ⟨assigned d.entries key value, assigned_nodup d.nodup key value⟩

/-- A dictionary after an assignment. -/
theorem get_set (d : Dict κ α) (key : κ) (value : α) (other : κ) :
    (d.set key value).get? other = if other = key then some value else d.get? other := by
  refine Option.ext fun found => ?_
  rw [← mem_iff]
  simp only [set, assigned]
  split
  case isTrue hmem =>
    obtain ⟨⟨k, old⟩, hold, rfl⟩ := List.mem_map.mp hmem
    rw [List.mem_map]
    constructor
    · rintro ⟨⟨j, held⟩, hheld, heq⟩
      by_cases hj : j = k
      · rw [if_pos hj] at heq
        obtain ⟨rfl, rfl⟩ := Prod.mk.inj heq
        rw [if_pos rfl]
      · rw [if_neg hj] at heq
        obtain ⟨rfl, rfl⟩ := Prod.mk.inj heq
        rw [if_neg hj]
        exact get_of_mem hheld
    · intro hfound
      by_cases hother : other = k
      · rw [if_pos hother] at hfound
        obtain rfl := Option.some.inj hfound
        exact ⟨(k, old), hold, by rw [if_pos rfl, hother]⟩
      · rw [if_neg hother] at hfound
        exact ⟨(other, found), mem_of_get hfound, if_neg hother⟩
  case isFalse hmem =>
    have hnone : ∀ value, (key, value) ∉ d.entries := fun value hin =>
      hmem (List.mem_map.mpr ⟨_, hin, rfl⟩)
    rw [List.mem_append, List.mem_singleton, mem_iff]
    by_cases hother : other = key
    · subst hother
      have habsent : d.get? other ≠ some found := fun hget => hnone _ (mem_of_get hget)
      simp [habsent, eq_comm]
    · simp [hother]

end Set

end Dict

end CatalogApi
