import CatalogApi.Lib.Dict
import Mathlib.Data.List.Induction

/-!
# Maps updated by maps

Updates of a finite map by others, and maps made from the keys or the values of another. Updates
that agree where they overlap can be made in any order: `get_update_all_iff` reads the result
without one.
-/

namespace CatalogApi.Dict

variable {κ α β : Type}

/-- `d.keys()`. -/
def keys (d : Dict κ α) : List κ := d.entries.map (·.1)

/-- The entries whose value the function keeps, with the values it gives. -/
def filterMap (f : κ → α → Option β) (d : Dict κ α) : Dict κ β where
  entries := d.entries.filterMap fun (key, value) => (f key value).map (key, ·)
  nodup := by
    have hsub : ∀ entries : List (κ × α),
        ((entries.filterMap fun (key, value) => (f key value).map (key, ·)).map (·.1)).Sublist
          (entries.map (·.1)) := by
      intro entries
      induction entries with
      | nil => exact List.Sublist.slnil
      | cons entry entries ih =>
          obtain ⟨key, value⟩ := entry
          cases hf : f key value with
          | none => simpa [hf] using ih.cons key
          | some b => simpa [hf] using ih.cons_cons key
    exact (hsub d.entries).nodup d.nodup

/-- The map of a function over distinct keys. -/
def ofKeys (names : List κ) (h : names.Nodup) (f : κ → α) : Dict κ α where
  entries := names.map fun name => (name, f name)
  nodup := by simpa [Function.comp_def] using h

@[simp]
theorem keys_of_keys (names : List κ) (h : names.Nodup) (f : κ → α) :
    (ofKeys names h f).keys = names := by
  simp [keys, ofKeys, Function.comp_def]

section Reading

variable [DecidableEq κ]

theorem mem_keys {d : Dict κ α} {key : κ} : key ∈ d.keys ↔ ∃ value, d.get? key = some value := by
  rw [keys, List.mem_map]
  constructor
  · rintro ⟨⟨_, value⟩, hmem, rfl⟩
    exact ⟨value, get_of_mem hmem⟩
  · rintro ⟨value, hget⟩
    exact ⟨(key, value), mem_of_get hget, rfl⟩

theorem get_eq_none {d : Dict κ α} {key : κ} : d.get? key = none ↔ key ∉ d.keys := by
  rw [mem_keys, Option.eq_none_iff_forall_ne_some, not_exists]

theorem entries_eq_nil {d : Dict κ α} : d.entries = [] ↔ ∀ key, d.get? key = none := by
  simp only [get_eq_none, keys, ← List.eq_nil_iff_forall_not_mem, List.map_eq_nil_iff]

theorem get_filter_map (f : κ → α → Option β) (d : Dict κ α) (key : κ) :
    (d.filterMap f).get? key = (d.get? key).bind (f key) := by
  refine Option.ext fun b => ?_
  rw [← mem_iff, Option.bind_eq_some_iff, filterMap, List.mem_filterMap]
  constructor
  · rintro ⟨⟨k, value⟩, hmem, hf⟩
    obtain ⟨found, hfound, heq⟩ := Option.map_eq_some_iff.mp hf
    obtain ⟨rfl, rfl⟩ := Prod.mk.inj heq
    exact ⟨value, get_of_mem hmem, hfound⟩
  · rintro ⟨value, hget, hf⟩
    refine ⟨(key, value), mem_of_get hget, ?_⟩
    dsimp only
    rw [hf, Option.map_some]

theorem get_of_keys (names : List κ) (h : names.Nodup) (f : κ → α) (key : κ) :
    (ofKeys names h f).get? key = if key ∈ names then some (f key) else none := by
  split
  case isTrue hmem => exact get_of_mem (List.mem_map.mpr ⟨key, hmem, rfl⟩)
  case isFalse hmem => rwa [get_eq_none, keys_of_keys]

/-- A key that is not there is written at the end. -/
theorem set_of_absent {d : Dict κ α} {key : κ} (h : d.get? key = none) (value : α) :
    (d.set key value).entries = d.entries ++ [(key, value)] :=
  if_neg (get_eq_none.mp h)

/-- `d.update(other)`. -/
def update (d other : Dict κ α) : Dict κ α :=
  other.entries.foldl (fun d entry => d.set entry.1 entry.2) d

theorem get_update (d other : Dict κ α) (key : κ) :
    (d.update other).get? key = (other.get? key).or (d.get? key) := by
  obtain ⟨entries, hnodup⟩ := other
  unfold update get?
  dsimp only
  induction entries generalizing d with
  | nil => rfl
  | cons entry entries ih =>
      obtain ⟨k, value⟩ := entry
      rw [List.map_cons, List.nodup_cons] at hnodup
      have hset := get_set d k value key
      unfold get? at hset
      rw [List.foldl_cons, ih _ hnodup.2, List.find?_cons, hset]
      by_cases hk : k = key
      · subst hk
        have hnone : (entries.find? fun entry => entry.1 = k) = none :=
          List.find?_eq_none.mpr fun other hother heq =>
            hnodup.1 (List.mem_map.mpr ⟨other, hother, of_decide_eq_true heq⟩)
        simp [hnone]
      · simp [hk, Ne.symm hk]

/-- The updates by a list of maps, one after the other. -/
def updateAll (d : Dict κ α) (updates : List (Dict κ α)) : Dict κ α := updates.foldl update d

/-- A map filled entry by entry is read without the order, when equal keys get equal values. -/
theorem get_set_all_iff {ι : Type} {l : List ι} {name : ι → κ} {value : ι → α}
    (h : ∀ a ∈ l, ∀ b ∈ l, name a = name b → value a = value b) (d : Dict κ α) (key : κ) (v : α) :
    (l.foldl (fun d a => d.set (name a) (value a)) d).get? key = some v ↔
      (∃ a ∈ l, name a = key ∧ value a = v) ∨
        (∀ a ∈ l, name a ≠ key) ∧ d.get? key = some v := by
  induction l generalizing d with
  | nil => simp
  | cons a l ih =>
      have hrest := ih fun b hb c hc =>
        h b (List.mem_cons_of_mem _ hb) c (List.mem_cons_of_mem _ hc)
      rw [List.foldl_cons, hrest, get_set]
      by_cases hkey : name a = key
      · rw [if_pos hkey.symm]
        constructor
        · rintro (⟨b, hb, hname, hvalue⟩ | ⟨-, hvalue⟩)
          · exact Or.inl ⟨b, List.mem_cons_of_mem _ hb, hname, hvalue⟩
          · exact Or.inl ⟨a, List.mem_cons_self, hkey, Option.some.inj hvalue⟩
        · rintro (⟨b, hb, hname, hvalue⟩ | ⟨hnone, -⟩)
          · by_cases hother : ∃ c ∈ l, name c = key
            · obtain ⟨c, hc, hcname⟩ := hother
              have hsame := h c (List.mem_cons_of_mem _ hc) b hb (hcname.trans hname.symm)
              exact Or.inl ⟨c, hc, hcname, hsame.trans hvalue⟩
            · have hsame := h a List.mem_cons_self b hb (hkey.trans hname.symm)
              exact Or.inr ⟨fun c hc heq => hother ⟨c, hc, heq⟩,
                congrArg some (hsame.trans hvalue)⟩
          · exact absurd hkey (hnone a List.mem_cons_self)
      · rw [if_neg (Ne.symm hkey)]
        simp [hkey]

/-- What is read of a map filled entry by entry is one of its values. -/
theorem exists_of_get_set_all {ι : Type} {l : List ι} {name : ι → κ} {value : ι → α} {key : κ}
    {v : α}
    (h : (l.foldl (fun d a => d.set (name a) (value a)) (empty : Dict κ α)).get? key = some v) :
    ∃ a ∈ l, value a = v := by
  induction l using List.reverseRecOn with
  | nil => exact absurd h.symm (Option.some_ne_none v)
  | append_singleton l a ih =>
      rw [List.foldl_append, List.foldl_cons, List.foldl_nil, get_set] at h
      by_cases hkey : key = name a
      · rw [if_pos hkey] at h
        exact ⟨a, List.mem_append_right _ (List.mem_singleton_self a), Option.some.inj h⟩
      · rw [if_neg hkey] at h
        obtain ⟨b, hb, hvalue⟩ := ih h
        exact ⟨b, List.mem_append_left _ hb, hvalue⟩

/-- Maps that agree where they overlap. -/
def Consistent (d e : Dict κ α) : Prop :=
  ∀ key value value', d.get? key = some value → e.get? key = some value' → value = value'

/-- Consistent updates are read without their order. -/
theorem get_update_all_iff {d : Dict κ α} {updates : List (Dict κ α)}
    (hd : ∀ e ∈ updates, Consistent d e)
    (hupdates : ∀ e ∈ updates, ∀ e' ∈ updates, Consistent e e') (key : κ) (value : α) :
    (updateAll d updates).get? key = some value ↔
      d.get? key = some value ∨ ∃ e ∈ updates, e.get? key = some value := by
  induction updates generalizing d with
  | nil => simp [updateAll]
  | cons e updates ih =>
      have hnow : ∀ e' ∈ updates, Consistent (d.update e) e' := by
        intro e' he' k v v' hv hv'
        rw [get_update, Option.or_eq_some_iff] at hv
        rcases hv with hv | ⟨-, hv⟩
        · exact hupdates e List.mem_cons_self e' (List.mem_cons_of_mem _ he') k v v' hv hv'
        · exact hd e' (List.mem_cons_of_mem _ he') k v v' hv hv'
      have hrest := ih hnow fun e' he' e'' he'' =>
        hupdates e' (List.mem_cons_of_mem _ he') e'' (List.mem_cons_of_mem _ he'')
      rw [updateAll, List.foldl_cons, ← updateAll, hrest, get_update, Option.or_eq_some_iff,
        List.exists_mem_cons_iff]
      constructor
      · rintro ((hvalue | ⟨-, hvalue⟩) | hvalue)
        · exact Or.inr (Or.inl hvalue)
        · exact Or.inl hvalue
        · exact Or.inr (Or.inr hvalue)
      · rintro (hvalue | hvalue | hvalue)
        · cases hget : e.get? key with
          | none => exact Or.inl (Or.inr ⟨rfl, hvalue⟩)
          | some other =>
              have hother : other = value :=
                (hd e List.mem_cons_self key value other hvalue hget).symm
              exact Or.inl (Or.inl (congrArg some hother))
        · exact Or.inl (Or.inl hvalue)
        · exact Or.inr hvalue

end Reading

end CatalogApi.Dict
