import Mathlib.Data.List.Basic

/-!
# Tables as lists of rows

`upsert` is `INSERT ... ON CONFLICT ... DO UPDATE` of one row: the rows in conflict are updated
in place, and when there is none the proposed row is appended. `lookup` reads the table back by a
key. The lemmas say what an upsert does to a lookup and to the uniqueness of a key.
-/

namespace CatalogApi.Table

variable {Row Key : Type*}

/-- Insert one row, or update the rows it conflicts with. -/
def upsert (conflict : Row → Prop) [DecidablePred conflict] (update : Row → Row) (fresh : Row)
    (rows : List Row) : List Row :=
  if ∃ row ∈ rows, conflict row then rows.map fun row => if conflict row then update row else row
  else rows ++ [fresh]

/-- The first row with this key. -/
def lookup [DecidableEq Key] (key : Row → Key) (rows : List Row) (k : Key) : Option Row :=
  rows.find? fun row => key row = k

/-- No two rows have one key. -/
def UniqueKey (key : Row → Key) (rows : List Row) : Prop :=
  ∀ r ∈ rows, ∀ s ∈ rows, key r = key s → r = s

section Lookup

variable [DecidableEq Key] {key : Row → Key} {rows : List Row} {k : Key} {row : Row}

theorem lookup_mem (h : lookup key rows k = some row) : row ∈ rows ∧ key row = k :=
  ⟨List.mem_of_find?_eq_some h, by simpa using List.find?_some h⟩

theorem lookup_none : lookup key rows k = none ↔ ∀ row ∈ rows, key row ≠ k := by
  simp [lookup]

/-- With a unique key, a lookup finds each row. -/
theorem lookup_of_mem (h : UniqueKey key rows) (hrow : row ∈ rows) (hkey : key row = k) :
    lookup key rows k = some row := by
  cases hfound : lookup key rows k with
  | none => exact absurd hkey (lookup_none.mp hfound row hrow)
  | some other =>
      obtain ⟨hmem, hother⟩ := lookup_mem hfound
      rw [h other hmem row hrow (hother.trans hkey.symm)]

theorem lookup_eq_some (h : UniqueKey key rows) :
    lookup key rows k = some row ↔ row ∈ rows ∧ key row = k :=
  ⟨lookup_mem, fun ⟨hrow, hkey⟩ => lookup_of_mem h hrow hkey⟩

theorem lookup_append {rest : List Row} :
    lookup key (rows ++ rest) k = (lookup key rows k).or (lookup key rest k) :=
  List.find?_append

theorem lookup_singleton : lookup key [row] k = if key row = k then some row else none := by
  by_cases hk : key row = k <;> simp [lookup, hk]

/-- A change that renames the keys is a change of what a lookup finds under the new name. -/
theorem lookup_map_rename {change : Row → Row} {rename : Key → Key}
    (hrename : Function.Injective rename) (hkey : ∀ row ∈ rows, key (change row) = rename (key row)) :
    lookup key (rows.map change) (rename k) = (lookup key rows k).map change := by
  induction rows with
  | nil => rfl
  | cons head rows ih =>
      have hrest := ih fun row hrow => hkey row (List.mem_cons_of_mem _ hrow)
      simp only [lookup, List.map_cons, List.find?_cons, hkey head List.mem_cons_self] at hrest ⊢
      by_cases hk : key head = k
      · simp [hk]
      · have hne : rename (key head) ≠ rename k := fun heq => hk (hrename heq)
        simpa [hk, hne] using hrest

/-- An update that keeps the key is an update of what a lookup finds. -/
theorem lookup_map {update : Row → Row} (hkey : ∀ row ∈ rows, key (update row) = key row) :
    lookup key (rows.map update) k = (lookup key rows k).map update :=
  lookup_map_rename Function.injective_id hkey

/-- When the keys of a table are distinct, the rows with one key are what a lookup finds. -/
theorem filter_key (h : (rows.map key).Nodup) :
    (rows.filter fun row => key row = k) = (lookup key rows k).toList := by
  induction rows with
  | nil => rfl
  | cons head rows ih =>
      obtain ⟨hhead, hrest⟩ := List.nodup_cons.mp h
      by_cases hk : key head = k
      · have hnone : lookup key rows k = none := lookup_none.mpr fun row hrow hkey =>
          hhead (List.mem_map.mpr ⟨row, hrow, hkey.trans hk.symm⟩)
        have hempty := ih hrest
        rw [hnone] at hempty
        simpa [lookup, hk] using hempty
      · have htail := ih hrest
        simpa [lookup, hk] using htail

/-- A change of the other rows that gives none of them this key is not seen by a lookup of it. -/
theorem lookup_map_others {change : Row → Row} (hsame : ∀ row ∈ rows, key row = k → change row = row)
    (hother : ∀ row ∈ rows, key row ≠ k → key (change row) ≠ k) :
    lookup key (rows.map change) k = lookup key rows k := by
  induction rows with
  | nil => rfl
  | cons head rows ih =>
      have hrest := ih (fun row hrow => hsame row (List.mem_cons_of_mem _ hrow))
        (fun row hrow => hother row (List.mem_cons_of_mem _ hrow))
      unfold lookup at hrest ⊢
      by_cases hk : key head = k
      · simp [hsame head List.mem_cons_self hk, hk]
      · simpa [hother head List.mem_cons_self hk, hk] using hrest

end Lookup

section Upsert

variable {conflict : Row → Prop} [DecidablePred conflict] {update : Row → Row} {fresh : Row}
  {rows : List Row}

theorem mem_upsert {row : Row} (h : row ∈ upsert conflict update fresh rows) :
    (∃ old ∈ rows, conflict old ∧ row = update old) ∨ (row ∈ rows ∧ ¬conflict row) ∨
      ((∀ old ∈ rows, ¬conflict old) ∧ row = fresh) := by
  unfold upsert at h
  split at h
  · obtain ⟨old, hold, rfl⟩ := List.mem_map.mp h
    by_cases hc : conflict old
    · exact Or.inl ⟨old, hold, hc, if_pos hc⟩
    · refine Or.inr (Or.inl ?_)
      rw [if_neg hc]
      exact ⟨hold, hc⟩
  · rename_i hnone
    have hnone : ∀ old ∈ rows, ¬conflict old := fun old hold hc => hnone ⟨old, hold, hc⟩
    rcases List.mem_append.mp h with hold | hnew
    · exact Or.inr (Or.inl ⟨hold, hnone row hold⟩)
    · exact Or.inr (Or.inr ⟨hnone, List.mem_singleton.mp hnew⟩)

theorem mem_upsert_of {row : Row} (hrow : row ∈ rows) (hc : conflict row) :
    update row ∈ upsert conflict update fresh rows := by
  unfold upsert
  rw [if_pos ⟨row, hrow, hc⟩]
  exact List.mem_map.mpr ⟨row, hrow, if_pos hc⟩

theorem mem_upsert_of_not {row : Row} (hrow : row ∈ rows) (hc : ¬conflict row) :
    row ∈ upsert conflict update fresh rows := by
  unfold upsert
  split
  · exact List.mem_map.mpr ⟨row, hrow, if_neg hc⟩
  · exact List.mem_append_left _ hrow

/-- A change of every row that conflicts and updates do not see can be made before an upsert. -/
theorem upsert_map {change : Row → Row} {changed : Row}
    (hconflict : ∀ row ∈ rows, conflict (change row) ↔ conflict row)
    (hupdate : ∀ row ∈ rows, conflict row → update (change row) = change (update row))
    (hfresh : changed = change fresh) :
    upsert conflict update changed (rows.map change) =
      (upsert conflict update fresh rows).map change := by
  have hiff : (∃ row ∈ rows.map change, conflict row) ↔ ∃ row ∈ rows, conflict row := by
    constructor
    · rintro ⟨_, hrow, hc⟩
      obtain ⟨row, hmem, rfl⟩ := List.mem_map.mp hrow
      exact ⟨row, hmem, (hconflict row hmem).mp hc⟩
    · rintro ⟨row, hrow, hc⟩
      exact ⟨change row, List.mem_map_of_mem hrow, (hconflict row hrow).mpr hc⟩
  unfold upsert
  rw [if_congr hiff rfl rfl, hfresh]
  split
  · rw [List.map_map, List.map_map]
    refine List.map_congr_left fun row hrow => ?_
    by_cases hc : conflict row
    · simp [hc, (hconflict row hrow).mpr hc, hupdate row hrow hc]
    · simp [hc, mt (hconflict row hrow).mp hc]
  · rw [List.map_append, List.map_singleton]

/-- An upsert within one part of a table is an upsert of that part. -/
theorem filter_upsert {part : Row → Bool} (hconflict : ∀ row ∈ rows, conflict row → part row)
    (hupdate : ∀ row ∈ rows, part (update row) = part row) (hfresh : part fresh) :
    (upsert conflict update fresh rows).filter part =
      upsert conflict update fresh (rows.filter part) := by
  have hiff : (∃ row ∈ rows.filter part, conflict row) ↔ ∃ row ∈ rows, conflict row := by
    constructor
    · rintro ⟨row, hrow, hc⟩
      exact ⟨row, List.mem_of_mem_filter hrow, hc⟩
    · rintro ⟨row, hrow, hc⟩
      exact ⟨row, List.mem_filter.mpr ⟨hrow, hconflict row hrow hc⟩, hc⟩
  unfold upsert
  rw [if_congr hiff rfl rfl]
  split
  · rw [List.filter_map]
    congr 1
    refine List.filter_congr fun row hrow => ?_
    by_cases hc : conflict row <;> simp [hc, hupdate row hrow]
  · simp [hfresh]

/-- An upsert within one part of a table leaves the rest of it alone. -/
theorem filter_not_upsert {part : Row → Bool} (hconflict : ∀ row ∈ rows, conflict row → ¬part row)
    (hupdate : ∀ row ∈ rows, part (update row) = part row) (hfresh : ¬part fresh) :
    (upsert conflict update fresh rows).filter part = rows.filter part := by
  unfold upsert
  split
  · rw [List.filter_map]
    have hkeep : ∀ row ∈ rows, ((fun row => part row) ∘ fun row =>
        if conflict row then update row else row) row = part row := by
      intro row hrow
      by_cases hc : conflict row <;> simp [hc, hupdate row hrow]
    rw [List.filter_congr hkeep]
    refine (List.map_congr_left fun row hrow => ?_).trans (List.map_id' _)
    obtain ⟨hmem, hpart⟩ := List.mem_filter.mp hrow
    exact if_neg fun hc => hconflict row hmem hc hpart
  · simp [hfresh]

/-- When the conflict is on one value of a key, an upsert changes what a lookup of that value
finds and nothing else. -/
theorem lookup_upsert [DecidableEq Key] {key : Row → Key} {k : Key}
    (hconflict : ∀ row ∈ rows, conflict row ↔ key row = k)
    (hupdate : ∀ row ∈ rows, key (update row) = key row) (hfresh : key fresh = k) (j : Key) :
    lookup key (upsert conflict update fresh rows) j =
      if j = k then some ((lookup key rows k).elim fresh update) else lookup key rows j := by
  unfold upsert
  split
  · rename_i hsome
    obtain ⟨row, hrow, hc⟩ := hsome
    rw [lookup_map fun row hrow => by split_ifs <;> simp [hupdate row hrow]]
    by_cases hj : j = k
    · subst hj
      rw [if_pos rfl]
      cases hfound : lookup key rows j with
      | none => exact absurd ((hconflict row hrow).mp hc) (lookup_none.mp hfound row hrow)
      | some old =>
          obtain ⟨hold, hkey⟩ := lookup_mem hfound
          simp [(hconflict old hold).mpr hkey]
    · rw [if_neg hj]
      cases hfound : lookup key rows j with
      | none => rfl
      | some old =>
          obtain ⟨hold, hkey⟩ := lookup_mem hfound
          have hc : ¬conflict old := fun hc => hj (hkey.symm.trans ((hconflict old hold).mp hc))
          simp [hc]
  · rename_i hnone
    have hmiss : lookup key rows k = none :=
      lookup_none.mpr fun row hrow hkey => hnone ⟨row, hrow, (hconflict row hrow).mpr hkey⟩
    unfold lookup at hmiss ⊢
    rw [List.find?_append, hmiss]
    by_cases hj : j = k
    · subst hj
      simp [hmiss, hfresh]
    · have hne : key fresh ≠ j := fun heq => hj (heq.symm.trans hfresh)
      simp [hj, hne]

/-- An upsert keeps a key unique when updates keep it and a fresh row that is appended brings a
new value. -/
theorem unique_upsert {key : Row → Key} (h : UniqueKey key rows)
    (hupdate : ∀ row ∈ rows, key (update row) = key row)
    (hfresh : (∀ row ∈ rows, ¬conflict row) → ∀ row ∈ rows, key row ≠ key fresh) :
    UniqueKey key (upsert conflict update fresh rows) := by
  unfold upsert
  split
  · intro r hr s hs hkey
    obtain ⟨r, hr', rfl⟩ := List.mem_map.mp hr
    obtain ⟨s, hs', rfl⟩ := List.mem_map.mp hs
    have hkeep : ∀ row ∈ rows, key (if conflict row then update row else row) = key row :=
      fun row hrow => by split_ifs <;> simp [hupdate row hrow]
    rw [hkeep r hr', hkeep s hs'] at hkey
    rw [h r hr' s hs' hkey]
  · rename_i hnone
    have hnew := hfresh fun row hrow hc => hnone ⟨row, hrow, hc⟩
    intro r hr s hs hkey
    rcases List.mem_append.mp hr with hr | hr <;> rcases List.mem_append.mp hs with hs | hs
    · exact h r hr s hs hkey
    · rw [List.mem_singleton.mp hs] at hkey
      exact absurd hkey (hnew r hr)
    · rw [List.mem_singleton.mp hr] at hkey
      exact absurd hkey.symm (hnew s hs)
    · rw [List.mem_singleton.mp hr, List.mem_singleton.mp hs]

end Upsert

end CatalogApi.Table
