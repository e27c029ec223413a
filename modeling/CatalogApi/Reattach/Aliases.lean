import CatalogApi.CatalogMerge.Caches

/-!
# The alias statements of a re-attachment

`_CLOSE_ALIASES`, `_REINSERT_ALIASES` and `_CURRENT_HOLDERS` of `api/reattach.py`. With one current
row per key, closing an item's rows frees every key they held, so each is inserted again for the
other item (`move_aliases_eq`): no key is dropped and none is held by a third item.
-/

namespace CatalogApi.Reattach

open CatalogMerge

/-- The current rows. -/
def currentAliases (aliases : List Alias) : List Alias :=
  aliases.filter fun entry => entry.validTo = none

/-- The current rows of one item. -/
def heldAliases (item : Nat) (aliases : List Alias) : List Alias :=
  aliases.filter fun entry => entry.nativeId = item ∧ entry.validTo = none

/-- The partial unique index: one current row per key. -/
def UniqueCurrent (aliases : List Alias) : Prop :=
  ((currentAliases aliases).map Alias.key).Nodup

instance (aliases : List Alias) : Decidable (UniqueCurrent aliases) :=
  inferInstanceAs (Decidable (List.Nodup _))

/-! ## The statements -/

/-- `_CLOSE_ALIASES` on one row. -/
def closeAlias (item : Nat) (now : Instant) (entry : Alias) : Alias :=
  if entry.nativeId = item ∧ entry.validTo = none then { entry with validTo := some now } else entry

/-- The row `_REINSERT_ALIASES` proposes for a closed one. -/
def reinsertAlias (target : Nat) (now : Instant) (entry : Alias) : Alias :=
  { provider := entry.provider, entityKind := entry.entityKind, externalId := entry.externalId,
    nativeId := target, source := "catalog", confidence := entry.confidence, validFrom := now,
    validTo := none }

/-- Close the selected rows and insert them again for the target. -/
def shiftAliases (selected : Alias → Prop) [DecidablePred selected] (target : Nat) (now : Instant)
    (aliases : List Alias) : List Alias :=
  aliases.map (fun entry => if selected entry then { entry with validTo := some now } else entry) ++
    (aliases.filter fun entry => selected entry).map (reinsertAlias target now)

/-- `_REINSERT_ALIASES`: each closed row again for the target, `ON CONFLICT DO NOTHING` with a
current row of its key. Returns the table and the keys inserted. -/
def reinsertAliases (target : Nat) (now : Instant) (closed aliases : List Alias) :
    List Alias × List AliasKey :=
  closed.foldl (fun state entry =>
    if ∃ row ∈ state.1, row.key = entry.key ∧ row.validTo = none then state
    else (state.1 ++ [reinsertAlias target now entry], state.2 ++ [entry.key])) (aliases, [])

/-- The dictionary of `_CURRENT_HOLDERS` at a key: the last row read wins. -/
def currentHolder (aliases : List Alias) (key : AliasKey) : Option Nat :=
  (aliases.reverse.find? fun entry => entry.key = key ∧ entry.validTo = none).map (·.nativeId)

/-- The alias steps: close the item's rows, insert them again for the target, and check who holds
the keys that were not inserted. Returns the table with the numbers of rows moved and of
collisions, or the keys a third item holds. -/
def moveAliases (source target : Nat) (now : Instant) (aliases : List Alias) :
    Except (List AliasKey) (List Alias × Nat × Nat) :=
  let closed := heldAliases source aliases
  let table := aliases.map (closeAlias source now)
  if closed = [] then .ok (table, 0, 0)
  else
    let (reinserted, inserted) := reinsertAliases target now closed table
    let missing := (closed.map Alias.key).filter fun key => key ∉ inserted
    if missing = [] then .ok (reinserted, closed.length, 0)
    else
      let foreign := missing.filter fun key => currentHolder reinserted key ≠ some target
      if foreign ≠ [] then .error foreign
      else .ok (reinserted, closed.length - missing.length, missing.length)

/-! ## What they leave -/

section Move

variable {aliases : List Alias} {source target : Nat} {now : Instant}

theorem mem_current {entry : Alias} :
    entry ∈ currentAliases aliases ↔ entry ∈ aliases ∧ entry.validTo = none := by
  rw [currentAliases, List.mem_filter, decide_eq_true_eq]

theorem mem_held {entry : Alias} :
    entry ∈ heldAliases source aliases ↔
      entry ∈ aliases ∧ entry.nativeId = source ∧ entry.validTo = none := by
  rw [heldAliases, List.mem_filter, decide_eq_true_eq]

theorem held_eq (source : Nat) (aliases : List Alias) :
    heldAliases source aliases =
      (currentAliases aliases).filter fun entry => entry.nativeId = source := by
  rw [heldAliases, currentAliases, List.filter_filter]
  exact List.filter_congr fun entry _ => by rw [Bool.decide_and]

theorem held_keys_nodup (h : UniqueCurrent aliases) :
    ((heldAliases source aliases).map Alias.key).Nodup := by
  rw [held_eq]
  exact h.sublist (List.filter_sublist.map _)

/-- A current row left by the close is of another item, and was there before. -/
theorem current_close {entry : Alias}
    (h : entry ∈ currentAliases (aliases.map (closeAlias source now))) :
    entry ∈ currentAliases aliases ∧ entry.nativeId ≠ source := by
  obtain ⟨hmem, hopen⟩ := mem_current.mp h
  obtain ⟨row, hrow, rfl⟩ := List.mem_map.mp hmem
  by_cases hcond : row.nativeId = source ∧ row.validTo = none
  · rw [closeAlias, if_pos hcond] at hopen
    cases hopen
  · have hsame : closeAlias source now row = row := if_neg hcond
    rw [hsame] at hopen ⊢
    exact ⟨mem_current.mpr ⟨hrow, hopen⟩, fun hitem => hcond ⟨hitem, hopen⟩⟩

/-- Rows whose keys are free and distinct are all inserted. -/
theorem reinsert_aliases_eq {closed table : List Alias} (hkeys : (closed.map Alias.key).Nodup)
    (hfree : ∀ row ∈ table, row.validTo = none → row.key ∉ closed.map Alias.key) :
    reinsertAliases target now closed table =
      (table ++ closed.map (reinsertAlias target now), closed.map Alias.key) := by
  have hfold : ∀ (closed table : List Alias) (inserted : List AliasKey),
      (closed.map Alias.key).Nodup →
      (∀ row ∈ table, row.validTo = none → row.key ∉ closed.map Alias.key) →
      closed.foldl (fun state entry =>
        if ∃ row ∈ state.1, row.key = entry.key ∧ row.validTo = none then state
        else (state.1 ++ [reinsertAlias target now entry], state.2 ++ [entry.key]))
          (table, inserted) =
        (table ++ closed.map (reinsertAlias target now), inserted ++ closed.map Alias.key) := by
    intro closed
    induction closed with
    | nil =>
        intro table inserted _ _
        rw [List.foldl_nil, List.map_nil, List.map_nil, List.append_nil, List.append_nil]
    | cons entry closed ih =>
        intro table inserted hkeys hfree
        rw [List.map_cons, List.nodup_cons] at hkeys
        have hnone : ¬∃ row ∈ table, row.key = entry.key ∧ row.validTo = none := by
          rintro ⟨row, hrow, hkey, hopen⟩
          exact hfree row hrow hopen (hkey ▸ List.mem_cons_self)
        rw [List.foldl_cons, if_neg hnone, ih _ _ hkeys.2 ?_]
        · rw [List.append_assoc, List.append_assoc, List.map_cons, List.map_cons,
            List.singleton_append, List.singleton_append]
        · intro row hrow hopen hmem
          rcases List.mem_append.mp hrow with hrow | hrow
          · exact hfree row hrow hopen (List.mem_cons_of_mem _ hmem)
          · obtain rfl := List.mem_singleton.mp hrow
            exact hkeys.1 hmem
  rw [reinsertAliases, hfold closed table [] hkeys hfree, List.nil_append]

/-- With one current row per key, every row of the item moves and none collides. -/
theorem move_aliases_eq (h : UniqueCurrent aliases) :
    moveAliases source target now aliases =
      .ok (aliases.map (closeAlias source now) ++
        (heldAliases source aliases).map (reinsertAlias target now),
        (heldAliases source aliases).length, 0) := by
  have hfree : ∀ row ∈ aliases.map (closeAlias source now), row.validTo = none →
      row.key ∉ (heldAliases source aliases).map Alias.key := by
    intro row hrow hopen hmem
    obtain ⟨entry, hentry, hkey⟩ := List.mem_map.mp hmem
    obtain ⟨hin, hitem, hentryOpen⟩ := mem_held.mp hentry
    obtain ⟨hcurrent, hother⟩ := current_close (mem_current.mpr ⟨hrow, hopen⟩)
    have hsame := List.inj_on_of_nodup_map h (mem_current.mpr ⟨hin, hentryOpen⟩) hcurrent hkey
    exact hother (hsame ▸ hitem)
  have hmissing : ((heldAliases source aliases).map Alias.key).filter
      (fun key => key ∉ (heldAliases source aliases).map Alias.key) = [] :=
    List.filter_eq_nil_iff.mpr fun key hkey hnot => (of_decide_eq_true hnot) hkey
  unfold moveAliases
  by_cases hempty : heldAliases source aliases = []
  · rw [if_pos hempty, hempty, List.map_nil, List.append_nil, List.length_nil]
  · simp only [if_neg hempty, reinsert_aliases_eq (held_keys_nodup h) hfree, hmissing, if_true]

theorem current_append (aliases rest : List Alias) :
    currentAliases (aliases ++ rest) = currentAliases aliases ++ currentAliases rest :=
  List.filter_append ..

section Shift

variable {selected : Alias → Prop} [DecidablePred selected]
  (hselected : ∀ entry, selected entry → entry.validTo = none)
include hselected

/-- The current rows after a shift: those not selected as they were, the selected for the target. -/
theorem current_shift (target : Nat) (now : Instant) (aliases : List Alias) :
    currentAliases (shiftAliases selected target now aliases) =
      ((currentAliases aliases).filter fun entry => ¬selected entry) ++
        (aliases.filter fun entry => selected entry).map (reinsertAlias target now) := by
  have hopened : currentAliases ((aliases.filter fun entry => selected entry).map
      (reinsertAlias target now)) =
      (aliases.filter fun entry => selected entry).map (reinsertAlias target now) := by
    refine List.filter_eq_self.mpr fun entry hentry => ?_
    obtain ⟨row, -, rfl⟩ := List.mem_map.mp hentry
    rfl
  have hkept : currentAliases (aliases.map fun entry =>
      if selected entry then { entry with validTo := some now } else entry) =
      (currentAliases aliases).filter fun entry => ¬selected entry := by
    clear hopened
    induction aliases with
    | nil => rfl
    | cons entry aliases ih =>
        unfold currentAliases at ih ⊢
        rw [List.map_cons, List.filter_cons, List.filter_cons, ih]
        by_cases hentry : selected entry
        · rw [if_pos hentry, if_pos (decide_eq_true (hselected entry hentry)),
            List.filter_cons_of_neg (by simpa using hentry)]
          rfl
        · rw [if_neg hentry]
          by_cases hopen : entry.validTo = none
          · rw [if_pos (decide_eq_true hopen), if_pos (decide_eq_true hopen),
              List.filter_cons_of_pos (by simpa using hentry)]
          · rw [if_neg (by simpa using hopen), if_neg (by simpa using hopen)]
  rw [shiftAliases, current_append, hkept, hopened]

/-- A shift keeps one current row per key. -/
theorem unique_shift (h : UniqueCurrent aliases) :
    UniqueCurrent (shiftAliases selected target now aliases) := by
  have hcurrent : (aliases.filter fun entry => selected entry) =
      (currentAliases aliases).filter fun entry => selected entry := by
    rw [currentAliases, List.filter_filter]
    refine List.filter_congr fun entry _ => ?_
    by_cases hentry : selected entry
    · simp [hentry, hselected entry hentry]
    · simp [hentry]
  have hkeys : ((aliases.filter fun entry => selected entry).map (reinsertAlias target now)).map
      Alias.key = (aliases.filter fun entry => selected entry).map Alias.key := by
    rw [List.map_map]
    rfl
  have hperm := List.filter_append_perm (fun entry => decide (selected entry))
    (currentAliases aliases)
  rw [UniqueCurrent, current_shift hselected, List.map_append, hkeys, ← List.map_append, hcurrent]
  refine ((List.perm_append_comm.trans ?_).map Alias.key).nodup_iff.mpr h
  simpa only [decide_not] using hperm

end Shift

/-- The alias steps are a shift of the item's current rows. -/
theorem moved_eq_shift (source target : Nat) (now : Instant) (aliases : List Alias) :
    aliases.map (closeAlias source now) ++
        (heldAliases source aliases).map (reinsertAlias target now) =
      shiftAliases (fun entry => entry.nativeId = source ∧ entry.validTo = none) target now
        aliases := rfl

/-- The current rows after the move: the other items' as they were, the item's for the target. -/
theorem current_moved (source target : Nat) (now : Instant) (aliases : List Alias) :
    currentAliases (aliases.map (closeAlias source now) ++
        (heldAliases source aliases).map (reinsertAlias target now)) =
      ((currentAliases aliases).filter fun entry => entry.nativeId ≠ source) ++
        (heldAliases source aliases).map (reinsertAlias target now) := by
  have hothers : ((currentAliases aliases).filter fun entry =>
      ¬(entry.nativeId = source ∧ entry.validTo = none)) =
      (currentAliases aliases).filter fun entry => entry.nativeId ≠ source := by
    refine List.filter_congr fun entry hentry => ?_
    simp [(mem_current.mp hentry).2]
  rw [moved_eq_shift, current_shift fun entry hentry => hentry.2, hothers]
  rfl

/-- The move keeps one current row per key. -/
theorem unique_moved (h : UniqueCurrent aliases) :
    UniqueCurrent (aliases.map (closeAlias source now) ++
      (heldAliases source aliases).map (reinsertAlias target now)) := by
  rw [moved_eq_shift]
  exact unique_shift (fun entry hentry => hentry.2) h

theorem unique_single (h : UniqueCurrent aliases) : SingleHolder aliases := by
  rintro key item other ⟨entry, hentry, hkey, rfl, hopen⟩ ⟨row, hrow, hrowKey, rfl, hrowOpen⟩
  rw [List.inj_on_of_nodup_map h (mem_current.mpr ⟨hentry, hopen⟩)
    (mem_current.mpr ⟨hrow, hrowOpen⟩) (hkey.trans hrowKey.symm)]

theorem held_by_iff {key : AliasKey} {item : Nat} :
    HeldBy aliases key item ↔ ∃ entry ∈ currentAliases aliases, entry.key = key ∧
      entry.nativeId = item :=
  ⟨fun ⟨entry, hentry, hkey, hitem, hopen⟩ =>
      ⟨entry, mem_current.mpr ⟨hentry, hopen⟩, hkey, hitem⟩,
    fun ⟨entry, hentry, hkey, hitem⟩ =>
      ⟨entry, (mem_current.mp hentry).1, hkey, hitem, (mem_current.mp hentry).2⟩⟩

/-- The statements move the item's current aliases to the target and no others. -/
theorem moved_aliases (source target : Nat) (now : Instant) (aliases : List Alias) :
    AliasesMoved aliases (aliases.map (closeAlias source now) ++
      (heldAliases source aliases).map (reinsertAlias target now)) (keysOf aliases source) source
      target := by
  intro key item
  rw [held_by_iff, held_by_iff, current_moved]
  constructor
  · rintro ⟨entry, hentry, rfl, rfl⟩
    rcases List.mem_append.mp hentry with hentry | hentry
    · rw [List.mem_filter, decide_eq_true_eq] at hentry
      exact Or.inl ⟨⟨entry, hentry.1, rfl, rfl⟩, fun h => hentry.2 h.2⟩
    · obtain ⟨row, hrow, rfl⟩ := List.mem_map.mp hentry
      obtain ⟨hin, hitem, hopen⟩ := mem_held.mp hrow
      have hheld : HeldBy aliases row.key source := ⟨row, hin, rfl, hitem, hopen⟩
      exact Or.inr ⟨rfl, hheld, hheld⟩
  · rintro (⟨⟨entry, hentry, rfl, rfl⟩, hnot⟩ | ⟨rfl, -, entry, hentry, rfl, rfl, hopen⟩)
    · refine ⟨entry, List.mem_append_left _ (List.mem_filter.mpr ⟨hentry, decide_eq_true ?_⟩), rfl,
        rfl⟩
      intro hitem
      exact hnot ⟨held_by_iff.mpr ⟨entry, hentry, rfl, hitem⟩, hitem⟩
    · exact ⟨reinsertAlias item now entry, List.mem_append_right _ (List.mem_map.mpr
        ⟨entry, mem_held.mpr ⟨hentry, rfl, hopen⟩, rfl⟩), rfl, rfl⟩

end Move

end CatalogApi.Reattach
