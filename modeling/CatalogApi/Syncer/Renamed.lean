import CatalogApi.Syncer.Occurrences

/-!
# A page up to the generated ids

`renameRow` and `renameCopy` rename the generated ids of the two tables. A page transaction does
not depend on which ids it draws: upserts, owned copies, back-links and change events of renamed
tables are the renamed ones, as long as the ids drawn later are renamed with the tables.
-/

namespace CatalogApi.Syncer

open Table Repeats

variable {Format Media : Type} {env : Env Format Media} {db other : Db Format Media}
  {rename : Equiv.Perm Nat}

/-- A collection row with its generated ids renamed. -/
def renameRow (rename : Equiv.Perm Nat) (row : CollectionRow Format Media) :
    CollectionRow Format Media :=
  { row with id := rename row.id, ownedCopyId := row.ownedCopyId.map rename }

/-- An owned copy with its generated ids renamed. -/
def renameCopy (rename : Equiv.Perm Nat) (copy : OwnedCopy) : OwnedCopy :=
  { copy with id := rename copy.id, collectionRowId := copy.collectionRowId.map rename }

/-- The payload of an event with the owned copy renamed. -/
def renameChange (rename : Equiv.Perm Nat) (payload : ItemChange) : ItemChange :=
  { payload with ownedCopyId := payload.ownedCopyId.map rename }

/-- An event with the owned copy renamed. -/
def renameEvent (rename : Equiv.Perm Nat) : Event → Event
  | .itemAdded payload => .itemAdded (renameChange rename payload)
  | .itemUpdated payload fields => .itemUpdated (renameChange rename payload) fields
  | .itemRemoved payload => .itemRemoved (renameChange rename payload)

/-- The tables of `other` are those of `db` renamed, and so are the next `budget` ids. -/
structure Renamed (rename : Equiv.Perm Nat) (budget : Nat) (db other : Db Format Media) :
    Prop where
  rows : other.userCollections = db.userCollections.map (renameRow rename)
  copies : other.ownedCopies = db.ownedCopies.map (renameCopy rename)
  drawn : ∀ n < budget, rename (db.nextId + n) = other.nextId + n

/-! ## The upserts -/

theorem upserts_rename (rename : Equiv.Perm Nat) (batch : List (BatchParams Format Media))
    (tags : List Nat) (rows : List (CollectionRow Format Media)) :
    ((tags.map rename).zip batch).foldl (upsertAs env) (rows.map (renameRow rename)) =
      ((tags.zip batch).foldl (upsertAs env) rows).map (renameRow rename) := by
  induction batch generalizing tags rows with
  | nil => simp
  | cons p batch ih =>
      cases tags with
      | nil => rfl
      | cons tag tags =>
          rw [List.map_cons, List.zip_cons_cons, List.zip_cons_cons, List.foldl_cons,
            List.foldl_cons, ← ih]
          congr 1
          exact upsert_map (fun _ _ => Iff.rfl) (fun _ _ _ => rfl) rfl

/-! ## The owned copies -/

theorem lookup_copy_rename (copies : List OwnedCopy) (rowId : Nat) :
    lookup OwnedCopy.collectionRowId (copies.map (renameCopy rename)) (some (rename rowId)) =
      (lookup OwnedCopy.collectionRowId copies (some rowId)).map (renameCopy rename) :=
  @lookup_map_rename _ _ _ OwnedCopy.collectionRowId copies (some rowId) (renameCopy rename)
    (Option.map rename) (Option.map_injective rename.injective) fun _ _ => rfl

/-- Minting a copy commutes with a renaming of the ids. -/
theorem mint_rename {userId budget : Nat} {affected written : List Nat} {next : Db Format Media}
    {row : CollectionRow Format Media} (h : Renamed rename (budget + 1) db other)
    (hmint : mintOwnedCopy userId (db, affected) row = .ok (next, written)) :
    ∃ renamed, mintOwnedCopy userId (other, affected.map rename) (renameRow rename row) =
      .ok (renamed, written.map rename) ∧ Renamed rename budget next renamed := by
  have hfewer : Renamed rename budget db other :=
    ⟨h.rows, h.copies, fun n hn => h.drawn n (Nat.lt_succ_of_lt hn)⟩
  unfold mintOwnedCopy at hmint ⊢
  have hitem : (renameRow rename row).gmItemId = row.gmItemId := rfl
  have hid : (renameRow rename row).id = rename row.id := rfl
  have haffected : rename row.id ∈ affected.map rename ↔ row.id ∈ affected := by
    simp [List.mem_map]
  cases hgm : row.gmItemId with
  | none =>
      simp only [hgm, hitem] at hmint ⊢
      obtain ⟨rfl, rfl⟩ := Prod.mk.inj (Except.ok.inj hmint)
      exact ⟨other, rfl, hfewer⟩
  | some itemId =>
      simp only [hgm, hitem, hid] at hmint ⊢
      rw [h.copies, lookup_copy_rename]
      cases hcopy : lookup OwnedCopy.collectionRowId db.ownedCopies (some row.id) with
      | none =>
          simp only [hcopy] at hmint
          obtain ⟨rfl, rfl⟩ := Prod.mk.inj (Except.ok.inj hmint)
          refine ⟨_, rfl, h.rows, ?_, fun n hn => ?_⟩
          · have hdrawn : rename db.nextId = other.nextId := h.drawn 0 (Nat.succ_pos _)
            simp only [List.map_append, List.map_cons, List.map_nil, renameCopy, hdrawn]
            rfl
          · have hlater := h.drawn (n + 1) (Nat.succ_lt_succ hn)
            rw [Nat.add_assoc, Nat.add_assoc, Nat.add_comm 1 n]
            exact hlater
      | some copy =>
          simp only [hcopy] at hmint
          simp only [Option.map_some, haffected]
          have hdiffers : copyDiffers itemId (renameRow rename row).dateAdded
              (renameCopy rename copy) ↔ copyDiffers itemId row.dateAdded copy := Iff.rfl
          split at hmint
          · cases hmint
          · rename_i hnew
            rw [if_neg hnew]
            by_cases hc : copyDiffers itemId row.dateAdded copy
            · rw [if_pos hc] at hmint
              rw [if_pos (hdiffers.mpr hc)]
              obtain ⟨rfl, rfl⟩ := Prod.mk.inj (Except.ok.inj hmint)
              refine ⟨_, rfl, h.rows, ?_, fun n hn => h.drawn n (Nat.lt_succ_of_lt hn)⟩
              simp only [List.map_map]
              refine List.map_congr_left fun old _ => ?_
              have hsame : (renameCopy rename old).collectionRowId = some (rename row.id) ↔
                  old.collectionRowId = some row.id := by
                simp [renameCopy, Option.map_eq_some_iff]
              simp only [Function.comp_apply, hsame]
              split <;> rfl
            · rw [if_neg hc] at hmint
              rw [if_neg (mt hdiffers.mp hc)]
              obtain ⟨rfl, rfl⟩ := Prod.mk.inj (Except.ok.inj hmint)
              exact ⟨other, rfl, hfewer⟩

theorem mints_rename {userId budget : Nat} {affected written : List Nat} {next : Db Format Media}
    {rows : List (CollectionRow Format Media)}
    (h : Renamed rename (rows.length + budget) db other)
    (hmint : rows.foldlM (mintOwnedCopy userId) (db, affected) = .ok (next, written)) :
    ∃ renamed, (rows.map (renameRow rename)).foldlM (mintOwnedCopy userId)
        (other, affected.map rename) = .ok (renamed, written.map rename) ∧
      Renamed rename budget next renamed := by
  induction rows generalizing db other affected with
  | nil =>
      obtain ⟨rfl, rfl⟩ := Prod.mk.inj (Except.ok.inj hmint)
      rw [List.length_nil, Nat.zero_add] at h
      exact ⟨other, rfl, h⟩
  | cons row rows ih =>
      rw [List.foldlM_cons] at hmint
      cases hstep : mintOwnedCopy userId (db, affected) row with
      | error reason => simp [hstep, bind, Except.bind] at hmint
      | ok middle =>
          obtain ⟨mid, met⟩ := middle
          simp only [hstep, bind, Except.bind] at hmint
          rw [List.length_cons, Nat.add_right_comm] at h
          obtain ⟨renamedMid, hfirst, hmid⟩ := mint_rename h hstep
          obtain ⟨renamed, hlast, hnext⟩ := ih hmid hmint
          refine ⟨renamed, ?_, hnext⟩
          rw [List.map_cons, List.foldlM_cons, hfirst]
          exact hlast

theorem link_for_rename (copies : List OwnedCopy) (rowIds : List Nat)
    (row : CollectionRow Format Media) :
    linkFor (copies.map (renameCopy rename)) (rowIds.map rename) (renameRow rename row) =
      (linkFor copies rowIds row).map rename := by
  have hin : (renameRow rename row).id ∈ rowIds.map rename ↔ row.id ∈ rowIds := by
    simp [renameRow, List.mem_map]
  have hcopies := @lookup_copy_rename rename copies row.id
  unfold linkFor
  simp only [hin]
  split
  · have hid : (renameRow rename row).id = rename row.id := rfl
    rw [hid, hcopies]
    cases lookup OwnedCopy.collectionRowId copies (some row.id) with
    | none => rfl
    | some copy =>
        have hlink : (renameRow rename row).ownedCopyId = some (renameCopy rename copy).id ↔
            row.ownedCopyId = some copy.id := by
          simp [renameRow, renameCopy, Option.map_eq_some_iff]
        simp only [Option.map_some, hlink]
        split <;> rfl
  · rfl

theorem link_row_rename (copies : List OwnedCopy) (rowIds : List Nat)
    (row : CollectionRow Format Media) :
    linkRow (copies.map (renameCopy rename)) (rowIds.map rename) (renameRow rename row) =
      renameRow rename (linkRow copies rowIds row) := by
  unfold linkRow
  rw [link_for_rename]
  cases hlink : linkFor copies rowIds row <;> rfl

/-- The entries of `copy_ids` with their ids renamed. -/
def renameEntries (rename : Equiv.Perm Nat) (entries : List (Nat × Nat)) : List (Nat × Nat) :=
  entries.map fun entry => (rename entry.1, rename entry.2)

theorem copy_entries_rename {entry renamed : CollectionRow Format Media → Option Nat}
    (hentry : ∀ row, renamed (renameRow rename row) = (entry row).map rename)
    (rows : List (CollectionRow Format Media)) :
    copyEntries renamed (rows.map (renameRow rename)) =
      renameEntries rename (copyEntries entry rows) := by
  rw [copyEntries, List.filterMap_map, copyEntries, renameEntries, List.map_filterMap]
  refine List.filterMap_congr fun row _ => ?_
  rw [Function.comp_apply, hentry]
  cases entry row <;> rfl

theorem copy_id_of_rename (entries : List (Nat × Nat)) (rowId : Nat) :
    copyIdOf (renameEntries rename entries) (rename rowId) =
      (copyIdOf entries rowId).map rename := by
  unfold copyIdOf renameEntries
  rw [← List.map_reverse, @lookup_map_rename _ _ _ Prod.fst entries.reverse rowId
    (fun entry => (rename entry.1, rename entry.2)) rename rename.injective fun _ _ => rfl]
  cases lookup Prod.fst entries.reverse rowId <;> rfl

/-- `_ensure_owned_copies` on renamed tables and rows. -/
theorem ensure_rename {userId : Nat} {rows : List (CollectionRow Format Media)}
    {next : Db Format Media} {copyIds : List (Nat × Nat)}
    (h : Renamed rename rows.length db other)
    (hensure : ensureOwnedCopies userId db rows = .ok (next, copyIds)) :
    ∃ renamed, ensureOwnedCopies userId other (rows.map (renameRow rename)) =
        .ok (renamed, renameEntries rename copyIds) ∧ Renamed rename 0 next renamed := by
  have hidentified : (rows.map (renameRow rename)).filter (fun row => row.gmItemId.isSome) =
      (rows.filter fun row => row.gmItemId.isSome).map (renameRow rename) := by
    rw [List.filter_map]
    rfl
  have hlength : (rows.filter fun row => row.gmItemId.isSome).length ≤ rows.length :=
    List.length_filter_le _ _
  unfold ensureOwnedCopies at hensure ⊢
  simp only [hidentified] at hensure ⊢
  generalize rows.filter (fun row => row.gmItemId.isSome) = identified at *
  cases hempty : identified.isEmpty with
  | true =>
      rw [if_pos hempty] at hensure
      rw [if_pos (by simpa using hempty)]
      obtain ⟨rfl, rfl⟩ := Prod.mk.inj (Except.ok.inj hensure)
      exact ⟨other, rfl, h.rows, h.copies, fun n hn => absurd hn (Nat.not_lt_zero n)⟩
  | false =>
      rw [if_neg (by simp [hempty])] at hensure
      rw [if_neg (by simpa using hempty)]
      cases hmint : identified.foldlM (mintOwnedCopy userId) (db, []) with
      | error reason => simp [hmint, bind, Except.bind] at hensure
      | ok state =>
          obtain ⟨minted, written⟩ := state
          simp only [hmint, bind, Except.bind] at hensure
          obtain ⟨rfl, rfl⟩ := Prod.mk.inj (Except.ok.inj hensure)
          have hbudget : Renamed rename (identified.length + 0) db other :=
            ⟨h.rows, h.copies, fun n hn => h.drawn n (Nat.lt_of_lt_of_le hn hlength)⟩
          obtain ⟨renamed, hfold, hrenamed⟩ := mints_rename hbudget hmint
          rw [List.map_nil] at hfold
          simp only [hfold, bind, Except.bind]
          have hids : (identified.map (renameRow rename)).map (·.id) =
              (identified.map (·.id)).map rename := by
            rw [List.map_map, List.map_map]
            rfl
          have hentries : copyEntries (·.ownedCopyId) (identified.map (renameRow rename)) ++
              copyEntries (linkFor renamed.ownedCopies
                ((identified.map (renameRow rename)).map (·.id))) renamed.userCollections =
              renameEntries rename (copyEntries (·.ownedCopyId) identified ++ copyEntries
                (linkFor minted.ownedCopies (identified.map (·.id))) minted.userCollections) := by
            rw [hids, hrenamed.rows, hrenamed.copies, copy_entries_rename fun _ => rfl,
              copy_entries_rename fun row => link_for_rename _ _ row, renameEntries, renameEntries,
              renameEntries, List.map_append]
          refine ⟨_, congrArg (fun entries => Except.ok (_, entries)) hentries, ?_,
            hrenamed.copies, fun n hn => absurd hn (Nat.not_lt_zero n)⟩
          simp only [hrenamed.rows, hrenamed.copies, hids]
          refine List.map_map.trans (Eq.trans ?_ List.map_map.symm)
          exact List.map_congr_left fun row _ => link_row_rename _ _ row

/-! ## The page reads and the events -/

theorem select_rename (userId : Nat) (releaseIds : List Nat)
    (h : other.userCollections = db.userCollections.map (renameRow rename)) :
    selectCollectionPage other userId releaseIds =
      (selectCollectionPage db userId releaseIds).map (renameRow rename) := by
  rw [selectCollectionPage, h, List.filter_map]
  rfl

theorem by_key_rename (rows : List (CollectionRow Format Media)) (key : Key) :
    byKey (rows.map (renameRow rename)) key = (byKey rows key).map (renameRow rename) := by
  rw [byKey, ← List.map_reverse]
  exact lookup_map fun _ _ => rfl

/-- The event of a key, when the read after the upserts and the copy ids are renamed. -/
theorem key_event_rename {before after renamed : Key → Option (CollectionRow Format Media)}
    {copyIds : List (Nat × Nat)} (key : Key)
    (hafter : renamed key = (after key).map (renameRow rename)) :
    keyEvent before renamed (renameEntries rename copyIds) key =
      (keyEvent before after copyIds key).map (renameEvent rename) := by
  unfold keyEvent
  rw [hafter]
  cases after key with
  | none => rfl
  | some row =>
      have hitem : (renameRow rename row).gmItemId = row.gmItemId := rfl
      have hcopy : copyIdOf (renameEntries rename copyIds) (renameRow rename row).id =
          (copyIdOf copyIds row.id).map rename := copy_id_of_rename copyIds row.id
      simp only [Option.map_some, hitem, hcopy]
      split
      · rfl
      · cases before key with
        | none => rfl
        | some previous =>
            have hchanged : changedFields previous (renameRow rename row) =
                changedFields previous row := rfl
            simp only [hchanged]
            split <;> rfl

end CatalogApi.Syncer
