import CatalogApi.Syncer.Renamed

/-!
# A page that repeats a key

The upsert, the diff and the events of a page each take a repeated key, but the rows of the page
are proposed to `_MINT_OWNED_COPIES` once per occurrence. `repeats_harmless_iff` says exactly when
a page with repeated keys behaves like the page with the last occurrence of each key in the place
of the first.
-/

namespace CatalogApi.Syncer

open Table Repeats ByKey

variable {Format Media : Type} {env : Env Format Media} {db next : Db Format Media}

/-! ## Owned copies of repeated rows -/

/-- A proposed row for which `_MINT_OWNED_COPIES` has nothing to write, given its copy. -/
def idle (copy : Option OwnedCopy) (row : CollectionRow Format Media) : Bool :=
  match row.gmItemId, copy with
  | none, _ => true
  | some _, none => false
  | some itemId, some copy => !decide (copyDiffers itemId row.dateAdded copy)

/-- What one proposed row does: nothing, or it writes the copy of its row and no other. -/
theorem mint_cases {userId : Nat} {affected written : List Nat} {row : CollectionRow Format Media}
    (h : mintOwnedCopy userId (db, affected) row = .ok (next, written)) :
    (next = db ∧ written = affected ∧ idle (copyOf db row.id) row) ∨
      (written = row.id :: affected ∧ (copyOf next row.id).isSome ∧
        ∀ id, id ≠ row.id → copyOf next id = copyOf db id) := by
  unfold mintOwnedCopy at h
  unfold idle copyOf
  cases hitem : row.gmItemId with
  | none =>
      simp only [hitem] at h
      obtain ⟨rfl, rfl⟩ := Prod.mk.inj (Except.ok.inj h)
      exact Or.inl ⟨rfl, rfl, rfl⟩
  | some itemId =>
      simp only [hitem] at h
      cases hcopy : lookup OwnedCopy.collectionRowId db.ownedCopies (some row.id) with
      | none =>
          simp only [hcopy] at h
          obtain ⟨rfl, rfl⟩ := Prod.mk.inj (Except.ok.inj h)
          refine Or.inr ⟨rfl, ?_, fun id hid => ?_⟩
          · simp [lookup_append, lookup_singleton]
          · have hne : row.id ≠ id := Ne.symm hid
            simp [lookup_append, lookup_singleton, hne]
      | some copy =>
          simp only [hcopy] at h
          split at h
          · cases h
          · split at h
            · obtain ⟨rfl, rfl⟩ := Prod.mk.inj (Except.ok.inj h)
              have hkey : ∀ old ∈ db.ownedCopies, OwnedCopy.collectionRowId
                  (if old.collectionRowId = some row.id then
                    { old with itemId, acquiredAt := row.dateAdded.or old.acquiredAt } else old) =
                  old.collectionRowId := by
                intro old _
                split <;> rfl
              refine Or.inr ⟨rfl, ?_, fun id hid => ?_⟩
              · rw [lookup_map hkey, hcopy]
                rfl
              · rw [lookup_map hkey]
                cases hfound : lookup OwnedCopy.collectionRowId db.ownedCopies (some id) with
                | none => rfl
                | some old => simp [(lookup_mem hfound).2, hid]
            · rename_i hsame
              obtain ⟨rfl, rfl⟩ := Prod.mk.inj (Except.ok.inj h)
              exact Or.inl ⟨rfl, rfl, by simpa using hsame⟩

theorem mint_idle {userId : Nat} {affected : List Nat} {row : CollectionRow Format Media}
    (hidle : idle (copyOf db row.id) row) (hnew : row.id ∉ affected) :
    mintOwnedCopy userId (db, affected) row = .ok (db, affected) := by
  unfold idle copyOf at hidle
  unfold mintOwnedCopy
  cases hitem : row.gmItemId with
  | none => rfl
  | some itemId =>
      cases hcopy : lookup OwnedCopy.collectionRowId db.ownedCopies (some row.id) with
      | none => simp [hitem, hcopy] at hidle
      | some copy =>
          have hsame : ¬copyDiffers itemId row.dateAdded copy := by
            simpa [hitem, hcopy] using hidle
          simp only [hcopy]
          rw [if_neg hnew, if_neg hsame]
          rfl

/-- A row whose copy the statement has written cannot be proposed again. -/
theorem mint_second {userId : Nat} {affected : List Nat} {row : CollectionRow Format Media}
    (hitem : row.gmItemId.isSome) (hcopy : (copyOf db row.id).isSome)
    (hwritten : row.id ∈ affected) :
    mintOwnedCopy userId (db, affected) row = .error (.cardinalityViolation row.id) := by
  obtain ⟨itemId, hitem⟩ := Option.isSome_iff_exists.mp hitem
  obtain ⟨copy, hcopy⟩ := Option.isSome_iff_exists.mp hcopy
  unfold copyOf at hcopy
  unfold mintOwnedCopy
  simp only [hitem, hcopy, hwritten, if_true]
  rfl

/-- Rows with nothing to write can be left out of the statement. -/
theorem mints_skip_idle (userId : Nat) (start : Db Format Media)
    {rows : List (CollectionRow Format Media)} {affected : List Nat}
    (hids : UniqueKey (·.id) rows)
    (hidle : ∀ row ∈ rows, idle (copyOf start row.id) row →
      row.id ∉ affected ∧ copyOf db row.id = copyOf start row.id) :
    rows.foldlM (mintOwnedCopy userId) (db, affected) =
      (rows.filter fun row => !idle (copyOf start row.id) row).foldlM (mintOwnedCopy userId)
        (db, affected) := by
  induction rows generalizing db affected with
  | nil => rfl
  | cons row rows ih =>
      have hrest : UniqueKey (·.id) rows := fun r hr s hs =>
        hids r (List.mem_cons_of_mem _ hr) s (List.mem_cons_of_mem _ hs)
      cases hrow : idle (copyOf start row.id) row with
      | true =>
          obtain ⟨hnew, hsame⟩ := hidle row List.mem_cons_self hrow
          rw [List.foldlM_cons, mint_idle (hsame ▸ hrow) hnew,
            List.filter_cons_of_neg (by simp [hrow])]
          exact ih hrest fun r hr => hidle r (List.mem_cons_of_mem _ hr)
      | false =>
          rw [List.filter_cons_of_pos (by simp [hrow]), List.foldlM_cons, List.foldlM_cons]
          cases hstep : mintOwnedCopy userId (db, affected) row with
          | error reason => rfl
          | ok state =>
              obtain ⟨mid, written⟩ := state
              refine ih hrest fun r hr hr' => ?_
              have hne : r.id ≠ row.id := fun heq => by
                have hsame := hids r (List.mem_cons_of_mem _ hr) row List.mem_cons_self heq
                rw [hsame, hrow] at hr'
                exact absurd hr' (by simp)
              obtain ⟨hnew, hsame⟩ := hidle r (List.mem_cons_of_mem _ hr) hr'
              rcases mint_cases hstep with ⟨rfl, rfl, -⟩ | ⟨rfl, -, hothers⟩
              · exact ⟨hnew, hsame⟩
              · exact ⟨fun hin => (List.mem_cons.mp hin).elim hne hnew, (hothers _ hne).trans hsame⟩

/-- What the statement leaves of the copies: a row it has written keeps a copy, and the copies of
the others are as they were. -/
theorem mints_frame {userId : Nat} {rows : List (CollectionRow Format Media)}
    {affected written : List Nat}
    (h : rows.foldlM (mintOwnedCopy userId) (db, affected) = .ok (next, written)) :
    (∀ id ∈ affected, id ∈ written ∧ ((copyOf db id).isSome → (copyOf next id).isSome)) ∧
      ∀ id, id ∉ written → copyOf next id = copyOf db id := by
  induction rows generalizing db affected with
  | nil =>
      obtain ⟨rfl, rfl⟩ := Prod.mk.inj (Except.ok.inj h)
      exact ⟨fun id hid => ⟨hid, fun hcopy => hcopy⟩, fun _ _ => rfl⟩
  | cons row rows ih =>
      rw [List.foldlM_cons] at h
      cases hstep : mintOwnedCopy userId (db, affected) row with
      | error reason => simp [hstep, bind, Except.bind] at h
      | ok state =>
          obtain ⟨mid, met⟩ := state
          simp only [hstep, bind, Except.bind] at h
          obtain ⟨hkept, hothers⟩ := ih h
          rcases mint_cases hstep with ⟨rfl, rfl, -⟩ | ⟨rfl, hcopy, hsame⟩
          · exact ⟨hkept, hothers⟩
          · refine ⟨fun id hid => ?_, fun id hid => ?_⟩
            · obtain ⟨hin, hsome⟩ := hkept id (List.mem_cons_of_mem _ hid)
              refine ⟨hin, fun hbefore => hsome ?_⟩
              by_cases heq : id = row.id
              · rw [heq]
                exact hcopy
              · rwa [hsame id heq]
            · have hne : id ≠ row.id := fun heq =>
                hid (heq ▸ (hkept row.id List.mem_cons_self).1)
              rw [hothers id hid, hsame id hne]

/-- A row the statement accepts twice had nothing to write. -/
theorem idle_of_repeated {userId : Nat} {first rest : List (CollectionRow Format Media)}
    {row : CollectionRow Format Media} {written : List Nat} (hrow : row ∈ rest)
    (h : (first ++ row :: rest).foldlM (mintOwnedCopy userId) (db, []) = .ok (next, written)) :
    idle (copyOf db row.id) row := by
  rw [List.foldlM_append] at h
  cases hfirst : first.foldlM (mintOwnedCopy userId) (db, []) with
  | error reason => simp [hfirst, bind, Except.bind] at h
  | ok before =>
      obtain ⟨mid, met⟩ := before
      simp only [hfirst, bind, Except.bind, List.foldlM_cons] at h
      cases hstep : mintOwnedCopy userId (mid, met) row with
      | error reason => simp [hstep] at h
      | ok state =>
          obtain ⟨after, affected⟩ := state
          simp only [hstep] at h
          cases hitem : row.gmItemId with
          | none => simp [idle, hitem]
          | some itemId =>
              -- a row that was written is in the way of its second occurrence
              have hnot : ¬(row.id ∈ affected ∧ (copyOf after row.id).isSome) := by
                rintro ⟨haffected, hcopy⟩
                obtain ⟨left, right, rfl⟩ := List.append_of_mem hrow
                rw [List.foldlM_append] at h
                cases hleft : left.foldlM (mintOwnedCopy userId) (after, affected) with
                | error reason => simp [hleft, bind, Except.bind] at h
                | ok between =>
                    obtain ⟨later, seen⟩ := between
                    obtain ⟨hseen, hsome⟩ := (mints_frame hleft).1 row.id haffected
                    simp only [hleft, bind, Except.bind, List.foldlM_cons] at h
                    rw [mint_second (by simp [hitem]) (hsome hcopy) hseen] at h
                    cases h
              rcases mint_cases hstep with ⟨rfl, rfl, hidle⟩ | ⟨rfl, hcopy, -⟩
              · by_cases hmet : row.id ∈ affected
                · have hnone : (copyOf after row.id).isSome = false := by
                    simpa using fun hcopy => hnot ⟨hmet, hcopy⟩
                  rw [Option.isSome_eq_false_iff, Option.isNone_iff_eq_none] at hnone
                  rw [hnone] at hidle
                  simp [idle, hitem] at hidle
                · rwa [← (mints_frame hfirst).2 row.id hmet]
              · exact absurd ⟨List.mem_cons_self, hcopy⟩ hnot

/-- `_ensure_owned_copies` on rows some of which are repeated without need to write: the same
tables, and the same copy id for each row. -/
theorem ensure_repeats {userId : Nat} {rows once : List (CollectionRow Format Media)}
    {copyIds : List (Nat × Nat)} (hids : UniqueKey (·.id) rows)
    (hmem : ∀ row, row ∈ once ↔ row ∈ rows)
    (hbusy : rows.filter (fun row => !idle (copyOf db row.id) row) =
      once.filter fun row => !idle (copyOf db row.id) row)
    (h : ensureOwnedCopies userId db once = .ok (next, copyIds)) :
    ∃ repeated, ensureOwnedCopies userId db rows = .ok (next, repeated) ∧
      ∀ row ∈ rows, row.gmItemId.isSome → copyIdOf repeated row.id = copyIdOf copyIds row.id := by
  have hbusyOf : ∀ list : List (CollectionRow Format Media),
      (list.filter fun row => row.gmItemId.isSome).filter
          (fun row => !idle (copyOf db row.id) row) =
        list.filter fun row => !idle (copyOf db row.id) row := by
    intro list
    rw [List.filter_filter]
    refine List.filter_congr fun row _ => ?_
    cases hitem : row.gmItemId <;> simp [idle, hitem]
  have hidentified : ∀ row, row ∈ once.filter (fun row => row.gmItemId.isSome) ↔
      row ∈ rows.filter fun row => row.gmItemId.isSome := by
    simp [List.mem_filter, hmem]
  have hunique : UniqueKey (·.id) (rows.filter fun row => row.gmItemId.isSome) :=
    fun r hr s hs => hids r (List.mem_of_mem_filter hr) s (List.mem_of_mem_filter hs)
  have huniqueOnce : UniqueKey (·.id) (once.filter fun row => row.gmItemId.isSome) :=
    fun r hr s hs => hunique r ((hidentified r).mp hr) s ((hidentified s).mp hs)
  have hmints : (rows.filter fun row => row.gmItemId.isSome).foldlM (mintOwnedCopy userId)
      (db, []) = (once.filter fun row => row.gmItemId.isSome).foldlM (mintOwnedCopy userId)
      (db, []) := by
    rw [mints_skip_idle userId db hunique fun _ _ _ => ⟨List.not_mem_nil, rfl⟩,
      mints_skip_idle userId db huniqueOnce fun _ _ _ => ⟨List.not_mem_nil, rfl⟩,
      hbusyOf, hbusyOf, hbusy]
  have hempty : (rows.filter fun row => row.gmItemId.isSome).isEmpty =
      (once.filter fun row => row.gmItemId.isSome).isEmpty := by
    rw [Bool.eq_iff_iff, List.isEmpty_iff, List.isEmpty_iff, List.eq_nil_iff_forall_not_mem,
      List.eq_nil_iff_forall_not_mem]
    simp only [hidentified]
  have hgiven : ∀ row ∈ rows, row.gmItemId.isSome →
      row ∈ rows.filter fun row => row.gmItemId.isSome := fun row hrow hitem =>
    List.mem_filter.mpr ⟨hrow, hitem⟩
  unfold ensureOwnedCopies at h ⊢
  simp only [hempty, hmints] at h ⊢
  generalize rows.filter (fun row => row.gmItemId.isSome) = identified at *
  generalize once.filter (fun row => row.gmItemId.isSome) = identifiedOnce at *
  cases hnil : identifiedOnce.isEmpty with
  | true =>
      rw [if_pos hnil] at h
      rw [if_pos rfl]
      obtain ⟨rfl, rfl⟩ := Prod.mk.inj (Except.ok.inj h)
      exact ⟨[], rfl, fun _ _ _ => rfl⟩
  | false =>
      rw [if_neg (by simp [hnil])] at h
      rw [if_neg Bool.false_ne_true]
      cases hmint : identifiedOnce.foldlM (mintOwnedCopy userId) (db, []) with
      | error reason => simp [hmint, bind, Except.bind] at h
      | ok state =>
          obtain ⟨minted, written⟩ := state
          simp only [hmint, bind, Except.bind] at h ⊢
          obtain ⟨rfl, rfl⟩ := Prod.mk.inj (Except.ok.inj h)
          have hlink : (linkFor minted.ownedCopies (identified.map (·.id)) :
              CollectionRow Format Media → _) =
              linkFor minted.ownedCopies (identifiedOnce.map (·.id)) := by
            funext row
            have hsame : row.id ∈ identified.map (·.id) ↔ row.id ∈ identifiedOnce.map (·.id) := by
              simp only [List.mem_map, hidentified]
            unfold linkFor
            simp only [hsame]
          have hlinked : (linkRow minted.ownedCopies (identified.map (·.id)) :
              CollectionRow Format Media → _) =
              linkRow minted.ownedCopies (identifiedOnce.map (·.id)) := by
            funext row
            unfold linkRow
            rw [hlink]
          simp only [hlink, hlinked]
          refine ⟨_, rfl, fun row hrow hitem => ?_⟩
          have hin := hgiven row hrow hitem
          rw [copy_id_of_append, copy_id_of_append, copy_id_of_entries hunique _ hin,
            copy_id_of_entries huniqueOnce _ ((hidentified row).mpr hin)]

/-! ## The page -/

/-- When PostgreSQL refuses a proposed row whose target an earlier row of the same statement has
met: when that row has written the target, or always. -/
inductive SecondHit where
  | written | proposed

/-- The rows of a page, one for each tuple. -/
def pageRows (env : Env Format Media) (db : Db Format Media)
    (batch : List (BatchParams Format Media)) : List (CollectionRow Format Media) :=
  (batch.map (·.key)).filterMap (byKey (selectCollectionPage
    (batch.foldl (upsertCollection env) db) env.userId (batch.map (·.releaseId))))

/-- The collection rows whose copies a page proposes. -/
def targets (env : Env Format Media) (db : Db Format Media)
    (batch : List (BatchParams Format Media)) : List Nat :=
  ((pageRows env db batch).filter fun row => row.gmItemId.isSome).map (·.id)

/-- `_persist_collection_page` under either reading of the rule. -/
def persistPage (rule : SecondHit) (env : Env Format Media) (db : Db Format Media)
    (batch : List (BatchParams Format Media)) : Except SyncError (Db Format Media × List Event) :=
  match rule with
  | .written => persistCollectionPage env db batch
  | .proposed =>
      match (targets env db batch).find? fun rowId => 1 < (targets env db batch).count rowId with
      | some rowId => throw (.cardinalityViolation rowId)
      | none => persistCollectionPage env db batch

/-- What the constraints of the tables keep: row ids are unique, a user's rows with an instance id
are unique by key, and every id in the tables has been drawn. -/
structure Consistent (userId : Nat) (db : Db Format Media) : Prop where
  ids : (db.userCollections.map (·.id)).Nodup
  keys : UniqueKey CollectionRow.key (namedRows userId db.userCollections)
  drawn : ∀ row ∈ db.userCollections, row.id < db.nextId
  links : ∀ row ∈ db.userCollections, ∀ copyId, row.ownedCopyId = some copyId → copyId < db.nextId
  copies : ∀ copy ∈ db.ownedCopies,
    copy.id < db.nextId ∧ ∀ rowId, copy.collectionRowId = some rowId → rowId < db.nextId

/-- Two results of a transaction are the same up to the ids generated since `old`. -/
def SameResult (old : Nat) (result other : Db Format Media × List Event) : Prop :=
  ∃ rename : Equiv.Perm Nat, (∀ n < old, rename n = n) ∧
    other.1.userCollections = result.1.userCollections.map (renameRow rename) ∧
    other.1.ownedCopies = result.1.ownedCopies.map (renameCopy rename) ∧
    other.2 = result.2.map (renameEvent rename)

/-- The page behaves like the page with only the last occurrence of each key, in the place of the
first. -/
def BehavesAsOnce (rule : SecondHit) (env : Env Format Media) (db : Db Format Media)
    (batch : List (BatchParams Format Media)) : Prop :=
  ∃ result once, persistPage rule env db batch = .ok result ∧
    persistPage rule env db (keepLast BatchParams.key batch) = .ok once ∧
    SameResult db.nextId result once

/-- The native id the row of a tuple is left with. -/
def itemAfter (env : Env Format Media) (stored : Option (CollectionRow Format Media))
    (params : BatchParams Format Media) : Option Nat :=
  (env.resolveAliases params.releaseId).or (stored.bind (·.gmItemId))

/-- No copy is proposed for the row, or, where only a written target is in the way, its copy is
the right one already. -/
def NothingToMint (rule : SecondHit) (env : Env Format Media) (db : Db Format Media)
    (last : BatchParams Format Media) : Prop :=
  ∀ itemId, itemAfter env (namedRow env.userId db.userCollections last.key) last = some itemId →
    rule = .written ∧ ∃ row copy, namedRow env.userId db.userCollections last.key = some row ∧
      copyOf db row.id = some copy ∧
      ¬copyDiffers itemId (last.dateAdded.or row.dateAdded) copy

/-- A repeated key, by its last tuple, that is written as if it occurred once. -/
structure Harmless (rule : SecondHit) (env : Env Format Media) (db : Db Format Media)
    (batch : List (BatchParams Format Media)) (last : BatchParams Format Media) : Prop where
  copy : NothingToMint rule env db last
  kept : KeptAll (namedRow env.userId db.userCollections last.key) (occurrences batch last.key) last

/-! ## The tables before the owned copies -/

section Page

variable {batch : List (BatchParams Format Media)}

theorem count_key (batch : List (BatchParams Format Media)) (key : Key) :
    (batch.map (·.key)).count key = (occurrences batch key).length := by
  rw [List.count_eq_countP, List.countP_map, List.countP_eq_length_filter, occurrences]
  congr 1
  refine List.filter_congr fun p _ => ?_
  by_cases hp : p.key = key <;> simp [hp]

theorem upserts_drawn (hids : (db.userCollections.map (·.id)).Nodup)
    (hdrawn : ∀ row ∈ db.userCollections, row.id < db.nextId) :
    ((batch.foldl (upsertCollection env) db).userCollections.map (·.id)).Nodup := by
  induction batch generalizing db with
  | nil => exact hids
  | cons p batch ih => exact ih (ids_upsert p hids hdrawn) (drawn_upsert p hdrawn)

/-- The tagged tuples of a batch belong to its user. -/
theorem tagged_user (hbatch : PageBatch env batch) (tags : List Nat) :
    ∀ entry ∈ tags.zip batch, entry.2.userId = env.userId := fun entry hentry =>
  hbatch.user entry.2 (List.of_mem_zip hentry).2

/-- The row a key of the page is left with. -/
theorem named_row_page (hbatch : PageBatch env batch) {key : Key} (hkey : key.2 ≠ none) :
    ∃ entries : List (Nat × BatchParams Format Media),
      entries.map (·.2) = occurrences batch key ∧ (∀ entry ∈ entries, db.nextId ≤ entry.1) ∧
      namedRow env.userId (batch.foldl (upsertCollection env) db).userCollections key =
        takeTuples env (namedRow env.userId db.userCollections key) entries := by
  refine ⟨((List.range' db.nextId batch.length).zip batch).filter fun entry => entry.2.key = key,
    ?_, fun entry hentry => ?_, ?_⟩
  · have hzip : ((List.range' db.nextId batch.length).zip batch).map Prod.snd = batch :=
      List.map_snd_zip (by simp)
    calc (((List.range' db.nextId batch.length).zip batch).filter
            fun entry => entry.2.key = key).map (·.2)
        = (((List.range' db.nextId batch.length).zip batch).map Prod.snd).filter
            (fun p => p.key = key) := by rw [List.filter_map]; rfl
      _ = occurrences batch key := by rw [hzip, occurrences]
  · have hmem := List.of_mem_zip (List.mem_of_mem_filter hentry)
    exact (List.mem_range'_1.mp hmem.1).1
  · rw [(upserts_tagged env batch db).1]
    exact named_row_upserts hkey (tagged_user hbatch _)

/-- For a key with an instance id a page read is the row an upsert of the key updates. -/
theorem by_key_named {rows : Db Format Media} {userId : Nat} {releaseIds : List Nat} {key : Key}
    (hunique : UniqueKey CollectionRow.key (namedRows userId rows.userCollections))
    (hkey : key.2 ≠ none) (hrelease : key.1 ∈ releaseIds) :
    byKey (selectCollectionPage rows userId releaseIds) key =
      namedRow userId rows.userCollections key := by
  cases hfound : byKey (selectCollectionPage rows userId releaseIds) key with
  | some row =>
      obtain ⟨hmem, hrowKey⟩ := lookup_mem hfound
      have hrow : row ∈ rows.userCollections ∧ row.userId = userId ∧ row.releaseId ∈ releaseIds := by
        simpa [selectCollectionPage] using hmem
      have hinstance : row.instanceId ≠ none := fun hnone =>
        hkey ((congrArg Prod.snd hrowKey).symm.trans hnone)
      refine (lookup_of_mem hunique (List.mem_filter.mpr ⟨hrow.1, ?_⟩) hrowKey).symm
      exact decide_eq_true ⟨hrow.2.1, hinstance⟩
  | none =>
      refine (lookup_none.mpr fun row hrow hrowKey => ?_).symm
      obtain ⟨hmem, hmine⟩ := List.mem_filter.mp hrow
      refine lookup_none.mp hfound row ?_ hrowKey
      rw [List.mem_reverse]
      refine List.mem_filter.mpr ⟨hmem, decide_eq_true ⟨(of_decide_eq_true hmine).1, ?_⟩⟩
      have hfirst : row.releaseId = key.1 := congrArg Prod.fst hrowKey
      rwa [hfirst]

theorem unique_page (h : Consistent env.userId db) (hbatch : PageBatch env batch) :
    UniqueKey CollectionRow.key
      (namedRows env.userId (batch.foldl (upsertCollection env) db).userCollections) := by
  rw [(upserts_tagged env batch db).1]
  exact unique_named_upserts (tagged_user hbatch _) h.keys

/-- A repeated key of a page has an instance id. -/
theorem named_of_repeated (hbatch : PageBatch env batch) {last : BatchParams Format Media}
    (hlast : last ∈ batch) (hrepeated : 1 < (occurrences batch last.key).length) :
    last.key.2 ≠ none := fun hnone =>
  absurd (hbatch.named last hlast hnone) (Nat.not_le_of_lt hrepeated)

/-- The row a repeated key is left with: the stored row or a new one, with the native id and, when
the `COALESCE` columns are kept, the time its last tuple leaves. -/
theorem row_of_page (h : Consistent env.userId db) (hbatch : PageBatch env batch)
    {last : BatchParams Format Media} (hlast : (occurrences batch last.key).getLast? = some last)
    (hkey : last.key.2 ≠ none) :
    ∃ row, byKey (selectCollectionPage (batch.foldl (upsertCollection env) db) env.userId
        (batch.map (·.releaseId))) last.key = some row ∧
      row.gmItemId = itemAfter env (namedRow env.userId db.userCollections last.key) last ∧
      row.dateAdded = (latest (·.dateAdded) (occurrences batch last.key)).or
        ((namedRow env.userId db.userCollections last.key).bind (·.dateAdded)) ∧
      (∀ old, namedRow env.userId db.userCollections last.key = some old → row.id = old.id) ∧
      (namedRow env.userId db.userCollections last.key = none → db.nextId ≤ row.id) := by
  obtain ⟨entries, hentries, htags, hrow⟩ := @named_row_page _ _ env db batch hbatch last.key hkey
  have hmem := List.mem_of_getLast? hlast
  have hnonempty : entries ≠ [] := by
    rintro rfl
    rw [← hentries] at hmem
    simp at hmem
  have hrelease : ∀ entry ∈ entries, entry.2.releaseId = last.releaseId := by
    intro entry hentry
    have hin : entry.2 ∈ occurrences batch last.key :=
      hentries ▸ List.mem_map_of_mem hentry
    exact congrArg Prod.fst (of_decide_eq_true (List.mem_filter.mp hin).2)
  obtain ⟨row, hfound, hkeep, hnew⟩ := @take_tuples_id _ _ env
    (namedRow env.userId db.userCollections last.key) entries hnonempty
  have hread : last.key.1 ∈ batch.map (·.releaseId) :=
    List.mem_map.mpr ⟨last, List.mem_of_mem_filter hmem, rfl⟩
  refine ⟨row, ?_, ?_, ?_, hkeep, fun hnone => ?_⟩
  · rw [by_key_named (unique_page h hbatch) hkey hread, hrow, hfound]
  · have hitem := @take_tuples_item _ _ env (namedRow env.userId db.userCollections last.key) entries
      last.releaseId hnonempty hrelease
    rw [hfound] at hitem
    exact hitem
  · have hdate := @take_tuples_field _ _ env (namedRow env.userId db.userCollections last.key) entries
      _ (·.dateAdded) (·.dateAdded) (fun _ _ _ => rfl) (fun _ _ _ => rfl)
    rw [hfound, hentries] at hdate
    exact hdate
  · obtain ⟨entry, hentry, htag⟩ := List.mem_map.mp (hnew hnone)
    exact htag ▸ htags entry hentry

/-- The rows of a page are told apart by their ids, and each has the key it was read by. -/
theorem page_rows_read (h : Consistent env.userId db) :
    UniqueKey (·.id) (pageRows env db batch) ∧ ∀ key row, byKey (selectCollectionPage
      (batch.foldl (upsertCollection env) db) env.userId (batch.map (·.releaseId))) key = some row →
      row ∈ (batch.foldl (upsertCollection env) db).userCollections ∧ row.key = key := by
  have hread : ∀ key row, byKey (selectCollectionPage (batch.foldl (upsertCollection env) db)
      env.userId (batch.map (·.releaseId))) key = some row →
      row ∈ (batch.foldl (upsertCollection env) db).userCollections ∧ row.key = key := by
    intro key row hfound
    obtain ⟨hmem, hkey⟩ := lookup_mem hfound
    exact ⟨List.mem_of_mem_filter (List.mem_reverse.mp hmem), hkey⟩
  refine ⟨fun r hr s hs hid => ?_, hread⟩
  obtain ⟨_, -, hr⟩ := List.mem_filterMap.mp hr
  obtain ⟨_, -, hs⟩ := List.mem_filterMap.mp hs
  exact List.inj_on_of_nodup_map (upserts_drawn h.ids h.drawn) (hread _ _ hr).1 (hread _ _ hs).1 hid

/-- A page whose repeated keys propose no copies proposes no copy twice. -/
theorem targets_nodup (h : Consistent env.userId db)
    (hnone : ∀ key, 1 < (batch.map (·.key)).count key → ∀ row, byKey (selectCollectionPage
      (batch.foldl (upsertCollection env) db) env.userId (batch.map (·.releaseId))) key = some row →
      row.gmItemId = none) : (targets env db batch).Nodup := by
  obtain ⟨hids, hread⟩ := @page_rows_read _ _ env db batch h
  unfold targets
  unfold pageRows at hids ⊢
  generalize byKey (selectCollectionPage (batch.foldl (upsertCollection env) db) env.userId
    (batch.map (·.releaseId))) = after at hids hread hnone ⊢
  have honce : ((batch.map (·.key)).filterMap after).filter (fun row => row.gmItemId.isSome) =
      (batch.map (·.key)).eraseDups.filterMap fun key =>
        (after key).filter fun row => row.gmItemId.isSome := by
    rw [List.filter_filterMap]
    refine filter_map_erase_dups fun key hkey => ?_
    cases hrow : after key with
    | none => rfl
    | some row => simp [hnone key hkey row hrow]
  refine List.Nodup.map_on (fun r hr s hs hid => hids r (List.mem_of_mem_filter hr) s
    (List.mem_of_mem_filter hs) hid) ?_
  rw [honce]
  refine List.Nodup.filterMap (fun k j row hk hj => ?_) (nodup_erase_dups _)
  have hrowK := hread k row (Option.mem_filter_iff.mp hk).1
  have hrowJ := hread j row (Option.mem_filter_iff.mp hj).1
  exact hrowK.2.symm.trans hrowJ.2

theorem persist_page_ok {rule : SecondHit}
    (h : rule = .proposed → (targets env db batch).Nodup) :
    persistPage rule env db batch = persistCollectionPage env db batch := by
  cases rule with
  | written => rfl
  | proposed =>
      have hnone : (targets env db batch).find?
          (fun rowId => 1 < (targets env db batch).count rowId) = none := by
        refine List.find?_eq_none.mpr fun rowId _ => ?_
        have hcount := List.nodup_iff_count_le_one.mp (h rfl) rowId
        simpa using hcount
      simp only [persistPage, hnone]

theorem persist_page_inv {rule : SecondHit} {result : Db Format Media × List Event}
    (h : persistPage rule env db batch = .ok result) :
    persistCollectionPage env db batch = .ok result ∧
      (rule = .proposed → (targets env db batch).Nodup) := by
  cases rule with
  | written => exact ⟨h, fun heq => by cases heq⟩
  | proposed =>
      unfold persistPage at h
      cases hfound : (targets env db batch).find?
          (fun rowId => 1 < (targets env db batch).count rowId) with
      | some rowId =>
          simp only [hfound] at h
          cases h
      | none =>
          simp only [hfound] at h
          refine ⟨h, fun _ => List.nodup_iff_count_le_one.mpr fun rowId => ?_⟩
          by_cases hin : rowId ∈ targets env db batch
          · simpa using List.find?_eq_none.mp hfound rowId hin
          · rw [List.count_eq_zero_of_not_mem hin]
            exact Nat.zero_le 1

/-! ## The page without the repeats -/

theorem once_batch (hbatch : PageBatch env batch) :
    PageBatch env (keepLast BatchParams.key batch) := by
  refine ⟨fun p hp => ?_, fun p _ _ => ?_⟩
  · exact hbatch.user p (List.mem_of_mem_filter (List.mem_of_getLast? (mem_keep_last.mp hp)))
  · rw [← count_key, map_keep_last]
    exact List.nodup_iff_count_le_one.mp (nodup_erase_dups _) _

theorem once_releases (batch : List (BatchParams Format Media)) (releaseId : Nat) :
    releaseId ∈ (keepLast BatchParams.key batch).map (·.releaseId) ↔
      releaseId ∈ batch.map (·.releaseId) := by
  have hfirst : ∀ list : List (BatchParams Format Media),
      list.map (·.releaseId) = (list.map BatchParams.key).map Prod.fst := fun list => by
    rw [List.map_map]
    rfl
  rw [hfirst, hfirst, map_keep_last, List.mem_map, List.mem_map]
  simp only [List.mem_eraseDups]

theorem select_once (db : Db Format Media) (userId : Nat) (batch : List (BatchParams Format Media)) :
    selectCollectionPage db userId ((keepLast BatchParams.key batch).map (·.releaseId)) =
      selectCollectionPage db userId (batch.map (·.releaseId)) := by
  unfold selectCollectionPage
  refine List.filter_congr fun row _ => ?_
  simp only [once_releases]

theorem ensure_ok {userId : Nat} {rows : List (CollectionRow Format Media)}
    (hids : (rows.map (·.id)).Nodup) :
    ∃ next copyIds, ensureOwnedCopies userId db rows = .ok (next, copyIds) := by
  have hidentified : ((rows.filter fun row => row.gmItemId.isSome).map (·.id)).Nodup :=
    hids.sublist (List.filter_sublist.map _)
  unfold ensureOwnedCopies
  dsimp only
  split
  · exact ⟨_, _, rfl⟩
  · obtain ⟨minted, written, hfold, -⟩ := mint_owned_copies userId db
      (fun row hrow => (List.mem_filter.mp hrow).2) hidentified fun _ _ => List.not_mem_nil
    rw [hfold]
    exact ⟨_, _, rfl⟩

/-- The names of the rows and copies a page generates, renamed to those the page without the
repeats generates. -/
theorem page_renaming {start count onceCount budget : Nat} {tags : List Nat}
    (htags : tags.Sublist (List.range' start count)) (hlength : tags.length = onceCount) :
    ∃ rename : Equiv.Perm Nat, (∀ n < start, rename n = n) ∧
      tags.map rename = List.range' start onceCount ∧
      ∀ n < budget, rename (start + count + n) = start + onceCount + n := by
  have hnames : (tags ++ List.range' (start + count) budget).Nodup := by
    have hall : (List.range' start count ++ List.range' (start + count) budget).Nodup := by
      rw [List.range'_append_1]
      exact List.nodup_range'
    exact hall.sublist (htags.append_right _)
  obtain ⟨rename, hkeep, hmap⟩ := @exists_renaming start
    (tags ++ List.range' (start + count) budget) (List.range' start (onceCount + budget)) hnames
    List.nodup_range' (by simp [hlength]) (fun n hn => by
      rcases List.mem_append.mp hn with hn | hn
      · exact (List.mem_range'_1.mp (htags.subset hn)).1
      · exact (Nat.le_add_right _ _).trans (List.mem_range'_1.mp hn).1)
    fun n hn => (List.mem_range'_1.mp hn).1
  rw [← List.range'_append_1, List.map_append] at hmap
  obtain ⟨hfirst, hsecond⟩ := List.append_inj hmap (by simp [hlength])
  refine ⟨rename, hkeep, hfirst, fun n hn => ?_⟩
  have hat := congrArg (fun list => list[n]?) hsecond
  simpa [List.getElem?_range', hn] using hat

theorem rename_old_row {start : Nat} {rename : Equiv.Perm Nat} (hkeep : ∀ n < start, rename n = n)
    {row : CollectionRow Format Media} (hid : row.id < start)
    (hlink : ∀ copyId, row.ownedCopyId = some copyId → copyId < start) :
    renameRow rename row = row := by
  have hcopy : row.ownedCopyId.map rename = row.ownedCopyId := by
    cases hlinked : row.ownedCopyId with
    | none => rfl
    | some copyId => rw [Option.map_some, hkeep copyId (hlink copyId hlinked)]
  rw [renameRow, hkeep row.id hid, hcopy]

theorem rename_old_copy {start : Nat} {rename : Equiv.Perm Nat} (hkeep : ∀ n < start, rename n = n)
    {copy : OwnedCopy} (hid : copy.id < start)
    (hrow : ∀ rowId, copy.collectionRowId = some rowId → rowId < start) :
    renameCopy rename copy = copy := by
  have hlink : copy.collectionRowId.map rename = copy.collectionRowId := by
    cases hlinked : copy.collectionRowId with
    | none => rfl
    | some rowId => rw [Option.map_some, hkeep rowId (hrow rowId hlinked)]
  rw [renameCopy, hkeep copy.id hid, hlink]

/-- When the repeated keys keep their columns and have nothing to mint, the page and the page
without the repeats have the same result. -/
theorem page_same (h : Consistent env.userId db) (hbatch : PageBatch env batch)
    (hkept : ∀ last ∈ keepLast BatchParams.key batch, KeptAll
      (namedRow env.userId db.userCollections last.key) (occurrences batch last.key) last)
    (hidle : ∀ key, 1 < (batch.map (·.key)).count key → ∀ row, byKey (selectCollectionPage
      (batch.foldl (upsertCollection env) db) env.userId (batch.map (·.releaseId))) key = some row →
      idle (copyOf (batch.foldl (upsertCollection env) db) row.id) row) :
    ∃ result once, persistCollectionPage env db batch = .ok result ∧
      persistCollectionPage env db (keepLast BatchParams.key batch) = .ok once ∧
      SameResult db.nextId result once := by
  obtain ⟨hids, hread⟩ := @page_rows_read _ _ env db batch h
  obtain ⟨hrows, hnext⟩ := upserts_tagged env batch db
  obtain ⟨hrowsOnce, hnextOnce⟩ := upserts_tagged env (keepLast BatchParams.key batch) db
  have hentries : ((List.range' db.nextId batch.length).zip batch).map Prod.snd = batch :=
    List.map_snd_zip (by simp)
  have htags : ((List.range' db.nextId batch.length).zip batch).map Prod.fst =
      List.range' db.nextId batch.length := List.map_fst_zip (by simp)
  have hkeepLast := @upserts_keep_last _ _ env db.userCollections
    ((List.range' db.nextId batch.length).zip batch)
  simp only [hentries, htags] at hkeepLast
  obtain ⟨tags, hsub, hlength, hfold⟩ := hkeepLast hbatch h.keys hkept
  have hcopies := upserts_copies env batch db
  have hcopiesOnce := upserts_copies env (keepLast BatchParams.key batch) db
  have hdistinct := @upserts_drawn _ _ env db batch h.ids h.drawn
  unfold persistCollectionPage
  unfold pageRows at hids
  dsimp only
  rw [select_once, select_once]
  generalize batch.foldl (upsertCollection env) db = mid at *
  generalize (keepLast BatchParams.key batch).foldl (upsertCollection env) db = midOnce at *
  set after := byKey (selectCollectionPage mid env.userId (batch.map (·.releaseId))) with hafter
  -- the rows of the page, each once, get the same copies
  set once := (batch.map (·.key)).eraseDups.filterMap after with honce
  have honceKeys : ((keepLast BatchParams.key batch).map (·.key)) =
      (batch.map (·.key)).eraseDups := map_keep_last _ _
  have hmem : ∀ row, row ∈ once ↔ row ∈ (batch.map (·.key)).filterMap after := by
    intro row
    rw [honce, List.mem_filterMap, List.mem_filterMap]
    simp only [List.mem_eraseDups]
  have hbusy : ((batch.map (·.key)).filterMap after).filter
      (fun row => !idle (copyOf mid row.id) row) =
      once.filter fun row => !idle (copyOf mid row.id) row := by
    rw [honce, List.filter_filterMap, List.filter_filterMap]
    refine filter_map_erase_dups fun key hkey => ?_
    cases hrow : after key with
    | none => rfl
    | some row => simp [hidle key hkey row hrow]
  have honceIds : (once.map (·.id)).Nodup := by
    refine List.Nodup.map_on (fun r hr s hs hid =>
      hids r ((hmem r).mp hr) s ((hmem s).mp hs) hid) ?_
    refine List.Nodup.filterMap (fun k j row hk hj => ?_) (nodup_erase_dups _)
    exact (hread k row hk).2.symm.trans (hread j row hj).2
  obtain ⟨next, copyIds, hensure⟩ := @ensure_ok _ _ mid env.userId once honceIds
  obtain ⟨repeated, hpage, hsame⟩ := ensure_repeats hids hmem hbusy hensure
  -- the page without the repeats runs on the renamed tables
  obtain ⟨rename, hkeep, hrowNames, hcopyNames⟩ :=
    @page_renaming db.nextId batch.length _ once.length _ hsub hlength
  have hrenamed : Renamed rename once.length mid midOnce := by
    refine ⟨?_, ?_, fun n hn => ?_⟩
    · have hold : db.userCollections.map (renameRow rename) = db.userCollections :=
        (List.map_congr_left fun row hrow =>
          rename_old_row hkeep (h.drawn row hrow) (h.links row hrow)).trans (List.map_id' _)
      rw [hrows, hrowsOnce, hfold, ← upserts_rename, hold, hrowNames]
    · have hold : db.ownedCopies.map (renameCopy rename) = db.ownedCopies :=
        (List.map_congr_left fun copy hcopy => rename_old_copy hkeep (h.copies copy hcopy).1
          (h.copies copy hcopy).2).trans (List.map_id' _)
      rw [hcopies, hcopiesOnce, hold]
    · rw [hnext, hnextOnce, hcopyNames n hn]
  have hafterOnce : ∀ key, byKey (selectCollectionPage midOnce env.userId
      (batch.map (·.releaseId))) key = (after key).map (renameRow rename) := by
    intro key
    rw [select_rename env.userId (batch.map (·.releaseId)) hrenamed.rows, by_key_rename]
  obtain ⟨nextOnce, hensureOnce, hfinal⟩ := ensure_rename hrenamed hensure
  have hpageOnce : ((keepLast BatchParams.key batch).map (·.key)).filterMap
      (byKey (selectCollectionPage midOnce env.userId (batch.map (·.releaseId)))) =
      once.map (renameRow rename) := by
    rw [honceKeys, honce, List.map_filterMap]
    exact List.filterMap_congr fun key _ => hafterOnce key
  rw [hpageOnce, hensureOnce, hpage]
  refine ⟨_, _, rfl, rfl, rename, hkeep, hfinal.rows, hfinal.copies, ?_⟩
  -- the events, key by key
  unfold collectionPageEvents
  rw [honceKeys, erase_dups_of_nodup (nodup_erase_dups _), List.map_filterMap]
  refine List.filterMap_congr fun key hkey => ?_
  rw [key_event_rename key (hafterOnce key)]
  congr 1
  unfold keyEvent
  cases hrow : after key with
  | none => rfl
  | some row =>
      have hin : row ∈ (batch.map (·.key)).filterMap after :=
        List.mem_filterMap.mpr ⟨key, List.mem_eraseDups.mp hkey, hrow⟩
      cases hitem : row.gmItemId with
      | none => simp only [hitem, Option.isNone_none, if_true]
      | some itemId => simp only [hsame row hin (by simp [hitem])]

/-! ## What a page with the same result tells -/

theorem named_row_map {change : CollectionRow Format Media → CollectionRow Format Media}
    (huser : ∀ row, (change row).userId = row.userId) (hkey : ∀ row, (change row).key = row.key)
    (userId : Nat) (rows : List (CollectionRow Format Media)) (key : Key) :
    namedRow userId (rows.map change) key = (namedRow userId rows key).map change := by
  have hnamed : namedRows userId (rows.map change) = (namedRows userId rows).map change := by
    rw [namedRows, List.filter_map]
    congr 1
    refine List.filter_congr fun row _ => ?_
    have hinstance : (change row).instanceId = row.instanceId := congrArg Prod.snd (hkey row)
    simp [huser, hinstance]
  rw [namedRow, hnamed]
  exact lookup_map fun row _ => hkey row

/-- A column no later statement of the page touches is the same in both results. -/
theorem column_of_same {Value : Type} {result once : Db Format Media × List Event}
    {column : CollectionRow Format Media → Option Value}
    {field : BatchParams Format Media → Option Value} (hbatch : PageBatch env batch)
    (hinsert : ∀ tag p item, column (insertRow tag p item) = field p)
    (hupdate : ∀ p item row, column (updateRow p item row) = (field p).or (column row))
    (hlink : ∀ copies rowIds row, column (linkRow copies rowIds row) = column row)
    (hrename : ∀ rename row, column (renameRow rename row) = column row)
    (hpage : persistCollectionPage env db batch = .ok result)
    (honce : persistCollectionPage env db (keepLast BatchParams.key batch) = .ok once)
    (hsame : SameResult db.nextId result once) {last : BatchParams Format Media}
    (hlast : last ∈ keepLast BatchParams.key batch) (hkey : last.key.2 ≠ none) :
    Kept field ((namedRow env.userId db.userCollections last.key).bind column)
      (occurrences batch last.key) last := by
  have hlastOf : (occurrences batch last.key).getLast? = some last := mem_keep_last.mp hlast
  have hfinal : ∀ {list : List (BatchParams Format Media)} {final : Db Format Media × List Event},
      PageBatch env list → persistCollectionPage env db list = .ok final →
      (namedRow env.userId final.1.userCollections last.key).bind column =
        (latest field (occurrences list last.key)).or
          ((namedRow env.userId db.userCollections last.key).bind column) := by
    intro list final hlist hok
    obtain ⟨copies, rowIds, hrows, -⟩ := persist_collections hok
    obtain ⟨entries, hentries, -, hrow⟩ := @named_row_page _ _ env db list hlist last.key hkey
    have hmap := @named_row_map _ _ (linkRow copies rowIds) (fun _ => rfl) (fun _ => rfl)
      env.userId (list.foldl (upsertCollection env) db).userCollections last.key
    rw [hrows, hmap, hrow, ← hentries, ← take_tuples_field hinsert hupdate, Option.bind_map]
    congr 1
    funext row
    exact hlink copies rowIds row
  obtain ⟨rename, -, hrows, -, -⟩ := hsame
  have hmap := @named_row_map _ _ (renameRow rename) (fun _ => rfl) (fun _ => rfl)
    env.userId result.1.userCollections last.key
  have hboth := hfinal (once_batch hbatch) honce
  have hlone : occurrences (keepLast BatchParams.key batch) last.key = [last] := by
    have hcount : (occurrences (keepLast BatchParams.key batch) last.key).length ≤ 1 := by
      rw [← count_key, map_keep_last]
      exact List.nodup_iff_count_le_one.mp (nodup_erase_dups _) _
    have hmem : last ∈ occurrences (keepLast BatchParams.key batch) last.key :=
      List.mem_filter.mpr ⟨hlast, by simp⟩
    match hoccurs : occurrences (keepLast BatchParams.key batch) last.key, hcount, hmem with
    | [p], _, hmem => rw [List.mem_singleton.mp hmem]
    | _ :: _ :: _, hcount, _ => exact absurd hcount (by simp)
  have hcolumn : (namedRow env.userId once.1.userCollections last.key).bind column =
      (namedRow env.userId result.1.userCollections last.key).bind column := by
    rw [hrows, hmap, Option.bind_map]
    congr 1
    funext row
    exact hrename rename row
  rw [kept_iff hlastOf, ← hfinal hbatch hpage, ← hcolumn, hboth, hlone]
  cases hfield : field last <;> simp [latest, hfield]

theorem kept_of_same {result once : Db Format Media × List Event} (hbatch : PageBatch env batch)
    (hpage : persistCollectionPage env db batch = .ok result)
    (honce : persistCollectionPage env db (keepLast BatchParams.key batch) = .ok once)
    (hsame : SameResult db.nextId result once) {last : BatchParams Format Media}
    (hlast : last ∈ keepLast BatchParams.key batch) (hkey : last.key.2 ≠ none) :
    KeptAll (namedRow env.userId db.userCollections last.key) (occurrences batch last.key) last :=
  ⟨column_of_same hbatch (fun _ _ _ => rfl) (fun _ _ _ => rfl) (fun _ _ _ => rfl)
      (fun _ _ => rfl) hpage honce hsame hlast hkey,
    column_of_same hbatch (fun _ _ _ => rfl) (fun _ _ _ => rfl) (fun _ _ _ => rfl)
      (fun _ _ => rfl) hpage honce hsame hlast hkey,
    column_of_same hbatch (fun _ _ _ => rfl) (fun _ _ _ => rfl) (fun _ _ _ => rfl)
      (fun _ _ => rfl) hpage honce hsame hlast hkey⟩

/-- A page that commits has nothing to mint for a row it proposes twice. -/
theorem idle_of_page {result : Db Format Media × List Event} {key : Key}
    {row : CollectionRow Format Media} (hkey : 1 < (batch.map (·.key)).count key)
    (hrow : byKey (selectCollectionPage (batch.foldl (upsertCollection env) db) env.userId
      (batch.map (·.releaseId))) key = some row)
    (h : persistCollectionPage env db batch = .ok result) :
    idle (copyOf (batch.foldl (upsertCollection env) db) row.id) row := by
  cases hitem : row.gmItemId with
  | none => simp [idle, hitem]
  | some itemId =>
      obtain ⟨first, rest, hkeys, hrest⟩ := split_of_repeated hkey
      unfold persistCollectionPage at h
      dsimp only at h
      generalize batch.foldl (upsertCollection env) db = mid at *
      generalize byKey (selectCollectionPage mid env.userId (batch.map (·.releaseId))) = after at *
      have hsplit : ((batch.map (·.key)).filterMap after).filter (fun r => r.gmItemId.isSome) =
          (first.filterMap after).filter (fun r => r.gmItemId.isSome) ++
            row :: (rest.filterMap after).filter (fun r => r.gmItemId.isSome) := by
        rw [hkeys, List.filterMap_append, List.filterMap_cons_some hrow, List.filter_append,
          List.filter_cons_of_pos (by simp [hitem])]
      have hin : row ∈ (rest.filterMap after).filter (fun r => r.gmItemId.isSome) :=
        List.mem_filter.mpr ⟨List.mem_filterMap.mpr ⟨key, hrest, hrow⟩, by simp [hitem]⟩
      cases hensure : ensureOwnedCopies env.userId mid ((batch.map (·.key)).filterMap after) with
      | error reason =>
          rw [hensure] at h
          cases h
      | ok state =>
          unfold ensureOwnedCopies at hensure
          simp only [hsplit] at hensure
          rw [if_neg (by simp)] at hensure
          cases hmint : ((first.filterMap after).filter (fun r => r.gmItemId.isSome) ++
              row :: (rest.filterMap after).filter (fun r => r.gmItemId.isSome)).foldlM
              (mintOwnedCopy env.userId) (mid, []) with
          | error reason => simp [hmint, bind, Except.bind] at hensure
          | ok minted => exact idle_of_repeated hin hmint

/-- A page of distinct targets proposes no row of a repeated key. -/
theorem unidentified_of_targets {key : Key} {row : CollectionRow Format Media}
    (hkey : 1 < (batch.map (·.key)).count key)
    (hrow : byKey (selectCollectionPage (batch.foldl (upsertCollection env) db) env.userId
      (batch.map (·.releaseId))) key = some row)
    (h : (targets env db batch).Nodup) : row.gmItemId = none := by
  by_contra hitem
  have hsome : row.gmItemId.isSome := Option.isSome_iff_ne_none.mpr hitem
  obtain ⟨first, rest, hkeys, hrest⟩ := split_of_repeated hkey
  unfold targets pageRows at h
  generalize byKey (selectCollectionPage (batch.foldl (upsertCollection env) db) env.userId
    (batch.map (·.releaseId))) = after at *
  rw [hkeys, List.filterMap_append, List.filterMap_cons_some hrow, List.filter_append,
    List.filter_cons_of_pos (by simpa using hsome), List.map_append, List.map_cons] at h
  have htail := (List.nodup_cons.mp (List.nodup_append.mp h).2.1).1
  exact htail (List.mem_map_of_mem (List.mem_filter.mpr
    ⟨List.mem_filterMap.mpr ⟨key, hrest, hrow⟩, hsome⟩))

/-! ## When repeats do no harm -/

/-- A repeated key whose row the page may propose again has nothing to mint. -/
theorem idle_iff {rule : SecondHit} (h : Consistent env.userId db) (hbatch : PageBatch env batch)
    {last : BatchParams Format Media} (hlast : last ∈ keepLast BatchParams.key batch)
    (hkey : last.key.2 ≠ none)
    (hkept : KeptAll (namedRow env.userId db.userCollections last.key)
      (occurrences batch last.key) last)
    {row : CollectionRow Format Media}
    (hrow : byKey (selectCollectionPage (batch.foldl (upsertCollection env) db) env.userId
      (batch.map (·.releaseId))) last.key = some row) :
    NothingToMint rule env db last ↔
      idle (copyOf (batch.foldl (upsertCollection env) db) row.id) row ∧
        (rule = .proposed → row.gmItemId = none) := by
  have hlastOf : (occurrences batch last.key).getLast? = some last := mem_keep_last.mp hlast
  obtain ⟨found, hfound, hitem, hdate, hold, hnew⟩ := row_of_page h hbatch hlastOf hkey
  obtain rfl := Option.some.inj (hfound.symm.trans hrow)
  rw [(kept_iff hlastOf).mp hkept.dateAdded] at hdate
  have hcopies : copyOf (batch.foldl (upsertCollection env) db) found.id = copyOf db found.id := by
    unfold copyOf
    rw [upserts_copies]
  rw [hcopies]
  unfold NothingToMint
  rw [← hitem]
  cases hgm : found.gmItemId with
  | none => simp [idle, hgm]
  | some itemId =>
      constructor
      · intro hright
        obtain ⟨hrule, stored, copy, hstored, hcopy, hsame⟩ := hright itemId rfl
        refine ⟨?_, fun hproposed => absurd (hrule.symm.trans hproposed) (by simp)⟩
        rw [hstored, Option.bind_some] at hdate
        rw [hold stored hstored, hcopy]
        simpa [idle, hgm, hdate] using hsame
      · rintro ⟨hidle, hrule⟩ other hother
        obtain rfl := Option.some.inj hother
        have hwritten : rule = .written := by
          cases rule with
          | written => rfl
          | proposed => simp at hrule
        cases hcopy : copyOf db found.id with
        | none => simp [idle, hgm, hcopy] at hidle
        | some copy =>
            obtain ⟨hmem, hcopyRow⟩ := lookup_mem hcopy
            have hdrawn : found.id < db.nextId := (h.copies copy hmem).2 found.id hcopyRow
            cases hstored : namedRow env.userId db.userCollections last.key with
            | none => exact absurd hdrawn (Nat.not_lt_of_le (hnew hstored))
            | some stored =>
                rw [hstored, Option.bind_some] at hdate
                refine ⟨hwritten, stored, copy, rfl, by rw [← hold stored hstored, hcopy], ?_⟩
                rw [hcopy] at hidle
                simpa [idle, hgm, hdate] using hidle

/-- A page that repeats keys behaves like the page with the last occurrence of each in the place
of the first exactly when each repeated key has no copy to mint and keeps, in the columns an
omitted value does not blank, what its last tuple alone would leave. -/
theorem repeats_harmless_iff (rule : SecondHit) (env : Env Format Media) (db : Db Format Media)
    (batch : List (BatchParams Format Media)) (h : Consistent env.userId db)
    (hbatch : PageBatch env batch) :
    BehavesAsOnce rule env db batch ↔ ∀ last ∈ keepLast BatchParams.key batch,
      1 < (occurrences batch last.key).length → Harmless rule env db batch last := by
  have hmemOf : ∀ last ∈ keepLast BatchParams.key batch, last ∈ batch := fun last hlast =>
    List.mem_of_mem_filter (List.mem_of_getLast? (mem_keep_last.mp hlast))
  constructor
  · rintro ⟨result, once, hpage, honce, hsame⟩ last hlast hrepeated
    obtain ⟨hpage, hrule⟩ := persist_page_inv hpage
    obtain ⟨honce, -⟩ := persist_page_inv honce
    have hkey := named_of_repeated hbatch (hmemOf last hlast) hrepeated
    have hkept := kept_of_same hbatch hpage honce hsame hlast hkey
    obtain ⟨row, hrow, -⟩ := row_of_page h hbatch (mem_keep_last.mp hlast) hkey
    have hcount : 1 < (batch.map (·.key)).count last.key := by rwa [count_key]
    exact ⟨(idle_iff h hbatch hlast hkey hkept hrow).mpr ⟨idle_of_page hcount hrow hpage,
      fun hproposed => unidentified_of_targets hcount hrow (hrule hproposed)⟩, hkept⟩
  · intro hharmless
    -- a key that occurs once keeps its columns
    have hkept : ∀ last ∈ keepLast BatchParams.key batch, KeptAll
        (namedRow env.userId db.userCollections last.key) (occurrences batch last.key) last := by
      intro last hlast
      by_cases hrepeated : 1 < (occurrences batch last.key).length
      · exact (hharmless last hlast hrepeated).kept
      · have hlastOf : (occurrences batch last.key).getLast? = some last := mem_keep_last.mp hlast
        obtain ⟨first, hfirst⟩ := List.getLast?_eq_some_iff.mp hlastOf
        have hlone : occurrences batch last.key = [last] := by
          rw [hfirst, List.length_append, List.length_singleton] at hrepeated
          have hnil : first = [] := List.length_eq_zero_iff.mp (by omega)
          rw [hfirst, hnil, List.nil_append]
        rw [hlone]
        have hown : ∀ {Value : Type} (field : BatchParams Format Media → Option Value)
            (stored : Option Value), Kept field stored [last] last := fun field stored => by
          cases hfield : field last <;> simp [Kept, latest, hfield]
        exact ⟨hown _ _, hown _ _, hown _ _⟩
    have hrows : ∀ key, 1 < (batch.map (·.key)).count key → ∀ row, byKey (selectCollectionPage
        (batch.foldl (upsertCollection env) db) env.userId (batch.map (·.releaseId))) key =
        some row → idle (copyOf (batch.foldl (upsertCollection env) db) row.id) row ∧
          (rule = .proposed → row.gmItemId = none) := by
      intro key hcount row hrow
      rw [count_key] at hcount
      obtain ⟨last, hlastOf⟩ : ∃ last, (occurrences batch key).getLast? = some last :=
        ⟨_, List.getLast?_eq_some_getLast (List.ne_nil_of_length_pos (Nat.lt_of_succ_lt hcount))⟩
      obtain rfl : last.key = key := by
        simpa using (List.mem_filter.mp (List.mem_of_getLast? hlastOf)).2
      have hlast : last ∈ keepLast BatchParams.key batch := mem_keep_last.mpr hlastOf
      have hkey := named_of_repeated hbatch (hmemOf last hlast) hcount
      exact (idle_iff h hbatch hlast hkey (hkept last hlast) hrow).mp
        (hharmless last hlast hcount).copy
    obtain ⟨result, once, hpage, honce, hsame⟩ :=
      page_same h hbatch hkept fun key hcount row hrow => (hrows key hcount row hrow).1
    refine ⟨result, once, (persist_page_ok fun hproposed => ?_).trans hpage,
      (persist_page_ok fun _ => ?_).trans honce, hsame⟩
    · exact targets_nodup h fun key hcount row hrow => (hrows key hcount row hrow).2 hproposed
    · refine targets_nodup h fun key hcount => absurd hcount (Nat.not_lt_of_le ?_)
      have hnodup : ((keepLast BatchParams.key batch).map (·.key)).Nodup := by
        rw [map_keep_last]
        exact nodup_erase_dups _
      exact List.nodup_iff_count_le_one.mp hnodup key

end Page

/-- A page with one item, whose release resolves or does not. -/
def itemEnv (resolved : Option Nat) : Env Unit Unit :=
  { userId := 1, syncStarted := 5, resolveAliases := fun _ => resolved,
    mapDiscogsFormats := fun _ => () }

/-- The item's tuple. -/
def itemParams : BatchParams Unit Unit :=
  { userId := 1, releaseId := 7, instanceId := some 70, folderId := some 1, title := none,
    artist := none, year := none, formats := none, label := none, rating := none,
    dateAdded := some 3, metadata := none, media := (), updatedAt := 5 }

/-- The tables before the first page of a first sync. -/
def emptyDb : Db Unit Unit :=
  { userCollections := [], ownedCopies := [], collectionSnapshots := [], nextId := 0 }

theorem empty_consistent : Consistent 1 emptyDb :=
  ⟨List.nodup_nil, fun _ h => absurd h List.not_mem_nil, fun _ h => absurd h List.not_mem_nil,
    fun _ h => absurd h List.not_mem_nil, fun _ h => absurd h List.not_mem_nil⟩

theorem item_twice (resolved : Option Nat) :
    PageBatch (itemEnv resolved) [itemParams, itemParams] :=
  ⟨by simp [itemParams, itemEnv], by simp [itemParams]⟩

/-- An item with no native id may be on a page twice. -/
theorem unresolved_item_twice :
    BehavesAsOnce .proposed (itemEnv none) emptyDb [itemParams, itemParams] := by
  refine (repeats_harmless_iff .proposed (itemEnv none) emptyDb [itemParams, itemParams]
    empty_consistent (item_twice none)).mpr fun last hlast _ => ?_
  have hlastOf : last = itemParams := by
    have hmem := List.mem_of_mem_filter (List.mem_of_getLast? (mem_keep_last.mp hlast))
    simpa using hmem
  subst hlastOf
  have hcopy : NothingToMint .proposed (itemEnv none) emptyDb itemParams := fun itemId hitem =>
    absurd hitem (by simp [itemAfter, itemEnv, emptyDb, namedRow, namedRows, lookup])
  refine ⟨hcopy, ?_, ?_, ?_⟩
  · exact Or.inr (Or.inl rfl)
  · exact Or.inl (by simp [itemParams])
  · exact Or.inr (Or.inl rfl)

/-- A new item with a native id that is on a page twice aborts the page. -/
theorem resolved_item_twice_aborts :
    Consistent 1 emptyDb ∧ PageBatch (itemEnv (some 9)) [itemParams, itemParams] ∧
      ∀ rule, ¬BehavesAsOnce rule (itemEnv (some 9)) emptyDb [itemParams, itemParams] := by
  refine ⟨empty_consistent, item_twice (some 9), fun rule => ?_⟩
  rintro ⟨result, once, hpage, -⟩
  cases rule with
  | written => cases hpage
  | proposed => cases hpage

end CatalogApi.Syncer
