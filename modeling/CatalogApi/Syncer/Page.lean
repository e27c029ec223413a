import CatalogApi.Syncer.Collection
import Mathlib.Data.List.Nodup

/-!
# What a page transaction writes

The page transaction as seen through the rows of its user: `rowAt` reads one of them by its key.
`persist_page` says what a page whose keys are distinct leaves at every key, that every row it
wrote is linked to its own copy of the item it resolved to, and which events it returns.
-/

namespace CatalogApi.Syncer

open Table

variable {Format Media : Type} {env : Env Format Media} {db next : Db Format Media}

/-- The rows of one user. -/
def userRows (userId : Nat) (db : Db Format Media) : List (CollectionRow Format Media) :=
  db.userCollections.filter fun row => row.userId = userId

/-- The user's row with this key. -/
def rowAt (userId : Nat) (db : Db Format Media) (key : Key) : Option (CollectionRow Format Media) :=
  lookup CollectionRow.key (userRows userId db) key

/-- The stored state of one user between transactions: row ids are unique and drawn before, and
the user's rows are unique by key, none of them with a NULL instance id. -/
structure Stored (userId : Nat) (db : Db Format Media) : Prop where
  ids : (db.userCollections.map (·.id)).Nodup
  drawn : ∀ row ∈ db.userCollections, row.id < db.nextId
  keys : UniqueKey CollectionRow.key (userRows userId db)
  instances : ∀ row ∈ userRows userId db, row.instanceId ≠ none

theorem mem_user_rows {userId : Nat} {row : CollectionRow Format Media} :
    row ∈ userRows userId db ↔ row ∈ db.userCollections ∧ row.userId = userId := by
  simp [userRows]

theorem row_at_some {userId : Nat} (h : Stored userId db) {key : Key}
    {row : CollectionRow Format Media} :
    rowAt userId db key = some row ↔
      row ∈ db.userCollections ∧ row.userId = userId ∧ row.key = key := by
  rw [rowAt, lookup_eq_some h.keys, mem_user_rows, and_assoc]

/-- Two rows with one id are one row. -/
theorem Stored.eq_of_id {userId : Nat} (h : Stored userId db) {r s : CollectionRow Format Media}
    (hr : r ∈ db.userCollections) (hs : s ∈ db.userCollections) (hid : r.id = s.id) : r = s :=
  List.inj_on_of_nodup_map h.ids hr hs hid

/-! ## The upserts -/

/-- A batch as `sync_collection` builds it for a page of items with instance ids. -/
structure BatchOk (env : Env Format Media) (batch : List (BatchParams Format Media)) : Prop where
  user : ∀ p ∈ batch, p.userId = env.userId
  stamp : ∀ p ∈ batch, p.updatedAt = env.syncStarted
  instances : ∀ p ∈ batch, p.instanceId ≠ none
  keys : (batch.map (·.key)).Nodup

/-- The row an upsert leaves: the stored one updated, or a new one with a drawn id. -/
def Received (env : Env Format Media) (old : Option (CollectionRow Format Media))
    (params : BatchParams Format Media) (row : CollectionRow Format Media) : Prop :=
  match old with
  | some stored => row = updateRow params (env.resolveAliases params.releaseId) stored
  | none => ∃ id, row = insertRow id params (env.resolveAliases params.releaseId)

section

variable {params : BatchParams Format Media} (huser : params.userId = env.userId)
    (hinstance : params.instanceId ≠ none)
include huser hinstance

theorem conflicts_iff {row : CollectionRow Format Media} :
    conflicts params row ↔ row.userId = env.userId ∧ row.key = params.key := by
  simp [conflicts, CollectionRow.key, BatchParams.key, huser, hinstance]

/-- An upsert of the user's own tuple is an upsert of the user's rows. -/
theorem user_rows_upsert :
    userRows env.userId (upsertCollection env db params) =
      upsert (conflicts params) (updateRow params (env.resolveAliases params.releaseId))
        (insertRow db.nextId params (env.resolveAliases params.releaseId))
        (userRows env.userId db) := by
  refine filter_upsert (fun row _ hc => ?_) (fun _ _ => rfl) ?_
  · simpa using ((conflicts_iff huser hinstance).mp hc).1
  · exact decide_eq_true huser

theorem others_upsert :
    (upsertCollection env db params).userCollections.filter (fun row => row.userId ≠ env.userId) =
      db.userCollections.filter fun row => row.userId ≠ env.userId := by
  refine filter_not_upsert (fun row _ hc => ?_) (fun _ _ => rfl) ?_
  · simpa using ((conflicts_iff huser hinstance).mp hc).1
  · simp [insertRow, huser]

theorem row_at_upsert (key : Key) :
    rowAt env.userId (upsertCollection env db params) key =
      if key = params.key then
        some ((rowAt env.userId db params.key).elim
          (insertRow db.nextId params (env.resolveAliases params.releaseId))
          (updateRow params (env.resolveAliases params.releaseId)))
      else rowAt env.userId db key := by
  have hconflict : ∀ row ∈ userRows env.userId db,
      conflicts params row ↔ CollectionRow.key row = params.key := by
    intro row hrow
    rw [conflicts_iff huser hinstance, and_iff_right (mem_user_rows.mp hrow).2]
  have hupdate : ∀ row ∈ userRows env.userId db, CollectionRow.key
      (updateRow params (env.resolveAliases params.releaseId) row) = row.key := fun _ _ => rfl
  have hfresh : CollectionRow.key (insertRow db.nextId params
      (env.resolveAliases params.releaseId)) = params.key := rfl
  rw [rowAt, user_rows_upsert huser hinstance]
  exact lookup_upsert hconflict hupdate hfresh key

end

/-- An upsert keeps the row ids unique and drawn before. -/
theorem ids_upsert (params : BatchParams Format Media)
    (hids : (db.userCollections.map (·.id)).Nodup)
    (hdrawn : ∀ row ∈ db.userCollections, row.id < db.nextId) :
    ((upsertCollection env db params).userCollections.map (·.id)).Nodup := by
  unfold upsertCollection upsert
  dsimp only
  split
  · rw [List.map_map]
    have hid : ((·.id) ∘ fun row => if conflicts params row then
        updateRow params (env.resolveAliases params.releaseId) row else row) =
        fun row : CollectionRow Format Media => row.id := by
      funext row
      by_cases hc : conflicts params row <;> simp [hc, updateRow]
    rw [hid]
    exact hids
  · rw [List.map_append]
    refine List.nodup_append.mpr ⟨hids, by simp, ?_⟩
    intro a ha b hb hab
    obtain ⟨row, hrow, rfl⟩ := List.mem_map.mp ha
    rw [List.map_singleton, List.mem_singleton] at hb
    exact absurd (hab.trans hb) (Nat.ne_of_lt (hdrawn row hrow))

theorem drawn_upsert (params : BatchParams Format Media)
    (hdrawn : ∀ row ∈ db.userCollections, row.id < db.nextId) :
    ∀ row ∈ (upsertCollection env db params).userCollections,
      row.id < (upsertCollection env db params).nextId := by
  intro row hrow
  rcases mem_upsert hrow with ⟨old, hold, -, rfl⟩ | ⟨hold, -⟩ | ⟨-, rfl⟩
  · exact Nat.lt_succ_of_lt (hdrawn old hold)
  · exact Nat.lt_succ_of_lt (hdrawn row hold)
  · exact Nat.lt_succ_self _

theorem stored_upsert (h : Stored env.userId db) {params : BatchParams Format Media}
    (huser : params.userId = env.userId) (hinstance : params.instanceId ≠ none) :
    Stored env.userId (upsertCollection env db params) := by
  constructor
  case ids => exact ids_upsert params h.ids h.drawn
  case drawn => exact drawn_upsert params h.drawn
  case keys =>
    rw [user_rows_upsert huser hinstance]
    refine unique_upsert h.keys (fun _ _ => rfl) fun hnone row hrow hkey => ?_
    exact hnone row hrow ((conflicts_iff huser hinstance).mpr ⟨(mem_user_rows.mp hrow).2, hkey⟩)
  case instances =>
    rw [user_rows_upsert huser hinstance]
    intro row hrow
    rcases mem_upsert hrow with ⟨old, hold, -, rfl⟩ | ⟨hold, -⟩ | ⟨-, rfl⟩
    · exact h.instances old hold
    · exact h.instances row hold
    · exact hinstance

/-- The upserts of a page with distinct keys: each key of the page received its tuple, and every
other row of the user is as before. -/
theorem upserts_page {batch : List (BatchParams Format Media)} (h : Stored env.userId db)
    (hbatch : BatchOk env batch) :
    Stored env.userId (batch.foldl (upsertCollection env) db) ∧
      (∀ key, key ∉ batch.map (·.key) →
        rowAt env.userId (batch.foldl (upsertCollection env) db) key = rowAt env.userId db key) ∧
      (∀ p ∈ batch, ∃ row, rowAt env.userId (batch.foldl (upsertCollection env) db) p.key =
        some row ∧ Received env (rowAt env.userId db p.key) p row) ∧
      (batch.foldl (upsertCollection env) db).userCollections.filter
          (fun row => row.userId ≠ env.userId) =
        db.userCollections.filter fun row => row.userId ≠ env.userId := by
  induction batch generalizing db with
  | nil => exact ⟨h, fun _ _ => rfl, by simp, rfl⟩
  | cons p batch ih =>
      have huser := hbatch.user p List.mem_cons_self
      have hinstance := hbatch.instances p List.mem_cons_self
      obtain ⟨hp, hkeys⟩ := List.nodup_cons.mp hbatch.keys
      have hrest : BatchOk env batch :=
        ⟨fun q hq => hbatch.user q (List.mem_cons_of_mem _ hq),
          fun q hq => hbatch.stamp q (List.mem_cons_of_mem _ hq),
          fun q hq => hbatch.instances q (List.mem_cons_of_mem _ hq), hkeys⟩
      obtain ⟨hstored, hkeep, hreceived, hothers⟩ :=
        ih (stored_upsert h huser hinstance) hrest
      rw [List.foldl_cons]
      refine ⟨hstored, fun key hkey => ?_, fun q hq => ?_,
        hothers.trans (others_upsert huser hinstance)⟩
      · rw [List.map_cons, List.mem_cons, not_or] at hkey
        rw [hkeep key hkey.2, row_at_upsert huser hinstance, if_neg hkey.1]
      · rcases List.mem_cons.mp hq with rfl | hq
        · refine ⟨_, (hkeep _ hp).trans ((row_at_upsert huser hinstance _).trans (if_pos rfl)), ?_⟩
          cases hold : rowAt env.userId db q.key with
          | none => exact ⟨_, rfl⟩
          | some old => rfl
        · obtain ⟨row, hrow, hreceive⟩ := hreceived q hq
          refine ⟨row, hrow, ?_⟩
          have hne : q.key ≠ p.key := fun heq => hp (List.mem_map.mpr ⟨q, hq, heq⟩)
          rwa [row_at_upsert huser hinstance, if_neg hne] at hreceive

theorem upserts_copies (env : Env Format Media) (batch : List (BatchParams Format Media)) (db : Db Format Media) :
    (batch.foldl (upsertCollection env) db).ownedCopies = db.ownedCopies := by
  induction batch generalizing db with
  | nil => rfl
  | cons p batch ih => exact (ih _).trans rfl

/-- A page read, keyed: for the releases of the page it is the user's row. -/
theorem by_key_select (h : Stored env.userId db) {releaseIds : List Nat} {key : Key}
    (hkey : key.1 ∈ releaseIds) :
    byKey (selectCollectionPage db env.userId releaseIds) key = rowAt env.userId db key := by
  have hmem : ∀ row, row ∈ (selectCollectionPage db env.userId releaseIds).reverse ↔
      row ∈ userRows env.userId db ∧ row.releaseId ∈ releaseIds := by
    intro row
    simp [selectCollectionPage, userRows, and_assoc]
  have hunique : UniqueKey CollectionRow.key
      (selectCollectionPage db env.userId releaseIds).reverse :=
    fun r hr s hs => h.keys r ((hmem r).mp hr).1 s ((hmem s).mp hs).1
  refine Option.ext fun row => ?_
  rw [byKey, rowAt, lookup_eq_some hunique, lookup_eq_some h.keys, hmem]
  constructor
  · rintro ⟨⟨hrow, -⟩, hkey⟩
    exact ⟨hrow, hkey⟩
  · rintro ⟨hrow, rfl⟩
    exact ⟨⟨hrow, hkey⟩, rfl⟩

/-! ## The owned copies -/

/-- The copy of a collection row. -/
def copyOf (db : Db Format Media) (rowId : Nat) : Option OwnedCopy :=
  lookup OwnedCopy.collectionRowId db.ownedCopies (some rowId)

/-- What `_MINT_OWNED_COPIES` does for some rows: each has a copy of its item, the one it had
before if it had one, and no other row's copy changes. -/
structure Minted (rows : List (CollectionRow Format Media)) (db next : Db Format Media) : Prop where
  collections : next.userCollections = db.userCollections
  drawn : db.nextId ≤ next.nextId
  others : ∀ id, id ∉ rows.map (·.id) → copyOf next id = copyOf db id
  copies : ∀ row ∈ rows, ∃ copy, copyOf next row.id = some copy ∧
    some copy.itemId = row.gmItemId ∧ ∀ old, copyOf db row.id = some old → copy.id = old.id

/-- One proposed row of `_MINT_OWNED_COPIES` that the statement has not written yet. -/
theorem mint_owned_copy (userId : Nat) (db : Db Format Media) {itemId : Nat}
    {row : CollectionRow Format Media} {affected : List Nat} (hitem : row.gmItemId = some itemId) (hrow : row.id ∉ affected) :
    ∃ next affected', mintOwnedCopy userId (db, affected) row = .ok (next, affected') ∧
      (∀ id ∈ affected', id ∈ affected ∨ id = row.id) ∧ Minted [row] db next := by
  have haffected : ∀ id ∈ row.id :: affected, id ∈ affected ∨ id = row.id := fun id hid =>
    (List.mem_cons.mp hid).symm
  unfold mintOwnedCopy
  simp only [hitem, hrow, if_false]
  cases hcopy : lookup OwnedCopy.collectionRowId db.ownedCopies (some row.id) with
  | none =>
      refine ⟨_, _, rfl, haffected, rfl, Nat.le_succ _, fun id hid => ?_, ?_⟩
      · have hne : row.id ≠ id := fun heq => hid (by simp [heq])
        simp [copyOf, lookup_append, lookup_singleton, hne]
      · intro r hr
        obtain rfl := List.mem_singleton.mp hr
        exact ⟨_, by simp only [copyOf, lookup_append, lookup_singleton, hcopy]; rfl, hitem.symm,
          fun old hold => absurd (hcopy.symm.trans hold) (by simp)⟩
  | some copy =>
      dsimp only
      split
      · have hkey : ∀ old ∈ db.ownedCopies, OwnedCopy.collectionRowId
            (if old.collectionRowId = some row.id then
              { old with itemId, acquiredAt := row.dateAdded.or old.acquiredAt } else old) =
            old.collectionRowId := by
          intro old _
          split <;> rfl
        refine ⟨_, _, rfl, haffected, rfl, Nat.le_refl _, fun id hid => ?_, ?_⟩
        · have hne : id ≠ row.id := by simpa using hid
          unfold copyOf
          rw [lookup_map hkey]
          cases hfound : lookup OwnedCopy.collectionRowId db.ownedCopies (some id) with
          | none => rfl
          | some old => simp [(lookup_mem hfound).2, hne]
        · intro r hr
          obtain rfl := List.mem_singleton.mp hr
          refine ⟨_, (lookup_map hkey).trans (by rw [hcopy]; rfl), ?_, ?_⟩
          · dsimp only
            rw [if_pos (lookup_mem hcopy).2, hitem]
          · intro old hold
            obtain rfl := Option.some.inj (hcopy.symm.trans hold)
            dsimp only
            split <;> rfl
      · rename_i hsame
        refine ⟨_, _, rfl, fun id hid => Or.inl hid, rfl, Nat.le_refl _, fun _ _ => rfl, ?_⟩
        intro r hr
        obtain rfl := List.mem_singleton.mp hr
        refine ⟨copy, hcopy, ?_, fun old hold => ?_⟩
        · rw [hitem, not_not.mp fun hne => hsame (Or.inl hne)]
        · obtain rfl := Option.some.inj (hcopy.symm.trans hold)
          rfl

/-- `_MINT_OWNED_COPIES` on rows with distinct ids writes no copy a second time. -/
theorem mint_owned_copies (userId : Nat) (db : Db Format Media)
    {rows : List (CollectionRow Format Media)} {affected : List Nat} (hitems : ∀ row ∈ rows, row.gmItemId.isSome)
    (hids : (rows.map (·.id)).Nodup) (hnew : ∀ row ∈ rows, row.id ∉ affected) :
    ∃ next affected', rows.foldlM (mintOwnedCopy userId) (db, affected) = .ok (next, affected') ∧
      Minted rows db next := by
  induction rows generalizing db affected with
  | nil => exact ⟨db, affected, rfl, rfl, Nat.le_refl _, fun _ _ => rfl, by simp⟩
  | cons row rows ih =>
      obtain ⟨itemId, hitem⟩ := Option.isSome_iff_exists.mp (hitems row List.mem_cons_self)
      obtain ⟨hrow, hrest⟩ := List.nodup_cons.mp hids
      obtain ⟨mid, affected', hfirst, haffected, hmid⟩ :=
        mint_owned_copy userId db hitem (hnew row List.mem_cons_self)
      have hunwritten : ∀ r ∈ rows, r.id ∉ affected' := by
        intro r hr hin
        rcases haffected r.id hin with hin | heq
        · exact hnew r (List.mem_cons_of_mem _ hr) hin
        · exact hrow (List.mem_map.mpr ⟨r, hr, heq⟩)
      obtain ⟨next, final, hlast, hnext⟩ := ih mid
        (fun r hr => hitems r (List.mem_cons_of_mem _ hr)) hrest hunwritten
      · refine ⟨next, final, by rw [List.foldlM_cons, hfirst]; exact hlast,
          hnext.collections.trans hmid.collections, Nat.le_trans hmid.drawn hnext.drawn, ?_, ?_⟩
        · intro id hid
          rw [List.map_cons, List.mem_cons, not_or] at hid
          rw [hnext.others id hid.2, hmid.others id (by simpa using hid.1)]
        · intro r hr
          rcases List.mem_cons.mp hr with rfl | hr
          · rw [hnext.others _ hrow]
            exact hmid.copies _ (List.mem_singleton.mpr rfl)
          · obtain ⟨copy, hcopy, hitem, hsame⟩ := hnext.copies r hr
            refine ⟨copy, hcopy, hitem, fun old hold => hsame old ?_⟩
            rw [hmid.others, hold]
            exact fun heq => hrow (List.mem_singleton.mp heq ▸ List.mem_map_of_mem hr)

/-- One row of `_MINT_OWNED_COPIES` does not touch the collection and only draws ids. -/
theorem mint_collection {userId : Nat} {row : CollectionRow Format Media}
    {state next : Db Format Media × List Nat} (h : mintOwnedCopy userId state row = .ok next) :
    next.1.userCollections = state.1.userCollections ∧ state.1.nextId ≤ next.1.nextId := by
  unfold mintOwnedCopy at h
  repeat' split at h
  all_goals cases h
  all_goals exact ⟨rfl, by first | exact Nat.le_refl _ | exact Nat.le_succ _⟩

/-- `_MINT_OWNED_COPIES` does not touch the collection and only draws ids. -/
theorem mint_collections {userId : Nat} {rows : List (CollectionRow Format Media)}
    {state final : Db Format Media × List Nat}
    (h : rows.foldlM (mintOwnedCopy userId) state = .ok final) :
    final.1.userCollections = state.1.userCollections ∧ state.1.nextId ≤ final.1.nextId := by
  induction rows generalizing state with
  | nil =>
      obtain rfl := Except.ok.inj h
      exact ⟨rfl, Nat.le_refl _⟩
  | cons row rows ih =>
      rw [List.foldlM_cons] at h
      cases hstep : mintOwnedCopy userId state row with
      | error reason => simp [hstep, bind, Except.bind] at h
      | ok next =>
          simp only [hstep, bind, Except.bind] at h
          obtain ⟨hrows, hdrawn⟩ := mint_collection hstep
          obtain ⟨hrest, hdrawn'⟩ := ih h
          exact ⟨hrest.trans hrows, Nat.le_trans hdrawn hdrawn'⟩

theorem copy_id_of_append (first second : List (Nat × Nat)) (rowId : Nat) :
    copyIdOf (first ++ second) rowId = (copyIdOf second rowId).or (copyIdOf first rowId) := by
  simp [copyIdOf, lookup_append]
  cases lookup Prod.fst second.reverse rowId <;> rfl

/-- Copy ids collected from rows that are told apart by their ids are found again by row id. -/
theorem copy_id_of_entries {rows : List (CollectionRow Format Media)}
    (hids : UniqueKey (·.id) rows) (entry : CollectionRow Format Media → Option Nat)
    {row : CollectionRow Format Media} (hrow : row ∈ rows) :
    copyIdOf (copyEntries entry rows) row.id = entry row := by
  have hmem : ∀ e, e ∈ (copyEntries entry rows).reverse ↔
      ∃ r ∈ rows, r.id = e.1 ∧ entry r = some e.2 := by
    intro e
    simp only [copyEntries, List.mem_reverse, List.mem_filterMap, Option.map_eq_some_iff]
    constructor
    · rintro ⟨r, hr, copyId, hentry, rfl⟩
      exact ⟨r, hr, rfl, hentry⟩
    · rintro ⟨r, hr, hid, hentry⟩
      exact ⟨r, hr, e.2, hentry, by rw [hid]⟩
  unfold copyIdOf
  cases hfound : lookup Prod.fst (copyEntries entry rows).reverse row.id with
  | none =>
      cases hentry : entry row with
      | none => rfl
      | some copyId =>
          exact absurd rfl (lookup_none.mp hfound (row.id, copyId)
            ((hmem _).mpr ⟨row, hrow, rfl, hentry⟩))
  | some e =>
      obtain ⟨hin, hid⟩ := lookup_mem hfound
      obtain ⟨r, hr, hrid, hentry⟩ := (hmem e).mp hin
      obtain rfl := hids r hr row hrow (hrid.trans hid)
      exact hentry.symm

/-- `_ensure_owned_copies` on identified rows with distinct ids: each is linked to its copy, and
the copy id returned for it is the link. -/
theorem ensure_owned_copies (userId : Nat) (db : Db Format Media)
    {rows : List (CollectionRow Format Media)} (htable : (db.userCollections.map (·.id)).Nodup)
    (hrows : ∀ row ∈ rows, row ∈ db.userCollections) (hids : (rows.map (·.id)).Nodup)
    (hitems : ∀ row ∈ rows, row.gmItemId.isSome) :
    ∃ minted next copyIds, ensureOwnedCopies userId db rows = .ok (next, copyIds) ∧
      Minted rows db minted ∧
      next = { minted with
        userCollections := db.userCollections.map (linkRow minted.ownedCopies (rows.map (·.id))) } ∧
      ∀ row ∈ rows, copyIdOf copyIds row.id =
        (linkRow minted.ownedCopies (rows.map (·.id)) row).ownedCopyId := by
  have hidentified : rows.filter (fun row => row.gmItemId.isSome) = rows :=
    List.filter_eq_self.mpr hitems
  unfold ensureOwnedCopies
  simp only [hidentified]
  cases rows with
  | nil =>
      refine ⟨db, db, [], rfl, ⟨rfl, Nat.le_refl _, fun _ _ => rfl, by simp⟩, ?_, by simp⟩
      have hlink : (linkRow db.ownedCopies [] : CollectionRow Format Media → _) = id := by
        funext row
        simp [linkRow, linkFor]
      simp [hlink]
  | cons head rest =>
      have hfresh : ∀ row ∈ head :: rest, row.id ∉ ([] : List Nat) := fun _ _ => List.not_mem_nil
      obtain ⟨minted, affected, hfold, hminted⟩ := mint_owned_copies userId db hitems hids hfresh
      refine ⟨minted, _, copyEntries (·.ownedCopyId) (head :: rest) ++
        copyEntries (linkFor minted.ownedCopies ((head :: rest).map (·.id))) db.userCollections,
        ?_, hminted, rfl, fun row hrow => ?_⟩
      · simp only [List.isEmpty_cons, Bool.false_eq_true, if_false]
        rw [hfold]
        simp only [bind, Except.bind, pure, Except.pure, hminted.collections]
      · have hunique {rows : List (CollectionRow Format Media)} (h : (rows.map (·.id)).Nodup) :
            UniqueKey (·.id) rows := fun _ hr _ hs => List.inj_on_of_nodup_map h hr hs
        rw [copy_id_of_append, copy_id_of_entries (hunique htable) _ (hrows row hrow),
          copy_id_of_entries (hunique hids) _ hrow]
        rfl

/-! ## The page -/

/-- The event a key earns from its row before and its row after. -/
def changeEvent (previous : Option (CollectionRow Format Media))
    (row : CollectionRow Format Media) : Option Event :=
  let payload : ItemChange :=
    { itemId := row.gmItemId, artifactId := none, ownedCopyId := row.ownedCopyId }
  match previous with
  | none => some (.itemAdded payload)
  | some previous =>
      if (changedFields previous row).isEmpty then none
      else some (.itemUpdated payload (changedFields previous row))

/-- What one committed page leaves. -/
structure PageWritten (env : Env Format Media) (batch : List (BatchParams Format Media))
    (db next : Db Format Media) (events : List Event) : Prop where
  stored : Stored env.userId next
  others : next.userCollections.filter (fun row => row.userId ≠ env.userId) =
    db.userCollections.filter fun row => row.userId ≠ env.userId
  untouched : ∀ key, key ∉ batch.map (·.key) →
    rowAt env.userId next key = rowAt env.userId db key ∧
      ∀ row, rowAt env.userId db key = some row → copyOf next row.id = copyOf db row.id
  /-- A key of the page has received its tuple, and its row is linked to a copy of the item. -/
  written : ∀ p ∈ batch, ∃ received copy, Received env (rowAt env.userId db p.key) p received ∧
    rowAt env.userId next p.key = some { received with ownedCopyId := some copy.id } ∧
    copyOf next received.id = some copy ∧ some copy.itemId = received.gmItemId
  /-- A row that was linked to its copy still is. -/
  linked : ∀ key row copyId, rowAt env.userId db key = some row →
    (copyOf db row.id).map (·.id) = some copyId → (copyOf next row.id).map (·.id) = some copyId
  events : events = batch.filterMap fun p =>
    (rowAt env.userId next p.key).bind (changeEvent (rowAt env.userId db p.key))

theorem erase_dups_of_nodup {keys : List Key} (h : keys.Nodup) : keys.eraseDups = keys := by
  induction keys with
  | nil => rfl
  | cons key keys ih =>
      obtain ⟨hkey, hkeys⟩ := List.nodup_cons.mp h
      have hkeep : keys.filter (fun other => !other == key) = keys := by
        refine List.filter_eq_self.mpr fun other hother => ?_
        have hne : other ≠ key := fun heq => hkey (heq ▸ hother)
        simpa using hne
      rw [List.eraseDups_cons, hkeep, ih hkeys]

theorem link_row_of_copy {copies : List OwnedCopy} {rowIds : List Nat}
    {row : CollectionRow Format Media} {copy : OwnedCopy} (hrow : row.id ∈ rowIds)
    (hcopy : lookup OwnedCopy.collectionRowId copies (some row.id) = some copy) :
    linkRow copies rowIds row = { row with ownedCopyId := some copy.id } := by
  unfold linkRow linkFor
  simp only [hrow, if_true, hcopy]
  by_cases hlink : row.ownedCopyId = some copy.id <;> simp [hlink]

theorem link_row_of_not {copies : List OwnedCopy} {rowIds : List Nat}
    {row : CollectionRow Format Media} (hrow : row.id ∉ rowIds) :
    linkRow copies rowIds row = row := by
  simp [linkRow, linkFor, hrow]

/-- Whatever is on a committed page, its rows are the upserted ones with some links set, and the
ids the upserts drew stay drawn. -/
theorem persist_collections {batch : List (BatchParams Format Media)} {events : List Event}
    (h : persistCollectionPage env db batch = .ok (next, events)) :
    ∃ copies rowIds, next.userCollections =
      (batch.foldl (upsertCollection env) db).userCollections.map (linkRow copies rowIds) ∧
      (batch.foldl (upsertCollection env) db).nextId ≤ next.nextId := by
  unfold persistCollectionPage at h
  dsimp only at h
  generalize batch.foldl (upsertCollection env) db = mid at h ⊢
  generalize (batch.map (·.key)).filterMap _ = rows at h
  unfold ensureOwnedCopies at h
  dsimp only at h
  split at h
  · simp only [bind, Except.bind, pure, Except.pure, Except.ok.injEq, Prod.mk.injEq] at h
    rw [← h.1]
    refine ⟨[], [], ?_, Nat.le_refl _⟩
    refine ((List.map_congr_left fun row _ => ?_).trans (List.map_id' _)).symm
    exact link_row_of_not List.not_mem_nil
  · cases hmint : (rows.filter fun row => row.gmItemId.isSome).foldlM
        (mintOwnedCopy env.userId) (mid, []) with
    | error reason => simp [hmint, bind, Except.bind] at h
    | ok minted =>
        simp only [hmint, bind, Except.bind, pure, Except.pure, Except.ok.injEq,
          Prod.mk.injEq] at h
        obtain ⟨hrows, hdrawn⟩ := mint_collections hmint
        rw [← h.1]
        exact ⟨minted.1.ownedCopies, (rows.filter fun row => row.gmItemId.isSome).map (·.id),
          congrArg _ hrows, hdrawn⟩

theorem received_identified (hresolve : ∀ releaseId, (env.resolveAliases releaseId).isSome)
    {old : Option (CollectionRow Format Media)} {params : BatchParams Format Media}
    {row : CollectionRow Format Media} (h : Received env old params row) :
    row.gmItemId = env.resolveAliases params.releaseId := by
  obtain ⟨native, hnative⟩ := Option.isSome_iff_exists.mp (hresolve params.releaseId)
  cases old with
  | none =>
      obtain ⟨id, rfl⟩ := h
      rfl
  | some stored =>
      obtain rfl := h
      simp [updateRow, hnative]

/-- A link changes neither the user nor the key of a row. -/
theorem row_at_link (userId : Nat) {rows : List (CollectionRow Format Media)} {copies : List OwnedCopy}
    {rowIds : List Nat} (hrows : next.userCollections = rows.map (linkRow copies rowIds))
    (hdb : db.userCollections = rows) (key : Key) :
    rowAt userId next key = (rowAt userId db key).map (linkRow copies rowIds) := by
  subst hdb
  have huser : userRows userId next =
      (userRows userId db).map (linkRow copies rowIds) := by
    rw [userRows, hrows, List.filter_map]
    rfl
  have hkey : ∀ row ∈ userRows userId db,
      CollectionRow.key (linkRow copies rowIds row) = row.key := fun _ _ => rfl
  rw [rowAt, huser]
  exact lookup_map hkey

/-- Links keep the stored state of the user. -/
theorem stored_link {mid : Db Format Media} (h : Stored env.userId mid) {copies : List OwnedCopy}
    {rowIds : List Nat}
    (hrows : next.userCollections = mid.userCollections.map (linkRow copies rowIds))
    (hdrawn : mid.nextId ≤ next.nextId) : Stored env.userId next := by
  have huser : userRows env.userId next =
      (userRows env.userId mid).map (linkRow copies rowIds) := by
    rw [userRows, hrows, List.filter_map]
    rfl
  constructor
  case ids =>
    rw [hrows, List.map_map]
    exact h.ids
  case drawn =>
    rw [hrows]
    exact List.forall_mem_map.mpr fun row hrow => Nat.lt_of_lt_of_le (h.drawn row hrow) hdrawn
  case keys =>
    rw [huser]
    intro r hr s hs hkey
    obtain ⟨r, hr', rfl⟩ := List.mem_map.mp hr
    obtain ⟨s, hs', rfl⟩ := List.mem_map.mp hs
    rw [h.keys r hr' s hs' hkey]
  case instances =>
    rw [huser]
    exact List.forall_mem_map.mpr h.instances

theorem map_filter_map_of_some {α β : Type*} {f : α → Option β} {g : β → α} {keys : List α}
    (h : ∀ key ∈ keys, ∃ value, f key = some value ∧ g value = key) :
    (keys.filterMap f).map g = keys := by
  induction keys with
  | nil => rfl
  | cons key keys ih =>
      obtain ⟨value, hvalue, hkey⟩ := h key List.mem_cons_self
      rw [List.filterMap_cons_some hvalue, List.map_cons, hkey,
        ih fun other hother => h other (List.mem_cons_of_mem _ hother)]

section FoundRows

variable {batch : List (BatchParams Format Media)} {mid : Db Format Media}
  {after : Key → Option (CollectionRow Format Media)}

/-- The rows of a page: one for each key, in order. -/
abbrev foundRows (batch : List (BatchParams Format Media))
    (after : Key → Option (CollectionRow Format Media)) : List (CollectionRow Format Media) :=
  (batch.map (·.key)).filterMap after

variable (hstored : Stored env.userId mid) (hbatch : BatchOk env batch)
  (hafter : ∀ p ∈ batch, ∃ row, after p.key = some row ∧ rowAt env.userId mid p.key = some row ∧
    Received env (rowAt env.userId db p.key) p row)
include hafter

theorem mem_found_rows {row : CollectionRow Format Media} :
    row ∈ foundRows batch after ↔ ∃ p ∈ batch, rowAt env.userId mid p.key = some row := by
  simp only [foundRows, List.mem_filterMap, List.mem_map]
  constructor
  · rintro ⟨_, ⟨p, hp, rfl⟩, hrow⟩
    obtain ⟨row', hrow', hat, -⟩ := hafter p hp
    exact ⟨p, hp, hat.trans (hrow'.symm.trans hrow)⟩
  · rintro ⟨p, hp, hrow⟩
    obtain ⟨row', hrow', hat, -⟩ := hafter p hp
    exact ⟨_, ⟨p, hp, rfl⟩, hrow'.trans (hat.symm.trans hrow)⟩

include hstored in
theorem found_rows_keys : (foundRows batch after).map CollectionRow.key = batch.map (·.key) := by
  refine map_filter_map_of_some fun key hkey => ?_
  obtain ⟨p, hp, rfl⟩ := List.mem_map.mp hkey
  obtain ⟨row, hrow, hat, -⟩ := hafter p hp
  exact ⟨row, hrow, ((row_at_some hstored).mp hat).2.2⟩

include hstored in
theorem found_rows_stored : ∀ row ∈ foundRows batch after, row ∈ mid.userCollections := by
  intro row hrow
  obtain ⟨p, -, hat⟩ := (mem_found_rows hafter).mp hrow
  exact ((row_at_some hstored).mp hat).1

include hstored hbatch in
theorem found_rows_ids : ((foundRows batch after).map (·.id)).Nodup := by
  have htable := found_rows_stored hstored hafter
  refine List.Nodup.map_on (fun r hr s hs hid => hstored.eq_of_id (htable r hr) (htable s hs) hid)
    (List.Nodup.of_map CollectionRow.key ?_)
  rw [found_rows_keys hstored hafter]
  exact hbatch.keys

theorem found_rows_items (hresolve : ∀ releaseId, (env.resolveAliases releaseId).isSome) :
    ∀ row ∈ foundRows batch after, row.gmItemId.isSome := by
  intro row hrow
  obtain ⟨p, hp, hat⟩ := (mem_found_rows hafter).mp hrow
  obtain ⟨row', -, hat', hreceive⟩ := hafter p hp
  obtain rfl := Option.some.inj (hat'.symm.trans hat)
  rw [received_identified hresolve hreceive]
  exact hresolve _

include hstored in
/-- A row outside the page shares no id with a row of the page. -/
theorem found_rows_outside {row : CollectionRow Format Media} (hrow : row ∈ mid.userCollections)
    (hkey : row.userId = env.userId → row.key ∉ batch.map (·.key)) :
    row.id ∉ (foundRows batch after).map (·.id) := by
  intro hin
  obtain ⟨other, hother, hid⟩ := List.mem_map.mp hin
  obtain ⟨p, hp, hotherAt⟩ := (mem_found_rows hafter).mp hother
  obtain ⟨hmem, huser, hotherKey⟩ := (row_at_some hstored).mp hotherAt
  obtain rfl := hstored.eq_of_id hmem hrow hid
  exact hkey huser (List.mem_map.mpr ⟨p, hp, hotherKey.symm⟩)

end FoundRows

/-- A page whose keys are distinct commits, and is written as `PageWritten` says. -/
theorem persist_page (h : Stored env.userId db) {batch : List (BatchParams Format Media)}
    (hbatch : BatchOk env batch)
    (hresolve : ∀ releaseId, (env.resolveAliases releaseId).isSome) :
    ∃ next events, persistCollectionPage env db batch = .ok (next, events) ∧
      PageWritten env batch db next events := by
  obtain ⟨hstored, hkeep, hreceived, hothers⟩ := upserts_page h hbatch
  have hrelease : ∀ p ∈ batch, p.key.1 ∈ batch.map (·.releaseId) := fun p hp =>
    List.mem_map.mpr ⟨p, hp, rfl⟩
  unfold persistCollectionPage
  dsimp only
  have hcopies := upserts_copies env batch db
  generalize batch.foldl (upsertCollection env) db = mid at hstored hkeep hreceived hothers hcopies
  have hafter : ∀ p ∈ batch, ∃ row, byKey (selectCollectionPage mid env.userId
      (batch.map (·.releaseId))) p.key = some row ∧ rowAt env.userId mid p.key = some row ∧
      Received env (rowAt env.userId db p.key) p row := by
    intro p hp
    obtain ⟨row, hrow, hreceive⟩ := hreceived p hp
    exact ⟨row, (by_key_select hstored (hrelease p hp)).trans hrow, hrow, hreceive⟩
  generalize byKey (selectCollectionPage mid env.userId (batch.map (·.releaseId))) = after at hafter
  have hitems := found_rows_items hafter hresolve
  obtain ⟨minted, next, copyIds, hok, hminted, hnext, hcopyIds⟩ :=
    ensure_owned_copies env.userId mid hstored.ids (found_rows_stored hstored hafter)
      (found_rows_ids hstored hbatch hafter) hitems
  rw [hok]
  refine ⟨next, _, rfl, ?_⟩
  have hrows : next.userCollections = mid.userCollections.map (linkRow minted.ownedCopies
      ((foundRows batch after).map (·.id))) := by rw [hnext]
  have hcopy : ∀ rowId, copyOf next rowId = copyOf minted rowId := by rw [hnext]; exact fun _ => rfl
  have hdrawn : mid.nextId ≤ next.nextId := by
    rw [hnext]
    exact hminted.drawn
  have hat := row_at_link env.userId hrows rfl
  have hdb : ∀ rowId, copyOf mid rowId = copyOf db rowId := by
    unfold copyOf
    exact fun _ => hcopies ▸ rfl
  have hlinked : ∀ row ∈ foundRows batch after, ∃ copy,
      copyOf next row.id = some copy ∧ some copy.itemId = row.gmItemId ∧
      linkRow minted.ownedCopies ((foundRows batch after).map (·.id)) row =
        { row with ownedCopyId := some copy.id } := by
    intro row hrow
    obtain ⟨copy, hfound, hitem, -⟩ := hminted.copies row hrow
    exact ⟨copy, (hcopy _).trans hfound, hitem,
      link_row_of_copy (List.mem_map_of_mem hrow) hfound⟩
  constructor
  case stored => exact stored_link hstored hrows hdrawn
  case others =>
    rw [← hothers, hrows, List.filter_map]
    refine (List.map_congr_left fun row hrow => ?_).trans (List.map_id' _)
    obtain ⟨hmem, huser⟩ := List.mem_filter.mp hrow
    exact link_row_of_not (found_rows_outside hstored hafter hmem fun heq =>
      absurd heq (of_decide_eq_true huser))
  case untouched =>
    intro key hkey
    rw [hat, ← hkeep key hkey]
    cases hrow : rowAt env.userId mid key with
    | none => exact ⟨rfl, fun _ hrow => absurd hrow (by simp)⟩
    | some row =>
        obtain ⟨hmem, -, rfl⟩ := (row_at_some hstored).mp hrow
        have hout := found_rows_outside hstored hafter hmem fun _ => hkey
        refine ⟨congrArg some (link_row_of_not hout), fun other hother => ?_⟩
        obtain rfl := Option.some.inj hother
        rw [hcopy, hminted.others _ hout, hdb]
  case written =>
    intro p hp
    obtain ⟨row, -, hrow, hreceive⟩ := hafter p hp
    obtain ⟨copy, hfound, hitem, hlink⟩ := hlinked row ((mem_found_rows hafter).mpr ⟨p, hp, hrow⟩)
    exact ⟨row, copy, hreceive, by rw [hat, hrow, ← hlink]; rfl, hfound, hitem⟩
  case linked =>
    intro key row copyId hrow hcopyId
    obtain ⟨old, hold, rfl⟩ := Option.map_eq_some_iff.mp hcopyId
    rw [hcopy]
    by_cases hin : row.id ∈ (foundRows batch after).map (·.id)
    · obtain ⟨other, hother, hid⟩ := List.mem_map.mp hin
      obtain ⟨copy, hfound, -, hsame⟩ := hminted.copies other hother
      rw [← hid, hfound, Option.map_some, hsame old (by rw [hdb, hid, hold])]
    · rw [hminted.others _ hin, hdb, hold]
      rfl
  case events =>
    unfold collectionPageEvents
    rw [erase_dups_of_nodup hbatch.keys, List.filterMap_map]
    refine List.filterMap_congr fun p hp => ?_
    obtain ⟨row, hafterRow, hrow, hreceive⟩ := hafter p hp
    have hpageRow := (mem_found_rows hafter).mpr ⟨p, hp, hrow⟩
    have hsome : row.gmItemId.isNone = false := by simpa using hitems row hpageRow
    rw [Function.comp_apply, hat, hrow, keyEvent, hafterRow, by_key_select h (hrelease p hp)]
    simp only [hsome, Bool.false_eq_true, if_false, hcopyIds row hpageRow, Option.map_some,
      Option.bind_some]
    cases rowAt env.userId db p.key <;> rfl

end CatalogApi.Syncer
