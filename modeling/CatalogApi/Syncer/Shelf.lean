import CatalogApi.Lib.Runs
import CatalogApi.Syncer.Page

/-!
# The shelf a sync fills

The abstract view of a collection sync: a shelf maps each key to what is held under it, a fetched
tuple is received into it, and the change of a key is read off the tuple and what was held
before. `page_refines` says that a page transaction does this to the user's rows and returns an
event for each change, and `pages_refine` that a whole run of pages does.
-/

namespace CatalogApi.Syncer

open Table Runs

variable {Format Media : Type}

/-- What is recorded of one held item: a row without its ids and stamps. -/
@[ext]
structure Held (Format Media : Type) where
  folderId : Option Int
  title : Option String
  artist : Option String
  year : Option Int
  formats : Option (List Format)
  label : Option String
  rating : Option Int
  dateAdded : Option Instant
  metadata : Option ReleaseMetadata
  media : Media

/-- The shelf of one user. -/
abbrev Shelf (Format Media : Type) := Key → Option (Held Format Media)

/-- A fetched tuple, received over what was held: `formats`, `dateAdded` and `metadata` keep the
held value when the tuple has none. -/
def receive (old : Option (Held Format Media)) (params : BatchParams Format Media) :
    Held Format Media :=
  { folderId := params.folderId, title := params.title, artist := params.artist,
    year := params.year, formats := params.formats.or (old.bind (·.formats)),
    label := params.label, rating := params.rating,
    dateAdded := params.dateAdded.or (old.bind (·.dateAdded)),
    metadata := params.metadata.or (old.bind (·.metadata)), media := params.media }

/-- The tracked fields that moved; a date that went missing did not. -/
def Held.moved (previous held : Held Format Media) : List TrackedField :=
  (if previous.folderId = held.folderId then [] else [.folderId]) ++
    (if previous.rating = held.rating then [] else [.rating]) ++
    if previous.dateAdded = held.dateAdded ∨ held.dateAdded = none then [] else [.dateAdded]

/-- What happened to one key. -/
inductive Change where
  | added
  | updated (fields : List TrackedField)
  deriving DecidableEq

/-- The change of a fetched tuple over what was held. -/
def changeOf (old : Option (Held Format Media)) (params : BatchParams Format Media) :
    Option Change :=
  match old with
  | none => some .added
  | some previous =>
      if previous.moved (receive old params) = [] then none
      else some (.updated (previous.moved (receive old params)))

/-- Put a fetched tuple on the shelf. -/
def shelve (shelf : Shelf Format Media) (params : BatchParams Format Media) :
    Shelf Format Media :=
  Function.update shelf params.key (some (receive (shelf params.key) params))

/-- The changes of fetched tuples, in the order they were fetched. -/
def changes (shelf : Shelf Format Media) : List (BatchParams Format Media) → List (Key × Change)
  | [] => []
  | params :: rest =>
      (changeOf (shelf params.key) params).toList.map (params.key, ·) ++
        changes (shelve shelf params) rest

theorem changes_append (shelf : Shelf Format Media) (first second : List (BatchParams Format Media)) :
    changes shelf (first ++ second) =
      changes shelf first ++ changes (first.foldl shelve shelf) second := by
  induction first generalizing shelf with
  | nil => rfl
  | cons params first ih => simp [changes, ih]

/-- A key that is not fetched keeps what is held under it. -/
theorem shelve_of_not_mem {fetched : List (BatchParams Format Media)} {key : Key}
    (hkey : key ∉ fetched.map (·.key)) (shelf : Shelf Format Media) :
    fetched.foldl shelve shelf key = shelf key := by
  induction fetched generalizing shelf with
  | nil => rfl
  | cons params fetched ih =>
      rw [List.map_cons, List.mem_cons, not_or] at hkey
      rw [List.foldl_cons, ih hkey.2, shelve, Function.update_of_ne hkey.1]

/-- When no key is fetched twice, each tuple meets what was held at the start. -/
theorem shelve_of_nodup {fetched : List (BatchParams Format Media)}
    (hkeys : (fetched.map (·.key)).Nodup) (shelf : Shelf Format Media)
    {params : BatchParams Format Media} (hparams : params ∈ fetched) :
    fetched.foldl shelve shelf params.key = some (receive (shelf params.key) params) := by
  induction fetched generalizing shelf with
  | nil => cases hparams
  | cons head fetched ih =>
      obtain ⟨hhead, hrest⟩ := List.nodup_cons.mp hkeys
      rw [List.foldl_cons]
      rcases List.mem_cons.mp hparams with rfl | hparams
      · rw [shelve_of_not_mem hhead, shelve, Function.update_self]
      · have hne : params.key ≠ head.key := fun heq =>
          hhead (List.mem_map.mpr ⟨params, hparams, heq⟩)
        rw [ih hrest _ hparams, shelve, Function.update_of_ne hne]

theorem changes_of_nodup {fetched : List (BatchParams Format Media)}
    (hkeys : (fetched.map (·.key)).Nodup) (shelf : Shelf Format Media) :
    changes shelf fetched = fetched.filterMap fun params =>
      (changeOf (shelf params.key) params).map (params.key, ·) := by
  induction fetched generalizing shelf with
  | nil => rfl
  | cons head fetched ih =>
      obtain ⟨hhead, hrest⟩ := List.nodup_cons.mp hkeys
      have hsame : ∀ params ∈ fetched, (changeOf (shelve shelf head params.key) params).map
          (params.key, ·) = (changeOf (shelf params.key) params).map (params.key, ·) := by
        intro params hparams
        have hne : params.key ≠ head.key := fun heq =>
          hhead (List.mem_map.mpr ⟨params, hparams, heq⟩)
        rw [shelve, Function.update_of_ne hne]
      rw [changes, ih hrest, List.filterMap_congr hsame, List.filterMap_cons]
      cases changeOf (shelf head.key) head <;> rfl

/-- An addition is reported exactly once for each fetched key that was not held, and never for
one that was. -/
theorem count_added (fetched : List (BatchParams Format Media)) (shelf : Shelf Format Media)
    (key : Key) : (changes shelf fetched).count (key, .added) =
      if shelf key = none ∧ key ∈ fetched.map (·.key) then 1 else 0 := by
  induction fetched generalizing shelf with
  | nil => simp [changes]
  | cons params fetched ih =>
      have hhead : ((changeOf (shelf params.key) params).toList.map (params.key, ·)).count
          (key, .added) = if shelf key = none ∧ key = params.key then 1 else 0 := by
        unfold changeOf
        by_cases hkey : key = params.key
        · subst hkey
          cases shelf params.key with
          | none => simp
          | some previous => dsimp only; split <;> simp
        · have hne : params.key ≠ key := fun heq => hkey heq.symm
          rw [List.count_eq_zero_of_not_mem, if_neg fun hand => hkey hand.2]
          simp [hne]
      rw [changes, List.count_append, hhead, ih, List.map_cons]
      by_cases hkey : key = params.key
      · subst hkey
        simp [shelve]
      · simp [shelve, hkey]

theorem mem_changes {fetched : List (BatchParams Format Media)} {shelf : Shelf Format Media}
    {entry : Key × Change} (h : entry ∈ changes shelf fetched) :
    entry.1 ∈ fetched.map (·.key) := by
  induction fetched generalizing shelf with
  | nil => cases h
  | cons params fetched ih =>
      rcases List.mem_append.mp h with h | h
      · obtain ⟨change, -, rfl⟩ := List.mem_map.mp h
        exact List.mem_cons_self
      · exact List.mem_cons_of_mem _ (ih h)

/-! ## Rows as a shelf -/

/-- The row without its ids and stamps. -/
def heldOf (row : CollectionRow Format Media) : Held Format Media :=
  { folderId := row.folderId, title := row.title, artist := row.artist, year := row.year,
    formats := row.formats, label := row.label, rating := row.rating, dateAdded := row.dateAdded,
    metadata := row.metadata, media := row.media }

/-- The user's rows as a shelf. -/
def shelfOf (userId : Nat) (db : Db Format Media) : Shelf Format Media :=
  fun key => (rowAt userId db key).map heldOf

/-- The payload that names the row of a key. -/
def payloadAt (userId : Nat) (db : Db Format Media) (key : Key) : ItemChange :=
  { itemId := (rowAt userId db key).bind (·.gmItemId), artifactId := none,
    ownedCopyId := (rowAt userId db key).bind (·.ownedCopyId) }

/-- The event of one change, its payload taken from the row the change left. -/
def eventOf (userId : Nat) (db : Db Format Media) : Key × Change → Event
  | (key, .added) => .itemAdded (payloadAt userId db key)
  | (key, .updated fields) => .itemUpdated (payloadAt userId db key) fields

/-! ## Pages refine the shelf -/

section Refine

variable {env : Env Format Media} {start db next : Db Format Media}
  {batch fetched : List (BatchParams Format Media)} {events pageEvents : List Event}

/-- The code's comparison of two reads is the shelf's. -/
theorem changed_fields_eq (previous row : CollectionRow Format Media) :
    changedFields previous row = (heldOf previous).moved (heldOf row) := by
  have hfolder : keepWhenMissing.contains .folderId = false := rfl
  have hrating : keepWhenMissing.contains .rating = false := rfl
  have hdate : keepWhenMissing.contains .dateAdded = true := rfl
  simp only [changedFields, collectionTrackedFields, List.filter_cons, List.filter_nil, hfolder,
    hrating, hdate, fieldDiffers, fieldMissing, Held.moved, heldOf]
  by_cases hfolder' : previous.folderId = row.folderId <;>
    by_cases hrating' : previous.rating = row.rating <;>
    by_cases hdate' : previous.dateAdded = row.dateAdded <;>
    by_cases hmissing : row.dateAdded = none <;>
    simp [hfolder', hrating', hdate', hmissing]

/-- A received row is the tuple received into what was held. -/
theorem held_of_received {old : Option (CollectionRow Format Media)}
    {params : BatchParams Format Media} {row : CollectionRow Format Media}
    (h : Received env old params row) : heldOf row = receive (old.map heldOf) params := by
  cases old with
  | none =>
      obtain ⟨id, rfl⟩ := h
      simp [heldOf, insertRow, receive]
  | some stored =>
      obtain rfl := h
      simp [heldOf, updateRow, receive]

/-- One page puts its tuples on the shelf and returns an event for each change. -/
theorem page_refines (hbatch : BatchOk env batch)
    (hpage : PageWritten env batch db next pageEvents) :
    shelfOf env.userId next = batch.foldl shelve (shelfOf env.userId db) ∧
      pageEvents = (changes (shelfOf env.userId db) batch).map (eventOf env.userId next) := by
  constructor
  · funext key
    by_cases hkey : key ∈ batch.map (·.key)
    · obtain ⟨params, hparams, rfl⟩ := List.mem_map.mp hkey
      obtain ⟨received, copy, hreceive, hrow, -, -⟩ := hpage.written params hparams
      have hheld := held_of_received hreceive
      rw [shelve_of_nodup hbatch.keys _ hparams, shelfOf, hrow, Option.map_some]
      exact congrArg some hheld
    · rw [shelve_of_not_mem hkey, shelfOf, (hpage.untouched key hkey).1, shelfOf]
  · rw [hpage.events, changes_of_nodup hbatch.keys, List.map_filterMap]
    refine List.filterMap_congr fun params hparams => ?_
    obtain ⟨received, copy, hreceive, hrow, -, -⟩ := hpage.written params hparams
    have hpayload : payloadAt env.userId next params.key =
        { itemId := received.gmItemId, artifactId := none, ownedCopyId := some copy.id } := by
      simp [payloadAt, hrow]
    have hheld := held_of_received hreceive
    rw [hrow, Option.bind_some, shelfOf]
    unfold changeEvent changeOf
    cases hold : rowAt env.userId db params.key with
    | none => simp [eventOf, hpayload]
    | some stored =>
        rw [hold] at hheld
        have hchanged : changedFields stored { received with ownedCopyId := some copy.id } =
            (heldOf stored).moved (receive (some (heldOf stored)) params) :=
          (changed_fields_eq _ _).trans (congrArg (heldOf stored).moved hheld)
        simp only [hchanged, Option.map_some]
        by_cases hmoved : (heldOf stored).moved (receive (some (heldOf stored)) params) = []
        · simp [hmoved]
        · simp [hmoved, eventOf, hpayload]

/-- What a run of committed pages leaves, in terms of the tuples it fetched. -/
structure Filled (env : Env Format Media) (fetched : List (BatchParams Format Media))
    (start db : Db Format Media) (events : List Event) : Prop where
  stored : Stored env.userId db
  others : db.userCollections.filter (fun row => row.userId ≠ env.userId) =
    start.userCollections.filter fun row => row.userId ≠ env.userId
  unfetched : ∀ key, key ∉ fetched.map (·.key) →
    rowAt env.userId db key = rowAt env.userId start key
  /-- The row of a fetched key is stamped by this run and linked to its own copy of its item. -/
  rows : ∀ key ∈ fetched.map (·.key), ∃ row copy, rowAt env.userId db key = some row ∧
    row.updatedAt = env.syncStarted ∧ row.gmItemId = env.resolveAliases key.1 ∧
    row.ownedCopyId = some copy.id ∧ copyOf db row.id = some copy ∧
    some copy.itemId = row.gmItemId
  shelf : shelfOf env.userId db = fetched.foldl shelve (shelfOf env.userId start)
  events : events = (changes (shelfOf env.userId start) fetched).map (eventOf env.userId db)

/-- The rows a page writes are stamped, identified and linked. -/
theorem page_rows (hbatch : BatchOk env batch)
    (hresolve : ∀ releaseId, (env.resolveAliases releaseId).isSome)
    (hpage : PageWritten env batch db next pageEvents) :
    ∀ key ∈ batch.map (·.key), ∃ row copy, rowAt env.userId next key = some row ∧
      row.updatedAt = env.syncStarted ∧ row.gmItemId = env.resolveAliases key.1 ∧
      row.ownedCopyId = some copy.id ∧ copyOf next row.id = some copy ∧
      some copy.itemId = row.gmItemId ∧
      ∀ old, rowAt env.userId db key = some old → old.id = row.id := by
  intro key hkey
  obtain ⟨params, hparams, rfl⟩ := List.mem_map.mp hkey
  obtain ⟨received, copy, hreceive, hrow, hcopy, hitem⟩ := hpage.written params hparams
  have hgm := received_identified hresolve hreceive
  refine ⟨_, copy, hrow, ?_, hgm, rfl, hcopy, hitem, ?_⟩
  · rw [← hbatch.stamp params hparams]
    cases hold : rowAt env.userId db params.key with
    | none =>
        rw [hold] at hreceive
        obtain ⟨id, rfl⟩ := hreceive
        rfl
    | some stored =>
        rw [hold] at hreceive
        obtain rfl := hreceive
        rfl
  · intro old hold
    rw [hold] at hreceive
    obtain rfl := hreceive
    rfl

/-- One page more. -/
theorem filled_page (hbatch : BatchOk env batch)
    (hresolve : ∀ releaseId, (env.resolveAliases releaseId).isSome)
    (h : Filled env fetched start db events)
    (hpage : PageWritten env batch db next pageEvents) :
    Filled env (fetched ++ batch) start next (events ++ pageEvents) := by
  obtain ⟨hshelf, hevents⟩ := page_refines hbatch hpage
  have hrows := page_rows hbatch hresolve hpage
  have hkeep : ∀ key ∈ fetched.map (·.key), ∃ row copy, rowAt env.userId next key = some row ∧
      row.updatedAt = env.syncStarted ∧ row.gmItemId = env.resolveAliases key.1 ∧
      row.ownedCopyId = some copy.id ∧ copyOf next row.id = some copy ∧
      some copy.itemId = row.gmItemId ∧
      payloadAt env.userId next key = payloadAt env.userId db key := by
    intro key hkey
    obtain ⟨row, copy, hrow, hstamp, hgm, hlink, hcopy, hitem⟩ := h.rows key hkey
    by_cases hin : key ∈ batch.map (·.key)
    · obtain ⟨row', copy', hrow', hstamp', hgm', hlink', hcopy', hitem', hid⟩ := hrows key hin
      have hsame := hpage.linked key row copy.id hrow (by rw [hcopy]; rfl)
      rw [hid row hrow, hcopy'] at hsame
      refine ⟨row', copy', hrow', hstamp', hgm', hlink', hcopy', hitem', ?_⟩
      simp [payloadAt, hrow, hrow', hgm, hgm', hlink, hlink', Option.some.inj hsame]
    · obtain ⟨hat, hcopyAt⟩ := hpage.untouched key hin
      refine ⟨row, copy, hat.trans hrow, hstamp, hgm, hlink, (hcopyAt row hrow).trans hcopy,
        hitem, ?_⟩
      simp [payloadAt, hat]
  constructor
  case stored => exact hpage.stored
  case others => exact hpage.others.trans h.others
  case unfetched =>
    intro key hkey
    rw [List.map_append, List.mem_append, not_or] at hkey
    rw [(hpage.untouched key hkey.2).1, h.unfetched key hkey.1]
  case rows =>
    intro key hkey
    rw [List.map_append, List.mem_append] at hkey
    rcases hkey with hkey | hkey
    · obtain ⟨row, copy, hrow, hstamp, hgm, hlink, hcopy, hitem, -⟩ := hkeep key hkey
      exact ⟨row, copy, hrow, hstamp, hgm, hlink, hcopy, hitem⟩
    · obtain ⟨row, copy, hrow, hstamp, hgm, hlink, hcopy, hitem, -⟩ := hrows key hkey
      exact ⟨row, copy, hrow, hstamp, hgm, hlink, hcopy, hitem⟩
  case shelf => rw [hshelf, h.shelf, List.foldl_append]
  case events =>
    rw [changes_append, List.map_append, ← h.shelf, ← hevents, h.events]
    congr 1
    refine List.map_congr_left fun entry hentry => ?_
    obtain ⟨-, -, -, -, -, -, -, -, hpayload⟩ := hkeep entry.1 (mem_changes hentry)
    obtain ⟨key, change⟩ := entry
    cases change <;> simp [eventOf, hpayload]

/-- The transaction of one page, with the events emitted so far. -/
def persistStep (env : Env Format Media) (state : Db Format Media × List Event)
    (batch : List (BatchParams Format Media)) :
    Except SyncError (Db Format Media × List Event) := do
  let (db, pageEvents) ← persistCollectionPage env state.1 batch
  pure (db, state.2 ++ pageEvents)

/-- Every run of pages whose keys are distinct within a page commits and fills the shelf. -/
theorem pages_refine (h : Stored env.userId start)
    (hresolve : ∀ releaseId, (env.resolveAliases releaseId).isSome)
    {batches : List (List (BatchParams Format Media))}
    (hbatches : ∀ batch ∈ batches, BatchOk env batch) :
    ∃ db events, execute (persistStep env) (start, []) batches = .ok (db, events) ∧
      Filled env batches.flatten start db events := by
  induction batches using List.reverseRecOn with
  | nil => exact ⟨start, [], rfl, h, rfl, fun _ _ => rfl, by simp, rfl, rfl⟩
  | append_singleton batches batch ih =>
      obtain ⟨db, events, hrun, hfilled⟩ :=
        ih fun b hb => hbatches b (List.mem_append_left _ hb)
      have hbatch := hbatches batch (List.mem_append_right _ (List.mem_singleton.mpr rfl))
      obtain ⟨next, pageEvents, hok, hpage⟩ := persist_page hfilled.stored hbatch hresolve
      refine ⟨next, events ++ pageEvents, ?_, ?_⟩
      · rw [execute_snoc, hrun]
        simp [Except.bind, persistStep, hok, bind, pure, Except.pure]
      · rw [List.flatten_append, List.flatten_singleton]
        exact filled_page hbatch hresolve hfilled hpage

end Refine

end CatalogApi.Syncer
