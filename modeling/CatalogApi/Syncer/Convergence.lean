import CatalogApi.Syncer.Shelf
import CatalogApi.Syncer.Sync

/-!
# A completed sync leaves the fetched collection

The request loop as a run of page transactions, the sweep over the rows the run left unstamped,
and the two together: after a completed sync the user's rows are the fetched ones, and the
events it emitted are the changes of the shelf followed by one removal for each identified row
that was not fetched.
-/

namespace CatalogApi.Syncer

open Table Runs

variable {Format Media : Type}

/-! ## The loop as a run of pages -/

/-- The non-empty pages the loop reads from the responses, starting at `page`. -/
def fetchedPages : Nat → List (Response Format) → List (List (Item Format))
  | _, [] => []
  | page, .rateLimited :: responses => fetchedPages page responses
  | _, .failed _ :: _ => []
  | page, .ok releases pages :: responses =>
      if releases.isEmpty then []
      else releases :: if page ≥ pages.getD 1 then [] else fetchedPages (page + 1) responses

/-- The tuples a run writes, in the order it fetched them. -/
def fetchedParams (env : Env Format Media) (responses : List (Response Format)) :
    List (BatchParams Format Media) :=
  ((fetchedPages 1 responses).map (batchParams env)).flatten

/-- A response is persisted as one page transaction, which writes nothing for an empty batch. -/
theorem persist_response_ok {env : Env Format Media} {progress final : Progress Format Media}
    {releases : List (Item Format)} (h : persistResponse env progress releases = .ok final) :
    persistStep env (progress.db, progress.events) (batchParams env releases) =
      .ok (final.db, final.events) ∧ final.page = progress.page := by
  unfold persistResponse at h
  dsimp only at h
  split at h
  · rename_i hempty
    obtain rfl := Except.ok.inj h
    rw [List.isEmpty_iff.mp hempty]
    exact ⟨by simp [persistStep, persistCollectionPage, ensureOwnedCopies, collectionPageEvents,
      bind, Except.bind, pure, Except.pure], rfl⟩
  · cases hpage : persistCollectionPage env progress.db (batchParams env releases) with
    | error reason => simp [hpage, bind, Except.bind] at h
    | ok result =>
        simp only [hpage, bind, Except.bind, pure, Except.pure, Except.ok.injEq] at h
        subst h
        exact ⟨by simp [persistStep, hpage, bind, Except.bind, pure, Except.pure], rfl⟩

/-- A loop that ends normally ran the transactions of the pages it fetched, in order. -/
theorem sync_pages_ok {env : Env Format Media} {responses : List (Response Format)}
    {progress final : Progress Format Media} (h : syncPages env progress responses = .ok final) :
    execute (persistStep env) (progress.db, progress.events)
      ((fetchedPages progress.page responses).map (batchParams env)) =
      .ok (final.db, final.events) := by
  induction responses generalizing progress with
  | nil => cases h
  | cons response responses ih =>
      cases response with
      | rateLimited =>
          rw [syncPages] at h
          split at h
          · cases h
          · have hrest := ih h
            exact hrest
      | failed status => cases h
      | ok releases pages =>
          rw [syncPages] at h
          rw [fetchedPages]
          by_cases hempty : releases.isEmpty
          · rw [if_pos hempty] at h ⊢
            obtain rfl := Except.ok.inj h
            rfl
          · rw [if_neg hempty] at h ⊢
            cases hpage : persistResponse env { progress with rateLimitRetries := 0 } releases with
            | error reason => simp [hpage, bind, Except.bind] at h
            | ok after =>
                obtain ⟨hstep, hnumber⟩ := persist_response_ok hpage
                have hnumber : after.page = progress.page := hnumber
                simp only [hpage, bind, Except.bind, hnumber] at h
                rw [List.map_cons, execute_cons, hstep, Except.bind]
                by_cases hlast : progress.page ≥ pages.getD 1
                · rw [if_pos hlast] at h ⊢
                  obtain rfl := Except.ok.inj h
                  rfl
                · rw [if_neg hlast] at h ⊢
                  have hrest := ih h
                  exact hrest

/-! ## The sweep -/

section Sweep

variable {env : Env Format Media} {start db : Db Format Media}
  {fetched : List (BatchParams Format Media)} {events : List Event}

section

variable (h : Filled env fetched start db events) (hbefore : ∀ row ∈ userRows env.userId start, row.updatedAt < env.syncStarted)
include h hbefore

/-- After the pages, the stale rows are the user's rows that were not fetched. -/
theorem stale_iff {row : CollectionRow Format Media} (hrow : row ∈ db.userCollections) :
    isStale env.userId env.syncStarted row ↔
      row.userId = env.userId ∧ row.key ∉ fetched.map (·.key) := by
  refine and_congr_right fun huser => ?_
  have hat : rowAt env.userId db row.key = some row :=
    (row_at_some h.stored).mpr ⟨hrow, huser, rfl⟩
  constructor
  · intro hstale hkey
    obtain ⟨other, -, hother, hstamp, -⟩ := h.rows row.key hkey
    obtain rfl := Option.some.inj (hat.symm.trans hother)
    rw [hstamp] at hstale
    exact absurd hstale (lt_irrefl _)
  · intro hkey
    rw [h.unfetched row.key hkey] at hat
    exact hbefore row (lookup_mem hat).1

/-- The sweep leaves the user's rows of the fetched keys and no other. -/
theorem mem_swept {row : CollectionRow Format Media} :
    row ∈ userRows env.userId (reconcileStaleCollection env db).1 ↔
      row ∈ userRows env.userId db ∧ row.key ∈ fetched.map (·.key) := by
  simp only [mem_user_rows, reconcileStaleCollection, List.mem_filter, decide_eq_true_eq]
  constructor
  · rintro ⟨⟨hrow, hfresh⟩, huser⟩
    rw [stale_iff h hbefore hrow, and_iff_right huser, not_not] at hfresh
    exact ⟨⟨hrow, huser⟩, hfresh⟩
  · rintro ⟨⟨hrow, huser⟩, hkey⟩
    refine ⟨⟨hrow, ?_⟩, huser⟩
    rw [stale_iff h hbefore hrow, and_iff_right huser, not_not]
    exact hkey

/-- The sweep keeps the user's fetched rows. -/
theorem row_at_swept (key : Key) :
    rowAt env.userId (reconcileStaleCollection env db).1 key =
      if key ∈ fetched.map (·.key) then rowAt env.userId db key else none := by
  have hunique : UniqueKey CollectionRow.key
      (userRows env.userId (reconcileStaleCollection env db).1) := fun r hr s hs =>
    h.stored.keys r ((mem_swept h hbefore).mp hr).1 s ((mem_swept h hbefore).mp hs).1
  refine Option.ext fun row => ?_
  rw [rowAt, lookup_eq_some hunique, mem_swept h hbefore]
  by_cases hkey : key ∈ fetched.map (·.key)
  · rw [if_pos hkey, rowAt, lookup_eq_some h.stored.keys]
    constructor
    · rintro ⟨⟨hrow, -⟩, hat⟩
      exact ⟨hrow, hat⟩
    · rintro ⟨hrow, rfl⟩
      exact ⟨⟨hrow, hkey⟩, rfl⟩
  · rw [if_neg hkey]
    constructor
    · rintro ⟨⟨-, hin⟩, rfl⟩
      exact absurd hin hkey
    · rintro ⟨⟩

end

/-- The sweep leaves the copy of a kept row linked to it. -/
theorem copy_of_swept (h : Stored env.userId db) {row : CollectionRow Format Media}
    (hrow : row ∈ db.userCollections) (hkept : ¬isStale env.userId env.syncStarted row) :
    copyOf (reconcileStaleCollection env db).1 row.id = copyOf db row.id := by
  have hnot : row.id ∉ (db.userCollections.filter fun row =>
      isStale env.userId env.syncStarted row).map (·.id) := by
    intro hin
    obtain ⟨other, hother, hid⟩ := List.mem_map.mp hin
    obtain ⟨hmem, hstale⟩ := List.mem_filter.mp hother
    obtain rfl := h.eq_of_id hmem hrow hid
    exact hkept (of_decide_eq_true hstale)
  refine lookup_map_others (fun copy _ hcopy => ?_) fun copy _ hcopy => ?_
  · refine if_neg fun hany => hnot ?_
    rw [hcopy] at hany
    exact of_decide_eq_true hany
  · split
    · exact fun heq => by cases heq
    · exact hcopy

/-- The sweep reports each stored, identified row that was not fetched, once. -/
theorem removed_perm (h : Filled env fetched start db events) (hstart : Stored env.userId start)
    (hbefore : ∀ row ∈ userRows env.userId start, row.updatedAt < env.syncStarted) :
    (reconcileStaleCollection env db).2.Perm
      (((userRows env.userId start).filter fun row =>
        row.key ∉ fetched.map (·.key)).filterMap removedEvent) := by
  refine List.Perm.filterMap _ ((List.perm_ext_iff_of_nodup ?_ ?_).mpr fun row => ?_)
  · exact (List.Nodup.of_map _ h.stored.ids).filter _
  · exact ((List.Nodup.of_map _ hstart.ids).filter _).filter _
  · simp only [List.mem_filter, decide_eq_true_eq]
    constructor
    · rintro ⟨hrow, hstale⟩
      obtain ⟨huser, hkey⟩ := (stale_iff h hbefore hrow).mp hstale
      have hat := (row_at_some h.stored).mpr ⟨hrow, huser, rfl⟩
      rw [h.unfetched _ hkey] at hat
      exact ⟨(lookup_mem hat).1, hkey⟩
    · rintro ⟨hrow, hkey⟩
      have hat : rowAt env.userId start row.key = some row := lookup_of_mem hstart.keys hrow rfl
      rw [← h.unfetched _ hkey] at hat
      obtain ⟨hmem, huser, -⟩ := (row_at_some h.stored).mp hat
      exact ⟨hmem, (stale_iff h hbefore hmem).mpr ⟨huser, hkey⟩⟩

/-- The rows with one key after the sweep: the one that was fetched, with what it received. -/
theorem held_swept (h : Filled env fetched start db events)
    (hbefore : ∀ row ∈ userRows env.userId start, row.updatedAt < env.syncStarted) (key : Key) :
    ((userRows env.userId (reconcileStaleCollection env db).1).filter fun row =>
      row.key = key).map heldOf =
      if key ∈ fetched.map (·.key) then
        (fetched.foldl shelve (shelfOf env.userId start) key).toList
      else [] := by
  have hids : (userRows env.userId (reconcileStaleCollection env db).1).Nodup :=
    ((List.Nodup.of_map _ h.stored.ids).filter _).filter _
  have hkeys : ((userRows env.userId (reconcileStaleCollection env db).1).map
      CollectionRow.key).Nodup := by
    refine hids.map_on fun r hr s hs hkey => ?_
    exact h.stored.keys r ((mem_swept h hbefore).mp hr).1 s ((mem_swept h hbefore).mp hs).1 hkey
  have hfound : lookup CollectionRow.key (userRows env.userId (reconcileStaleCollection env db).1)
      key = _ := row_at_swept h hbefore key
  rw [filter_key hkeys, hfound, ← h.shelf, shelfOf]
  split
  · cases rowAt env.userId db key <;> rfl
  · rfl

/-- Every row of the user after the sweep is identified and linked to its own copy. -/
theorem linked_swept (h : Filled env fetched start db events)
    (hbefore : ∀ row ∈ userRows env.userId start, row.updatedAt < env.syncStarted)
    {row : CollectionRow Format Media}
    (hrow : row ∈ userRows env.userId (reconcileStaleCollection env db).1) :
    row.gmItemId = env.resolveAliases row.releaseId ∧
      ∃ copy ∈ (reconcileStaleCollection env db).1.ownedCopies,
        row.ownedCopyId = some copy.id ∧ copy.collectionRowId = some row.id ∧
        some copy.itemId = row.gmItemId := by
  obtain ⟨hmem, hkey⟩ := (mem_swept h hbefore).mp hrow
  obtain ⟨htable, huser⟩ := mem_user_rows.mp hmem
  obtain ⟨other, copy, hother, -, hgm, hlink, hcopy, hitem⟩ := h.rows row.key hkey
  obtain rfl := Option.some.inj
    (((row_at_some h.stored).mpr ⟨htable, huser, rfl⟩).symm.trans hother)
  have hkept : ¬isStale env.userId env.syncStarted row := fun hstale =>
    ((stale_iff h hbefore htable).mp hstale).2 hkey
  rw [← copy_of_swept h.stored htable hkept] at hcopy
  obtain ⟨hin, hrowId⟩ := lookup_mem hcopy
  exact ⟨hgm, copy, hin, hlink, hrowId, hitem⟩

/-- The sweep and the snapshot leave other users' rows alone. -/
theorem others_swept : ((reconcileStaleCollection env db).1.userCollections.filter fun row =>
    row.userId ≠ env.userId) = db.userCollections.filter fun row => row.userId ≠ env.userId := by
  rw [reconcileStaleCollection, List.filter_filter]
  refine List.filter_congr fun row _ => ?_
  by_cases huser : row.userId = env.userId <;> simp [huser, isStale]

end Sweep

/-! ## The whole sync -/

/-- A page as Discogs returns it: instance ids are present and no key is on it twice. -/
structure PageOk {Format : Type} (releases : List (Item Format)) : Prop where
  instances : ∀ item ∈ releases, item.instanceId ≠ none
  keys : (releases.map fun item => (item.basicInformation.id, item.instanceId)).Nodup

theorem mem_batch_params {env : Env Format Media} {releases : List (Item Format)}
    {params : BatchParams Format Media} (h : params ∈ batchParams env releases) :
    ∃ item ∈ releases, params.userId = env.userId ∧ params.updatedAt = env.syncStarted ∧
      params.instanceId = item.instanceId := by
  obtain ⟨item, hitem, hparams⟩ := List.mem_filterMap.mp h
  refine ⟨item, hitem, ?_⟩
  unfold batchParamsOf at hparams
  dsimp only at hparams
  split at hparams
  · cases hparams
  · split at hparams
    · cases hparams
    · obtain rfl := Option.some.inj hparams
      exact ⟨rfl, rfl, rfl⟩

/-- The keys of a batch are keys of its items. -/
theorem batch_keys_sublist (env : Env Format Media) (releases : List (Item Format)) :
    ((batchParams env releases).map fun params => (some params.releaseId, params.instanceId)).Sublist
      (releases.map fun item => (item.basicInformation.id, item.instanceId)) := by
  induction releases with
  | nil => exact List.Sublist.slnil
  | cons item releases ih =>
      unfold batchParams at ih ⊢
      cases hparams : batchParamsOf env item with
      | none =>
          rw [List.filterMap_cons_none hparams]
          exact ih.cons _
      | some params =>
          rw [List.filterMap_cons_some hparams, List.map_cons, List.map_cons]
          have hkey : (some params.releaseId, params.instanceId) =
              (item.basicInformation.id, item.instanceId) := by
            unfold batchParamsOf at hparams
            dsimp only at hparams
            split at hparams
            · cases hparams
            · rename_i releaseId hid
              split at hparams
              · cases hparams
              · obtain rfl := Option.some.inj hparams
                rw [hid]
          rw [hkey]
          exact ih.cons_cons _

theorem batch_ok (env : Env Format Media) {releases : List (Item Format)} (h : PageOk releases) :
    BatchOk env (batchParams env releases) := by
  constructor
  case user =>
    intro params hparams
    obtain ⟨-, -, huser, -⟩ := mem_batch_params hparams
    exact huser
  case stamp =>
    intro params hparams
    obtain ⟨-, -, -, hstamp, -⟩ := mem_batch_params hparams
    exact hstamp
  case instances =>
    intro params hparams
    obtain ⟨item, hitem, -, -, hinstance⟩ := mem_batch_params hparams
    rw [hinstance]
    exact h.instances item hitem
  case keys =>
    have hnodup := (batch_keys_sublist env releases).nodup h.keys
    have hmap : ((batchParams env releases).map fun params =>
        (some params.releaseId, params.instanceId)) =
        ((batchParams env releases).map (·.key)).map fun key => (some key.1, key.2) := by
      rw [List.map_map]
      rfl
    rw [hmap] at hnodup
    exact List.Nodup.of_map _ hnodup

/-- A completed sync converges on what Discogs returned. The user's rows are one for each fetched
key, with the fetched tuples received in order over what was stored; each is identified and
linked to its own copy of its item; other users' rows are as before. The events are the changes
of the shelf in fetch order, an addition exactly once for each fetched key that was not stored,
and then a removal once for each stored, identified row that was not fetched. -/
theorem sync_converges (env : Env Format Media) (db : Db Format Media)
    (responses : List (Response Format)) (result : SyncResult Format Media)
    (hstored : Stored env.userId db)
    (hbefore : ∀ row ∈ userRows env.userId db, row.updatedAt < env.syncStarted)
    (hresolve : ∀ releaseId, (env.resolveAliases releaseId).isSome)
    (hpages : ∀ releases ∈ fetchedPages 1 responses, PageOk releases)
    (hrun : syncCollection env db responses = .ok result) :
    (∀ key, ((userRows env.userId result.db).filter fun row => row.key = key).map heldOf =
      if key ∈ (fetchedParams env responses).map (·.key) then
        ((fetchedParams env responses).foldl shelve (shelfOf env.userId db) key).toList
      else []) ∧
    (∀ row ∈ userRows env.userId result.db,
      row.gmItemId = env.resolveAliases row.releaseId ∧
        ∃ copy ∈ result.db.ownedCopies, row.ownedCopyId = some copy.id ∧
          copy.collectionRowId = some row.id ∧ some copy.itemId = row.gmItemId) ∧
    (result.db.userCollections.filter fun row => row.userId ≠ env.userId) =
      db.userCollections.filter (fun row => row.userId ≠ env.userId) ∧
    (∃ removed, result.events =
        (changes (shelfOf env.userId db) (fetchedParams env responses)).map
          (eventOf env.userId result.db) ++ removed ∧
      removed.Perm (((userRows env.userId db).filter fun row =>
        row.key ∉ (fetchedParams env responses).map (·.key)).filterMap removedEvent)) ∧
    ∀ key, (changes (shelfOf env.userId db) (fetchedParams env responses)).count (key, .added) =
      if shelfOf env.userId db key = none ∧ key ∈ (fetchedParams env responses).map (·.key) then 1
      else 0 := by
  unfold syncCollection at hrun
  cases hloop : syncPages env
      { page := 1, rateLimitRetries := 0, totalSynced := 0, db, events := [] } responses with
  | error reason => simp [hloop, bind, Except.bind] at hrun
  | ok progress =>
      simp only [hloop, bind, Except.bind, pure, Except.pure, Except.ok.injEq] at hrun
      subst hrun
      have hbatches : ∀ batch ∈ (fetchedPages 1 responses).map (batchParams env),
          BatchOk env batch :=
        List.forall_mem_map.mpr fun releases hreleases => batch_ok env (hpages releases hreleases)
      obtain ⟨filled, events, hrun, h⟩ := pages_refine hstored hresolve hbatches
      obtain ⟨hdb, hevents⟩ : progress.db = filled ∧ progress.events = events :=
        Prod.mk.inj (Except.ok.inj ((sync_pages_ok hloop).symm.trans hrun))
      rw [hdb, hevents]
      refine ⟨held_swept h hbefore, fun row hrow => linked_swept h hbefore hrow,
        others_swept.trans h.others, ⟨_, ?_, removed_perm h hstored hbefore⟩, count_added _ _⟩
      rw [h.events]
      refine congrArg (· ++ (reconcileStaleCollection env filled).2)
        (List.map_congr_left fun entry hentry => ?_)
      have hat := (row_at_swept h hbefore entry.1).trans (if_pos (mem_changes hentry))
      have hpayload : payloadAt env.userId (writeCollectionSnapshot env
          (reconcileStaleCollection env filled).1) entry.1 = payloadAt env.userId filled entry.1 := by
        simp only [payloadAt, ← hat]
        rfl
      obtain ⟨key, change⟩ := entry
      cases change <;> simp only [eventOf, hpayload]

/-- A collector whose every release resolves. -/
def collector : Env String Nat :=
  { userId := 1, syncStarted := 100, resolveAliases := fun releaseId => some (1000 + releaseId),
    mapDiscogsFormats := List.length }

/-- One stored row, of release 10, with a recorded format. -/
def oneRow : Db String Nat :=
  { userCollections := [insertRow 1
      { userId := 1, releaseId := 10, instanceId := some 20, folderId := some 1,
        title := some "Blue", artist := none, year := none, formats := some ["Vinyl"],
        label := none, rating := some 3, dateAdded := some 5, metadata := none, media := 1,
        updatedAt := 50 } (some 1010)]
    ownedCopies := [], collectionSnapshots := [], nextId := 100 }

/-- An item without formats and without a date. -/
def bareItem (releaseId instanceId : Nat) (rating : Int) : Item String :=
  { basicInformation :=
      { id := some releaseId, title := some "Blue", year := none, artists := [], labels := [],
        formats := [] }
    instanceId := some instanceId, folderId := some 1, rating := some (some rating),
    dateAdded := none }

/-- Release 10 again, and release 12 on both pages: it was rated between the two requests. -/
def twoPages : List (Response String) :=
  [.ok [bareItem 10 20 3, bareItem 12 22 0] (some 2), .ok [bareItem 12 22 5] (some 2)]

theorem two_pages_converge : ∃ result, syncCollection collector oneRow twoPages = .ok result ∧
    ∀ key, ((userRows 1 result.db).filter fun row => row.key = key).map heldOf =
      if key ∈ (fetchedParams collector twoPages).map (·.key) then
        ((fetchedParams collector twoPages).foldl shelve (shelfOf 1 oneRow) key).toList
      else [] := by
  have hstored : Stored collector.userId oneRow := by
    constructor <;> simp [oneRow, userRows, UniqueKey, insertRow, collector]
  have hbefore : ∀ row ∈ userRows collector.userId oneRow,
      row.updatedAt < collector.syncStarted := by
    simp [oneRow, userRows, insertRow, collector]
  have hpages : ∀ releases ∈ fetchedPages 1 twoPages, PageOk releases := by
    have hfetched : fetchedPages 1 twoPages =
        [[bareItem 10 20 3, bareItem 12 22 0], [bareItem 12 22 5]] := rfl
    rw [hfetched]
    intro releases hreleases
    simp only [List.mem_cons, List.not_mem_nil, or_false] at hreleases
    rcases hreleases with rfl | rfl <;> constructor <;> simp [bareItem]
  exact ⟨_, rfl, (sync_converges collector oneRow twoPages _ hstored hbefore (fun _ => rfl) hpages
    rfl).1⟩

/-- The stored formats outlive a fetch that has none, and release 12 is reported as updated
though it was not stored before the run. -/
theorem omitted_formats_kept : ∃ result, syncCollection collector oneRow twoPages = .ok result ∧
    ((fetchedParams collector twoPages).filter fun params => params.key = (10, some 20)).map
      (·.formats) = [none] ∧
    (rowAt 1 result.db (10, some 20)).map (·.formats) = some (some ["Vinyl"]) ∧
    (rowAt 1 oneRow (12, some 22)).isNone ∧
    Event.itemUpdated { itemId := some 1012, artifactId := none, ownedCopyId := some 103 }
      [.rating] ∈ result.events :=
  ⟨_, rfl, by decide, by decide, by decide, by decide⟩

end CatalogApi.Syncer
