import CatalogApi.Syncer.Overlap

/-!
# Offset paging over a collection that changes

Between two requests the user may add or remove items on Discogs. A page holds the items at its
offset of the collection as it is at that moment, newest first, so a removal moves every older
item one position forward, and one that moves from a page not yet requested to one already
requested is never fetched. A row without an instance id is never stamped again, since its key
holds a NULL. `stored_row_kept_iff` says which rows the sweep keeps.
-/

namespace CatalogApi.Syncer

open Table Runs

variable {Format Media : Type}

/-! ## Discogs while the run is on -/

/-- What the user does to the collection: an addition is the newest item. -/
inductive Edit (Format : Type) where
  | add (item : Item Format)
  | remove (index : Nat)

def Edit.apply (collection : List (Item Format)) : Edit Format → List (Item Format)
  | .add item => item :: collection
  | .remove index => collection.eraseIdx index

/-- What happens during a run, in order: an edit by the user, a request turned away by the rate
limit, or a request that is answered. -/
inductive Happening (Format : Type) where
  | edit (edit : Edit Format)
  | throttled
  | request

/-- The items of one page of the collection. -/
def pageOf (collection : List (Item Format)) (page : Nat) : List (Item Format) :=
  (collection.drop ((page - 1) * pageSize)).take pageSize

/-- The page count of the collection. -/
def pageCount (collection : List (Item Format)) : Nat :=
  (collection.length + (pageSize - 1)) / pageSize

/-- The responses to the requests of a run that next asks for `page`. -/
def responsesOf : List (Item Format) → Nat → List (Happening Format) → List (Response Format)
  | _, _, [] => []
  | collection, page, .edit edit :: rest => responsesOf (edit.apply collection) page rest
  | collection, page, .throttled :: rest => .rateLimited :: responsesOf collection page rest
  | collection, page, .request :: rest =>
      .ok (pageOf collection page) (some (pageCount collection)) ::
        responsesOf collection (page + 1) rest

/-- The last request of a run: the page it asks for, the collection at that moment, and the items
of the pages before it. -/
structure LastRequest (Format : Type) where
  collection : List (Item Format)
  page : Nat
  earlier : List (Item Format)

/-- The last request, when the happenings reach it. -/
def lastRequest : List (Item Format) → Nat → List (Item Format) → List (Happening Format) →
    Option (LastRequest Format)
  | _, _, _, [] => none
  | collection, page, earlier, .edit edit :: rest =>
      lastRequest (edit.apply collection) page earlier rest
  | collection, page, earlier, .throttled :: rest => lastRequest collection page earlier rest
  | collection, page, earlier, .request :: rest =>
      if (pageOf collection page).isEmpty ∨ page ≥ pageCount collection then
        some { collection, page, earlier }
      else lastRequest collection (page + 1) (earlier ++ pageOf collection page) rest

/-- An item of the collection is at or after the offset of the last page. -/
def LastRequest.reaches (last : LastRequest Format) (key : Key) : Bool :=
  fetchesItem key (last.collection.drop ((last.page - 1) * pageSize))

/-- The collection before the run and after each edit. -/
def moments : List (Item Format) → List (Happening Format) → List (List (Item Format))
  | collection, [] => [collection]
  | collection, .edit edit :: rest => collection :: moments (edit.apply collection) rest
  | collection, .throttled :: rest => moments collection rest
  | collection, .request :: rest => moments collection rest

/-! ## What the run fetches -/

theorem fetches_append (key : Key) (first second : List (Item Format)) :
    fetchesItem key (first ++ second) = (fetchesItem key first || fetchesItem key second) := by
  simp [fetchesItem]

/-- The last page reaches to the end of the collection. -/
theorem last_page_reaches {collection : List (Item Format)} {page : Nat}
    (hlast : (pageOf collection page).isEmpty ∨ page ≥ pageCount collection) (hpage : 1 ≤ page) :
    pageOf collection page = collection.drop ((page - 1) * pageSize) := by
  have hfits : (collection.drop ((page - 1) * pageSize)).length ≤ pageSize := by
    rw [List.length_drop]
    rcases hlast with hempty | hcount
    · have hnil : (pageOf collection page).length = 0 := by
        rw [List.isEmpty_iff.mp hempty]
        rfl
      rw [pageOf, List.length_take, List.length_drop] at hnil
      have hpos : 0 < pageSize := by decide
      omega
    · have hbound : collection.length ≤ page * pageSize := by
        unfold pageCount pageSize at hcount
        unfold pageSize
        omega
      have hsplit : page * pageSize = (page - 1) * pageSize + pageSize := by
        obtain ⟨k, rfl⟩ := Nat.exists_eq_add_of_le hpage
        rw [Nat.add_sub_cancel_left, Nat.add_mul, Nat.one_mul, Nat.add_comm]
      omega
  exact List.take_of_length_le hfits

/-- A run fetches the pages before its last request and the rest of the collection at it. -/
theorem fetched_pages_eq {happenings : List (Happening Format)} {collection earlier : List (Item Format)}
    {page : Nat} {last : LastRequest Format} (hpage : 1 ≤ page)
    (h : lastRequest collection page earlier happenings = some last) :
    earlier ++ (fetchedPages page (responsesOf collection page happenings)).flatten =
      last.earlier ++ last.collection.drop ((last.page - 1) * pageSize) := by
  induction happenings generalizing collection page earlier with
  | nil => cases h
  | cons happening rest ih =>
      cases happening with
      | edit edit => exact ih hpage h
      | throttled => exact ih hpage h
      | request =>
          rw [lastRequest] at h
          rw [responsesOf, fetchedPages, Option.getD_some]
          by_cases hlast : (pageOf collection page).isEmpty ∨ page ≥ pageCount collection
          · rw [if_pos hlast] at h
            obtain rfl := Option.some.inj h
            dsimp only
            rw [← last_page_reaches hlast hpage]
            by_cases hempty : (pageOf collection page).isEmpty
            · rw [if_pos hempty, List.isEmpty_iff.mp hempty]
              rfl
            · rw [if_neg hempty, if_pos (hlast.resolve_left hempty)]
              simp
          · rw [if_neg hlast] at h
            rw [not_or] at hlast
            have hrest := ih (Nat.le_add_left 1 page) h
            rw [if_neg hlast.1, if_neg hlast.2, List.flatten_cons, ← List.append_assoc]
            exact hrest

/-- A run that completes has made its last request. -/
theorem completed_run_last {env : Env Format Media} {happenings : List (Happening Format)}
    {collection : List (Item Format)} {progress final : Progress Format Media}
    (h : syncPages env progress (responsesOf collection progress.page happenings) = .ok final)
    (earlier : List (Item Format)) :
    ∃ last, lastRequest collection progress.page earlier happenings = some last := by
  induction happenings generalizing collection progress earlier with
  | nil => cases h
  | cons happening rest ih =>
      cases happening with
      | edit edit => exact ih h earlier
      | throttled =>
          rw [responsesOf, syncPages] at h
          split at h
          · cases h
          · exact ih h earlier
      | request =>
          rw [lastRequest]
          by_cases hlast : (pageOf collection progress.page).isEmpty ∨
              progress.page ≥ pageCount collection
          · exact ⟨_, if_pos hlast⟩
          · rw [if_neg hlast]
            rw [not_or] at hlast
            rw [responsesOf, syncPages, if_neg hlast.1] at h
            cases hpage : persistResponse env { progress with rateLimitRetries := 0 }
                (pageOf collection progress.page) with
            | error reason => simp [hpage, bind, Except.bind] at h
            | ok after =>
                have hnumber : after.page = progress.page := (persist_response_ok hpage).2
                simp only [hpage, bind, Except.bind, hnumber, Option.getD_some] at h
                rw [if_neg hlast.2] at h
                exact ih h _

/-! ## Rows over a run of pages -/

section Pages

variable {env : Env Format Media} {db next : Db Format Media}

/-- A row keeps its id, user and key. -/
def SameRow (row kept : CollectionRow Format Media) : Prop :=
  kept.id = row.id ∧ kept.userId = row.userId ∧ kept.key = row.key

theorem upserts_keep (env : Env Format Media) (batch : List (BatchParams Format Media))
    {row : CollectionRow Format Media}
    (hrow : row ∈ db.userCollections) :
    ∃ kept ∈ (batch.foldl (upsertCollection env) db).userCollections, SameRow row kept := by
  induction batch generalizing db row with
  | nil => exact ⟨row, hrow, rfl, rfl, rfl⟩
  | cons p batch ih =>
      obtain ⟨mid, hmid, hid, huser, hkey⟩ : ∃ mid ∈ (upsertCollection env db p).userCollections,
          SameRow row mid := by
        by_cases hc : conflicts p row
        · exact ⟨_, mem_upsert_of hrow hc, rfl, rfl, rfl⟩
        · exact ⟨row, mem_upsert_of_not hrow hc, rfl, rfl, rfl⟩
      obtain ⟨kept, hkept, hid', huser', hkey'⟩ := ih hmid
      exact ⟨kept, hkept, hid'.trans hid, huser'.trans huser, hkey'.trans hkey⟩

/-- A page transaction loses no row. -/
theorem page_keeps {batch : List (BatchParams Format Media)} {events : List Event}
    (h : persistCollectionPage env db batch = .ok (next, events))
    {row : CollectionRow Format Media} (hrow : row ∈ db.userCollections) :
    ∃ kept ∈ next.userCollections, SameRow row kept := by
  obtain ⟨copies, rowIds, hrows, -⟩ := persist_collections h
  obtain ⟨mid, hmid, hsame⟩ := upserts_keep env batch hrow
  exact ⟨linkRow copies rowIds mid, hrows ▸ List.mem_map_of_mem hmid, hsame⟩

/-- A page reports no removal. -/
theorem page_removes_nothing {batch : List (BatchParams Format Media)} {events : List Event}
    (h : persistCollectionPage env db batch = .ok (next, events)) (payload : ItemChange) :
    Event.itemRemoved payload ∉ events := by
  unfold persistCollectionPage at h
  dsimp only at h
  generalize ensureOwnedCopies env.userId _ _ = ensured at h
  cases ensured with
  | error reason => simp [bind, Except.bind] at h
  | ok result =>
      simp only [bind, Except.bind, pure, Except.pure, Except.ok.injEq, Prod.mk.injEq] at h
      rw [← h.2, collectionPageEvents, List.mem_filterMap]
      rintro ⟨key, -, hevent⟩
      unfold keyEvent at hevent
      dsimp only at hevent
      repeat' split at hevent
      all_goals cases hevent

/-- Over a run of pages no row is lost and no removal is reported. -/
theorem pages_keep_rows {batches : List (List (BatchParams Format Media))}
    {start final : Db Format Media × List Event}
    (h : execute (persistStep env) start batches = .ok final) :
    (∀ row ∈ start.1.userCollections, ∃ kept ∈ final.1.userCollections, SameRow row kept) ∧
      ∀ payload, Event.itemRemoved payload ∈ final.2 → Event.itemRemoved payload ∈ start.2 := by
  refine execute_induction (motive := fun _ state =>
    (∀ row ∈ start.1.userCollections, ∃ kept ∈ state.1.userCollections, SameRow row kept) ∧
      ∀ payload, Event.itemRemoved payload ∈ state.2 → Event.itemRemoved payload ∈ start.2)
    ⟨fun row hrow => ⟨row, hrow, rfl, rfl, rfl⟩, fun _ hin => hin⟩ ?_ h
  intro _ batch state after _ hinv hstep
  obtain ⟨hkept, hremoved⟩ := hinv
  cases hpage : persistCollectionPage env state.1 batch with
  | error reason => simp [persistStep, hpage, bind, Except.bind] at hstep
  | ok result =>
      obtain rfl : (result.1, state.2 ++ result.2) = after := by
        simpa [persistStep, hpage, bind, Except.bind, pure, Except.pure] using hstep
      refine ⟨fun row hrow => ?_, fun payload hin => ?_⟩
      · obtain ⟨kept, hmem, hid, huser, hkey⟩ := hkept row hrow
        obtain ⟨last, hlast, hid', huser', hkey'⟩ := page_keeps hpage hmem
        exact ⟨last, hlast, hid'.trans hid, huser'.trans huser, hkey'.trans hkey⟩
      · rcases List.mem_append.mp hin with hin | hin
        · exact hremoved payload hin
        · exact absurd hin (page_removes_nothing hpage payload)

/-- Over a run of pages the stamps of a key with an instance id are the run's if some page
fetched it and untouched otherwise. -/
theorem pages_stamp {batches : List (List (Item Format))} {start final : Db Format Media × List Event}
    {key : Key} (hkey : key.2 ≠ none)
    (h : execute (persistStep env) start (batches.map (batchParams env)) = .ok final) :
    if fetchesItem key batches.flatten then
      stampsOf env.userId key final.1 ≠ [] ∧
        ∀ stamp ∈ stampsOf env.userId key final.1, stamp = env.syncStarted
    else stampsOf env.userId key final.1 = stampsOf env.userId key start.1 := by
  induction batches using List.reverseRecOn generalizing final with
  | nil =>
      obtain rfl := Except.ok.inj h
      rfl
  | append_singleton batches releases ih =>
      rw [List.map_append, List.map_singleton] at h
      obtain ⟨mid, hrun, hstep⟩ := execute_snoc_ok h
      have hstamps := ih hrun
      cases hpage : persistCollectionPage env mid.1 (batchParams env releases) with
      | error reason => simp [persistStep, hpage, bind, Except.bind] at hstep
      | ok result =>
          obtain rfl : (result.1, mid.2 ++ result.2) = final := by
            simpa [persistStep, hpage, bind, Except.bind, pure, Except.pure] using hstep
          have hbatch : ∀ p ∈ batchParams env releases, p.userId = env.userId ∧
              p.updatedAt = env.syncStarted := by
            intro p hp
            obtain ⟨-, -, huser, hstamp, -⟩ := mem_batch_params hp
            exact ⟨huser, hstamp⟩
          have hnext := stamps_page hkey (fun p hp => (hbatch p hp).1)
            (fun p hp => (hbatch p hp).2) hpage
          rw [if_congr (fetches_iff env key releases) rfl rfl] at hnext
          rw [List.flatten_append, List.flatten_singleton, fetches_append]
          by_cases hfetch : fetchesItem key releases
          · rw [if_pos hfetch] at hnext
            rw [if_pos (by simp [hfetch]), hnext]
            exact ⟨stamp_all_ne_nil _ _, fun stamp hstamp => mem_stamp_all hstamp⟩
          · rw [if_neg hfetch] at hnext
            rw [hnext]
            simpa [hfetch] using hstamps

/-- The user's rows without an instance id that were stored before the run are still stamped
before it: no upsert can reach them, and a new row has an id drawn later. -/
def UnkeyedOld (env : Env Format Media) (fresh : Nat) (db : Db Format Media) : Prop :=
  fresh ≤ db.nextId ∧ ∀ row ∈ userRows env.userId db, row.instanceId = none → row.id < fresh →
    row.updatedAt < env.syncStarted

theorem unkeyed_old_upsert {fresh : Nat} (h : UnkeyedOld env fresh db)
    (params : BatchParams Format Media) :
    UnkeyedOld env fresh (upsertCollection env db params) := by
  obtain ⟨hdrawn, hold⟩ := h
  refine ⟨Nat.le_succ_of_le hdrawn, fun row hrow hunkeyed hid => ?_⟩
  obtain ⟨hmem, huser⟩ := mem_user_rows.mp hrow
  rcases mem_upsert hmem with ⟨old, -, hc, rfl⟩ | ⟨hmem, -⟩ | ⟨-, rfl⟩
  · -- a row that conflicts has the instance id of the tuple, which is not NULL
    obtain ⟨-, -, hinstance, hsame⟩ := hc
    exact absurd (hsame.symm.trans hunkeyed) hinstance
  · exact hold row (mem_user_rows.mpr ⟨hmem, huser⟩) hunkeyed hid
  · have hnew : db.nextId < fresh := hid
    omega

theorem unkeyed_old_upserts {fresh : Nat} (h : UnkeyedOld env fresh db)
    (batch : List (BatchParams Format Media)) :
    UnkeyedOld env fresh (batch.foldl (upsertCollection env) db) := by
  induction batch generalizing db with
  | nil => exact h
  | cons params batch ih => exact ih (unkeyed_old_upsert h params)

/-- A page transaction stamps no stored row without an instance id. -/
theorem unkeyed_old_page {fresh : Nat} (h : UnkeyedOld env fresh db)
    {batch : List (BatchParams Format Media)} {events : List Event}
    (hpage : persistCollectionPage env db batch = .ok (next, events)) :
    UnkeyedOld env fresh next := by
  obtain ⟨copies, rowIds, hrows, hdrawn⟩ := persist_collections hpage
  obtain ⟨hfresh, hold⟩ := unkeyed_old_upserts h batch
  refine ⟨Nat.le_trans hfresh hdrawn, fun row hrow hunkeyed hid => ?_⟩
  obtain ⟨hmem, huser⟩ := mem_user_rows.mp hrow
  rw [hrows] at hmem
  obtain ⟨mid, hmid, rfl⟩ := List.mem_map.mp hmem
  exact hold mid (mem_user_rows.mpr ⟨hmid, huser⟩) hunkeyed hid

/-- Nor does a run of pages. -/
theorem unkeyed_old_pages {fresh : Nat} {batches : List (List (BatchParams Format Media))}
    {start final : Db Format Media × List Event} (hstart : UnkeyedOld env fresh start.1)
    (h : execute (persistStep env) start batches = .ok final) : UnkeyedOld env fresh final.1 := by
  refine execute_induction (motive := fun _ state => UnkeyedOld env fresh state.1) hstart ?_ h
  intro _ batch state after _ hinv hstep
  cases hpage : persistCollectionPage env state.1 batch with
  | error reason => simp [persistStep, hpage, bind, Except.bind] at hstep
  | ok result =>
      obtain rfl : (result.1, state.2 ++ result.2) = after := by
        simpa [persistStep, hpage, bind, Except.bind, pure, Except.pure] using hstep
      exact unkeyed_old_page hinv hpage

end Pages

/-! ## The rows the sweep keeps -/

theorem mem_stamps {userId : Nat} {key : Key} {db : Db Format Media} {stamp : Instant} :
    stamp ∈ stampsOf userId key db ↔ ∃ row ∈ db.userCollections, row.userId = userId ∧
      row.key = key ∧ row.updatedAt = stamp := by
  simp [stampsOf, and_assoc]

/-- After the pages of a run, a stored row is stamped before the run exactly when it has no
instance id or no page fetched its item. -/
theorem stale_iff_missed {env : Env Format Media} {batches : List (List (Item Format))}
    {start final : Db Format Media × List Event} {row : CollectionRow Format Media}
    (hrow : row ∈ userRows env.userId start.1)
    (hdrawn : ∀ row ∈ start.1.userCollections, row.id < start.1.nextId)
    (hbefore : ∀ row ∈ userRows env.userId start.1, row.updatedAt < env.syncStarted)
    (h : execute (persistStep env) start (batches.map (batchParams env)) = .ok final)
    {other : CollectionRow Format Media} (hother : other ∈ final.1.userCollections)
    (hsame : SameRow row other) :
    isStale env.userId env.syncStarted other ↔
      ¬(row.instanceId ≠ none ∧ fetchesItem row.key batches.flatten) := by
  obtain ⟨hmem, huser⟩ := mem_user_rows.mp hrow
  obtain ⟨hotherId, hotherUser, hotherKey⟩ := hsame
  have hotherUser : other.userId = env.userId := hotherUser.trans huser
  have hinstance : other.instanceId = row.instanceId := congrArg Prod.snd hotherKey
  rw [isStale, and_iff_right hotherUser]
  by_cases hunkeyed : row.instanceId = none
  · have hold := (unkeyed_old_pages ⟨Nat.le_refl _, fun old hin _ _ => hbefore old hin⟩ h).2 other
      (mem_user_rows.mpr ⟨hother, hotherUser⟩) (hinstance.trans hunkeyed)
      (hotherId ▸ hdrawn row hmem)
    simp [hold, hunkeyed]
  · have hkeyed : row.key.2 ≠ none := hunkeyed
    have hstamps := pages_stamp hkeyed h
    have hin : other.updatedAt ∈ stampsOf env.userId row.key final.1 :=
      mem_stamps.mpr ⟨other, hother, hotherUser, hotherKey, rfl⟩
    -- the rows of the key are all stamped by the run, or all older than it
    by_cases hfetch : fetchesItem row.key batches.flatten
    · rw [if_pos hfetch] at hstamps
      simp [hstamps.2 _ hin, hfetch, hunkeyed]
    · rw [if_neg hfetch] at hstamps
      rw [hstamps] at hin
      obtain ⟨old, hold, holdUser, -, holdStamp⟩ := mem_stamps.mp hin
      have hless : old.updatedAt < env.syncStarted :=
        hbefore old (mem_user_rows.mpr ⟨hold, holdUser⟩)
      simp [← holdStamp, hless, hfetch]

/-- A stored row outlives the run exactly when it has an instance id and an earlier page held its
item or the item is at or after the offset of the last page when that page is requested;
otherwise the sweep deletes the row and reports its removal. The pages themselves report none. -/
theorem stored_row_kept_iff (env : Env Format Media) (db : Db Format Media)
    (collection : List (Item Format)) (happenings : List (Happening Format))
    (result : SyncResult Format Media)
    (row : CollectionRow Format Media) (hrow : row ∈ userRows env.userId db)
    (hdrawn : ∀ row ∈ db.userCollections, row.id < db.nextId)
    (hbefore : ∀ row ∈ userRows env.userId db, row.updatedAt < env.syncStarted)
    (hrun : syncCollection env db (responsesOf collection 1 happenings) = .ok result) :
    ∃ last, lastRequest collection 1 [] happenings = some last ∧
    ((∃ kept ∈ result.db.userCollections, SameRow row kept) ↔
      row.instanceId ≠ none ∧ (fetchesItem row.key last.earlier ∨ last.reaches row.key)) ∧
    ∃ (pageEvents : List Event) (swept : List (CollectionRow Format Media)),
      result.events = pageEvents ++ swept.filterMap removedEvent ∧
      (∀ payload, Event.itemRemoved payload ∉ pageEvents) ∧
      ((∃ gone ∈ swept, SameRow row gone) ↔
        ¬(row.instanceId ≠ none ∧ (fetchesItem row.key last.earlier ∨ last.reaches row.key))) := by
  unfold syncCollection at hrun
  cases hloop : syncPages env
      { page := 1, rateLimitRetries := 0, totalSynced := 0, db := db, events := [] }
      (responsesOf collection 1 happenings) with
  | error reason => simp [hloop, bind, Except.bind] at hrun
  | ok progress =>
      simp only [hloop, bind, Except.bind, pure, Except.pure, Except.ok.injEq] at hrun
      subst hrun
      obtain ⟨last, hlast⟩ := completed_run_last hloop []
      refine ⟨last, hlast, ?_⟩
      have hfetched := fetched_pages_eq (Nat.le_refl 1) hlast
      rw [List.nil_append] at hfetched
      have hcond : (fetchesItem row.key last.earlier ∨ last.reaches row.key) ↔
          fetchesItem row.key (fetchedPages 1 (responsesOf collection 1 happenings)).flatten := by
        rw [hfetched, fetches_append, Bool.or_eq_true]
        rfl
      have hpages := sync_pages_ok hloop
      have hstale : ∀ other ∈ progress.db.userCollections, SameRow row other →
          (isStale env.userId env.syncStarted other ↔
            ¬(row.instanceId ≠ none ∧
              (fetchesItem row.key last.earlier ∨ last.reaches row.key))) := by
        rw [hcond]
        exact fun other hother hsame =>
          stale_iff_missed hrow hdrawn hbefore hpages hother hsame
      obtain ⟨hkeep, hremoved⟩ := pages_keep_rows hpages
      obtain ⟨kept, hkept, hsame⟩ := hkeep row (mem_user_rows.mp hrow).1
      refine ⟨⟨?_, fun hfetch => ?_⟩, progress.events, progress.db.userCollections.filter fun row =>
        isStale env.userId env.syncStarted row, rfl, fun payload hin => ?_, ?_, fun hfetch => ?_⟩
      · rintro ⟨other, hother, hotherSame⟩
        obtain ⟨hin, hfresh⟩ := List.mem_filter.mp hother
        by_contra hfetch
        exact of_decide_eq_true hfresh ((hstale other hin hotherSame).mpr hfetch)
      · refine ⟨kept, List.mem_filter.mpr ⟨hkept, decide_eq_true fun hold => ?_⟩, hsame⟩
        exact (hstale kept hkept hsame).mp hold hfetch
      · exact absurd (hremoved payload hin) List.not_mem_nil
      · rintro ⟨other, hother, hotherSame⟩
        obtain ⟨hin, hold⟩ := List.mem_filter.mp hother
        exact (hstale other hin hotherSame).mp (of_decide_eq_true hold)
      · exact ⟨kept, List.mem_filter.mpr ⟨hkept,
          decide_eq_true ((hstale kept hkept hsame).mpr hfetch)⟩, hsame⟩

/-- A collection of two pages: the item of the stored row is the first of the second page. -/
def crowded : List (Item String) :=
  (List.range 100).map (fun i => bareItem (1000 + i) (5000 + i) 3) ++
    [bareItem 10 20 3, bareItem 11 21 3]

/-- An item is added between the two requests, the second of which is turned away once: the item
of the stored row moves to position 101 and the second page still holds it. -/
def busyEvening : List (Happening String) :=
  [.request, .edit (.add (bareItem 12 22 0)), .throttled, .request]

theorem crowded_row_kept : ∃ row ∈ userRows collector.userId oneRow, ∃ result,
    syncCollection collector oneRow (responsesOf crowded 1 busyEvening) = .ok result ∧
    ∃ last, lastRequest crowded 1 [] busyEvening = some last ∧ last.page = 2 ∧
    ((∃ kept ∈ result.db.userCollections, SameRow row kept) ↔
      row.instanceId ≠ none ∧
        (fetchesItem row.key last.earlier ∨ last.reaches row.key)) ∧
    fetchesItem row.key last.earlier = false ∧ last.reaches row.key = true := by
  have hrun : (match syncCollection collector oneRow (responsesOf crowded 1 busyEvening) with
    | .ok _ => true
    | .error _ => false) = true := by decide +kernel
  have hlast : ((lastRequest crowded 1 [] busyEvening).map fun last =>
      (last.page, fetchesItem (10, some 20) last.earlier, last.reaches (10, some 20))) =
      some (2, false, true) := by decide +kernel
  refine ⟨_, List.mem_singleton_self _, ?_⟩
  cases hresult : syncCollection collector oneRow (responsesOf crowded 1 busyEvening) with
  | error reason => simp [hresult] at hrun
  | ok result =>
      obtain ⟨last, hreq, hiff, -⟩ := stored_row_kept_iff collector oneRow crowded busyEvening
        result _ (List.mem_singleton_self _)
        (by
          intro other hother
          obtain rfl := List.mem_singleton.mp hother
          decide)
        (by
          intro other hother
          obtain rfl := List.mem_singleton.mp hother
          decide) hresult
      rw [hreq, Option.map_some, Option.some.injEq, Prod.mk.injEq, Prod.mk.injEq] at hlast
      exact ⟨result, rfl, last, hreq, hlast.1, hiff, hlast.2.1, hlast.2.2⟩

/-! ## When an item slips between the pages -/

/-- An addition moves no item to a page that was requested already. -/
theorem add_keeps_reached {key : Key} {collection : List (Item Format)} (item : Item Format)
    {offset : Nat} (h : fetchesItem key (collection.drop offset)) :
    fetchesItem key ((item :: collection).drop offset) := by
  cases offset with
  | zero =>
      rw [List.drop_zero] at h ⊢
      unfold fetchesItem at h ⊢
      rw [List.any_cons, h, Bool.or_true]
  | succ n =>
      have hsplit : collection.drop n = (collection.drop n).take 1 ++ collection.drop (n + 1) := by
        rw [← List.drop_drop, List.take_append_drop]
      rw [List.drop_succ_cons, hsplit, fetches_append, h, Bool.or_true]

/-- While the user only adds items, no item of the collection slips: it takes a removal. -/
theorem additions_lose_nothing {key : Key} {happenings : List (Happening Format)}
    (hadds : ∀ index, .edit (.remove index) ∉ happenings)
    {collection earlier : List (Item Format)} {page : Nat} {last : LastRequest Format}
    (hpage : 1 ≤ page)
    (hin : fetchesItem key earlier ∨ fetchesItem key (collection.drop ((page - 1) * pageSize)))
    (h : lastRequest collection page earlier happenings = some last) :
    fetchesItem key last.earlier ∨ last.reaches key := by
  induction happenings generalizing collection earlier page with
  | nil => cases h
  | cons happening rest ih =>
      have hrest : ∀ index, .edit (.remove index) ∉ rest :=
        fun index hmem => hadds index (List.mem_cons_of_mem _ hmem)
      cases happening with
      | throttled => exact ih hrest hpage hin h
      | edit edit =>
          cases edit with
          | remove index => exact absurd List.mem_cons_self (hadds index)
          | add item => exact ih hrest hpage (hin.imp_right (add_keeps_reached item)) h
      | request =>
          rw [lastRequest] at h
          by_cases hlast : (pageOf collection page).isEmpty ∨ page ≥ pageCount collection
          · rw [if_pos hlast] at h
            obtain rfl := Option.some.inj h
            exact hin
          · rw [if_neg hlast] at h
            refine ih hrest (Nat.le_add_left 1 page) ?_ h
            -- what the offset of this page reaches is on this page or at the next offset
            have hsplit : collection.drop ((page - 1) * pageSize) =
                pageOf collection page ++ collection.drop (page * pageSize) := by
              have hoffset : page * pageSize = (page - 1) * pageSize + pageSize := by
                obtain ⟨k, rfl⟩ := Nat.exists_eq_add_of_le hpage
                rw [Nat.add_sub_cancel_left, Nat.add_mul, Nat.one_mul, Nat.add_comm]
              rw [pageOf, hoffset, ← List.drop_drop, List.take_append_drop]
            rw [hsplit, fetches_append, Bool.or_eq_true] at hin
            rw [Nat.add_sub_cancel, fetches_append, Bool.or_eq_true, or_assoc]
            exact hin

/-- The newest item is removed after the first request: the item at position 100 moves to
position 99, the second page starts after it, and the sweep removes a row whose item never left. -/
theorem slipped_row_lost : ∃ result,
    syncCollection collector oneRow
      (responsesOf crowded 1 [.request, .edit (.remove 0), .request]) = .ok result ∧
    (∀ collection ∈ moments crowded [.request, .edit (.remove 0), .request],
      fetchesItem (10, some 20) collection) ∧
    (rowAt 1 oneRow (10, some 20)).isSome ∧
    (¬∃ kept ∈ result.db.userCollections, kept.key = (10, some 20)) ∧
    .itemRemoved { itemId := some 1010, artifactId := none, ownedCopyId := none } ∈
      result.events := by
  have hrun : (match syncCollection collector oneRow
      (responsesOf crowded 1 [.request, .edit (.remove 0), .request]) with
    | .ok result => (result.db.userCollections.all fun row => row.key ≠ (10, some 20)) &&
        result.events.any fun event => event = .itemRemoved
          { itemId := some 1010, artifactId := none, ownedCopyId := none }
    | .error _ => false) = true := by decide +kernel
  cases hresult : syncCollection collector oneRow
      (responsesOf crowded 1 [.request, .edit (.remove 0), .request]) with
  | error reason => simp [hresult] at hrun
  | ok result =>
      simp only [hresult, Bool.and_eq_true, List.all_eq_true, List.any_eq_true,
        decide_eq_true_eq] at hrun
      obtain ⟨hgone, event, hevent, rfl⟩ := hrun
      exact ⟨result, rfl, by decide +kernel, by decide,
        fun ⟨kept, hkept, hkey⟩ => hgone kept hkept hkey, hevent⟩

end CatalogApi.Syncer
