import CatalogApi.CatalogMerge.Dependents
import CatalogApi.Reattach.Aliases

/-!
# Re-attaching one MusicBrainz row

`reattach_item` of `api/reattach.py`, statement by statement. It returns without a write, or it
moves every current alias of the split item to the Discogs item, points the row's cache there and
merges the two items; a second run then finds nothing to do (`reattachment_all_or_nothing`).
-/

namespace CatalogApi.Reattach

open CatalogMerge

/-- `SplitKind`: where one catalog kind's MusicBrainz rows live and how they alias. -/
structure SplitKind where
  table : String
  discogsColumn : String
  entityKind : String
  deriving DecidableEq

/-- `KINDS`. -/
def kinds : List (String × SplitKind) :=
  [("release", ⟨"releases", "discogs_release_id", "release"⟩),
   ("release_group", ⟨"release_groups", "discogs_master_id", "master"⟩),
   ("artist", ⟨"artists", "discogs_artist_id", "artist"⟩),
   ("label", ⟨"labels", "discogs_label_id", "label"⟩)]

/-- `IDENTIFIER_PROVIDERS`. -/
def identifierProviders : List String := ["barcode", "catalog_number", "isrc", "matrix"]

/-- `GUARD_REASONS`. -/
inductive GuardReason where
  | sharedNativeId | nonCatalogAlias

inductive Status where
  | reattached | guarded | unchanged

/-- `ItemOutcome`. -/
structure ItemOutcome where
  status : Status
  reasons : List GuardReason
  splitId : Option Nat
  discogsNativeId : Option Nat
  aliasesMoved : Nat
  identifierCollisions : Nat
  supersessionOpened : Bool
  chainsCompressed : Nat
  moved : List (MovedTable × Nat)
  cachesRecomputed : List (String × Nat)

/-- `ItemOutcome("unchanged")`. -/
def ItemOutcome.unchanged : ItemOutcome :=
  { status := .unchanged, reasons := [], splitId := none, discogsNativeId := none,
    aliasesMoved := 0, identifierCollisions := 0, supersessionOpened := false,
    chainsCompressed := 0, moved := movedTables.map fun table => (table, 0),
    cachesRecomputed := [] }

/-- Why a re-attachment rolls back: `ReattachConflictError` or `MergeConflictError`. -/
inductive Conflict where
  | heldElsewhere (foreign : List AliasKey)
  | merge (reason : MergeConflict)

/-! ## The statements -/

/-- The `musicbrainz.{table}` row with this MBID. -/
def isRow (kind : SplitKind) (mbid : String) (row : CachedRow) : Prop :=
  row.table = "musicbrainz." ++ kind.table ∧ row.key = mbid

instance (kind : SplitKind) (mbid : String) (row : CachedRow) : Decidable (isRow kind mbid row) :=
  inferInstanceAs (Decidable (_ ∧ _))

/-- The dictionary of `_LOCK_ALIASES` at a provider: the last row read wins. -/
def lockedAlias (aliases : List Alias) (entityKind mbid discogsId provider : String) :
    Option Nat :=
  (aliases.reverse.find? fun entry =>
    entry.provider = provider ∧ entry.validTo = none ∧ entry.entityKind = entityKind ∧
      ((entry.provider = "musicbrainz" ∧ entry.externalId = mbid) ∨
        (entry.provider = "discogs" ∧ entry.externalId = discogsId))).map (·.nativeId)

/-- The split item: where the row's alias resolves, or a stale cache names. -/
def splitItem (musicbrainzNativeId discogsNativeId : Nat) (gmItemId : Option Nat) : Option Nat :=
  if musicbrainzNativeId ≠ discogsNativeId then some musicbrainzNativeId
  else if gmItemId ≠ some discogsNativeId then gmItemId
  else none

/-- An alias the row's re-attachment may move: an identifier, or the row's own. -/
def ownAlias (kind : SplitKind) (mbid : String) (entry : Alias) : Prop :=
  entry.provider ∈ identifierProviders ∨
    (entry.provider = "musicbrainz" ∧ entry.entityKind = kind.entityKind ∧ entry.externalId = mbid)

instance (kind : SplitKind) (mbid : String) (entry : Alias) :
    Decidable (ownAlias kind mbid entry) :=
  inferInstanceAs (Decidable (_ ∨ _))

/-- `_GUARD_ITEM` and `_guard_reasons`. -/
def guardReasons (aliases : List Alias) (kind : SplitKind) (mbid : String) (splitId : Nat) :
    List GuardReason :=
  let held := heldAliases splitId aliases
  (if ∃ entry ∈ held, ¬ownAlias kind mbid entry then [.sharedNativeId] else []) ++
    if ∃ entry ∈ held, entry.source ≠ "catalog" then [.nonCatalogAlias] else []

/-- `_SET_GM_ITEM_ID` on one row. -/
def setGmItemId (kind : SplitKind) (mbid : String) (item : Nat) (row : CachedRow) : CachedRow :=
  if isRow kind mbid row then { row with gmItemId := some item } else row

/-! ## The transaction -/

/-- `reattach_item` from the item locks on. -/
def reattachSplit (db : Db) (kind : SplitKind) (mbid : String) (splitId discogsNativeId : Nat)
    (decisionRef : Nat) (now : Instant) : Except Conflict (Db × ItemOutcome) :=
  match lockItems db splitId discogsNativeId with
  | .error reason => .error (.merge reason)
  | .ok itemKind =>
      let reasons := guardReasons db.aliases kind mbid splitId
      if reasons ≠ [] then
        .ok (db, { ItemOutcome.unchanged with
          status := .guarded, reasons, splitId := some splitId,
          discogsNativeId := some discogsNativeId })
      else
        match currentSupersession db splitId discogsNativeId with
        | .error reason => .error (.merge reason)
        | .ok existing =>
            match moveAliases splitId discogsNativeId now db.aliases with
            | .error foreign => .error (.heldElsewhere foreign)
            | .ok (aliases, aliasesMoved, collisions) =>
                let cached := db.caches.map (setGmItemId kind mbid discogsNativeId)
                let (next, merge) := mergeItems { db with aliases, caches := cached } splitId
                  discogsNativeId itemKind .catalogReattachment decisionRef existing now
                .ok (next,
                  { status := .reattached, reasons := [], splitId := some splitId,
                    discogsNativeId := some discogsNativeId, aliasesMoved,
                    identifierCollisions := collisions, supersessionOpened := merge.opened,
                    chainsCompressed := merge.chainsCompressed, moved := merge.moved,
                    cachesRecomputed := merge.cachesRecomputed })

/-- The split item and the Discogs item of a row, from the row and its two aliases as locked.
`discogsIds` is the `{column}::text` of a `musicbrainz` row, by its table and MBID. -/
def splitOf (db : Db) (discogsIds : String → String → Option String) (kind : SplitKind)
    (mbid : String) : Option (Nat × Nat) := do
  let row ← db.caches.find? fun row => isRow kind mbid row
  let discogsId ← discogsIds kind.table mbid
  let musicbrainzNativeId ← lockedAlias db.aliases kind.entityKind mbid discogsId "musicbrainz"
  let discogsNativeId ← lockedAlias db.aliases kind.entityKind mbid discogsId "discogs"
  let splitId ← splitItem musicbrainzNativeId discogsNativeId row.gmItemId
  pure (splitId, discogsNativeId)

/-- `reattach_item`. -/
def reattachItem (db : Db) (discogsIds : String → String → Option String) (kind : SplitKind)
    (mbid : String) (decisionRef : Nat) (now : Instant) : Except Conflict (Db × ItemOutcome) :=
  match splitOf db discogsIds kind mbid with
  | none => .ok (db, .unchanged)
  | some (splitId, discogsNativeId) =>
      reattachSplit db kind mbid splitId discogsNativeId decisionRef now

/-- `_reattach_one`: the database after the caller's transaction. -/
def reattachOne (db : Db) (discogsIds : String → String → Option String) (kind : SplitKind)
    (mbid : String) (decisionRef : Nat) (now : Instant) : Db :=
  match reattachItem db discogsIds kind mbid decisionRef now with
  | .ok (next, _) => next
  | .error _ => db

/-! ## What each step does -/

section Steps

variable {aliases : List Alias} {kind : SplitKind} {mbid : String}

/-- Under the unique index, the dictionary of `_LOCK_ALIASES` holds the holder of the key. -/
theorem locked_alias_iff (hsingle : SingleHolder aliases) (mbid discogsId : String)
    {provider externalId : String}
    (hkey : (provider = "musicbrainz" ∧ externalId = mbid) ∨
      (provider = "discogs" ∧ externalId = discogsId)) {item : Nat} :
    lockedAlias aliases kind.entityKind mbid discogsId provider = some item ↔
      HeldBy aliases (provider, kind.entityKind, externalId) item := by
  have hrow : ∀ entry : Alias, (entry.provider = provider ∧ entry.validTo = none ∧
      entry.entityKind = kind.entityKind ∧
        ((entry.provider = "musicbrainz" ∧ entry.externalId = mbid) ∨
          (entry.provider = "discogs" ∧ entry.externalId = discogsId))) ↔
      entry.key = (provider, kind.entityKind, externalId) ∧ entry.validTo = none := by
    intro entry
    rw [Alias.key, Prod.mk.injEq, Prod.mk.injEq]
    constructor
    · rintro ⟨hprovider, hopen, hentity, hexternal⟩
      refine ⟨⟨hprovider, hentity, ?_⟩, hopen⟩
      rw [hprovider] at hexternal
      rcases hkey with ⟨rfl, rfl⟩ | ⟨rfl, rfl⟩ <;>
        rcases hexternal with ⟨hsame, hexternal⟩ | ⟨hsame, hexternal⟩
      · exact hexternal
      · exact absurd hsame (by decide)
      · exact absurd hsame (by decide)
      · exact hexternal
    · rintro ⟨⟨hprovider, hentity, hexternal⟩, hopen⟩
      refine ⟨hprovider, hopen, hentity, ?_⟩
      rw [hprovider, hexternal]
      exact hkey
  unfold lockedAlias
  constructor
  · intro hfound
    obtain ⟨entry, hentry, rfl⟩ := Option.map_eq_some_iff.mp hfound
    have hcond := List.find?_some hentry
    rw [decide_eq_true_eq, hrow] at hcond
    exact ⟨entry, List.mem_reverse.mp (List.mem_of_find?_eq_some hentry), hcond.1, rfl, hcond.2⟩
  · rintro ⟨entry, hentry, hsame, rfl, hopen⟩
    cases hfound : aliases.reverse.find? (fun entry => decide (entry.provider = provider ∧
        entry.validTo = none ∧ entry.entityKind = kind.entityKind ∧
          ((entry.provider = "musicbrainz" ∧ entry.externalId = mbid) ∨
            (entry.provider = "discogs" ∧ entry.externalId = discogsId)))) with
    | none =>
        refine absurd (decide_eq_true ((hrow entry).mpr ⟨hsame, hopen⟩)) ?_
        exact List.find?_eq_none.mp hfound entry (List.mem_reverse.mpr hentry)
    | some other =>
        have hcond := List.find?_some hfound
        rw [decide_eq_true_eq, hrow] at hcond
        rw [Option.map_some, hsingle _ other.nativeId entry.nativeId
          ⟨other, List.mem_reverse.mp (List.mem_of_find?_eq_some hfound), hcond.1, rfl, hcond.2⟩
          ⟨entry, hentry, hsame, rfl, hopen⟩]

/-- The split item is not the Discogs item; the row's alias is on one of the two. -/
theorem split_item_some {musicbrainzNativeId discogsNativeId splitId : Nat} {gmItemId : Option Nat}
    (h : splitItem musicbrainzNativeId discogsNativeId gmItemId = some splitId) :
    splitId ≠ discogsNativeId ∧
      (musicbrainzNativeId = splitId ∨ musicbrainzNativeId = discogsNativeId) := by
  unfold splitItem at h
  by_cases hsame : musicbrainzNativeId = discogsNativeId
  · rw [if_neg (not_not.mpr hsame)] at h
    by_cases hcached : gmItemId = some discogsNativeId
    · rw [if_neg (not_not.mpr hcached)] at h
      cases h
    · rw [if_pos hcached] at h
      exact ⟨fun heq => hcached (heq ▸ h), Or.inr hsame⟩
  · rw [if_pos hsame] at h
    obtain rfl := Option.some.inj h
    exact ⟨hsame, Or.inl rfl⟩

/-- An unguarded item holds only what the re-attachment may move. -/
theorem guard_reasons_nil {splitId : Nat} (h : guardReasons aliases kind mbid splitId = [])
    {entry : Alias} (hentry : entry ∈ heldAliases splitId aliases) :
    ownAlias kind mbid entry ∧ entry.source = "catalog" := by
  rw [guardReasons, List.append_eq_nil_iff] at h
  obtain ⟨hshared, hsource⟩ := h
  constructor
  · by_contra hother
    rw [if_pos ⟨entry, hentry, hother⟩] at hshared
    cases hshared
  · by_contra hother
    rw [if_pos ⟨entry, hentry, hother⟩] at hsource
    cases hsource

/-- The tables after steps 5-7 of a merge. -/
theorem merge_items_tables (db : Db) {superseded survivor : Nat} (hne : superseded ≠ survivor)
    (kind : EntityKind) (cause : Cause) (decisionRef : Nat) (existing : Option Nat)
    (now : Instant) {next : Db} {outcome : MergeOutcome}
    (h : mergeItems db superseded survivor kind cause decisionRef existing now =
      (next, outcome)) :
    next.kinds = db.kinds ∧ next.aliases = db.aliases ∧
      next.dependents = db.dependents.map (repointed superseded survivor) ∧
      next.caches = db.caches.map (refresh db.aliases kind [superseded, survivor]) ∧
      (existing ≠ none → next.supersessions = db.supersessions) ∧
      (existing = none → next.supersessions =
        openAndCompress db.supersessions db.nextId superseded survivor cause decisionRef now) := by
  have hnext := congrArg Prod.fst h
  cases existing with
  | some row =>
      simp only [mergeItems, repoint_all_eq _ _ _ _ _ hne, recompute_caches_eq] at hnext
      refine ⟨?_, ?_, ?_, ?_, fun _ => ?_, fun hnone => absurd hnone (Option.some_ne_none row)⟩ <;>
        rw [← hnext]
  | none =>
      simp only [mergeItems, repoint_all_eq _ _ _ _ _ hne, recompute_caches_eq] at hnext
      refine ⟨?_, ?_, ?_, ?_, fun hsome => absurd rfl hsome, fun _ => ?_⟩ <;> rw [← hnext]

/-- A cache table of MusicBrainz rows is resolved through the rows' own aliases. -/
theorem cache_of_kind (hkind : kind ∈ kinds.map (·.2)) {entityKind : EntityKind}
    {cache : CacheTable} (hcache : cache ∈ cacheTables entityKind)
    (htable : cache.table = "musicbrainz." ++ kind.table) :
    cache.provider = "musicbrainz" ∧ cache.entityKind = kind.entityKind := by
  have hall : ∀ kind ∈ kinds.map (·.2), ∀ cache ∈ cacheTables entityKind,
      cache.table = "musicbrainz." ++ kind.table →
      cache.provider = "musicbrainz" ∧ cache.entityKind = kind.entityKind := by
    cases entityKind <;> decide
  exact hall kind hkind cache hcache htable

theorem set_gm_item_id_row (item : Nat) {row : CachedRow} :
    isRow kind mbid (setGmItemId kind mbid item row) ↔ isRow kind mbid row := by
  unfold setGmItemId
  split <;> rfl

theorem refresh_keys (aliases : List Alias) (entityKind : EntityKind) (items : List Nat)
    (row : CachedRow) : (refresh aliases entityKind items row).table = row.table ∧
      (refresh aliases entityKind items row).key = row.key := by
  have hstep : ∀ (cache : CacheTable) (row : CachedRow),
      (recomputeRow aliases cache items row).table = row.table ∧
        (recomputeRow aliases cache items row).key = row.key := by
    intro cache row
    unfold recomputeRow
    split <;> exact ⟨rfl, rfl⟩
  have hfold : ∀ (tables : List CacheTable) (row : CachedRow),
      (tables.foldl (fun row cache => recomputeRow aliases cache items row) row).table = row.table ∧
        (tables.foldl (fun row cache => recomputeRow aliases cache items row) row).key =
          row.key := by
    intro tables
    induction tables with
    | nil => exact fun row => ⟨rfl, rfl⟩
    | cons cache tables ih =>
        intro row
        rw [List.foldl_cons]
        exact ⟨(ih _).1.trans (hstep cache row).1, (ih _).2.trans (hstep cache row).2⟩
  exact hfold _ row

/-- The row's cache names the item that holds its alias, whatever step 7 recomputes. -/
theorem refresh_row (hsingle : SingleHolder aliases) (hkind : kind ∈ kinds.map (·.2)) {item : Nat}
    (hheld : HeldBy aliases ("musicbrainz", kind.entityKind, mbid) item)
    {entityKind : EntityKind} {items : List Nat} {row : CachedRow} (hrow : isRow kind mbid row)
    (hcached : row.gmItemId = some item) :
    (refresh aliases entityKind items row).gmItemId = some item := by
  rcases refresh_cases hsingle entityKind items row with hsame |
    ⟨cached, cache, holder, -, -, hcache, htable, hholder, hnew⟩
  · rw [hsame, hcached]
  · obtain ⟨hprovider, hentity⟩ := cache_of_kind hkind hcache (htable.symm.trans hrow.1)
    rw [cacheKey, hprovider, hentity, hrow.2] at hholder
    rw [hnew, hsingle _ _ _ hholder hheld]

end Steps

/-! ## A re-attached item -/

/-- One open row per superseded item. -/
def SingleOpen (rows : List Supersession) : Prop :=
  ∀ item, (rows.filter fun row => row.supersededId = item ∧ row.validTo = none).length ≤ 1

/-- The survivors of an item's open rows. -/
def openSurvivors (rows : List Supersession) (item : Nat) : List Nat :=
  (rows.filter fun row => row.supersededId = item ∧ row.validTo = none).map (·.survivorId)

/-- What a re-attachment of the split item to the Discogs item leaves. -/
structure Reattached (db next : Db) (kind : SplitKind) (mbid : String)
    (splitId discogsNativeId : Nat) (now : Instant) (outcome : ItemOutcome) : Prop where
  /-- The split item held identifiers and the row's own alias only, as the catalog's. -/
  own : ∀ entry ∈ heldAliases splitId db.aliases,
    ownAlias kind mbid entry ∧ entry.source = "catalog"
  /-- The other items' current aliases are as they were, the split item's are the Discogs item's. -/
  current : currentAliases next.aliases =
    ((currentAliases db.aliases).filter fun entry => entry.nativeId ≠ splitId) ++
      (heldAliases splitId db.aliases).map (reinsertAlias discogsNativeId now)
  unique : UniqueCurrent next.aliases
  emptied : heldAliases splitId next.aliases = []
  moved : outcome.aliasesMoved = (heldAliases splitId db.aliases).length
  collisions : outcome.identifierCollisions = 0
  cached : ∀ row ∈ next.caches, isRow kind mbid row → row.gmItemId = some discogsNativeId
  superseded : openSurvivors next.supersessions splitId = [discogsNativeId]
  survives : openRow next.supersessions discogsNativeId = none
  dependents : ∀ row ∈ next.dependents, row.itemId ≠ splitId

section Merge

variable {rows : List Supersession} {splitId discogsNativeId : Nat}

/-- The open row of the pair is the split item's only one. -/
theorem open_survivors_existing (h : SingleOpen rows) {row : Supersession}
    (hrow : openRow rows splitId = some row) (hto : row.survivorId = discogsNativeId) :
    openSurvivors rows splitId = [discogsNativeId] := by
  obtain ⟨hmem, hitem, hopen⟩ := open_row_some hrow
  have hin : row ∈ rows.filter fun row => row.supersededId = splitId ∧ row.validTo = none :=
    List.mem_filter.mpr ⟨hmem, decide_eq_true ⟨hitem, hopen⟩⟩
  have hlength := h splitId
  obtain ⟨other, hother⟩ := List.length_eq_one_iff.mp
    (Nat.le_antisymm hlength (List.length_pos_of_mem hin))
  rw [hother] at hin
  rw [openSurvivors, hother, ← List.mem_singleton.mp hin, List.map_cons, List.map_nil, hto]

/-- The row a merge opens is the split item's only one. -/
theorem open_survivors_fresh (hne : splitId ≠ discogsNativeId)
    (hnone : openRow rows splitId = none) (nextId : Nat) (cause : Cause) (decisionRef : Nat)
    (now : Instant) :
    openSurvivors (openAndCompress rows nextId splitId discogsNativeId cause decisionRef now)
      splitId = [discogsNativeId] := by
  have hold : (rows.map (closeSurvived splitId now)).filter
      (fun row => row.supersededId = splitId ∧ row.validTo = none) = [] := by
    refine List.filter_eq_nil_iff.mpr fun row hrow hcond => ?_
    obtain ⟨old, hmem, rfl⟩ := List.mem_map.mp hrow
    rw [decide_eq_true_eq, close_survived_superseded] at hcond
    exact open_row_none hnone hmem (close_survived_open hcond.2).1 hcond.1
  have hcompressed : ((survived splitId rows).zipIdx.map fun entry =>
      compressedRow discogsNativeId nextId now entry.1 (nextId + 1 + entry.2)).filter
        (fun row => row.supersededId = splitId ∧ row.validTo = none) = [] := by
    refine List.filter_eq_nil_iff.mpr fun row hrow hcond => ?_
    obtain ⟨⟨old, k⟩, hmem, rfl⟩ := List.mem_map.mp hrow
    rw [decide_eq_true_eq] at hcond
    obtain ⟨hin, -, hopen⟩ := mem_survived.mp (List.mem_of_getElem?
      (List.mem_zipIdx_iff_getElem?.mp hmem))
    exact open_row_none hnone hin hopen hcond.1
  rw [openSurvivors, open_and_compress_eq hne, List.filter_append, hold, List.nil_append,
    List.filter_cons, hcompressed]
  simp [openedRow]

/-- The survivor of a fresh merge stays unmerged. -/
theorem survivor_unmerged (hne : splitId ≠ discogsNativeId)
    (hnone : openRow rows discogsNativeId = none) (nextId : Nat) (cause : Cause)
    (decisionRef : Nat) (now : Instant) :
    openRow (openAndCompress rows nextId splitId discogsNativeId cause decisionRef now)
      discogsNativeId = none := by
  refine List.find?_eq_none.mpr fun row hrow hcond => ?_
  rw [decide_eq_true_eq] at hcond
  rcases (mem_open_and_compress hne).mp (List.mem_reverse.mp hrow) with
    ⟨old, hmem, rfl⟩ | rfl | ⟨old, k, hk, rfl⟩
  · rw [close_survived_superseded] at hcond
    exact open_row_none hnone hmem (close_survived_open hcond.2).1 hcond.1
  · exact hne hcond.1
  · obtain ⟨hin, -, hopen⟩ := mem_survived.mp (List.mem_of_getElem? hk)
    exact open_row_none hnone hin hopen hcond.1

end Merge

section Outcome

variable {db next : Db} {discogsIds : String → String → Option String} {kind : SplitKind}
  {mbid : String} {decisionRef : Nat} {now : Instant} {outcome : ItemOutcome}

/-- From the locks on, the split item is guarded and nothing is written, or it is re-attached. -/
theorem reattach_split_cases (hunique : UniqueCurrent db.aliases) {splitId discogsNativeId : Nat}
    (h : reattachSplit db kind mbid splitId discogsNativeId decisionRef now =
      .ok (next, outcome)) :
    (outcome.status = .guarded ∧ next = db) ∨
      (outcome.status = .reattached ∧ outcome.splitId = some splitId ∧
        outcome.discogsNativeId = some discogsNativeId ∧
        outcome.aliasesMoved = (heldAliases splitId db.aliases).length ∧
        outcome.identifierCollisions = 0 ∧ guardReasons db.aliases kind mbid splitId = [] ∧
        ∃ itemKind existing merge, lockItems db splitId discogsNativeId = .ok itemKind ∧
          currentSupersession db splitId discogsNativeId = .ok existing ∧
          mergeItems { db with
            aliases := db.aliases.map (closeAlias splitId now) ++
              (heldAliases splitId db.aliases).map (reinsertAlias discogsNativeId now)
            caches := db.caches.map (setGmItemId kind mbid discogsNativeId) } splitId
              discogsNativeId itemKind .catalogReattachment decisionRef existing now =
            (next, merge)) := by
  unfold reattachSplit at h
  cases hlock : lockItems db splitId discogsNativeId with
  | error reason =>
      rw [hlock] at h
      cases h
  | ok itemKind =>
      rw [hlock] at h
      dsimp only at h
      by_cases hreasons : guardReasons db.aliases kind mbid splitId = []
      · rw [if_neg (not_not.mpr hreasons)] at h
        cases hcurrent : currentSupersession db splitId discogsNativeId with
        | error reason =>
            rw [hcurrent] at h
            cases h
        | ok existing =>
            rw [hcurrent, move_aliases_eq hunique] at h
            have hpair := Except.ok.inj h
            have hnext := congrArg Prod.fst hpair
            obtain rfl := congrArg Prod.snd hpair
            exact Or.inr ⟨rfl, rfl, rfl, rfl, rfl, hreasons, itemKind, existing, _, rfl,
              rfl, Prod.ext hnext rfl⟩
      · rw [if_pos hreasons] at h
        have hpair := Except.ok.inj h
        obtain rfl := congrArg Prod.fst hpair
        obtain rfl := congrArg Prod.snd hpair
        exact Or.inl ⟨rfl, rfl⟩

/-- The row and the two aliases a split is read from. -/
theorem split_of_some {splitId discogsNativeId : Nat}
    (h : splitOf db discogsIds kind mbid = some (splitId, discogsNativeId)) :
    ∃ row discogsId musicbrainzNativeId,
      db.caches.find? (fun row => isRow kind mbid row) = some row ∧
      discogsIds kind.table mbid = some discogsId ∧
      lockedAlias db.aliases kind.entityKind mbid discogsId "musicbrainz" =
        some musicbrainzNativeId ∧
      lockedAlias db.aliases kind.entityKind mbid discogsId "discogs" = some discogsNativeId ∧
      splitItem musicbrainzNativeId discogsNativeId row.gmItemId = some splitId := by
  simp only [splitOf, Option.bind_eq_bind, Option.bind_eq_some_iff, Option.pure_def,
    Option.some.injEq, Prod.mk.injEq] at h
  obtain ⟨row, hrow, discogsId, hdiscogs, musicbrainzNativeId, hmusicbrainz, _, hresolved, _, hsplit,
    rfl, rfl⟩ := h
  exact ⟨row, discogsId, musicbrainzNativeId, hrow, hdiscogs, hmusicbrainz, hresolved, hsplit⟩

/-- `reattach_item` leaves the tables alone, or goes on with the item its row is split from. -/
theorem reattach_item_cases
    (h : reattachItem db discogsIds kind mbid decisionRef now = .ok (next, outcome)) :
    (outcome.status = .unchanged ∧ next = db) ∨
      ∃ splitId discogsNativeId,
        splitOf db discogsIds kind mbid = some (splitId, discogsNativeId) ∧
        reattachSplit db kind mbid splitId discogsNativeId decisionRef now =
          .ok (next, outcome) := by
  unfold reattachItem at h
  split at h
  · obtain ⟨rfl, rfl⟩ := Prod.mk.inj (Except.ok.inj h)
    exact Or.inl ⟨rfl, rfl⟩
  · rename_i splitId discogsNativeId hsplit
    exact Or.inr ⟨splitId, discogsNativeId, hsplit, h⟩

/-- The row of a table that is rewritten keeping its keys. -/
theorem find_row_map {caches : List CachedRow} {f : CachedRow → CachedRow} {row : CachedRow}
    (hf : ∀ row, isRow kind mbid (f row) ↔ isRow kind mbid row)
    (h : caches.find? (fun row => isRow kind mbid row) = some row) :
    (caches.map f).find? (fun row => isRow kind mbid row) = some (f row) := by
  have hsame : ((fun row => decide (isRow kind mbid row)) ∘ f) =
      fun row => decide (isRow kind mbid row) :=
    funext fun row => by simp only [Function.comp_apply, hf row]
  rw [List.find?_map, hsame, h, Option.map_some]

/-- A row whose two aliases and cache agree is left alone. -/
theorem reattach_item_unchanged {row : CachedRow} {discogsId : String} {discogsNativeId : Nat}
    (hunique : UniqueCurrent db.aliases)
    (hrow : db.caches.find? (fun row => isRow kind mbid row) = some row)
    (hcached : row.gmItemId = some discogsNativeId)
    (hdiscogs : discogsIds kind.table mbid = some discogsId)
    (hmusicbrainz : HeldBy db.aliases ("musicbrainz", kind.entityKind, mbid) discogsNativeId)
    (hresolved : HeldBy db.aliases ("discogs", kind.entityKind, discogsId) discogsNativeId) :
    reattachItem db discogsIds kind mbid decisionRef now = .ok (db, .unchanged) := by
  have hsingle := unique_single hunique
  have hfirst := (locked_alias_iff hsingle mbid discogsId (Or.inl ⟨rfl, rfl⟩)).mpr hmusicbrainz
  have hsecond := (locked_alias_iff hsingle mbid discogsId (Or.inr ⟨rfl, rfl⟩)).mpr hresolved
  have hstay : splitItem discogsNativeId discogsNativeId (some discogsNativeId) = none := by
    rw [splitItem, if_neg (not_not.mpr rfl), if_neg (not_not.mpr rfl)]
  have hnone : splitOf db discogsIds kind mbid = none := by
    simp only [splitOf, hrow, hdiscogs, hfirst, hsecond, hcached, hstay, Option.bind_eq_bind,
      Option.bind_some, Option.bind_none]
  rw [reattachItem, hnone]

section Committed

variable {splitId discogsNativeId : Nat} {itemKind : EntityKind} {existing : Option Nat}
  {merge : MergeOutcome} (hne : splitId ≠ discogsNativeId)
  (hmerge : mergeItems { db with
      aliases := db.aliases.map (closeAlias splitId now) ++
        (heldAliases splitId db.aliases).map (reinsertAlias discogsNativeId now)
      caches := db.caches.map (setGmItemId kind mbid discogsNativeId) } splitId discogsNativeId
        itemKind .catalogReattachment decisionRef existing now = (next, merge))
include hne hmerge

omit hne in
/-- The merge of a re-attachment is the merge transaction on the moved aliases. -/
theorem committed_merge_pair (hlock : lockItems db splitId discogsNativeId = .ok itemKind)
    (hcurrent : currentSupersession db splitId discogsNativeId = .ok existing) :
    mergePair { db with
      aliases := db.aliases.map (closeAlias splitId now) ++
        (heldAliases splitId db.aliases).map (reinsertAlias discogsNativeId now)
      caches := db.caches.map (setGmItemId kind mbid discogsNativeId) } splitId discogsNativeId
        .catalogReattachment decisionRef now = .ok (next, merge) := by
  have hlock' : ∀ aliases caches, lockItems { db with aliases, caches } splitId discogsNativeId =
      .ok itemKind := fun _ _ => hlock
  have hcurrent' : ∀ aliases caches, currentSupersession { db with aliases, caches } splitId
      discogsNativeId = .ok existing := fun _ _ => hcurrent
  simp only [mergePair, hlock', hcurrent', bind, Except.bind, hmerge, pure, Except.pure]

theorem committed_unique (hunique : UniqueCurrent db.aliases) : UniqueCurrent next.aliases := by
  obtain ⟨-, haliases, -⟩ := merge_items_tables _ hne _ _ _ _ _ hmerge
  rw [haliases]
  exact unique_moved hunique

/-- A key of either item is the Discogs item's after the move. -/
theorem committed_held {key : AliasKey} {item : Nat} (hheld : HeldBy db.aliases key item)
    (hitem : item = splitId ∨ item = discogsNativeId) :
    HeldBy next.aliases key discogsNativeId := by
  obtain ⟨-, haliases, -⟩ := merge_items_tables _ hne _ _ _ _ _ hmerge
  rw [haliases, moved_aliases]
  rcases hitem with rfl | rfl
  · exact Or.inr ⟨rfl, hheld, hheld⟩
  · exact Or.inl ⟨hheld, fun h => hne h.2.symm⟩

theorem committed_caches : next.caches = db.caches.map fun row =>
    refresh next.aliases itemKind [splitId, discogsNativeId]
      (setGmItemId kind mbid discogsNativeId row) := by
  obtain ⟨-, haliases, -, hcaches, -⟩ := merge_items_tables _ hne _ _ _ _ _ hmerge
  rw [hcaches, List.map_map, haliases]
  rfl

omit hne hmerge in
theorem committed_row (aliases : List Alias) (itemKind : EntityKind)
    (splitId discogsNativeId : Nat) (row : CachedRow) :
    isRow kind mbid (refresh aliases itemKind [splitId, discogsNativeId]
      (setGmItemId kind mbid discogsNativeId row)) ↔ isRow kind mbid row := by
  obtain ⟨htable, hkey⟩ := refresh_keys aliases itemKind [splitId, discogsNativeId]
    (setGmItemId kind mbid discogsNativeId row)
  rw [isRow, htable, hkey]
  exact set_gm_item_id_row discogsNativeId

/-- The row's cache names the Discogs item once its alias is there. -/
theorem committed_cached (hunique : UniqueCurrent db.aliases) (hkind : kind ∈ kinds.map (·.2))
    (hheld : HeldBy next.aliases ("musicbrainz", kind.entityKind, mbid) discogsNativeId)
    {row : CachedRow} (hrow : isRow kind mbid row) :
    (refresh next.aliases itemKind [splitId, discogsNativeId]
      (setGmItemId kind mbid discogsNativeId row)).gmItemId = some discogsNativeId := by
  refine refresh_row (unique_single (committed_unique hne hmerge hunique)) hkind hheld
    ((set_gm_item_id_row discogsNativeId).mpr hrow) ?_
  rw [setGmItemId, if_pos hrow]

/-- A committed re-attachment leaves the item as `Reattached` says. -/
theorem committed_reattached (hunique : UniqueCurrent db.aliases)
    (hopen : SingleOpen db.supersessions) (hkind : kind ∈ kinds.map (·.2))
    (hguards : guardReasons db.aliases kind mbid splitId = [])
    (hcurrent : currentSupersession db splitId discogsNativeId = .ok existing)
    (hmoved : outcome.aliasesMoved = (heldAliases splitId db.aliases).length)
    (hcollisions : outcome.identifierCollisions = 0)
    (hheld : HeldBy next.aliases ("musicbrainz", kind.entityKind, mbid) discogsNativeId) :
    Reattached db next kind mbid splitId discogsNativeId now outcome := by
  obtain ⟨-, haliases, hdependents, -, hsome, hnone⟩ := merge_items_tables _ hne _ _ _ _ _ hmerge
  dsimp only at haliases hdependents hsome hnone
  obtain ⟨hroot, hexisting⟩ := current_supersession_cases hcurrent
  constructor
  case own => exact fun entry hentry => guard_reasons_nil hguards hentry
  case current => rw [haliases, current_moved]
  case unique => exact committed_unique hne hmerge hunique
  case emptied =>
    rw [held_eq, haliases, current_moved]
    refine List.filter_eq_nil_iff.mpr fun entry hentry hitem => ?_
    rw [decide_eq_true_eq] at hitem
    rcases List.mem_append.mp hentry with hentry | hentry
    · exact of_decide_eq_true (List.mem_filter.mp hentry).2 hitem
    · obtain ⟨old, -, rfl⟩ := List.mem_map.mp hentry
      exact hne hitem.symm
  case moved => exact hmoved
  case collisions => exact hcollisions
  case cached =>
    rw [committed_caches hne hmerge]
    intro row hrow hkey
    obtain ⟨old, -, rfl⟩ := List.mem_map.mp hrow
    exact committed_cached hne hmerge hunique hkind hheld ((committed_row _ _ _ _ old).mp hkey)
  case superseded =>
    rcases hexisting with ⟨rfl, hunmerged⟩ | ⟨row, hrow, hto, rfl⟩
    · rw [hnone rfl]
      exact open_survivors_fresh hne hunmerged _ _ _ _
    · rw [hsome (Option.some_ne_none _)]
      exact open_survivors_existing hopen hrow hto
  case survives =>
    rcases hexisting with ⟨rfl, -⟩ | ⟨row, -, -, rfl⟩
    · rw [hnone rfl]
      exact survivor_unmerged hne hroot _ _ _ _
    · rw [hsome (Option.some_ne_none _)]
      exact hroot
  case dependents =>
    rw [hdependents]
    intro row hrow
    obtain ⟨old, -, rfl⟩ := List.mem_map.mp hrow
    rw [repointed_item]
    split
    · exact hne.symm
    · assumption

end Committed

/-- A re-attachment of one row is all or nothing: without one the tables are as they were, and a
re-attached item leaves no trace on the split item and nothing for a second run. -/
theorem reattachment_all_or_nothing (db : Db) (discogsIds : String → String → Option String)
    (kind : SplitKind) (mbid : String) (decisionRef : Nat) (now : Instant)
    (hunique : UniqueCurrent db.aliases) (hopen : SingleOpen db.supersessions)
    (hkind : kind ∈ kinds.map (·.2)) :
    (∀ next outcome, reattachItem db discogsIds kind mbid decisionRef now = .ok (next, outcome) →
      outcome.status ≠ .reattached →
      reattachOne db discogsIds kind mbid decisionRef now = db) ∧
    (∀ conflict, reattachItem db discogsIds kind mbid decisionRef now = .error conflict →
      reattachOne db discogsIds kind mbid decisionRef now = db) ∧
    ∀ next outcome, reattachItem db discogsIds kind mbid decisionRef now = .ok (next, outcome) →
      outcome.status = .reattached → ∃ splitId discogsNativeId,
        outcome.splitId = some splitId ∧ outcome.discogsNativeId = some discogsNativeId ∧
        Reattached db next kind mbid splitId discogsNativeId now outcome ∧
        ∀ laterRef later, reattachItem next discogsIds kind mbid laterRef later =
          .ok (next, .unchanged) := by
  refine ⟨fun next outcome h hstatus => ?_, fun conflict h => by rw [reattachOne, h],
    fun next outcome h hstatus => ?_⟩
  · rw [reattachOne, h]
    rcases reattach_item_cases h with ⟨-, hsame⟩ | ⟨splitId, discogsNativeId, -, hsplit⟩
    · exact hsame
    · rcases reattach_split_cases hunique hsplit with ⟨-, hsame⟩ | ⟨hreattached, -⟩
      · exact hsame
      · exact absurd hreattached hstatus
  · rcases reattach_item_cases h with ⟨hunchanged, -⟩ | ⟨splitId, discogsNativeId, hsplitOf, hsplit⟩
    · rw [hstatus] at hunchanged
      cases hunchanged
    · obtain ⟨row, discogsId, musicbrainzNativeId, hrow, hdiscogs, hmusicbrainz, hresolved,
        hsplitItem⟩ := split_of_some hsplitOf
      obtain ⟨hne, hside⟩ := split_item_some hsplitItem
      rcases reattach_split_cases hunique hsplit with ⟨hguarded, -⟩ |
        ⟨-, hsplitId, hdiscogsId, hmoved, hcollisions, hguards, itemKind, existing, merge, -,
          hcurrent, hmerge⟩
      · rw [hstatus] at hguarded
        cases hguarded
      · -- both aliases that defined the split are on the Discogs item now
        have hsingle := unique_single hunique
        have hmusicbrainzNow := committed_held hne hmerge
          ((locked_alias_iff hsingle _ _ (Or.inl ⟨rfl, rfl⟩)).mp hmusicbrainz) hside
        have hdiscogsNow := committed_held hne hmerge
          ((locked_alias_iff hsingle _ _ (Or.inr ⟨rfl, rfl⟩)).mp hresolved) (Or.inr rfl)
        have hkey := List.find?_some hrow
        rw [decide_eq_true_eq] at hkey
        have hfound := find_row_map (committed_row next.aliases itemKind splitId discogsNativeId)
          hrow
        rw [← committed_caches hne hmerge] at hfound
        exact ⟨splitId, discogsNativeId, hsplitId, hdiscogsId,
          committed_reattached hne hmerge hunique hopen hkind hguards hcurrent hmoved hcollisions
            hmusicbrainzNow,
          fun laterRef later => reattach_item_unchanged (committed_unique hne hmerge hunique) hfound
            (committed_cached hne hmerge hunique hkind hmusicbrainzNow hkey) hdiscogs
            hmusicbrainzNow hdiscogsNow⟩

end Outcome

/-- A current alias the catalog attached. -/
def catalogAlias (provider externalId : String) (item : Nat) : Alias :=
  { provider, entityKind := "release", externalId, nativeId := item, source := "catalog",
    confidence := none, validFrom := 0, validTo := none }

/-- A release split over items 1 and 2, with a barcode and an owned copy on item 1. -/
def splitRelease : Db :=
  { unmerged with
    dependents := [{ table := .ownedCopies, id := 7, itemId := 1, owner := none }]
    aliases := [catalogAlias "musicbrainz" "m1" 1, catalogAlias "barcode" "b1" 1,
      catalogAlias "discogs" "d1" 2]
    caches := [{ table := "musicbrainz.releases", key := "m1", gmItemId := some 1 }] }

def releaseKind : SplitKind := ⟨"releases", "discogs_release_id", "release"⟩

theorem split_release_reattached : ∃ next outcome,
    reattachItem splitRelease (fun _ _ => some "d1") releaseKind "m1" 50 1 = .ok (next, outcome) ∧
      Reattached splitRelease next releaseKind "m1" 1 2 1 outcome ∧
      reattachItem next (fun _ _ => some "d1") releaseKind "m1" 51 2 = .ok (next, .unchanged) := by
  have hrun : ∃ next outcome, reattachItem splitRelease (fun _ _ => some "d1") releaseKind "m1" 50 1 =
      .ok (next, outcome) ∧ outcome.status = .reattached ∧ outcome.splitId = some 1 ∧
        outcome.discogsNativeId = some 2 := ⟨_, _, rfl, rfl, rfl, rfl⟩
  obtain ⟨next, outcome, hrun, hstatus, hsplit, hdiscogs⟩ := hrun
  obtain ⟨splitId, discogsNativeId, hsplitId, hdiscogsId, hreattached, hagain⟩ :=
    (reattachment_all_or_nothing splitRelease (fun _ _ => some "d1") releaseKind "m1" 50 1
      (by decide) (fun _ => Nat.zero_le _) (by decide)).2.2 next outcome hrun hstatus
  obtain rfl := Option.some.inj (hsplitId.symm.trans hsplit)
  obtain rfl := Option.some.inj (hdiscogsId.symm.trans hdiscogs)
  exact ⟨next, outcome, hrun, hreattached, hagain 51 2⟩

end CatalogApi.Reattach
