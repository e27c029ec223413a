import CatalogApi.CatalogMerge.Caches
import CatalogApi.CatalogMerge.Resolution
import CatalogApi.Lib.ByKey

/-!
# The rows of one work and the lookups over them

`LedgerRows` and the lookups of `_Ledger` in `api/identity_ledger.py`. A supersession is a row of
the merge tables and an alias a row of `provider_aliases`; the dictionaries the constructor fills
are read here straight from the rows, the last row of a key winning.
-/

namespace CatalogApi.IdentityLedger

open CatalogMerge ByKey

/-- A `public.releases` row with its master. -/
structure DiscogsRelease where
  dataId : String
  masterId : Option String

/-- A `musicbrainz.releases` row. -/
structure MusicbrainzRelease where
  mbid : String
  releaseGroupMbid : Option String
  discogsReleaseId : Option Int
  deriving DecidableEq

/-- The `event` column of `identity_link_events`. -/
inductive LinkChange where
  | linkAdded | linkChanged | linkRemoved
  deriving DecidableEq

/-- The `dated_from` column of `identity_link_events`. -/
inductive LinkDate where
  | musicbrainzFullexport | groovemapLoad

/-- A row of `identity_link_events`. -/
structure LinkEvent where
  provider : String
  entityKind : String
  externalId : String
  event : LinkChange
  discogsIdBefore : Option Int
  discogsIdAfter : Option Int
  eventAt : Instant
  datedFrom : LinkDate
  sourceRef : String
  decisionRef : Option Nat

/-- `LedgerRows`: the rows one work's payload reads. -/
structure LedgerRows where
  aliases : List Alias
  supersessions : List Supersession
  moveCounts : Nat → MovedTable → Option Nat
  discogsReleases : List DiscogsRelease
  musicbrainzReleases : List MusicbrainzRelease
  masterWorks : String → String → Option Nat
  linkEvents : List LinkEvent

/-- `STATES`. -/
inductive EditionState where
  | notRecorded | discogsOnly | musicbrainzOnly | unresolved | split | linked
  deriving DecidableEq

/-! ## Instants -/

/-- `_valid`. -/
def valid (entry : Alias) (t : Option Instant) : Prop :=
  match t with
  | none => entry.validTo = none
  | some t => entry.validFrom ≤ t ∧ ∀ closed ∈ entry.validTo, t < closed

instance (entry : Alias) : (t : Option Instant) → Decidable (valid entry t)
  | none => inferInstanceAs (Decidable (entry.validTo = none))
  | some _ => inferInstanceAs (Decidable (_ ≤ _ ∧ ∀ _ ∈ entry.validTo, _ < _))

/-- `_visible` of a recorded instant. -/
def visible (instant : Instant) (asOf : Option Instant) : Prop :=
  ∀ t ∈ asOf, instant ≤ t

instance (instant : Instant) (asOf : Option Instant) : Decidable (visible instant asOf) :=
  inferInstanceAs (Decidable (∀ _ ∈ asOf, _ ≤ _))

/-! ## Text -/

/-- A character `str.strip` removes. -/
def isSpace (c : Char) : Bool :=
  c.toNat ∈ [9, 10, 11, 12, 13, 28, 29, 30, 31, 32, 133, 160, 5760, 8232, 8233, 8239, 8287, 12288] ||
    (8192 ≤ c.toNat && c.toNat ≤ 8202)

/-- `str.strip`. -/
def strip (text : String) : String :=
  String.ofList ((text.toList.dropWhile isSpace).reverse.dropWhile isSpace).reverse

/-! ## Lookups -/

namespace LedgerRows

variable (rows : LedgerRows)

/-- The dictionary `current_alias` at a key. -/
def currentAlias (key : AliasKey) : Option Nat :=
  (rows.aliases.reverse.find? fun entry => entry.key = key ∧ entry.validTo = none).map (·.nativeId)

/-- `by_key`. -/
def byKey (key : AliasKey) : List Alias := rows.aliases.filter fun entry => entry.key = key

/-- `by_item`. -/
def byItem (item : Nat) : List Alias := rows.aliases.filter fun entry => entry.nativeId = item

/-- `mint`: an item's first recorded instant. -/
def mint (item : Nat) : Option Instant := ((rows.byItem item).map (·.validFrom)).min?

/-- `opened_instants`: a supersession into the item opened then, or one out of it closed. -/
def openedInstant (item : Nat) (instant : Instant) : Prop :=
  ∃ row ∈ rows.supersessions, (row.survivorId = item ∧ row.validFrom = instant) ∨
    (row.supersededId = item ∧ row.validTo = some instant)

/-- `closed_instants`: a supersession out of the item opened then, or one into it closed. -/
def closedInstant (item : Nat) (instant : Instant) : Prop :=
  ∃ row ∈ rows.supersessions, (row.supersededId = item ∧ row.validFrom = instant) ∨
    (row.survivorId = item ∧ row.validTo = some instant)

instance (item : Nat) (instant : Instant) : Decidable (rows.openedInstant item instant) :=
  inferInstanceAs (Decidable (∃ _ ∈ rows.supersessions, _ ∨ _))

instance (item : Nat) (instant : Instant) : Decidable (rows.closedInstant item instant) :=
  inferInstanceAs (Decidable (∃ _ ∈ rows.supersessions, _ ∨ _))

/-- `resolve`. -/
def resolve (item : Nat) : Nat := resolveItem rows.supersessions item

/-- `opened_by_supersession`. -/
def openedBySupersession (entry : Alias) : Prop :=
  rows.openedInstant entry.nativeId entry.validFrom

/-- `closed_by_supersession`. -/
def closedBySupersession (entry : Alias) : Prop :=
  ∃ t ∈ entry.validTo, rows.closedInstant entry.nativeId t

instance (entry : Alias) : Decidable (rows.openedBySupersession entry) :=
  inferInstanceAs (Decidable (rows.openedInstant _ _))

instance (entry : Alias) : Decidable (rows.closedBySupersession entry) :=
  inferInstanceAs (Decidable (∃ _ ∈ entry.validTo, _))

/-- `group`: the item, then every item currently superseded into it. -/
def group (item : Nat) : List Nat :=
  item :: sortedSet ((rows.supersessions.filter fun row =>
    row.survivorId = item ∧ row.validTo = none).map (·.supersededId))

/-- `holder`. -/
def holder (provider kind externalId : String) (t : Option Instant) : Option Nat :=
  ((rows.byKey (provider, kind, externalId)).find? fun entry => valid entry t).map (·.nativeId)

/-- `_resolves_to`. -/
def resolvesTo (key : AliasKey) (edition : Nat) : Prop :=
  ∃ item ∈ rows.currentAlias key, rows.resolve item = edition

instance (key : AliasKey) (edition : Nat) : Decidable (rows.resolvesTo key edition) :=
  inferInstanceAs (Decidable (∃ _ ∈ rows.currentAlias key, _))

/-- `musicbrainz_rows` of the group of this edition. -/
def musicbrainzRows (edition : Nat) : List MusicbrainzRelease :=
  rows.musicbrainzReleases.filter fun row =>
    rows.resolvesTo ("musicbrainz", "release", row.mbid) edition

/-- `discogs_rows` of the group of this edition. -/
def discogsRows (edition : Nat) : List DiscogsRelease :=
  rows.discogsReleases.filter fun row => rows.resolvesTo ("discogs", "release", row.dataId) edition

/-- `works`: the edition's works, its primary first. -/
def works (edition : Nat) : List Nat :=
  let discogs := sortedSet ((rows.discogsRows edition).filterMap fun row =>
    row.masterId.bind fun master => rows.masterWorks "discogs" (strip master))
  let musicbrainz := sortedSet ((rows.musicbrainzRows edition).filterMap fun row =>
    row.releaseGroupMbid.bind fun group => rows.masterWorks "musicbrainz" group)
  discogs ++ musicbrainz.filter fun work => work ∉ discogs

/-- What one MusicBrainz row of an edition says: its Discogs release has no item then, or another
one. -/
def rowState (t : Option Instant) (row : MusicbrainzRelease) : Option EditionState :=
  match row.discogsReleaseId with
  | none => none
  | some discogsId =>
      match rows.holder "musicbrainz" "release" row.mbid t,
        rows.holder "discogs" "release" (toString discogsId) t with
      | none, _ => none
      | some _, none => some .unresolved
      | some musicbrainzItem, some discogsItem =>
          if discogsItem ≠ musicbrainzItem then some .split else none

/-- The item holds an alias of this provider and kind then. -/
def held (item : Nat) (t : Option Instant) (kind provider : String) : Prop :=
  ∃ entry ∈ rows.byItem item, entry.entityKind = kind ∧ valid entry t ∧ entry.provider = provider

instance (item : Nat) (t : Option Instant) (kind provider : String) :
    Decidable (rows.held item t kind provider) :=
  inferInstanceAs (Decidable (∃ _ ∈ rows.byItem item, _ ∧ _ ∧ _))

/-- A member of the group holds a MusicBrainz alias then. -/
def groupHeld (group : List Nat) (t : Option Instant) : Prop :=
  ∃ member ∈ group, ∃ entry ∈ rows.byItem member, entry.provider = "musicbrainz" ∧ valid entry t

instance (group : List Nat) (t : Option Instant) : Decidable (rows.groupHeld group t) :=
  inferInstanceAs (Decidable (∃ _ ∈ group, ∃ _ ∈ rows.byItem _, _ ∧ _))

/-- `state`; the first row that says so decides between `unresolved` and `split`. -/
def state (item : Nat) (group : List Nat) (t : Option Instant) (kind : String) : EditionState :=
  if rows.held item t kind "discogs" ∧ rows.held item t kind "musicbrainz" then .linked
  else
    let named := if kind = "release" then
        (rows.musicbrainzRows (group.headD item)).findSome? (rows.rowState t)
      else none
    match named with
    | some state => state
    | none =>
        if rows.held item t kind "discogs" then .discogsOnly
        else if rows.held item t kind "musicbrainz" ∨ rows.groupHeld group t then .musicbrainzOnly
        else .notRecorded

end LedgerRows

end CatalogApi.IdentityLedger
