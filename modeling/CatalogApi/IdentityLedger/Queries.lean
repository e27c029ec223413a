import CatalogApi.IdentityLedger.Work
import CatalogApi.Lib.Text

/-!
# The rows selected for one work

`get_ledger_work` of `api/queries/identity_ledger_queries.py` over the tables it reads. A query
answers with rows of its table in table order, or in the stable order of its `ORDER BY`; the
editions of a work are an answer the payload is built from as it is. `allRows` is what
`LedgerRows` would be with nothing left out.
-/

namespace CatalogApi.IdentityLedger

open CatalogMerge ByKey

/-! ## UUID texts -/

/-- `str.replace(sub, "")`. -/
def eraseText (sub : List Char) : Nat → List Char → List Char
  | 0, text => text
  | _, [] => []
  | fuel + 1, c :: text =>
      if sub.isPrefixOf (c :: text) then eraseText sub fuel ((c :: text).drop sub.length)
      else c :: eraseText sub fuel text

/-- `str.strip("{}")`. -/
def stripBraces (text : List Char) : List Char :=
  ((text.dropWhile (· ∈ ['{', '}'])).reverse.dropWhile (· ∈ ['{', '}'])).reverse

/-- The 32 digits in groups of 8, 4, 4, 4 and 12. -/
def hyphenated (digits : List Char) : List Char :=
  digits.take 8 ++ '-' :: (digits.drop 8).take 4 ++ '-' :: (digits.drop 12).take 4 ++
    '-' :: (digits.drop 16).take 4 ++ '-' :: digits.drop 20

/-- A hexadecimal digit. -/
def isHex (c : Char) : Bool := c.isDigit || ('a' ≤ c && c ≤ 'f') || ('A' ≤ c && c ≤ 'F')

/-- `str(uuid.UUID(value))`, `none` when the value is not a UUID. -/
def uuidText (value : String) : Option String :=
  let text := value.toList
  let digits := (stripBraces (eraseText "uuid:".toList text.length
    (eraseText "urn:".toList text.length text))).filter (· ≠ '-')
  if digits.length = 32 ∧ digits.all isHex then
    some (String.ofList (hyphenated (digits.map Char.toLower)))
  else none

/-! ## The tables -/

/-- The tables of a snapshot. `editions` is what `_EDITIONS` answers for a work and `refreshedAt`
what `_REFRESHED_AT` answers; a MusicBrainz row's key is a UUID. -/
structure LedgerTables where
  kinds : Nat → Option EntityKind
  aliases : List Alias
  supersessions : List Supersession
  moves : List Move
  releases : List String
  derivedFrom : List (String × Option String)
  musicbrainzReleases : List MusicbrainzRelease
  linkEvents : List (Nat × LinkEvent)
  editions : Nat → List (Nat × Instant)
  refreshedAt : Option Instant
  mbids : ∀ row ∈ musicbrainzReleases, uuidText row.mbid = some row.mbid

/-- The order of `_LINK_EVENTS`. -/
def linkEventOrder (row : Nat × LinkEvent) : Instant ×ₗ Nat := toLex (row.2.eventAt, row.1)

namespace LedgerTables

variable (tables : LedgerTables)

/-- `_ALIASES` of these items. -/
def selectAliases (items : List Nat) : List Alias :=
  sortBy aliasOrder (tables.aliases.filter fun entry => entry.nativeId ∈ items)

/-- `_SUPERSESSIONS` of these items. -/
def selectSupersessions (items : List Nat) : List Supersession :=
  tables.supersessions.filter fun row => row.supersededId ∈ items ∨ row.survivorId ∈ items

/-- `_MOVE_COUNTS` of these supersessions. -/
def selectMoveCounts (ids : List Nat) (id : Nat) (table : MovedTable) : Option Nat :=
  let count := tables.moves.countP fun move =>
    move.supersessionId ∈ ids ∧ move.supersessionId = id ∧ move.tableName = table
  if count = 0 then none else some count

/-- The Discogs releases, each joined with its masters. -/
def discogsReleases : List DiscogsRelease :=
  tables.releases.flatMap fun dataId =>
    match tables.derivedFrom.filter fun derived => derived.1 = dataId with
    | [] => [{ dataId, masterId := none }]
    | masters => masters.map fun derived => { dataId, masterId := derived.2 }

/-- A master alias, joined with the work it resolves to. -/
def masterWork (master : Alias) : List ((String × String) × Nat) :=
  match tables.supersessions.filter fun row =>
    row.supersededId = master.nativeId ∧ row.validTo = none with
  | [] => [((master.provider, master.externalId), master.nativeId)]
  | rows => rows.map fun row => ((master.provider, master.externalId), row.survivorId)

/-- `_MASTER_WORKS` of the current master aliases a predicate wants. -/
def masterRows (wanted : String → String → Bool) : List ((String × String) × Nat) :=
  (tables.aliases.filter fun master => master.entityKind = "master" ∧ master.validTo = none ∧
    wanted master.provider master.externalId).flatMap tables.masterWork

/-- The dictionary of `_MASTER_WORKS`. -/
def masterWorks (wanted : String → String → Bool) (provider externalId : String) : Option Nat :=
  ((tables.masterRows wanted).reverse.find? fun row => row.1 = (provider, externalId)).map (·.2)

/-- `_LINK_EVENTS` of these releases and masters. -/
def selectLinkEvents (releases masters : List String) : List LinkEvent :=
  (sortBy linkEventOrder (tables.linkEvents.filter fun row => row.2.provider = "musicbrainz" ∧
    ((row.2.entityKind = "release" ∧ row.2.externalId ∈ releases) ∨
      (row.2.entityKind = "master" ∧ row.2.externalId ∈ masters)))).map (·.2)

/-- Every row of the tables. -/
def allRows : LedgerRows where
  aliases := tables.aliases
  supersessions := tables.supersessions
  moveCounts := tables.selectMoveCounts (tables.moves.map (·.supersessionId))
  discogsReleases := tables.discogsReleases
  musicbrainzReleases := tables.musicbrainzReleases
  masterWorks := tables.masterWorks fun provider _ => provider = "discogs" ∨ provider = "musicbrainz"
  linkEvents := (tables.linkEvents.filter fun row => row.2.provider = "musicbrainz").map (·.2)

/-- The members of the groups `_groups` answers for these items. -/
def selectItems (ids : List Nat) : List Nat :=
  sortedSet (ids.flatMap fun item => item :: (tables.supersessions.filter fun row =>
    row.survivorId = item ∧ row.validTo = none).map (·.supersededId))

/-- The current release aliases of these items with this provider. -/
def currentReleases (items : List Nat) (provider : String) : List String :=
  ((tables.selectAliases items).filter fun entry => entry.validTo = none ∧
    entry.entityKind = "release" ∧ entry.provider = provider).map (·.externalId)

/-- `_DISCOGS_RELEASES` of the items. -/
def selectDiscogs (items : List Nat) : List DiscogsRelease :=
  tables.discogsReleases.filter fun row => row.dataId ∈ tables.currentReleases items "discogs"

/-- `_MUSICBRAINZ_RELEASES` of the items. -/
def selectMusicbrainz (items : List Nat) : List MusicbrainzRelease :=
  tables.musicbrainzReleases.filter fun row =>
    row.mbid ∈ (tables.currentReleases items "musicbrainz").filterMap uuidText

/-- `_DISCOGS_HOLDERS` of the Discogs releases the MusicBrainz rows of the items name, but for the
items themselves. -/
def selectHolders (items : List Nat) : List Nat :=
  let named := (tables.selectMusicbrainz items).filterMap fun row =>
    row.discogsReleaseId.map toString
  sortedSet (((tables.aliases.filter fun entry => entry.provider = "discogs" ∧
      entry.entityKind = "release" ∧ entry.validTo = none ∧ entry.externalId ∈ named).map
    (·.nativeId)).filter fun item => item ∉ items)

/-- `LedgerRows` of the work and its shown editions. -/
def selectRows (work : Nat) (shown : List Nat) : LedgerRows :=
  let items := tables.selectItems (work :: shown)
  let holders := tables.selectHolders items
  let aliases := tables.selectAliases items ++
    if holders = [] then [] else tables.selectAliases holders
  let discogsReleases := tables.selectDiscogs items
  let musicbrainzReleases := tables.selectMusicbrainz items
  let masters := discogsReleases.filterMap fun row => row.masterId.map strip
  let groups := musicbrainzReleases.filterMap (·.releaseGroupMbid)
  let supersessions := tables.selectSupersessions items
  let held := aliases.filter fun entry => entry.nativeId ∈ items ∧ entry.provider = "musicbrainz"
  { aliases
    supersessions
    moveCounts := tables.selectMoveCounts (supersessions.map (·.id))
    discogsReleases
    musicbrainzReleases
    masterWorks := tables.masterWorks fun provider externalId =>
      (provider = "discogs" ∧ externalId ∈ masters) ∨
        (provider = "musicbrainz" ∧ externalId ∈ groups)
    linkEvents := tables.selectLinkEvents
      ((held.filter fun entry => entry.entityKind = "release").map (·.externalId))
      ((held.filter fun entry => entry.entityKind = "master").map (·.externalId)) }

/-- `get_ledger_work`; `none` when the id is not a work. -/
def getLedgerWork (workId : Nat) (asOf : Option Instant) (editionLimit : Nat) :
    Option WorkPayload :=
  let work := resolveItem tables.supersessions workId
  if tables.kinds work = some .master then
    let editions := tables.editions work
    let shown := (visibleEditions editions asOf).take editionLimit
    some (buildWork (tables.selectRows work shown) work editions (some workId) asOf editionLimit
      tables.refreshedAt)
  else none

end LedgerTables

end CatalogApi.IdentityLedger
