import CatalogApi.IdentityLedger.Events

/-!
# One work's payload

`build_work` of `api/identity_ledger.py`: the work, its visible editions up to the limit, and the
planes of each.
-/

namespace CatalogApi.IdentityLedger

open CatalogMerge ByKey

/-- An item superseded into an edition. -/
structure FormerItem where
  gmId : Nat
  supersededAt : Instant
  cause : Cause
  decisionRef : Nat

/-- A provider's row of an edition. -/
inductive ProviderRow where
  | discogs (externalId : String)
  | musicbrainz (externalId : String) (namesDiscogsRelease : Option String)

/-- An edition of the payload. -/
structure Edition where
  gmId : Nat
  state : EditionState
  primaryWork : Option Nat
  works : List Nat
  workDisagreement : Bool
  providerRows : List ProviderRow
  formerItems : List FormerItem
  evidence : List Evidence
  events : List (Event × String)

/-- A provider id of the work. -/
structure WorkProvider where
  provider : String
  externalId : String
  validFrom : Instant
  validTo : Option Instant

/-- The payload. `requestedId` is there when it is another id than the work's. -/
structure WorkPayload where
  gmId : Nat
  state : EditionState
  providers : List WorkProvider
  events : List (Event × String)
  requestedId : Option Nat
  asOf : Option Instant
  editions : List Edition
  editionCount : Nat
  truncated : Bool
  refreshedAt : Option Instant

/-- The order of former items. -/
def formerOrder (row : Supersession) : Instant ×ₗ Nat := toLex (row.validFrom, row.supersededId)

namespace LedgerRows

variable (rows : LedgerRows)

/-- The supersessions into an edition that were visible. -/
def formerItems (edition : Nat) (asOf : Option Instant) : List FormerItem :=
  ((sortBy formerOrder rows.supersessions).filter fun row =>
    row.survivorId = edition ∧ row.supersededId ∈ rows.group edition ∧
      visible row.validFrom asOf).map fun row =>
    { gmId := row.supersededId, supersededAt := row.validFrom, cause := row.cause,
      decisionRef := row.decisionRef }

/-- `provider_rows`. -/
def providerRows (edition : Nat) : List ProviderRow :=
  (rows.discogsRows edition).map (fun row => .discogs row.dataId) ++
    (rows.musicbrainzRows edition).map fun row =>
      .musicbrainz row.mbid (row.discogsReleaseId.map toString)

/-- One edition's planes. -/
def editionPayload (asOf : Option Instant) (edition : Nat) : Edition :=
  let group := rows.group edition
  let works := rows.works edition
  { gmId := edition
    state := rows.state edition group asOf "release"
    primaryWork := works.head?
    works
    workDisagreement := 1 < works.length
    providerRows := rows.providerRows edition
    formerItems := rows.formerItems edition asOf
    evidence := rows.evidence group asOf
    events := rows.events group asOf "release" }

/-- The work's provider ids. -/
def workProviders (work : Nat) (asOf : Option Instant) : List WorkProvider :=
  (sortBy aliasOrder ((rows.byItem work).filter fun entry => visible entry.validFrom asOf)).map
    fun entry =>
      { provider := entry.provider, externalId := entry.externalId, validFrom := entry.validFrom,
        validTo := visibleClose entry asOf }

end LedgerRows

/-- The editions recorded by then, in ledger order. -/
def visibleEditions (editions : List (Nat × Instant)) (asOf : Option Instant) : List Nat :=
  (editions.filter fun edition => visible edition.2 asOf).map (·.1)

/-- `build_work`. -/
def buildWork (rows : LedgerRows) (work : Nat) (editions : List (Nat × Instant))
    (requestedId : Option Nat) (asOf : Option Instant) (editionLimit : Nat)
    (refreshedAt : Option Instant) : WorkPayload :=
  let visible := visibleEditions editions asOf
  let shown := visible.take editionLimit
  { gmId := work
    state := rows.state work [work] asOf "master"
    providers := rows.workProviders work asOf
    events := rows.events (rows.group work) asOf "master"
    requestedId := requestedId.filter fun requested => requested ≠ work
    asOf
    editions := shown.map (rows.editionPayload asOf)
    editionCount := visible.length
    truncated := shown.length < visible.length
    refreshedAt }

end CatalogApi.IdentityLedger
