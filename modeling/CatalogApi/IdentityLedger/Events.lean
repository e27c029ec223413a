import CatalogApi.IdentityLedger.Rows
import Mathlib.Data.String.Basic

/-!
# Events and evidence

`events`, `link_events` and `evidence` of `_Ledger`. Every event comes from an item of the group,
from a supersession on either side of which one is, or from a dated link change; `mem_events`
says so.
-/

namespace CatalogApi.IdentityLedger

open CatalogMerge ByKey

/-- What an event says, by its type. -/
inductive Detail where
  | minted (item : Nat) (providers : List String)
  | linkedAtIngest (item : Nat)
  | evidenceAttached (provider source : String)
  | aliasClosed (provider : String)
  | opened (cause : Cause) (superseded survivor decisionRef : Nat) (compressed : Bool)
      (moves : List (MovedTable × Nat))
  | reverted (superseded survivor : Nat)
  | linkEvent (event : LinkChange) (provider externalId : String)
      (discogsIdBefore discogsIdAfter : Option String) (sourceRef : String)
      (decisionRef : Option Nat)
  deriving DecidableEq

/-- The `type` of an event. -/
def Detail.type : Detail → String
  | .minted .. => "minted"
  | .linkedAtIngest _ => "linked_at_ingest"
  | .evidenceAttached .. => "evidence_attached"
  | .aliasClosed _ => "alias_closed"
  | .opened .catalogReattachment .. => "reattached"
  | .opened .editionPromotion .. => "promoted"
  | .reverted .. => "reverted"
  | .linkEvent .linkAdded .. => "link_added"
  | .linkEvent .linkChanged .. => "link_changed"
  | .linkEvent .linkRemoved .. => "link_removed"

/-- `RULES` at the type of an event. -/
def Detail.rule : Detail → String
  | .minted .. => "ADR 0009: minted at ingest through common.identity"
  | .linkedAtIngest _ =>
      "ADR 0014 Context: musicbrainz-sql-loader attaches to a Discogs item that already resolves"
  | .evidenceAttached .. => "ADR 0011 identifier aliases; attach_aliases never overwrites"
  | .aliasClosed _ => "no writer closes an alias outside a supersession today"
  | .opened .catalogReattachment .. =>
      "ADR 0014 section 8; ADR 0009 2026-09-25 amendment, sections 1 to 3"
  | .opened .editionPromotion .. => "ADR 0014 section 3, gated by section 6"
  | .reverted .. => "ADR 0009 2026-09-25 amendment, section 1 (reversal)"
  | .linkEvent .linkAdded .. =>
      "ADR 0016 2026-10-24 amendment: a MusicBrainz row gained its Discogs link"
  | .linkEvent .linkChanged .. =>
      "ADR 0016 2026-10-24 amendment: a MusicBrainz row's Discogs link changed"
  | .linkEvent .linkRemoved .. =>
      "ADR 0016 2026-10-24 amendment: a MusicBrainz row lost its Discogs link"

/-- `LINK_DATED_FROM`. -/
def linkDatedFrom : LinkDate → String
  | .musicbrainzFullexport => "musicbrainz_fullexport"
  | .groovemapLoad => "groovemap"

/-- An event of the payload; `instant` is its `at`. -/
structure Event where
  instant : Instant
  detail : Detail
  datedFrom : String
  deriving DecidableEq

/-- An event dated by GrooveMap's own tables. -/
def Event.recorded (instant : Instant) (detail : Detail) : Event :=
  { instant, detail, datedFrom := "groovemap" }

/-- `opened_by` and `closed_by` of an evidence row. -/
inductive OpenedBy where
  | supersession | mint | later

inductive ClosedBy where
  | supersession | other

/-- An evidence row of the payload. -/
structure Evidence where
  provider : String
  externalId : String
  source : String
  heldBy : Nat
  validFrom : Instant
  validTo : Option Instant
  openedBy : OpenedBy
  closedBy : Option ClosedBy

/-- The order of alias rows in the payload. -/
def aliasOrder (entry : Alias) : Instant ×ₗ String ×ₗ String :=
  toLex (entry.validFrom, toLex (entry.provider, entry.externalId))

/-- The order of events in the payload. -/
def eventOrder (event : Event) : Instant ×ₗ String := toLex (event.instant, event.detail.type)

/-- A closing instant that is visible. -/
def visibleClose (entry : Alias) (asOf : Option Instant) : Option Instant :=
  entry.validTo.filter fun t => visible t asOf

/-- One side of the supersession is in the group. -/
def touches (group : List Nat) (row : Supersession) : Prop :=
  row.survivorId ∈ group ∨ row.supersededId ∈ group

instance (group : List Nat) (row : Supersession) : Decidable (touches group row) :=
  inferInstanceAs (Decidable (_ ∨ _))

/-- The alias rows of an item opened after its mint, in order: the first MusicBrainz one of an item
with a Discogs alias is a link at ingest, the others are evidence. -/
def laterEvents (item : Nat) (discogsAt : Option Instant) : Bool → List Alias → List Event
  | _, [] => []
  | linked, entry :: rest =>
      if entry.provider = "musicbrainz" ∧ discogsAt ≠ none ∧ linked = false then
        .recorded entry.validFrom (.linkedAtIngest item) :: laterEvents item discogsAt true rest
      else
        .recorded entry.validFrom (.evidenceAttached entry.provider entry.source) ::
          laterEvents item discogsAt linked rest

namespace LedgerRows

variable (rows : LedgerRows)

/-- The alias rows of an item opened after its mint and not by a supersession. -/
def laterAliases (item : Nat) (mint : Instant) : List Alias :=
  sortBy aliasOrder ((rows.byItem item).filter fun entry =>
    mint < entry.validFrom ∧ ¬rows.openedBySupersession entry)

/-- The closings of an item's alias rows outside a supersession. -/
def closeEvents (item : Nat) : List Event :=
  (rows.byItem item).filterMap fun entry =>
    if rows.closedBySupersession entry then none
    else entry.validTo.map fun t => .recorded t (.aliasClosed entry.provider)

/-- The events of one item of the group. -/
def itemEvents (item : Nat) : List Event :=
  match rows.mint item with
  | none => []
  | some mint =>
      let own := rows.byItem item
      let providers := sortedSet ((own.filter fun entry => entry.validFrom = mint).map (·.provider))
      let discogsAt := ((own.filter fun entry => entry.provider = "discogs").map (·.validFrom)).min?
      .recorded mint (.minted item providers) ::
        (laterEvents item discogsAt false (rows.laterAliases item mint) ++ rows.closeEvents item)

/-- The counts of a supersession's moves. -/
def movesOf (id : Nat) : List (MovedTable × Nat) :=
  movedTables.filterMap fun table => (rows.moveCounts id table).map fun count => (table, count)

/-- The events of one supersession: its opening, and a reversal when it is closed. -/
def supersessionEvents (row : Supersession) : List Event :=
  .recorded row.validFrom (.opened row.cause row.supersededId row.survivorId row.decisionRef
      row.viaId.isSome (rows.movesOf row.id)) ::
    (row.validTo.map fun t => Event.recorded t (.reverted row.supersededId row.survivorId)).toList

/-- `link_events`: the dated link changes of every MusicBrainz row of this kind the group's items
have held. -/
def linkEventsOf (group : List Nat) (kind : String) : List Event :=
  let externalIds := group.flatMap fun member => (rows.byItem member).filterMap fun entry =>
    if entry.provider = "musicbrainz" ∧ entry.entityKind = kind then some entry.externalId else none
  (rows.linkEvents.filter fun event => event.entityKind = kind ∧ event.externalId ∈ externalIds).map
    fun event =>
      { instant := event.eventAt
        detail := .linkEvent event.event event.provider event.externalId
          (event.discogsIdBefore.map toString) (event.discogsIdAfter.map toString) event.sourceRef
          event.decisionRef
        datedFrom := linkDatedFrom event.datedFrom }

/-- Every event of the group, before the sort. -/
def allEvents (group : List Nat) (kind : String) : List Event :=
  group.flatMap rows.itemEvents ++
    (rows.supersessions.filter fun row => touches group row).flatMap rows.supersessionEvents ++
    rows.linkEventsOf group kind

/-- `events`; each with the rule of its type. -/
def events (group : List Nat) (asOf : Option Instant) (kind : String) : List (Event × String) :=
  (sortBy eventOrder ((rows.allEvents group kind).filter fun event => visible event.instant asOf)).map
    fun event => (event, event.detail.rule)

/-- The evidence row of an alias. -/
def evidenceRow (asOf : Option Instant) (entry : Alias) : Evidence :=
  { provider := entry.provider
    externalId := entry.externalId
    source := entry.source
    heldBy := entry.nativeId
    validFrom := entry.validFrom
    validTo := visibleClose entry asOf
    openedBy :=
      if rows.openedBySupersession entry then .supersession
      else if rows.mint entry.nativeId = some entry.validFrom then .mint
      else .later
    closedBy := (visibleClose entry asOf).map fun _ =>
      if rows.closedBySupersession entry then .supersession else .other }

/-- `evidence`. -/
def evidence (group : List Nat) (asOf : Option Instant) : List Evidence :=
  ((sortBy aliasOrder (group.flatMap rows.byItem)).filter fun entry =>
    visible entry.validFrom asOf).map (rows.evidenceRow asOf)

end LedgerRows

end CatalogApi.IdentityLedger
