import CatalogApi.LedgerBackfill.Tables
import CatalogApi.Lib.Bisect

/-!
# Planning the backfill

`creation_bounds` and `ExportReader.finalize` of `api/ledger_backfill.py`: the Discogs links of the
tables, proxy 2's bound for each, and one event for each release that has one, over the arrays the
reader kept.
-/

namespace CatalogApi.LedgerBackfill

open ByKey Bisect

/-- `NO_TIME`. -/
def noTime : Int := 2 ^ 63 - 1

/-! ## Bounds -/

/-- One row folded into the bucket of the last candidate at or below its id. -/
def foldRow (candidates : List Int) (bounds : List Int) (row : Int × Int) : List Int :=
  if 0 < row.2 then
    let position := bisectRight candidates row.1
    if position ≠ 0 ∧ row.2 < bounds.getD (position - 1) noTime then
      bounds.set (position - 1) row.2
    else bounds
  else bounds

/-- The suffix minimum over the buckets, with the running minimum. -/
def suffixMin (bounds : List Int) : Int × List Int :=
  bounds.foldr (fun bound state => (min state.1 bound, min state.1 bound :: state.2)) (noTime, [])

/-- `creation_bounds`. -/
def creationBounds (candidates rowIds rowUpdated : List Int) : List Int :=
  (suffixMin ((rowIds.zip rowUpdated).foldl (foldRow candidates)
    (List.replicate candidates.length noTime))).2

/-! ## The plan -/

/-- `plan.counts`. -/
structure PlanCounts where
  releaseUrlRows : Nat
  discogsReleaseLinks : Nat
  releasesLinked : Nat
  undated : Nat
  missingReleaseRow : Nat
  events : Nat
  deriving DecidableEq

/-- `BackfillPlan`: 16 bytes of MBID, a Discogs id and an instant for each event. -/
structure BackfillPlan where
  mbids : Bytes
  discogsIds : List Int
  eventAt : List Int
  counts : PlanCounts
  deriving DecidableEq

/-- The MBID at an index of a flat array. -/
def gidAt (gids : Bytes) (index : Nat) : Bytes := (gids.drop (16 * index)).take 16

/-- `BackfillPlan.events`: MBID, Discogs id and instant of each event. -/
def BackfillPlan.events (plan : BackfillPlan) : List (Bytes × Int × Int) :=
  (plan.discogsIds.zip plan.eventAt).zipIdx.map fun event => (gidAt plan.mbids event.2, event.1)

/-- What keeps a verified export from being planned. -/
inductive PlanFailure where
  | missing (tables : List String)
  | noDiscogsLinkType
  deriving DecidableEq

/-- The releases dated so far, and the counts of those linked and undated. -/
structure Dated where
  releases : List Int
  discogsIds : List Int
  eventAt : List Int
  linked : Nat
  undated : Nat

/-- The loop over the candidates in order of their releases: the first of each is its link. -/
def dateReleases (releases discogs bounds : List Int) : Nat → List Nat → Dated → Dated
  | 0, _, dated => dated
  | _, [], dated => dated
  | fuel + 1, best :: rest, dated =>
      let release := releases.getD best 0
      let next :=
        if bounds.getD best 0 = noTime then
          { dated with linked := dated.linked + 1, undated := dated.undated + 1 }
        else
          { dated with
            releases := dated.releases ++ [release]
            discogsIds := dated.discogsIds ++ [discogs.getD best 0]
            eventAt := dated.eventAt ++ [bounds.getD best 0]
            linked := dated.linked + 1 }
      dateReleases releases discogs bounds fuel
        (rest.dropWhile fun i => releases.getD i 0 = release) next

/-- One release row: its MBID goes where its release is. -/
def placeGid (releases : List Int) (releaseGids : Bytes) (state : Bytes × List Bool)
    (row : Int × Nat) : Bytes × List Bool :=
  let at' := bisectLeft releases row.1
  if at' < releases.length ∧ releases.getD at' 0 = row.1 then
    (state.1.take (16 * at') ++ gidAt releaseGids row.2 ++ state.1.drop (16 * at' + 16),
      state.2.set at' true)
  else state

namespace ExportReader

variable (reader : ExportReader)

/-- The tables the export lacks. -/
def missing : List String := tableNames.filter fun table => table ∉ reader.read

/-- The links of a discogs link type. -/
def discogsLinks : List Int :=
  ((reader.linkIds.zip reader.linkTypes).filter fun link =>
    link.2 ∈ reader.discogsLinkTypes).map (·.1)

/-- The current Discogs release links: id, release and Discogs id. -/
def candidates : List (Int × Int × Int) :=
  let order := argsort reader.urlIds
  let urlIds := permute order reader.urlIds
  let urlDiscogs := permute order reader.urlDiscogs
  (reader.rowIds.zip (reader.rowLinks.zip (reader.rowReleases.zip reader.rowUrls))).filterMap
    fun row =>
      if row.2.1 ∈ reader.discogsLinks then
        let at' := bisectLeft urlIds row.2.2.2
        if at' < urlIds.length ∧ urlIds.getD at' 0 = row.2.2.2 then
          some (row.1, row.2.2.1, urlDiscogs.getD at' 0)
        else none
      else none

/-- `finalize`. -/
def finalize : Except PlanFailure BackfillPlan :=
  if reader.missing ≠ [] then .error (.missing reader.missing)
  else if reader.discogsLinkTypes = [] then .error .noDiscogsLinkType
  else
    let found := reader.candidates
    let order := argsort (found.map (·.1))
    let candIds := permute order (found.map (·.1))
    let candReleases := permute order (found.map (·.2.1))
    let candDiscogs := permute order (found.map (·.2.2))
    let bounds := creationBounds candIds reader.rowIds reader.rowUpdated
    let byRelease := argsort candReleases
    let dated := dateReleases candReleases candDiscogs bounds byRelease.length byRelease
      ⟨[], [], [], 0, 0⟩
    let placed := reader.releaseIds.zipIdx.foldl (placeGid dated.releases reader.releaseGids)
      (List.replicate (16 * dated.releases.length) 0, List.replicate dated.releases.length false)
    let missingRelease := dated.releases.length - placed.2.count true
    let kept := (List.range dated.releases.length).filter fun i => placed.2.getD i false
    let plan : Bytes × List Int × List Int :=
      if missingRelease ≠ 0 then
        (kept.flatMap fun i => gidAt placed.1 i, permute kept dated.discogsIds,
          permute kept dated.eventAt)
      else (placed.1, dated.discogsIds, dated.eventAt)
    .ok
      { mbids := plan.1
        discogsIds := plan.2.1
        eventAt := plan.2.2
        counts :=
          { releaseUrlRows := reader.rowIds.length
            discogsReleaseLinks := candIds.length
            releasesLinked := dated.linked
            undated := dated.undated
            missingReleaseRow := missingRelease
            events := plan.2.2.length } }

end ExportReader

end CatalogApi.LedgerBackfill
