import CatalogApi.Lib.Decimals
import CatalogApi.Lib.Keyset
import CatalogApi.Rarity.Distribution

/-!
# Scoring one page of releases

A page is scored from the rows of the signal queries for its ids, the community counts by the text
of the release id, and the three distributions. Each signal row depends on its release alone, so a
release's row does not depend on the page it is scored in (`score_page_eq`). The scores that are
floating-point arithmetic are a function of the evidence that the page gathers for the release.
-/

namespace CatalogApi.Rarity

open ByKey Numerals

/-! ## The graph -/

/-- A row of `_RELEASE_QUERY`. -/
structure ReleaseRow where
  title : Option String
  artistName : Option String
  year : Option Int

/-- A row of `_MEDIA_QUERY`, the mediums with their families. -/
structure MediaRow where
  mediums : List (String × Option String)
  mediaFamilies : List String
  formats : List String

/-- A row of `_TEMPORAL_QUERY`. -/
structure TemporalRow where
  year : Option Int
  latestSiblingYear : Option Int

/-- A row of `_RELEASE_IDS_QUERY`. -/
structure ReleaseIdsRow where
  labelIds : List String
  artistIds : List String

/-- The quality signals of `_QUALITY_SIGNALS`. -/
inductive Signal
  | artist
  | label
  | genre
  deriving DecidableEq

/-- A static graph: its release ids, and the row of each signal query for a release. -/
structure Graph (V : Type) where
  releases : List String
  nodup : releases.Nodup
  named : ∀ id ∈ releases, id ≠ ""
  release : String → ReleaseRow
  media : String → Option MediaRow
  labelCatalogSize : String → Option Int
  temporal : String → Option TemporalRow
  degree : String → Option Int
  quality : Signal → String → Option (Option V)
  releaseIds : String → Option ReleaseIdsRow
  pressingCount : String → Option (Option Int)

/-- Every label and artist id is a numeral. -/
def Graph.NumericIds {V : Type} (graph : Graph V) : Prop :=
  ∀ id ∈ graph.releases, ∀ row, graph.releaseIds id = some row →
    ∀ value ∈ row.labelIds ++ row.artistIds, (Numerals.int value).isSome = true

/-- The rows a query returns for the ids of a page, in their order. -/
def queryRows {α : Type} (fact : String → Option α) (ids : List String) : List (String × α) :=
  ids.filterMap fun id => (fact id).map fun row => (id, row)

/-- `_index_by_release`: of two rows of a release the later one stays. -/
def indexByRelease {α : Type} (rows : List (String × α)) (id : String) : Option α :=
  (rows.reverse.find? fun row => row.1 = id).map (·.2)

/-- The rows of the signal queries for one page. -/
structure PageSignals (V : Type) where
  release : List (String × ReleaseRow)
  media : List (String × MediaRow)
  label : List (String × Int)
  temporal : List (String × TemporalRow)
  degree : List (String × Int)
  quality : Signal → List (String × Option V)
  releaseIds : List (String × ReleaseIdsRow)
  pressing : List (String × Option Int)

/-- `_fetch_page_signals`. -/
def fetchPageSignals {V : Type} (graph : Graph V) (ids : List String) : PageSignals V where
  release := queryRows (fun id => some (graph.release id)) ids
  media := queryRows graph.media ids
  label := queryRows graph.labelCatalogSize ids
  temporal := queryRows graph.temporal ids
  degree := queryRows graph.degree ids
  quality signal := queryRows (graph.quality signal) ids
  releaseIds := queryRows graph.releaseIds ids
  pressing := queryRows graph.pressingCount ids

/-- A release of the page is found with the row of its own. -/
theorem index_query_rows {α : Type} (fact : String → Option α) {ids : List String} {id : String}
    (hid : id ∈ ids) : indexByRelease (queryRows fact ids) id = fact id := by
  have hrow : ∀ row ∈ queryRows fact ids, row.1 = id → fact id = some row.2 := by
    rintro ⟨other, row⟩ hmem rfl
    obtain ⟨other', -, heq⟩ := List.mem_filterMap.mp hmem
    obtain ⟨row', hfact, heq'⟩ := Option.map_eq_some_iff.mp heq
    rw [Prod.mk.injEq] at heq'
    obtain ⟨rfl, rfl⟩ := heq'
    exact hfact
  rw [indexByRelease]
  cases hfind : (queryRows fact ids).reverse.find? fun row => row.1 = id with
  | some row =>
      have hmem := List.mem_reverse.mp (List.mem_of_find?_eq_some hfind)
      have hkey := List.find?_some hfind
      exact (hrow row hmem (of_decide_eq_true hkey)).symm
  | none =>
      cases hfact : fact id with
      | none => rfl
      | some row =>
          have hmem : (id, row) ∈ queryRows fact ids :=
            List.mem_filterMap.mpr ⟨id, hid, by rw [hfact, Option.map_some]⟩
          have hne := List.find?_eq_none.mp hfind _ (List.mem_reverse.mpr hmem)
          exact absurd (decide_eq_true rfl) hne

/-! ## Scores -/

/-- `compute_label_catalog_score`. -/
def computeLabelCatalogScore (catalogSize : Int) : Nat :=
  if catalogSize < 10 then 100
  else if catalogSize ≤ 50 then 75
  else if catalogSize ≤ 200 then 50
  else if catalogSize ≤ 1000 then 25
  else 10

/-- `compute_graph_isolation_score`. -/
def computeGraphIsolationScore (degree : Int) : Nat :=
  if degree ≤ 2 then 90
  else if degree ≤ 4 then 70
  else if degree ≤ 7 then 50
  else if degree ≤ 12 then 30
  else 10

/-- `compute_collection_prevalence_score`. -/
def computeCollectionPrevalenceScore (haveCount wantCount : Int) : Nat :=
  let base :=
    if haveCount ≤ 0 then 95
    else if haveCount ≤ 10 then 85
    else if haveCount ≤ 100 then 70
    else if haveCount ≤ 1000 then 50
    else if haveCount ≤ 10000 then 25
    else 10
  if wantCount > haveCount then min 100 (base + 5) else base

/-- The have and want counts of a release. -/
abbrev Counts := Option Int × Option Int

/-- The collection prevalence of a release, neutral when its counts are unavailable. -/
def collectionPrevalence (counts : Option Counts) : Nat :=
  match counts with
  | some (some haveCount, wantCount) =>
      computeCollectionPrevalenceScore haveCount (wantCount.getD 0)
  | _ => 50

/-- What the composite score of a release is computed from. -/
structure Evidence where
  release : ReleaseRow
  media : Option MediaRow
  temporal : Option TemporalRow
  pressing : Option (Option Int)
  labelCatalog : Nat
  graphIsolation : Nat
  collectionPrevalence : Nat
  percentiles : Signal → ℚ

/-- A scored row; `scores` are the columns computed from the evidence. -/
structure Row (Scores : Type) where
  releaseId : String
  title : String
  artistName : String
  year : Option Int
  labelCatalog : Nat
  graphIsolation : Nat
  collectionPrevalence : Nat
  labelIds : List Int
  artistIds : List Int
  scores : Scores

section ScorePage

variable {V Scores : Type} [LinearOrder V] [Zero V]

/-- The body of the loop of `_score_page`, from the rows found for the release. -/
def scoreRow (score : Evidence → Int → Scores) (currentYear : Int) (rid : String) (row : ReleaseRow)
    (media : Option MediaRow) (labelSize : Option Int) (temporal : Option TemporalRow)
    (degree : Option Int) (idsRow : Option ReleaseIdsRow) (pressing : Option (Option Int))
    (counts : Option Counts) (percentiles : Signal → ℚ) : Option (Row Scores) := do
  let labelIds ← ((idsRow.map (·.labelIds)).getD []).mapM Numerals.int
  let artistIds ← ((idsRow.map (·.artistIds)).getD []).mapM Numerals.int
  let evidence : Evidence :=
    { release := row, media, temporal, pressing,
      labelCatalog := computeLabelCatalogScore (labelSize.getD 0)
      graphIsolation := computeGraphIsolationScore (degree.getD 0)
      collectionPrevalence := collectionPrevalence counts
      percentiles }
  some
    { releaseId := rid
      title := row.title.getD ""
      artistName := row.artistName.getD ""
      year := row.year
      labelCatalog := evidence.labelCatalog
      graphIsolation := evidence.graphIsolation
      collectionPrevalence := evidence.collectionPrevalence
      labelIds := sortBy id labelIds
      artistIds := sortBy id artistIds
      scores := score evidence currentYear }

/-- `_score_page`; `none` when a label or artist id is no numeral. -/
def scorePage (score : Evidence → Int → Scores) (signals : PageSignals V)
    (communityMap : String → Option Counts) (distributions : Signal → Distribution V)
    (currentYear : Int) : Option (List (Row Scores)) :=
  signals.release.mapM fun entry =>
    scoreRow score currentYear entry.1 entry.2
      (indexByRelease signals.media entry.1) (indexByRelease signals.label entry.1)
      (indexByRelease signals.temporal entry.1) (indexByRelease signals.degree entry.1)
      (indexByRelease signals.releaseIds entry.1) (indexByRelease signals.pressing entry.1)
      (communityMap entry.1)
      fun signal => (distributions signal).percentileRank
        (((indexByRelease (signals.quality signal) entry.1).getD none).getD 0)

/-- The row of a release, from its own facts. -/
def Graph.row (graph : Graph V) (score : Evidence → Int → Scores) (currentYear : Int)
    (counts : Option Counts) (rank : Signal → V → ℚ) (id : String) : Option (Row Scores) :=
  scoreRow score currentYear id (graph.release id) (graph.media id) (graph.labelCatalogSize id)
    (graph.temporal id) (graph.degree id) (graph.releaseIds id) (graph.pressingCount id) counts
    fun signal => rank signal (((graph.quality signal id).getD none).getD 0)

/-- The row of a release does not depend on the page. -/
theorem score_page_eq (graph : Graph V) (score : Evidence → Int → Scores)
    (communityMap : String → Option Counts) (distributions : Signal → Distribution V)
    (currentYear : Int) (ids : List String) :
    scorePage score (fetchPageSignals graph ids) communityMap distributions currentYear =
      ids.mapM fun id => graph.row score currentYear (communityMap id)
        (fun signal => (distributions signal).percentileRank) id := by
  have hrelease : (fetchPageSignals graph ids).release =
      ids.map fun id => (id, graph.release id) := by
    show (ids.filterMap fun id => some (id, graph.release id)) = _
    rw [List.filterMap_eq_map']
  rw [scorePage, hrelease, List.mapM_map]
  refine Keyset.map_m_congr fun id hid => ?_
  simp only [Function.comp_apply, fetchPageSignals, index_query_rows _ hid, Graph.row]

omit [LinearOrder V] in
/-- The row of a release is scored when its label and artist ids are numerals. -/
theorem row_scored {graph : Graph V} (hnumeric : graph.NumericIds) {id : String}
    (hid : id ∈ graph.releases) (score : Evidence → Int → Scores) (currentYear : Int)
    (counts : Option Counts) (rank : Signal → V → ℚ) :
    ∃ row, graph.row score currentYear counts rank id = some row ∧ row.releaseId = id ∧
      row.collectionPrevalence = collectionPrevalence counts := by
  have hids : ∀ value ∈ ((graph.releaseIds id).map (·.labelIds)).getD [] ++
      ((graph.releaseIds id).map (·.artistIds)).getD [],
      (Numerals.int value).isSome = true := by
    cases hrow : graph.releaseIds id with
    | none => exact fun value hvalue => absurd hvalue (by simp)
    | some row => exact hnumeric id hid row hrow
  have hlabels := Keyset.map_m_of_is_some fun value hvalue =>
    hids value (List.mem_append_left _ hvalue)
  have hartists := Keyset.map_m_of_is_some fun value hvalue =>
    hids value (List.mem_append_right _ hvalue)
  rw [Graph.row, scoreRow, hlabels, hartists]
  exact ⟨_, rfl, rfl, rfl⟩

omit [LinearOrder V] in
/-- Of the community counts a row depends on the prevalence alone. -/
theorem row_congr {graph : Graph V} {score : Evidence → Int → Scores} {currentYear : Int}
    {counts counts' : Option Counts} (h : collectionPrevalence counts = collectionPrevalence counts')
    (rank : Signal → V → ℚ) (id : String) :
    graph.row score currentYear counts rank id = graph.row score currentYear counts' rank id := by
  rw [Graph.row, Graph.row, scoreRow, scoreRow, h]

end ScorePage

end CatalogApi.Rarity
