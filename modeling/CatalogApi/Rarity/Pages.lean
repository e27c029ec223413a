import CatalogApi.Rarity.Community
import Mathlib.Data.String.Basic

/-!
# Rarity pages and the streamed walk

`iter_rarity_signals` scores the whole catalog in two passes. The paged routes do the same one page
at a time: a client sums the counts of the first pass and sends them along with each page of the
second. The community counts are loaded at once by the stream, under the text of their release id,
and by page for the ids that are decimal. A page therefore misses the counts of a negative id, and
fails on a decimal id that `int` does not take: the pages equal the stream exactly when neither
matters (`pages_agree_iff`).
-/

namespace CatalogApi.Rarity

open ByKey Numerals Keyset

section Walks

variable {V Scores : Type} [LinearOrder V] [Zero V]

/-! ## The streamed walk -/

/-- `_release_id_pages`. -/
def releaseIdPages (graph : Graph V) (pageSize : Nat) : List (List String) :=
  pages graph.releases pageSize ""

/-- `_count_quality_signals`. -/
def countQualitySignals (graph : Graph V) (ids : List String)
    (distributions : Signal → Distribution V) : Signal → Distribution V :=
  fun signal => (queryRows (graph.quality signal) ids).foldl (fun d row => d.add row.2)
    (distributions signal)

/-- `_quality_distributions`. -/
def qualityDistributions (graph : Graph V) (pageSize : Nat) : Signal → Distribution V :=
  fun signal => ((releaseIdPages graph pageSize).foldl
    (fun distributions ids => countQualitySignals graph ids distributions)
    (fun _ => Distribution.empty) signal).freeze

/-- `iter_rarity_signals` with community counts; `none` when a page cannot be scored. -/
def iterRaritySignals (graph : Graph V) (community : Community) (score : Evidence → Int → Scores)
    (currentYear : Int) (pageSize : Nat) : Option (List (Row Scores)) :=
  let communityMap := loadCommunityCounts community
  let distributions := qualityDistributions graph pageSize
  ((releaseIdPages graph pageSize).mapM fun ids =>
    scorePage score (fetchPageSignals graph ids) communityMap distributions currentYear).map
    List.flatten

/-! ## The paged walks -/

/-- One page of `fetch_rarity_quality_counts`, without its cursor. -/
structure QualityCounts (V : Type) where
  counts : Signal → List (V × Nat)
  releases : Nat
  releaseTotal : Nat

/-- What `fetch_rarity_quality_counts` answers for the ids of a page. -/
def qualityCounts (graph : Graph V) (ids : List String) : QualityCounts V :=
  let distributions := if ids = [] then fun _ => Distribution.empty
    else countQualitySignals graph ids fun _ => Distribution.empty
  { counts := fun signal => (distributions signal).counts
    releases := ids.length
    releaseTotal := graph.releases.length }

/-- `fetch_rarity_quality_counts`: the page after a cursor, and the next cursor. -/
def fetchRarityQualityCounts (graph : Graph V) (limit : Nat) (after : String) :
    Option (QualityCounts V × Option String) :=
  let ids := pageAfter graph.releases after limit
  some (qualityCounts graph ids, nextAfter ids limit)

/-- The counts of all pages summed, as `(value, count)` pairs in order of the value. -/
def sumCounts (pages : List (QualityCounts V)) : Signal → List (V × Nat) :=
  fun signal => sortBy (fun item => toLex item) (pages.foldl
    (fun totals page => (page.counts signal).foldl
      (fun counter item => Counters.bump counter item.1 item.2) totals) Dict.empty).entries

/-- `fetch_rarity_page`: the scored rows of the page after a cursor, and the next cursor. -/
def fetchRarityPage (graph : Graph V) (community : Community) (score : Evidence → Int → Scores)
    (currentYear : Int) (distributions : Signal → List (V × Nat)) (limit : Nat) (after : String) :
    Option (List (Row Scores) × Option String) :=
  let ids := pageAfter graph.releases after limit
  if ids = [] then some ([], none)
  else do
    let communityMap ← loadPageCommunityCounts community ids
    let frozen := fun signal => Distribution.fromCounts (distributions signal)
    let items ← scorePage score (fetchPageSignals graph ids) communityMap frozen currentYear
    some (items, nextAfter ids limit)

/-! ## Agreement -/

/-- The sorted list of all truthy values of a signal. -/
def Graph.sortedValues (graph : Graph V) (signal : Signal) : List V :=
  sortBy id (truthy (graph.releases.filterMap (graph.quality signal)))

/-- The first pass along the cursors sums to the distributions of the stream. -/
structure CountsAgree (graph : Graph V) (limit : Nat) (counts : List (QualityCounts V)) : Prop where
  walk : Walk (fetchRarityQualityCounts graph limit) "" counts
  nonempty : ∀ page ∈ counts.dropLast, 0 < page.releases
  sums : ∀ pageSize, 0 < pageSize → ∀ signal,
    sumCounts counts signal = (qualityDistributions graph pageSize signal).counts
  frozen : ∀ pageSize, 0 < pageSize → ∀ signal,
    (Distribution.fromCounts (sumCounts counts signal)).Agrees
      (qualityDistributions graph pageSize signal)

/-- The second pass along the cursors reads the rows of the stream. -/
def ItemsAgree (graph : Graph V) (community : Community) (score : Evidence → Int → Scores)
    (currentYear : Int) (counts : List (QualityCounts V)) (limit : Nat)
    (rows : List (Row Scores)) : Prop :=
  ∃ items, Walk (fetchRarityPage graph community score currentYear (sumCounts counts) limit) ""
      items ∧
    (∀ page ∈ items.dropLast, page ≠ []) ∧ items.flatten = rows

/-- The stream at every page size and the paged walks at every limit give the same rows. -/
structure Agree (graph : Graph V) (community : Community) (score : Evidence → Int → Scores)
    (currentYear : Int) (rows : List (Row Scores)) : Prop where
  ids : rows.map (·.releaseId) = sortBy id graph.releases
  streamed : ∀ pageSize, 0 < pageSize →
    iterRaritySignals graph community score currentYear pageSize = some rows
  ranks : ∀ pageSize, 0 < pageSize → ∀ signal value,
    (qualityDistributions graph pageSize signal).percentileRank value =
      percentileRank value (graph.sortedValues signal)
  paged : ∀ limit, 0 < limit → ∃ counts, CountsAgree graph limit counts ∧
    ∀ limit', 0 < limit' → ItemsAgree graph community score currentYear counts limit' rows

/-- A decimal release id is one that `int` takes. -/
def Graph.Converts (graph : Graph V) : Prop :=
  ∀ id ∈ graph.releases, isDecimalText id = true → (Numerals.int id).isSome = true

/-- The counts of a release whose id is negative score as if they were unavailable. -/
def Graph.NeutralBelowZero (graph : Graph V) (community : Community) : Prop :=
  ∀ row ∈ community.rows, row.releaseId < 0 → toString row.releaseId ∈ graph.releases →
    collectionPrevalence (some row.counts) = collectionPrevalence none

/-! ## The first pass -/

/-- The truthy values of a signal for some ids. -/
def Graph.valuesOf (graph : Graph V) (ids : List String) (signal : Signal) : List V :=
  truthy (ids.filterMap (graph.quality signal))

variable {graph : Graph V} {signal : Signal}

omit [LinearOrder V] [Zero V] in
theorem query_rows_map {α : Type} (fact : String → Option α) (ids : List String) :
    (queryRows fact ids).map (·.2) = ids.filterMap fact := by
  rw [queryRows, List.map_filterMap]
  refine List.filterMap_congr fun id _ => ?_
  cases fact id <;> rfl

theorem values_append (ids ids' : List String) :
    graph.valuesOf (ids ++ ids') signal = graph.valuesOf ids signal ++ graph.valuesOf ids' signal := by
  rw [Graph.valuesOf, List.filterMap_append, truthy, List.filterMap_append]
  rfl

theorem values_perm {ids ids' : List String} (h : ids.Perm ids') :
    (graph.valuesOf ids signal).Perm (graph.valuesOf ids' signal) :=
  (h.filterMap _).filterMap _

/-- The releases of a page add the truthy values of their signals. -/
theorem count_page {distributions : Signal → Distribution V} {vs : List V}
    (h : Counters.Counts (distributions signal).counter vs) (ids : List String) :
    Counters.Counts (countQualitySignals graph ids distributions signal).counter
      (graph.valuesOf ids signal ++ vs) := by
  have hfold : countQualitySignals graph ids distributions signal =
      (ids.filterMap (graph.quality signal)).foldl Distribution.add (distributions signal) := by
    rw [← query_rows_map, List.foldl_map]
    rfl
  rw [hfold]
  exact Distribution.foldl_add_counts h _

theorem count_pages {distributions : Signal → Distribution V} {vs : List V}
    (h : Counters.Counts (distributions signal).counter vs) (idPages : List (List String)) :
    Counters.Counts (idPages.foldl (fun distributions ids =>
      countQualitySignals graph ids distributions) distributions signal).counter
      (graph.valuesOf idPages.flatten signal ++ vs) := by
  induction idPages generalizing distributions vs with
  | nil => exact h
  | cons ids idPages ih =>
      rw [List.foldl_cons, List.flatten_cons, values_append]
      refine (ih (count_page h ids)).of_perm ?_
      rw [← List.append_assoc]
      exact List.perm_append_comm.append_right vs

omit [LinearOrder V] [Zero V] in
theorem releases_after (graph : Graph V) : after graph.releases "" = sortBy id graph.releases := by
  refine after_least fun id hid => ?_
  have hne : id.toList ≠ [] := fun hnil => graph.named id hid (String.toList_eq_nil_iff.mp hnil)
  obtain ⟨c, rest, hid'⟩ := List.exists_cons_of_ne_nil hne
  rw [String.lt_iff_toList_lt, hid']
  exact List.nil_lt_cons c rest

omit [LinearOrder V] [Zero V] in
theorem pages_releases {pageSize : Nat} (hsize : 0 < pageSize) :
    (releaseIdPages graph pageSize).flatten = sortBy id graph.releases := by
  rw [releaseIdPages, pages_flatten graph.nodup hsize, releases_after]

/-- The first pass of the stream holds the truthy values of all releases, whatever the page size. -/
theorem quality_frozen {pageSize : Nat} (hsize : 0 < pageSize) (signal : Signal) :
    (qualityDistributions graph pageSize signal).Frozen (graph.valuesOf graph.releases signal) := by
  have hempty : Counters.Counts (Distribution.empty : Distribution V).counter [] :=
    Counters.counts_empty
  have hcounts : Counters.Counts ((releaseIdPages graph pageSize).foldl
      (fun distributions ids => countQualitySignals graph ids distributions)
      (fun _ => Distribution.empty) signal).counter
      (graph.valuesOf (releaseIdPages graph pageSize).flatten signal ++ []) :=
    count_pages hempty _
  rw [pages_releases hsize, List.append_nil] at hcounts
  exact Distribution.freeze_frozen (hcounts.of_perm (values_perm (sort_by_perm id _)))

/-- The counts of the first pass of the stream. -/
theorem quality_tally {pageSize : Nat} (hsize : 0 < pageSize) (signal : Signal) :
    (qualityDistributions graph pageSize signal).counts =
      Counters.tally (graph.valuesOf graph.releases signal) :=
  Distribution.counts_eq (quality_frozen hsize signal).counted

/-- A page of the first pass answers with the tally of its values. -/
theorem quality_counts_eq (ids : List String) :
    (qualityCounts graph ids).counts signal = Counters.tally (graph.valuesOf ids signal) := by
  have hempty : Counters.Counts (Distribution.empty : Distribution V).counter [] :=
    Counters.counts_empty
  have hcounts : Counters.Counts (countQualitySignals graph ids
      (fun _ => Distribution.empty) signal).counter (graph.valuesOf ids signal ++ []) :=
    count_page hempty ids
  rw [List.append_nil] at hcounts
  have heq := Distribution.counts_eq hcounts
  rw [qualityCounts]
  split
  case isTrue hnil =>
    subst hnil
    exact heq
  case isFalse => exact heq

/-- The pages of the first pass sum to the tally of all values. -/
theorem sum_counts_eq {limit : Nat} (hlimit : 0 < limit) :
    sumCounts ((served graph.releases limit "").map (qualityCounts graph)) signal =
      Counters.tally (graph.valuesOf graph.releases signal) := by
  have hsum : ∀ (idPages : List (List String)) (totals : Dict V Nat) (vs : List V),
      Counters.Counts totals vs →
      Counters.Counts ((idPages.map (qualityCounts graph)).foldl
        (fun totals page => (page.counts signal).foldl
          (fun counter item => Counters.bump counter item.1 item.2) totals) totals)
        (graph.valuesOf idPages.flatten signal ++ vs) := by
    intro idPages
    induction idPages with
    | nil => exact fun _ _ h => h
    | cons ids idPages ih =>
        intro totals vs h
        rw [List.map_cons, List.foldl_cons, List.flatten_cons, values_append, quality_counts_eq]
        refine (ih _ _ (Counters.counts_foldl h (Counters.tally_pos _))).of_perm ?_
        refine ((Counters.expand_tally _).append_right vs).append_left _ |>.trans ?_
        rw [← List.append_assoc]
        exact List.perm_append_comm.append_right vs
  have hall := hsum (served graph.releases limit "") Dict.empty [] Counters.counts_empty
  rw [served_flatten graph.nodup hlimit, releases_after, List.append_nil] at hall
  exact (hall.of_perm (values_perm (sort_by_perm id _))).items

end Walks

end CatalogApi.Rarity
