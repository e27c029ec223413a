import CatalogApi.Rarity.Pages

/-!
# The paged walks against the stream

Both walks score a release from its own facts, the same ranks and its community counts, and a page
knows these counts for decimal ids only (`page_counts`). The rows agree exactly when this makes no
difference (`items_agree_iff`), and the rest of the agreement holds of every graph
(`pages_agree_iff`).
-/

namespace CatalogApi.Rarity

open ByKey Numerals Keyset

section Rows

variable {V Scores : Type} [LinearOrder V] [Zero V] {graph : Graph V} {community : Community}
  {score : Evidence → Int → Scores} {currentYear : Int}

/-- The rank of a value of a signal among all truthy values. -/
def Graph.rank (graph : Graph V) (signal : Signal) (value : V) : ℚ :=
  percentileRank value (graph.sortedValues signal)

/-- The row of a release scored with all community counts. -/
def Graph.catalogRow (graph : Graph V) (community : Community) (score : Evidence → Int → Scores)
    (currentYear : Int) (id : String) : Option (Row Scores) :=
  graph.row score currentYear (loadCommunityCounts community id) graph.rank id

/-- The row of a release scored with the counts that a page knows. -/
def Graph.pageRow (graph : Graph V) (community : Community) (score : Evidence → Int → Scores)
    (currentYear : Int) (id : String) : Option (Row Scores) :=
  graph.row score currentYear
    (if isDecimalText id = true then loadCommunityCounts community id else none) graph.rank id

theorem stream_eq {pageSize : Nat} (hsize : 0 < pageSize) :
    iterRaritySignals graph community score currentYear pageSize =
      (sortBy id graph.releases).mapM (graph.catalogRow community score currentYear) := by
  have hrank : (fun signal => (qualityDistributions graph pageSize signal).percentileRank) =
      graph.rank :=
    funext fun signal => funext fun value =>
      Distribution.percentile_rank_eq (quality_frozen hsize signal) value
  rw [iterRaritySignals, ← pages_releases hsize, ← map_m_flatten]
  refine congrArg (Option.map List.flatten) (map_m_congr fun ids _ => ?_)
  rw [score_page_eq, hrank]
  rfl

/-- The stream has a row for each release. -/
theorem stream_rows (hnumeric : graph.NumericIds) :
    ∃ rows, (sortBy id graph.releases).mapM (graph.catalogRow community score currentYear) =
      some rows ∧ rows.map (·.releaseId) = sortBy id graph.releases := by
  have hscored : ∀ rid ∈ sortBy id graph.releases, ∃ row,
      graph.catalogRow community score currentYear rid = some row ∧ row.releaseId = rid := by
    intro rid hrid
    obtain ⟨row, hrow, hreleaseId, -⟩ := row_scored hnumeric (mem_sort_by.mp hrid) score
      currentYear (loadCommunityCounts community rid) graph.rank
    exact ⟨row, hrow, hreleaseId⟩
  refine ⟨_, map_m_of_is_some fun rid hrid => ?_, ?_⟩
  · obtain ⟨row, hrow, -⟩ := hscored rid hrid
    rw [hrow, Option.isSome_some]
  · rw [List.map_filterMap]
    refine (List.filterMap_congr fun rid hrid => ?_).trans List.filterMap_some
    obtain ⟨row, hrow, hreleaseId⟩ := hscored rid hrid
    rw [hrow, Option.map_some, hreleaseId]

/-! ## The second pass -/

/-- What `fetch_rarity_page` makes of the ids of a page. -/
def servePage (graph : Graph V) (community : Community) (score : Evidence → Int → Scores)
    (currentYear : Int) (ids : List String) : Option (List (Row Scores)) :=
  (loadPageCommunityCounts community ids).bind fun counts =>
    ids.mapM fun id => graph.row score currentYear (counts id) graph.rank id

theorem serve_page_eq (ids : List String)
    (hreads : ∀ id ∈ ids, isDecimalText id = true → (Numerals.int id).isSome = true) :
    servePage graph community score currentYear ids =
      ids.mapM (graph.pageRow community score currentYear) := by
  obtain ⟨counts, hcounts⟩ := load_page_some.mpr hreads
  rw [servePage, hcounts, Option.bind_some]
  refine map_m_congr fun id hid => ?_
  rw [page_counts hcounts hid, Graph.pageRow]

variable {counts : List (QualityCounts V)}

/-- The ranks of the summed counts are those of the stream. -/
theorem sum_rank (hsums : ∀ signal, sumCounts counts signal =
    Counters.tally (graph.valuesOf graph.releases signal)) (signal : Signal) :
    (Distribution.fromCounts (sumCounts counts signal)).Frozen
      (graph.valuesOf graph.releases signal) := by
  rw [hsums]
  have hfold := Counters.counts_foldl Counters.counts_empty
    (Counters.tally_pos (graph.valuesOf graph.releases signal))
  rw [List.append_nil] at hfold
  exact Distribution.freeze_frozen (hfold.of_perm (Counters.expand_tally _))

/-- A fetched page serves the next releases of the walk. -/
theorem fetch_page_eq (hsums : ∀ signal, sumCounts counts signal =
    Counters.tally (graph.valuesOf graph.releases signal)) {limit : Nat} (hlimit : 0 < limit)
    (cursor : String) :
    fetchRarityPage graph community score currentYear (sumCounts counts) limit cursor =
      (servePage graph community score currentYear (pageAfter graph.releases cursor limit)).map
        fun items => (items, nextAfter (pageAfter graph.releases cursor limit) limit) := by
  have hrank : (fun signal => (Distribution.fromCounts (sumCounts counts signal)).percentileRank) =
      graph.rank :=
    funext fun signal => funext fun value =>
      Distribution.percentile_rank_eq (sum_rank hsums signal) value
  rw [fetchRarityPage]
  dsimp only
  split
  case isTrue hnil =>
    rw [hnil, nextAfter, List.length_nil, if_neg (by omega)]
    rfl
  case isFalse =>
    rw [servePage]
    cases loadPageCommunityCounts community (pageAfter graph.releases cursor limit) with
    | none => rfl
    | some communityMap =>
        rw [Option.bind_some, ← hrank, ← score_page_eq]
        show (scorePage score _ communityMap _ currentYear).bind _ = _
        cases scorePage score (fetchPageSignals graph (pageAfter graph.releases cursor limit))
            communityMap (fun signal => Distribution.fromCounts (sumCounts counts signal))
            currentYear with
        | none => rfl
        | some items => rfl

/-- A release scores alike in a page and in the stream exactly when the counts of a negative id do
not matter. -/
theorem rows_eq_iff (hnumeric : graph.NumericIds) :
    (∀ id ∈ graph.releases, graph.pageRow community score currentYear id =
      graph.catalogRow community score currentYear id) ↔ graph.NeutralBelowZero community := by
  constructor
  · intro h row hrow hneg hmem
    have hdecimal : ¬isDecimalText (toString row.releaseId) = true := fun hdecimal =>
      not_le_of_gt hneg ((decimal_str _).mp hdecimal)
    have hcounts : loadCommunityCounts community (toString row.releaseId) = some row.counts :=
      (counts_by_text community.keyed).mpr ⟨row, hrow, rfl, rfl⟩
    have heq := h _ hmem
    rw [Graph.pageRow, Graph.catalogRow, if_neg hdecimal, hcounts] at heq
    obtain ⟨paged, hpaged, -, hprevalence⟩ :=
      row_scored hnumeric hmem score currentYear none graph.rank
    obtain ⟨streamed, hstreamed, -, hprevalence'⟩ :=
      row_scored hnumeric hmem score currentYear (some row.counts) graph.rank
    rw [hpaged, hstreamed, Option.some.injEq] at heq
    rw [← hprevalence, ← hprevalence', heq]
  · intro h id hid
    refine row_congr ?_ _ _
    split
    case isTrue => rfl
    case isFalse hdecimal =>
      cases hcounts : loadCommunityCounts community id with
      | none => rfl
      | some counts =>
          obtain ⟨row, hrow, rfl, rfl⟩ := (counts_by_text community.keyed).mp hcounts
          have hneg : row.releaseId < 0 := lt_of_not_ge fun hnonneg =>
            hdecimal ((decimal_str _).mpr hnonneg)
          exact (h row hrow hneg hid).symm

omit [LinearOrder V] [Zero V] in
/-- Every release stands on a page. -/
theorem mem_served {limit : Nat} (hlimit : 0 < limit) {id : String} :
    id ∈ graph.releases ↔ ∃ ids ∈ served graph.releases limit "", id ∈ ids := by
  rw [← List.mem_flatten, served_flatten graph.nodup hlimit, releases_after, mem_sort_by]

/-- The pages give the rows of the stream exactly when they can be loaded and miss no counts that
matter. -/
theorem items_agree_iff (hnumeric : graph.NumericIds)
    (hsums : ∀ signal, sumCounts counts signal =
      Counters.tally (graph.valuesOf graph.releases signal))
    {rows : List (Row Scores)} (hrows : (sortBy id graph.releases).mapM
      (graph.catalogRow community score currentYear) = some rows)
    {limit : Nat} (hlimit : 0 < limit) :
    ItemsAgree graph community score currentYear counts limit rows ↔
      graph.Converts ∧ graph.NeutralBelowZero community := by
  have hflatten : (served graph.releases limit "").flatten = sortBy id graph.releases := by
    rw [served_flatten graph.nodup hlimit, releases_after]
  have hwalk : ∀ items, Walk (fetchRarityPage graph community score currentYear (sumCounts counts)
      limit) "" items ↔ (served graph.releases limit "").mapM
        (servePage graph community score currentYear) = some items :=
    walk_iff (fetch_page_eq hsums hlimit) ""
  constructor
  · rintro ⟨items, hitems, -, hrest⟩
    rw [hwalk] at hitems
    have hserved := map_m_eq_some.mp hitems
    have hloads : ∀ ids ∈ served graph.releases limit "",
        ∀ id ∈ ids, isDecimalText id = true → (Numerals.int id).isSome = true := by
      intro ids hids
      have hmem : servePage graph community score currentYear ids ∈ items.map some :=
        hserved ▸ List.mem_map_of_mem hids
      obtain ⟨page, -, hpage⟩ := List.mem_map.mp hmem
      obtain ⟨communityMap, hload, -⟩ := Option.bind_eq_some_iff.mp hpage.symm
      exact load_page_some.mp ⟨communityMap, hload⟩
    have hconverts : graph.Converts := by
      intro id hid
      obtain ⟨ids, hids, hmem⟩ := (mem_served hlimit).mp hid
      exact hloads ids hids id hmem
    suffices hrows' : ∀ id ∈ graph.releases, graph.pageRow community score currentYear id =
        graph.catalogRow community score currentYear id from
      ⟨hconverts, (rows_eq_iff hnumeric).mp hrows'⟩
    have hpaged : (sortBy id graph.releases).mapM (graph.pageRow community score currentYear) =
        some rows := by
      rw [← hflatten, ← map_m_flatten, ← hrest, ← Option.map_some, ← hitems]
      refine congrArg (Option.map List.flatten) (map_m_congr fun ids hids => ?_)
      exact (serve_page_eq ids (hloads ids hids)).symm
    have hsame := (map_m_eq_some.mp hpaged).trans (map_m_eq_some.mp hrows).symm
    exact fun rid hrid => List.map_inj_left.mp hsame rid (mem_sort_by.mpr hrid)
  · rintro ⟨hconverts, hneutral⟩
    have hpage : ∀ ids ∈ served graph.releases limit "",
        servePage graph community score currentYear ids =
          ids.mapM (graph.catalogRow community score currentYear) := by
      intro ids hids
      have hmem : ∀ id ∈ ids, id ∈ graph.releases := fun id hid =>
        (mem_served hlimit).mpr ⟨ids, hids, hid⟩
      rw [serve_page_eq ids fun id hid => hconverts id (hmem id hid)]
      exact map_m_congr fun id hid => (rows_eq_iff hnumeric).mpr hneutral id (hmem id hid)
    rw [← hflatten, ← map_m_flatten, Option.map_eq_some_iff] at hrows
    obtain ⟨items, hitems, hrest⟩ := hrows
    rw [← map_m_congr hpage] at hitems
    refine ⟨items, (hwalk items).mpr hitems, fun page hpage' => ?_, hrest⟩
    have hserved := congrArg List.dropLast (map_m_eq_some.mp hitems)
    rw [← List.map_dropLast, ← List.map_dropLast] at hserved
    have hmem : some page ∈ (served graph.releases limit "").dropLast.map
        (servePage graph community score currentYear) := hserved ▸ List.mem_map_of_mem hpage'
    obtain ⟨ids, hids, hserve⟩ := List.mem_map.mp hmem
    rw [hpage ids (List.dropLast_subset _ hids)] at hserve
    rintro rfl
    have hnil := map_m_eq_some.mp hserve
    exact served_ne_nil "" ids hids (List.map_eq_nil_iff.mp hnil)

/-- A graph whose pages agree has no id that a page cannot load or scores otherwise. -/
theorem agree_only_if (hnumeric : graph.NumericIds) {rows : List (Row Scores)}
    (h : Agree graph community score currentYear rows) :
    graph.Converts ∧ graph.NeutralBelowZero community := by
  obtain ⟨counts, hcounts, hitems⟩ := h.paged 1 Nat.one_pos
  have hsums : ∀ signal, sumCounts counts signal =
      Counters.tally (graph.valuesOf graph.releases signal) := fun signal =>
    (hcounts.sums 1 Nat.one_pos signal).trans (quality_tally Nat.one_pos signal)
  have hrows := (stream_eq Nat.one_pos).symm.trans (h.streamed 1 Nat.one_pos)
  exact (items_agree_iff hnumeric hsums hrows Nat.one_pos).mp (hitems 1 Nat.one_pos)

end Rows

/-- Paged scoring equals whole-catalog scoring exactly when every decimal release id is one that
`int` takes and the counts of releases with negative ids score as if there were none. -/
theorem pages_agree_iff {V Scores : Type} [LinearOrder V] [Zero V] (graph : Graph V)
    (community : Community) (score : Evidence → Int → Scores) (currentYear : Int)
    (hnumeric : graph.NumericIds) :
    (∃ rows, Agree graph community score currentYear rows) ↔
      graph.Converts ∧ graph.NeutralBelowZero community := by
  obtain ⟨rows, hrows, hids⟩ := stream_rows hnumeric
  constructor
  · rintro ⟨rows', h⟩
    exact agree_only_if hnumeric h
  · intro h
    refine ⟨rows, hids, fun pageSize hsize => (stream_eq hsize).trans hrows,
      fun pageSize hsize signal value =>
        Distribution.percentile_rank_eq (quality_frozen hsize signal) value,
      fun limit hlimit => ?_⟩
    have hsums : ∀ signal, sumCounts ((served graph.releases limit "").map (qualityCounts graph))
        signal = Counters.tally (graph.valuesOf graph.releases signal) := fun signal =>
      sum_counts_eq hlimit
    refine ⟨(served graph.releases limit "").map (qualityCounts graph), ⟨?_, ?_, ?_, ?_⟩,
      fun limit' hlimit' => (items_agree_iff hnumeric hsums hrows hlimit').mpr h⟩
    · have hfetch : ∀ cursor, fetchRarityQualityCounts graph limit cursor =
          (some (qualityCounts graph (pageAfter graph.releases cursor limit))).map fun page =>
            (page, nextAfter (pageAfter graph.releases cursor limit) limit) := fun _ => rfl
      refine (@walk_iff _ _ _ _ _ _ (fun ids => some (qualityCounts graph ids)) hfetch "" _).mpr
        (map_m_eq_some.mpr ?_)
      rw [List.map_map]
      rfl
    · intro page hpage
      rw [← List.map_dropLast] at hpage
      obtain ⟨ids, hids, rfl⟩ := List.mem_map.mp hpage
      exact List.length_pos_iff.mpr (served_ne_nil "" ids hids)
    · exact fun pageSize hsize signal => (hsums signal).trans (quality_tally hsize signal).symm
    · exact fun pageSize hsize signal =>
        (sum_rank hsums signal).agrees (quality_frozen hsize signal) (List.Perm.refl _)

section Examples

/-- Two releases of one artist and label, with the artist's degree as their quality. -/
def twoReleases : Graph Int where
  releases := ["2", "10"]
  nodup := by decide
  named := by decide
  release id := ⟨some id, none, some 1990⟩
  media _ := none
  labelCatalogSize _ := some 12
  temporal _ := none
  degree _ := some 3
  quality signal id := if signal = .artist then some (some (if id = "2" then 5 else 0)) else none
  releaseIds _ := some ⟨["7"], ["3", "1"]⟩
  pressingCount _ := none

/-- The counts of one of them. -/
def oneCount : Community := ⟨[⟨2, some 40, some 90⟩], by decide, by decide⟩

/-- Scores that tell the ranks of the releases. -/
def artistRank (evidence : Evidence) (_ : Int) : ℚ := evidence.percentiles .artist

theorem two_releases_numeric : twoReleases.NumericIds := by
  intro id _ row hrow value hvalue
  obtain rfl := Option.some.inj hrow
  revert value
  decide

theorem pages_agree_two :
    ∃ rows, Agree twoReleases oneCount artistRank 2026 rows := by
  refine (pages_agree_iff twoReleases oneCount artistRank 2026 two_releases_numeric).mpr ⟨?_, ?_⟩
  · intro id hid
    revert id
    decide
  · intro row hrow hneg
    obtain rfl := List.mem_singleton.mp hrow
    exact absurd hneg (by decide)

/-- One release, whose id is a negative number. -/
def negativeRelease : Graph Int where
  releases := ["-5"]
  nodup := by decide
  named := by decide
  release id := ⟨some id, none, none⟩
  media _ := none
  labelCatalogSize _ := none
  temporal _ := none
  degree _ := none
  quality _ _ := none
  releaseIds _ := none
  pressingCount _ := none

/-- Its counts. -/
def negativeCount : Community := ⟨[⟨-5, some 3, some 0⟩], by decide, by decide⟩

/-- The stream scores a release that three people have, and its page scores it as unknown. -/
theorem negative_release_differs : negativeRelease.NumericIds ∧
    ¬∃ rows, Agree negativeRelease negativeCount artistRank 2026 rows := by
  have hnumeric : negativeRelease.NumericIds := fun id _ row hrow => by cases hrow
  refine ⟨hnumeric, ?_⟩
  rintro ⟨rows, h⟩
  have hneutral := (agree_only_if hnumeric h).2 ⟨-5, some 3, some 0⟩ List.mem_cons_self
    (by decide) (List.mem_singleton.mpr rfl)
  exact absurd hneutral (by decide)

end Examples

end CatalogApi.Rarity
