import CatalogApi.Fit.Order
import CatalogApi.Fit.Scores
import CatalogApi.Lib.Stable
import CatalogApi.Lib.WeightedMean
import Mathlib.Tactic.NormNum

/-!
# The fit over the rows

The scores read the folded collection. Here they are stated over the rows it was folded from: which
facets of the candidate occur in a row, how many rows carry each, and whether a row is the candidate
itself, one of its siblings or a record of the same title. `fit_over_rows` says that the components
are these.
-/

namespace CatalogApi.Fit

open ByKey Folds WeightedMean

variable {titleText : String → String} {rows : List Row} {context : Context}

/-! ## The rows -/

/-- The values of one dimension that a row carries. -/
def rowValues : Dimension → Row → List String
  | .artist => (·.artistIds)
  | .label => (·.labelIds)
  | .genre => (·.genres)
  | .style => (·.styles)

/-- How many rows carry a value. -/
def rowsCarrying (rows : List Row) (dimension : Dimension) (value : String) : Nat :=
  rows.countP fun row => value ∈ rowValues dimension row

/-- The values of one dimension that a release carries. -/
def releaseValues : Dimension → Release → List String
  | .artist => (·.artists)
  | .label => (·.labels)
  | .genre => (·.genres)
  | .style => (·.styles)

theorem mem_present {value : String} {values : List String} :
    value ∈ present values ↔ value ∈ values ∧ value ≠ "" := by
  simp [present]

theorem truthy_some {value : Option String} {text : String} :
    truthy value = some text ↔ value = some text ∧ text ≠ "" := by
  simp [truthy]

/-- Rows with a release id. -/
def Keyed (rows : List Row) : Prop := ∀ row ∈ rows, ∃ id, row.releaseId = some id ∧ id ≠ ""

theorem release_values {row : Row} {read : Release} (h : release row = some read)
    (dimension : Dimension) : releaseValues dimension read = present (rowValues dimension row) := by
  obtain ⟨id, -, rfl⟩ := Option.map_eq_some_iff.mp h
  cases dimension <;> rfl

theorem release_keyed {row : Row} (h : ∃ id, row.releaseId = some id ∧ id ≠ "") :
    ∃ read, release row = some read := by
  obtain ⟨id, hid, hne⟩ := h
  exact ⟨_, Option.map_eq_some_iff.mpr ⟨id, truthy_some.mpr ⟨hid, hne⟩, rfl⟩⟩

theorem release_id {row : Row} {read : Release} (h : release row = some read) :
    row.releaseId = some read.releaseId := by
  obtain ⟨id, hkey, rfl⟩ := Option.map_eq_some_iff.mp h
  exact (truthy_some.mp hkey).1

theorem carrying_rows (hrows : Keyed rows) (dimension : Dimension) {value : String}
    (hvalue : value ≠ "") :
    carrying (releaseValues dimension) (rows.filterMap release) value =
      rowsCarrying rows dimension value := by
  induction rows with
  | nil => rfl
  | cons row rows ih =>
      obtain ⟨read, hread⟩ := release_keyed (hrows row List.mem_cons_self)
      have hrest := ih fun r hr => hrows r (List.mem_cons_of_mem _ hr)
      have hmem : value ∈ releaseValues dimension read ↔ value ∈ rowValues dimension row := by
        rw [release_values hread, mem_present, and_iff_left hvalue]
      unfold carrying rowsCarrying at hrest ⊢
      rw [List.filterMap_cons_some hread, List.countP_cons, List.countP_cons, hrest]
      simp only [hmem]

/-! ## What the folded collection answers -/

theorem count_of_fold (hrows : Keyed rows) (dimension : Dimension) {value : String}
    (hvalue : value ≠ "") :
    countOf (foldCollection titleText rows) dimension value = rowsCarrying rows dimension value := by
  have hcount : ∀ {field : Folding → Dict String Nat}, field emptyFolding = .empty →
      (∀ folding release, field (foldRelease titleText folding release) =
        countValues (field folding) (releaseValues dimension release)) →
      (get (sortedItems (field (folded titleText (rows.filterMap release)))) value).getD 0 =
        rowsCarrying rows dimension value := by
    intro field hempty hstep
    rw [get, find_sorted_items, get_folded_count hempty hstep, ← carrying_rows hrows dimension hvalue]
    split
    · rfl
    · exact (Nat.eq_zero_of_not_pos ‹_›).symm
  cases dimension with
  | artist => exact @hcount (·.artistCounts) rfl fun _ _ => rfl
  | label => exact @hcount (·.labelCounts) rfl fun _ _ => rfl
  | genre => exact @hcount (·.genreCounts) rfl fun _ _ => rfl
  | style => exact @hcount (·.styleCounts) rfl fun _ _ => rfl

theorem held_fold (hrows : Keyed rows) (dimension : Dimension) {value : String}
    (hvalue : value ≠ "") :
    value ∈ held (foldCollection titleText rows) dimension ↔
      0 < rowsCarrying rows dimension value := by
  have hset : ∀ {field : Folding → Finset String}, field emptyFolding = ∅ →
      (∀ folding release, field (foldRelease titleText folding release) =
        field folding ∪ (releaseValues dimension release).toFinset) →
      (value ∈ (field (folded titleText (rows.filterMap release))).sort ↔
        0 < rowsCarrying rows dimension value) := by
    intro field hempty hstep
    rw [Finset.mem_sort, mem_folded_set hempty hstep, ← carrying_rows hrows dimension hvalue,
      carrying, List.countP_pos_iff]
    simp
  cases dimension with
  | artist => exact @hset (·.artistIds) rfl fun _ _ => rfl
  | label => exact @hset (·.labelIds) rfl fun _ _ => rfl
  | genre => exact @hset (·.genres) rfl fun _ _ => rfl
  | style => exact @hset (·.styles) rfl fun _ _ => rfl

theorem release_ids_fold {releaseId : String} (hid : releaseId ≠ "") :
    releaseId ∈ (foldCollection titleText rows).releaseIds ↔
      ∃ row ∈ rows, row.releaseId = some releaseId := by
  have hset : releaseId ∈ (folded titleText (rows.filterMap release)).releaseIds ↔
      ∃ read ∈ rows.filterMap release, releaseId ∈ [read.releaseId] :=
    @mem_folded_set titleText _ (·.releaseIds) (fun release => [release.releaseId]) rfl
      (fun _ _ => by simp [foldRelease]) releaseId
  rw [foldCollection, Finset.mem_sort, hset]
  simp only [List.mem_singleton]
  constructor
  · rintro ⟨read, hread, rfl⟩
    obtain ⟨row, hrow, hrelease⟩ := List.mem_filterMap.mp hread
    exact ⟨row, hrow, release_id hrelease⟩
  · rintro ⟨row, hrow, hkey⟩
    obtain ⟨read, hread⟩ := release_keyed ⟨releaseId, hkey, hid⟩
    exact ⟨read, List.mem_filterMap.mpr ⟨row, hrow, hread⟩,
      Option.some.inj (hkey.symm.trans (release_id hread))⟩

/-- A title key is held exactly when a release has it. -/
theorem held_title_fold (key : String) :
    (truthy (get (foldCollection titleText rows).heldTitles key)).isSome ↔
      ∃ read ∈ rows.filterMap release, key ∈ titleKeys titleText read := by
  have hloop : ∀ (releases : List Release) (start : Option String),
      (∀ read ∈ releases, ∀ title, read.title = some title → title ≠ "") →
      (∀ title, start = some title → title ≠ "") →
      ((truthy (releases.foldl (fun held release =>
        if key ∈ titleKeys titleText release then release.title else held) start)).isSome ↔
        start.isSome ∨ ∃ read ∈ releases, key ∈ titleKeys titleText read) := by
    intro releases
    induction releases with
    | nil =>
        intro start _ hstart
        cases start with
        | none => simp [truthy]
        | some title => simp [truthy, hstart title rfl]
    | cons read releases ih =>
        intro start htitles hstart
        have hrest : ∀ r ∈ releases, ∀ title, r.title = some title → title ≠ "" := fun r hr =>
          htitles r (List.mem_cons_of_mem _ hr)
        rw [List.foldl_cons]
        by_cases hkey : key ∈ titleKeys titleText read
        · rw [if_pos hkey, ih _ hrest (htitles read List.mem_cons_self)]
          have hsome : read.title.isSome := by
            cases htitle : read.title with
            | none => simp [titleKeys, htitle] at hkey
            | some title => rfl
          simp [hsome, hkey]
        · rw [if_neg hkey, ih _ hrest hstart]
          simp [hkey]
  rw [get, foldCollection, find_sorted_items, get_folded_title, hloop]
  · simp
  · intro read hread title htitle
    obtain ⟨row, -, hrelease⟩ := List.mem_filterMap.mp hread
    obtain ⟨id, -, rfl⟩ := Option.map_eq_some_iff.mp hrelease
    exact (truthy_some.mp htitle).2
  · exact fun _ h => absurd h (by simp)

/-! ## The components over the rows -/

/-- The candidate's facets of one dimension that occur in some row. -/
def occurring (rows : List Row) (context : Context) (dimension : Dimension) :
    List (String × String) :=
  (candidateFacets context dimension).filter fun pair => 0 < rowsCarrying rows dimension pair.1

/-- The fraction of the candidate's facets of one dimension that occur in some row. -/
def overlap (rows : List Row) (context : Context) (dimension : Dimension) : ℚ :=
  (occurring rows context dimension).length / (candidateFacets context dimension).length

/-- Affinity: the weighted mean of the overlaps over the dimensions the candidate has. -/
def affinityOf (rows : List Row) (context : Context) : ℚ :=
  mean Prod.snd (fun weighed => overlap rows context weighed.1) (weighedDimensions context)

/-- All facets of the candidate, with their dimensions. -/
def allFacets (context : Context) : List (Dimension × String × String) :=
  [Dimension.artist, .label, .genre, .style].flatMap fun dimension =>
    (candidateFacets context dimension).map fun pair => (dimension, pair)

/-- Novelty: the fraction of all facets of the candidate that occur in no row. -/
def noveltyOf (rows : List Row) (context : Context) : ℚ :=
  ((allFacets context).countP fun facet => rowsCarrying rows facet.1 facet.2.1 = 0) /
    (allFacets context).length

/-- The depths of the candidate's labels and artists, and zero. -/
def depths (rows : List Row) (context : Context) : Set ℚ :=
  insert 0 {depth | ∃ dimension ∈ [Dimension.label, Dimension.artist],
    ∃ pair ∈ candidateFacets context dimension,
      depth = min 1 ((rowsCarrying rows dimension pair.1 : ℚ) / depthSaturation)}

/-- A row is this release. -/
def HeldRelease (rows : List Row) (id : Option String) : Prop :=
  ∃ text, id = some text ∧ text ≠ "" ∧ ∃ row ∈ rows, row.releaseId = some text

/-- The candidate and a sibling share a media family. -/
def SharesFamily (context : Context) (sibling : Sibling) : Prop :=
  ∃ family, family ≠ "" ∧ family ∈ sibling.mediaFamilies ∧ family ∈ context.mediaFamilies

/-- A row has one of the candidate's artists and its title, up to case and outer blanks. -/
def HeldTitle (titleText : String → String) (rows : List Row) (context : Context) : Prop :=
  ∃ row ∈ rows, ∃ pair ∈ candidateFacets context .artist, pair.1 ∈ row.artistIds ∧
    ∃ held title, row.title = some held ∧ held ≠ "" ∧ context.title = some title ∧ title ≠ "" ∧
      titleText held = titleText title

open Classical in
/-- Redundancy: the constant of the first case that holds. -/
noncomputable def redundancyOf (titleText : String → String) (rows : List Row)
    (context : Context) : ℚ :=
  if HeldRelease rows context.id then redundancyHeldRelease
  else if ∃ sibling ∈ context.siblings, HeldRelease rows sibling.id ∧ SharesFamily context sibling
    then redundancySameMasterSameFamily
  else if ∃ sibling ∈ context.siblings, HeldRelease rows sibling.id
    then redundancySameMasterOtherFamily
  else if HeldTitle titleText rows context then redundancySameArtistAndTitle
  else 0

/-- The facets of the candidate that occur in some row, each with how many rows carry it. -/
def countedFacets (rows : List Row) (context : Context) : List Counted :=
  (weighedDimensions context).flatMap fun (dimension, _) =>
    (occurring rows context dimension).map fun (identifier, name) =>
      { count := rowsCarrying rows dimension identifier, dimension, name, identifier }

/-- A score in the unit range. -/
def Unit (score : ℚ) : Prop := 0 ≤ score ∧ score ≤ 1

/-- The fit is what it is defined to be over the rows. -/
structure OverRows (titleText : String → String) (rows : List Row) (context : Context)
    (profile : FitProfile) : Prop where
  affinity : profile.affinity.score = affinityOf rows context
  novelty : profile.novelty.score = noveltyOf rows context
  depth : IsGreatest (depths rows context) profile.depth.score
  redundancy : profile.redundancy.score = redundancyOf titleText rows context
  /-- The evidence of affinity: the facets held, loudest first. -/
  evidence : ∃ facets : List Counted, facets.Perm (countedFacets rows context) ∧
    (facets.Pairwise fun earlier later => later.count ≤ earlier.count) ∧
    profile.affinity.evidenceEntries = facets.map sharedEntry
  units : Unit profile.affinity.score ∧ Unit profile.novelty.score ∧ Unit profile.bridge.score ∧
    Unit profile.depth.score ∧ Unit profile.redundancy.score ∧ Unit profile.fit

theorem component_unit (score : ℚ) (entries : List Entry) : Unit (component score entries).score :=
  ⟨le_min zero_le_one (le_max_left 0 score), min_le_left 1 _⟩

theorem component_score {score : ℚ} (h : Unit score) (entries : List Entry) :
    (component score entries).score = score := by
  rw [component, max_eq_right h.1, min_eq_right h.2]

/-- A facet of the candidate is not the empty text. -/
theorem facet_ne {dimension : Dimension} {pair : String × String}
    (h : pair ∈ candidateFacets context dimension) : pair.1 ≠ "" := by
  have hnamed : ∀ entries : List Named, pair ∈ namedPairs entries → pair.1 ≠ "" := by
    intro entries hpair
    obtain ⟨entry, -, hentry⟩ := List.mem_filterMap.mp hpair
    obtain ⟨identifier, hid, rfl⟩ := Option.map_eq_some_iff.mp hentry
    exact (truthy_some.mp hid).2
  have hplain : ∀ values : List String,
      pair ∈ (present values).map (fun value => (value, value)) → pair.1 ≠ "" := by
    intro values hpair
    obtain ⟨value, hvalue, rfl⟩ := List.mem_map.mp hpair
    exact (mem_present.mp hvalue).2
  cases dimension with
  | artist => exact hnamed _ h
  | label => exact hnamed _ h
  | genre => exact hplain _ h
  | style => exact hplain _ h

/-! ## Affinity -/

theorem held_facets (hrows : Keyed rows) (context : Context) (dimension : Dimension) :
    heldFacets (foldCollection titleText rows) context dimension =
      occurring rows context dimension := by
  refine List.filter_congr fun pair hpair => ?_
  simp only [held_fold hrows dimension (facet_ne hpair)]

theorem affinity_weights {weighed : Dimension × ℚ} (h : weighed ∈ weighedDimensions context) :
    0 ≤ weighed.2 := by
  have hall : ∀ weighed ∈ affinityWeights, 0 ≤ weighed.2 := by
    simp only [affinityWeights, List.forall_mem_cons, List.not_mem_nil, false_implies,
      implies_true, and_true]
    norm_num
  exact hall weighed (List.mem_of_mem_filter h)

theorem overlap_unit (rows : List Row) (context : Context) (dimension : Dimension) :
    Unit (overlap rows context dimension) := by
  have hle : ((occurring rows context dimension).length : ℚ) ≤
      (candidateFacets context dimension).length := by
    exact_mod_cast List.length_filter_le _ _
  exact ⟨div_nonneg (Nat.cast_nonneg _) (Nat.cast_nonneg _),
    div_le_one_of_le₀ hle (Nat.cast_nonneg _)⟩

theorem affinity_unit (rows : List Row) (context : Context) : Unit (affinityOf rows context) :=
  mean_mem_unit (fun _ h => affinity_weights h) fun weighed _ => overlap_unit rows context weighed.1

theorem affinity_score (hrows : Keyed rows) :
    (scoreAffinity (foldCollection titleText rows) context).score = affinityOf rows context := by
  have hscore : (if ((weighedDimensions context).map (·.2)).sum = 0 then (0 : ℚ) else
      ((weighedDimensions context).map fun (dimension, weight) => weight *
        ((heldFacets (foldCollection titleText rows) context dimension).length /
          (candidateFacets context dimension).length)).sum /
        ((weighedDimensions context).map (·.2)).sum) = affinityOf rows context := by
    rw [affinityOf, mean, total]
    split
    · rename_i hzero
      rw [hzero, div_zero]
    · simp only [held_facets hrows]
      rfl
  unfold scoreAffinity
  dsimp only
  rw [hscore]
  exact component_score (affinity_unit rows context) _

/-- The affinity evidence counts the facets of the rows, most frequent first. -/
theorem affinity_evidence (hrows : Keyed rows) :
    ∃ facets : List Counted, facets.Perm (countedFacets rows context) ∧
      (facets.Pairwise fun earlier later => later.count ≤ earlier.count) ∧
      (scoreAffinity (foldCollection titleText rows) context).evidenceEntries =
        facets.map sharedEntry := by
  have hshared : ((weighedDimensions context).flatMap fun (dimension, _) =>
      (heldFacets (foldCollection titleText rows) context dimension).map fun (identifier, name) =>
        { count := countOf (foldCollection titleText rows) dimension identifier, dimension, name,
          identifier : Counted }) = countedFacets rows context := by
    refine List.flatMap_congr fun weighed _ => ?_
    obtain ⟨dimension, weight⟩ := weighed
    dsimp only
    rw [held_facets hrows]
    refine List.map_congr_left fun pair hpair => ?_
    rw [count_of_fold hrows dimension (facet_ne (List.mem_of_mem_filter hpair))]
  have hcounts : ∀ facet ∈ countedFacets rows context, facet.count ≠ 0 := by
    intro facet hfacet
    obtain ⟨weighed, -, hfacet⟩ := List.mem_flatMap.mp hfacet
    obtain ⟨pair, hpair, rfl⟩ := List.mem_map.mp hfacet
    exact Nat.ne_of_gt (of_decide_eq_true (List.mem_filter.mp hpair).2)
  refine ⟨loudest (countedFacets rows context), sort_by_perm _ _, ?_, ?_⟩
  · refine (sort_by_sorted _ _).imp fun {earlier later} hle => ?_
    have hfirst := (Prod.Lex.toLex_le_toLex.mp hle)
    rcases hfirst with hlt | ⟨heq, -⟩
    · dsimp only at hlt
      omega
    · dsimp only at heq
      omega
  · unfold scoreAffinity
    dsimp only [component]
    rw [hshared]
    congr 1
    refine List.filter_eq_self.mpr fun facet hfacet => ?_
    simpa using hcounts facet ((sort_by_perm _ _).mem_iff.mp hfacet)

/-! ## Novelty -/

/-- The dimensions the candidate lacks add nothing. -/
theorem flat_map_weighed {α : Type} (f : Dimension → List α)
    (hf : ∀ dimension, candidateFacets context dimension = [] → f dimension = []) :
    ((weighedDimensions context).map (·.1)).flatMap f =
      [Dimension.artist, .label, .genre, .style].flatMap f := by
  rw [List.flatMap_map, weighedDimensions, flat_map_filter]
  have hkept : ∀ weighed : Dimension × ℚ,
      (if decide (candidateFacets context weighed.1 ≠ []) = true then f weighed.1 else []) =
        f weighed.1 := by
    intro weighed
    split
    · rfl
    · rename_i hempty
      exact (hf weighed.1 (by simpa using hempty)).symm
  simp only [hkept]
  rfl

theorem all_facets (context : Context) :
    ((weighedDimensions context).map (·.1)).flatMap (fun dimension =>
      (candidateFacets context dimension).map fun pair => (dimension, pair)) =
      allFacets context :=
  flat_map_weighed _ fun _ hempty => by rw [hempty, List.map_nil]

theorem novelty_unit (rows : List Row) (context : Context) : Unit (noveltyOf rows context) := by
  have hle : ((allFacets context).countP
      (fun facet => rowsCarrying rows facet.1 facet.2.1 = 0) : ℚ) ≤ (allFacets context).length := by
    exact_mod_cast List.countP_le_length
  exact ⟨div_nonneg (Nat.cast_nonneg _) (Nat.cast_nonneg _),
    div_le_one_of_le₀ hle (Nat.cast_nonneg _)⟩

/-- The novelty score is the one of the rows. -/
theorem novelty_score (hrows : Keyed rows) :
    (scoreNovelty (foldCollection titleText rows) context).score = noveltyOf rows context := by
  have htotal : (((weighedDimensions context).map (·.1)).map fun dimension =>
      (candidateFacets context dimension).length).sum = (allFacets context).length := by
    rw [← all_facets, List.length_flatMap]
    simp only [List.length_map]
  have hnew : (((weighedDimensions context).map (·.1)).flatMap fun dimension =>
      ((candidateFacets context dimension).filter fun pair =>
        pair.1 ∉ held (foldCollection titleText rows) dimension).map
          fun pair => (dimension, pair.2, pair.1)).length =
      (allFacets context).countP fun facet => rowsCarrying rows facet.1 facet.2.1 = 0 := by
    rw [← all_facets, List.countP_flatMap, List.length_flatMap]
    congr 1
    refine List.map_congr_left fun dimension _ => ?_
    rw [List.length_map, ← List.countP_eq_length_filter, Function.comp_apply, List.countP_map]
    refine List.countP_congr fun pair hpair => ?_
    simp [held_fold hrows dimension (facet_ne hpair)]
  unfold scoreNovelty
  dsimp only
  rw [htotal, hnew]
  have hscore : (if (allFacets context).length = 0 then (0 : ℚ) else
      ((allFacets context).countP fun facet => rowsCarrying rows facet.1 facet.2.1 = 0) /
        (allFacets context).length) = noveltyOf rows context := by
    rw [noveltyOf]
    split
    · rename_i hzero
      rw [hzero, Nat.cast_zero, div_zero]
    · rfl
  rw [hscore]
  exact component_score (novelty_unit rows context) _

/-! ## Depth -/

/-- A running maximum from zero. -/
theorem foldl_max_greatest {α : Type} (f : α → ℚ) (l : List α) :
    IsGreatest (insert 0 {value | ∃ a ∈ l, value = f a})
      (l.foldl (fun score a => max score (f a)) 0) := by
  induction l using List.reverseRecOn with
  | nil =>
      refine ⟨Set.mem_insert 0 _, ?_⟩
      rintro value (rfl | ⟨a, ha, -⟩)
      · exact le_rfl
      · exact absurd ha List.not_mem_nil
  | append_singleton l a ih =>
      rw [List.foldl_append, List.foldl_cons, List.foldl_nil]
      constructor
      · rcases max_choice (l.foldl (fun score a => max score (f a)) 0) (f a) with heq | heq
        · rw [heq]
          rcases ih.1 with hzero | ⟨b, hb, hvalue⟩
          · exact Or.inl hzero
          · exact Or.inr ⟨b, List.mem_append_left _ hb, hvalue⟩
        · rw [heq]
          exact Or.inr ⟨a, List.mem_append_right _ (List.mem_singleton.mpr rfl), rfl⟩
      · rintro value (rfl | ⟨b, hb, rfl⟩)
        · exact le_max_of_le_left (ih.2 (Set.mem_insert 0 _))
        · rcases List.mem_append.mp hb with hb | hb
          · exact le_max_of_le_left (ih.2 (Or.inr ⟨b, hb, rfl⟩))
          · rw [List.mem_singleton.mp hb]
            exact le_max_right _ _

/-- The depth score is the greatest depth of the rows. -/
theorem depth_score (hrows : Keyed rows) :
    IsGreatest (depths rows context)
      (scoreDepth (foldCollection titleText rows) context).score := by
  have hgreatest := foldl_max_greatest
    (fun facet : Counted => min 1 ((facet.count : ℚ) / depthSaturation))
    (deepened (foldCollection titleText rows) context)
  have hset : insert 0 {value | ∃ facet ∈ deepened (foldCollection titleText rows) context,
      value = min 1 ((facet.count : ℚ) / depthSaturation)} = depths rows context := by
    ext value
    refine or_congr_right' fun hvalue => ?_
    constructor
    · rintro ⟨facet, hfacet, rfl⟩
      obtain ⟨dimension, hdimension, hfacet⟩ := List.mem_flatMap.mp (List.mem_of_mem_filter hfacet)
      obtain ⟨⟨identifier, name⟩, hpair, rfl⟩ := List.mem_map.mp hfacet
      refine ⟨dimension, hdimension, (identifier, name), hpair, ?_⟩
      dsimp only
      rw [count_of_fold hrows _ (facet_ne hpair)]
    · rintro ⟨dimension, hdimension, pair, hpair, rfl⟩
      refine ⟨_, List.mem_filter.mpr ⟨List.mem_flatMap.mpr
        ⟨dimension, hdimension, List.mem_map.mpr ⟨pair, hpair, rfl⟩⟩, ?_⟩, ?_⟩
      · -- a count of zero would give the depth zero
        refine decide_eq_true (Nat.pos_of_ne_zero fun hzero => hvalue ?_)
        dsimp only at hzero
        rw [count_of_fold hrows _ (facet_ne hpair)] at hzero
        rw [hzero, Nat.cast_zero, zero_div]
        exact min_eq_right zero_le_one
      · dsimp only
        rw [count_of_fold hrows _ (facet_ne hpair)]
  rw [hset] at hgreatest
  have hunit : Unit ((deepened (foldCollection titleText rows) context).foldl
      (fun score facet => max score (min 1 ((facet.count : ℚ) / depthSaturation))) 0) := by
    refine ⟨hgreatest.2 (Set.mem_insert 0 _), ?_⟩
    rcases hgreatest.1 with hzero | ⟨dimension, -, pair, -, hvalue⟩
    · rw [hzero]
      exact zero_le_one
    · rw [hvalue]
      exact min_le_left 1 _
  unfold scoreDepth
  dsimp only
  rw [component_score hunit]
  exact hgreatest

/-! ## Redundancy -/

theorem held_sibling (rows : List Row) (sibling : Sibling) :
    (truthy sibling.id).getD "" ∈ (foldCollection titleText rows).releaseIds ↔
      HeldRelease rows sibling.id := by
  constructor
  · intro hmem
    cases hid : truthy sibling.id with
    | none =>
        rw [hid, Option.getD_none, foldCollection, Finset.mem_sort] at hmem
        have hread := (@mem_folded_set titleText (rows.filterMap release) (·.releaseIds)
          (fun release => [release.releaseId]) rfl (fun _ _ => by simp [foldRelease]) "").mp hmem
        obtain ⟨read, hread, heq⟩ := hread
        obtain ⟨row, -, hrelease⟩ := List.mem_filterMap.mp hread
        obtain ⟨id, hkey, rfl⟩ := Option.map_eq_some_iff.mp hrelease
        exact absurd (List.mem_singleton.mp heq).symm (truthy_some.mp hkey).2
    | some text =>
        obtain ⟨hsome, hne⟩ := truthy_some.mp hid
        rw [hid, Option.getD_some, release_ids_fold hne] at hmem
        exact ⟨text, hsome, hne, hmem⟩
  · rintro ⟨text, hsome, hne, hrow⟩
    rw [truthy_some.mpr ⟨hsome, hne⟩, Option.getD_some, release_ids_fold hne]
    exact hrow

/-- Two title keys of artists without a bar are equal when artist and title are. -/
theorem held_title_key_inj {artistId other title held : String} (hartist : Text.Lacks '|' artistId)
    (hother : Text.Lacks '|' other) :
    heldTitleKey titleText artistId title = heldTitleKey titleText other held ↔
      artistId = other ∧ titleText title = titleText held := by
  constructor
  · intro heq
    have hlists := congrArg String.toList heq
    simp only [heldTitleKey, String.toList_append, List.append_assoc] at hlists
    have hbar : "|".toList = ['|'] := by decide
    rw [hbar, List.singleton_append, List.singleton_append] at hlists
    obtain ⟨hid, hsame⟩ := Text.cut_inj hartist hother hlists
    exact ⟨String.toList_inj.mp hid, String.toList_inj.mp hsame⟩
  · rintro ⟨rfl, hsame⟩
    rw [heldTitleKey, heldTitleKey, hsame]

/-- Artist ids do not contain the bar of a title key. -/
structure Barless (rows : List Row) (context : Context) : Prop where
  rows : ∀ row ∈ rows, ∀ artistId ∈ row.artistIds, Text.Lacks '|' artistId
  candidate : ∀ pair ∈ candidateFacets context .artist, Text.Lacks '|' pair.1

/-- A title is held exactly when a row holds it. -/
theorem held_title_iff (hrows : Keyed rows) (hbar : Barless rows context) :
    (heldTitle titleText (foldCollection titleText rows) context).isSome ↔
      HeldTitle titleText rows context := by
  have hfound : ∀ (title : String) (pair : String × String),
      ((truthy (get (foldCollection titleText rows).heldTitles
        (heldTitleKey titleText pair.1 title))).map fun held =>
          (held, heldTitleKey titleText pair.1 title, pair.2)).isSome ↔
        ∃ read ∈ rows.filterMap release,
          heldTitleKey titleText pair.1 title ∈ titleKeys titleText read := by
    intro title pair
    rw [Option.isSome_map, held_title_fold]
  constructor
  · intro hsome
    obtain ⟨found, hheld⟩ := Option.isSome_iff_exists.mp hsome
    obtain ⟨title, htitle, hfind⟩ := Option.bind_eq_some_iff.mp hheld
    obtain ⟨htitle, hne⟩ := truthy_some.mp htitle
    obtain ⟨pair, hpair, hmap⟩ := List.exists_of_findSome?_eq_some hfind
    obtain ⟨read, hread, hkey⟩ := (hfound title pair).mp (by simp [hmap])
    obtain ⟨row, hrow, hrelease⟩ := List.mem_filterMap.mp hread
    obtain ⟨id, -, rfl⟩ := Option.map_eq_some_iff.mp hrelease
    unfold titleKeys at hkey
    cases hheldTitle : truthy row.title with
    | none => simp [hheldTitle] at hkey
    | some held =>
        simp only [hheldTitle] at hkey
        obtain ⟨artistId, hartist, heq⟩ := List.mem_map.mp hkey
        have hmem := (mem_present.mp hartist).1
        obtain ⟨rfl, hsame⟩ := (held_title_key_inj (hbar.rows row hrow artistId hmem)
          (hbar.candidate pair hpair)).mp heq
        exact ⟨row, hrow, pair, hpair, hmem, held, title, (truthy_some.mp hheldTitle).1,
          (truthy_some.mp hheldTitle).2, htitle, hne, hsame⟩
  · rintro ⟨row, hrow, pair, hpair, hartist, held, title, hheld, hheldNe, htitle, hne, hsame⟩
    obtain ⟨read, hread⟩ := release_keyed (hrows row hrow)
    have hkey : heldTitleKey titleText pair.1 title ∈ titleKeys titleText read := by
      obtain ⟨id, -, rfl⟩ := Option.map_eq_some_iff.mp hread
      simp only [titleKeys, truthy_some.mpr ⟨hheld, hheldNe⟩]
      refine List.mem_map.mpr ⟨pair.1, mem_present.mpr ⟨hartist, facet_ne hpair⟩, ?_⟩
      rw [heldTitleKey, heldTitleKey, hsame]
    have hthis := (hfound title pair).mpr ⟨read, List.mem_filterMap.mpr ⟨row, hrow, hread⟩, hkey⟩
    rw [heldTitle, truthy_some.mpr ⟨htitle, hne⟩, Option.bind_some, List.findSome?_isSome_iff]
    exact ⟨pair, hpair, hthis⟩

theorem shares_family {sibling : Sibling} :
    meets (present sibling.mediaFamilies) (present context.mediaFamilies) ↔
      SharesFamily context sibling := by
  simp only [meets, List.any_eq_true, decide_eq_true_eq, mem_present, SharesFamily]
  constructor
  · rintro ⟨family, ⟨hsibling, hne⟩, hcandidate, -⟩
    exact ⟨family, hne, hsibling, hcandidate⟩
  · rintro ⟨family, hne, hsibling, hcandidate⟩
    exact ⟨family, ⟨hsibling, hne⟩, hcandidate, hne⟩

theorem first_by_some {α : Type} {key : α → String} {l : List α} (h : l ≠ []) :
    ∃ first, firstBy key l = some first :=
  Option.ne_none_iff_exists'.mp (mt first_by_eq_none.mp h)

theorem redundancy_constants : Unit redundancyHeldRelease ∧ Unit redundancySameMasterSameFamily ∧
    Unit redundancySameMasterOtherFamily ∧ Unit redundancySameArtistAndTitle := by
  simp only [Unit, redundancyHeldRelease, redundancySameMasterSameFamily,
    redundancySameMasterOtherFamily, redundancySameArtistAndTitle]
  norm_num

theorem redundancy_unit (titleText : String → String) (rows : List Row) (context : Context) :
    Unit (redundancyOf titleText rows context) := by
  obtain ⟨hheld, hsame, hother, htitle⟩ := redundancy_constants
  unfold redundancyOf
  split_ifs
  · exact hheld
  · exact hsame
  · exact hother
  · exact htitle
  · exact ⟨le_rfl, zero_le_one⟩

/-- The redundancy score is the one of the rows. -/
theorem redundancy_score (hrows : Keyed rows) (hbar : Barless rows context) :
    (scoreRedundancy titleText (foldCollection titleText rows) context).score =
      redundancyOf titleText rows context := by
  have hmem : ∀ siblings : List Sibling, siblings ≠ [] ↔ ∃ sibling, sibling ∈ siblings :=
    fun siblings => ⟨List.exists_mem_of_ne_nil siblings, fun ⟨_, h⟩ => List.ne_nil_of_mem h⟩
  have hsame : sameFamily (foldCollection titleText rows) context ≠ [] ↔
      ∃ sibling ∈ context.siblings, HeldRelease rows sibling.id ∧ SharesFamily context sibling := by
    rw [hmem]
    simp only [sameFamily, heldSiblings, List.mem_filter, decide_eq_true_eq, held_sibling,
      shares_family, and_assoc]
  have hsiblings : heldSiblings (foldCollection titleText rows) context ≠ [] ↔
      ∃ sibling ∈ context.siblings, HeldRelease rows sibling.id := by
    rw [hmem]
    simp only [heldSiblings, List.mem_filter, decide_eq_true_eq, held_sibling]
  have hcandidate : ((truthy context.id).getD "" ≠ "" ∧
      (truthy context.id).getD "" ∈ (foldCollection titleText rows).releaseIds) ↔
      HeldRelease rows context.id := by
    constructor
    · rintro ⟨hne, hmem⟩
      cases hid : truthy context.id with
      | none => exact absurd (by rw [hid, Option.getD_none]) hne
      | some text =>
          obtain ⟨hsome, htext⟩ := truthy_some.mp hid
          rw [hid, Option.getD_some, release_ids_fold htext] at hmem
          exact ⟨text, hsome, htext, hmem⟩
    · rintro ⟨text, hsome, hne, hrow⟩
      rw [truthy_some.mpr ⟨hsome, hne⟩, Option.getD_some]
      exact ⟨hne, (release_ids_fold hne).mpr hrow⟩
  obtain ⟨hheldUnit, hsameUnit, hotherUnit, htitleUnit⟩ := redundancy_constants
  unfold scoreRedundancy redundancyOf
  dsimp only
  by_cases hfirst : HeldRelease rows context.id
  · rw [if_pos (hcandidate.mpr hfirst), if_pos hfirst, component_score hheldUnit]
  rw [if_neg (mt hcandidate.mp hfirst), if_neg hfirst]
  by_cases hsecond : ∃ sibling ∈ context.siblings,
      HeldRelease rows sibling.id ∧ SharesFamily context sibling
  · obtain ⟨sibling, hfound⟩ := @first_by_some _ siblingId _ (hsame.mpr hsecond)
    rw [hfound, if_pos hsecond]
    exact component_score hsameUnit _
  rw [first_by_eq_none.mpr (not_not.mp (mt hsame.mp hsecond)), if_neg hsecond]
  by_cases hthird : ∃ sibling ∈ context.siblings, HeldRelease rows sibling.id
  · obtain ⟨sibling, hfound⟩ := @first_by_some _ siblingId _ (hsiblings.mpr hthird)
    rw [hfound, if_pos hthird]
    exact component_score hotherUnit _
  rw [first_by_eq_none.mpr (not_not.mp (mt hsiblings.mp hthird)), if_neg hthird]
  by_cases htitle : HeldTitle titleText rows context
  · obtain ⟨⟨found, key, name⟩, hfound⟩ :=
      Option.isSome_iff_exists.mp ((held_title_iff hrows hbar).mpr htitle)
    rw [hfound, if_pos htitle]
    exact component_score htitleUnit _
  · have hnone : heldTitle titleText (foldCollection titleText rows) context = none :=
      Option.not_isSome_iff_eq_none.mp (mt (held_title_iff hrows hbar).mp htitle)
    rw [hnone, if_neg htitle]
    exact component_score ⟨le_rfl, zero_le_one⟩ _

/-- The components of a fit over the folded collection are their definitions over the rows, and all
scores are in the unit range. -/
theorem fit_over_rows (titleText : String → String) (rows : List Row) (context : Context)
    (hrows : Keyed rows) (hbar : Barless rows context) :
    OverRows titleText rows context
      (computeFit titleText (foldCollection titleText rows) context) := by
  constructor
  case affinity => exact affinity_score hrows
  case novelty => exact novelty_score hrows
  case depth => exact depth_score hrows
  case redundancy => exact redundancy_score hrows hbar
  case evidence => exact affinity_evidence hrows
  case units =>
    refine ⟨component_unit _ _, component_unit _ _, component_unit _ _, component_unit _ _, ?_,
      le_min zero_le_one (le_max_left 0 _), min_le_left 1 _⟩
    rw [computeFit, redundancy_score hrows hbar]
    exact redundancy_unit titleText rows context

/-- A candidate by the artist of the pressings. -/
def byArtist (title : String) : Context :=
  { id := some "2", title := some title, artists := [{ id := some "5", name := none }],
    labels := [], genres := [], styles := [], mediaFamilies := [], masterId := none,
    siblings := [] }

theorem pressing_keyed (title : String) : Keyed [pressing "1" title] := by
  intro row hrow
  rw [List.mem_singleton.mp hrow]
  exact ⟨"1", rfl, by decide⟩

theorem pressing_barless (title : String) : Barless [pressing "1" title] (byArtist title) := by
  have hlacks : Text.Lacks '|' "5" := by decide
  have hfacets : candidateFacets (byArtist title) .artist = [("5", "5")] := rfl
  constructor
  · intro row hrow artistId hartist
    rw [List.mem_singleton.mp hrow] at hartist
    rw [List.mem_singleton.mp hartist]
    exact hlacks
  · rw [hfacets]
    exact fun pair hpair => List.mem_singleton.mp hpair ▸ hlacks

/-- Three records held: two by the artist, one of them with a genre and a master, and one with a title
that the candidate has, too. -/
def shelf : List Row :=
  [pressing "1" "Blue",
    { pressing "3" "Green" with
      artistIds := ["5", "8"], labelIds := ["9"], genres := ["Jazz"], masterIds := ["30"] },
    { pressing "4" "Blue" with artistIds := ["7"], genres := ["Rock"] }]

theorem shelf_keyed : Keyed shelf := by
  intro row hrow
  simp only [shelf, List.mem_cons, List.not_mem_nil, or_false] at hrow
  rcases hrow with rfl | rfl | rfl
  · exact ⟨"1", rfl, by decide⟩
  · exact ⟨"3", rfl, by decide⟩
  · exact ⟨"4", rfl, by decide⟩

theorem shelf_barless (title : String) : Barless shelf (byArtist title) where
  rows := by decide
  candidate := (pressing_barless title).candidate

/-- The fit of a candidate over three records, one of them with its artist and title. -/
theorem shelf_over_rows :
    OverRows Text.lower shelf (byArtist "Blue")
      (computeFit Text.lower (foldCollection Text.lower shelf) (byArtist "Blue")) :=
  fit_over_rows Text.lower shelf (byArtist "Blue") shelf_keyed (shelf_barless "Blue")

/-- An empty title is the title of no record: a row with the candidate's artist and the same empty
title is no redundancy. -/
theorem empty_titles_not_redundant :
    Keyed [pressing "1" ""] ∧ Barless [pressing "1" ""] (byArtist "") ∧
      (∃ row ∈ [pressing "1" ""], "5" ∈ row.artistIds ∧ row.title = (byArtist "").title) ∧
      (scoreRedundancy Text.lower (foldCollection Text.lower [pressing "1" ""])
        (byArtist "")).score ≠ redundancySameArtistAndTitle := by
  refine ⟨pressing_keyed "", pressing_barless "",
    ⟨_, List.mem_singleton.mpr rfl, List.mem_singleton.mpr rfl, rfl⟩, ?_⟩
  have hheld : ¬HeldRelease [pressing "1" ""] (byArtist "").id := by
    rintro ⟨text, hid, -, row, hrow, hkey⟩
    obtain rfl := Option.some.inj hid
    rw [List.mem_singleton.mp hrow] at hkey
    exact absurd hkey (by decide)
  have hsiblings : ∀ P : Sibling → Prop, ¬∃ sibling ∈ (byArtist "").siblings, P sibling := by
    rintro P ⟨sibling, hsibling, -⟩
    exact absurd hsibling List.not_mem_nil
  have htitle : ¬HeldTitle Text.lower [pressing "1" ""] (byArtist "") := by
    rintro ⟨row, hrow, pair, -, -, held, title, -, -, htitle, hne, -⟩
    exact hne (Option.some.inj htitle).symm
  rw [redundancy_score (pressing_keyed "") (pressing_barless ""), redundancyOf, if_neg hheld,
    if_neg (hsiblings _), if_neg (hsiblings _), if_neg htitle, redundancySameArtistAndTitle]
  norm_num

end CatalogApi.Fit
