import CatalogApi.Fit.Fold
import CatalogApi.Lib.Text

/-!
# The fold and the order of the rows

The graph returns the rows of a collection in no fixed order. `fold_order_iff` says when that does
not show: every list and map of the folded collection but the held titles reads the rows as a set,
and the held titles do when releases that share a title key have one title.
-/

namespace CatalogApi.Fit

open Folds

variable {titleText : String → String} {releases releases' : List Release} {rows rows' : List Row}

/-- Releases with a common title key have one title. -/
def TitlesAgree (titleText : String → String) (rows : List Row) : Prop :=
  ∀ r ∈ rows.filterMap release, ∀ s ∈ rows.filterMap release, ∀ key ∈ titleKeys titleText r,
    key ∈ titleKeys titleText s → r.title = s.title

/-! ## The accumulators of two orders -/

section Orders

variable (h : releases'.Perm releases)

include h

theorem folded_set_perm {field : Folding → Finset String} {values : Release → List String}
    (hempty : field emptyFolding = ∅) (hstep : ∀ folding release,
      field (foldRelease titleText folding release) = field folding ∪ (values release).toFinset) :
    field (folded titleText releases') = field (folded titleText releases) := by
  ext value
  rw [mem_folded_set hempty hstep, mem_folded_set hempty hstep]
  simp only [h.mem_iff]

theorem folded_count_perm {field : Folding → Dict String Nat} {values : Release → List String}
    (hempty : field emptyFolding = .empty) (hstep : ∀ folding release,
      field (foldRelease titleText folding release) =
        countValues (field folding) (values release)) :
    sortedItems (field (folded titleText releases')) =
      sortedItems (field (folded titleText releases)) := by
  refine sorted_items_congr fun value => ?_
  have hcarrying : carrying values releases' value = carrying values releases value :=
    h.countP_eq _
  rw [get_folded_count hempty hstep, get_folded_count hempty hstep, hcarrying]

theorem folded_join_perm {field : Folding → Dict String (Finset String)}
    {values : Release → List String} (hstep : ∀ folding release,
      field (foldRelease titleText folding release) =
        joinValues (field folding) release.genres (values release)) :
    sortedSets (field (folded titleText releases')) =
      sortedSets (field (folded titleText releases)) := by
  unfold sortedSets
  congr 1
  refine sorted_items_congr fun genre => ?_
  have hloop : ∀ releases : List Release, (field (folded titleText releases)).get? genre =
      releases.foldl (fun held release => if genre ∈ release.genres then
        some (held.getD ∅ ∪ (values release).toFinset) else held)
        ((field emptyFolding).get? genre) := by
    intro releases
    rw [folded_field field (fun mapping release => joinValues mapping release.genres (values release))
      fun folding release => (hstep folding release).symm]
    exact @get_foldl _ _ _ _ _ (fun genre held release => if genre ∈ release.genres then
      some (held.getD ∅ ∪ (values release).toFinset) else held)
      (fun d release k => get_join_values d release.genres (values release) k) releases _ genre
  rw [hloop, hloop]
  refine h.foldl_eq' (fun r _ s _ held => ?_) _
  by_cases hr : genre ∈ r.genres
  · by_cases hs : genre ∈ s.genres
    · simp only [hr, hs, if_true, Option.getD_some, Finset.union_right_comm]
    · simp only [hr, hs, if_true, if_false]
  · simp only [hr, if_false]

theorem folded_title_releases_perm :
    sortedItems (folded titleText releases').heldTitleReleases =
      sortedItems (folded titleText releases).heldTitleReleases := by
  refine sorted_items_congr fun key => ?_
  have hloop : ∀ releases : List Release,
      (folded titleText releases).heldTitleReleases.get? key =
      releases.foldl (fun held release => if key ∈ titleKeys titleText release then
        some (min (held.getD release.releaseId) release.releaseId) else held) none := by
    intro releases
    rw [folded_field (·.heldTitleReleases) (addTitleReleases titleText) fun _ _ => rfl]
    exact @get_foldl _ _ _ _ _ (fun key held release => if key ∈ titleKeys titleText release then
      some (min (held.getD release.releaseId) release.releaseId) else held)
      (fun d release k => get_add_title_releases d release k) releases _ key
  rw [hloop, hloop]
  refine h.foldl_eq' (fun r _ s _ held => ?_) _
  by_cases hr : key ∈ titleKeys titleText r
  · by_cases hs : key ∈ titleKeys titleText s
    · simp only [hr, hs, if_true, Option.getD_some]
      cases held with
      | none => simp [min_comm]
      | some value => simp [min_right_comm]
    · simp only [hr, hs, if_true, if_false]
  · simp only [hr, if_false]

end Orders

/-- The loop over the titles at one key. -/
theorem get_folded_title (key : String) (releases : List Release) :
    (folded titleText releases).heldTitles.get? key =
      releases.foldl (fun held release =>
        if key ∈ titleKeys titleText release then release.title else held) none := by
  rw [folded_field (·.heldTitles) (addTitles titleText) fun _ _ => rfl]
  exact @get_foldl _ _ _ _ _ (fun key held release =>
    if key ∈ titleKeys titleText release then release.title else held)
    (fun d release k => get_add_titles d release k) releases _ key

theorem folded_titles_perm (h : releases'.Perm releases)
    (hagree : ∀ r ∈ releases', ∀ s ∈ releases', ∀ key ∈ titleKeys titleText r,
      key ∈ titleKeys titleText s → r.title = s.title) :
    sortedItems (folded titleText releases').heldTitles =
      sortedItems (folded titleText releases).heldTitles := by
  refine sorted_items_congr fun key => ?_
  rw [get_folded_title, get_folded_title]
  refine h.foldl_eq' (fun r hr s hs held => ?_) _
  by_cases hkeyR : key ∈ titleKeys titleText r
  · by_cases hkeyS : key ∈ titleKeys titleText s
    · simp only [hkeyR, hkeyS, if_true, hagree r hr s hs key hkeyR hkeyS]
    · simp only [hkeyR, hkeyS, if_true, if_false]
  · simp only [hkeyR, if_false]

/-! ## The folded collection -/

/-- The fold does not depend on the order of the rows. -/
theorem fold_perm (h : rows'.Perm rows) (hagree : TitlesAgree titleText rows) :
    foldCollection titleText rows' = foldCollection titleText rows := by
  have hreleases : (rows'.filterMap release).Perm (rows.filterMap release) := h.filterMap release
  have htitles := @folded_titles_perm titleText _ _ hreleases fun r hr s hs =>
    hagree r (hreleases.mem_iff.mp hr) s (hreleases.mem_iff.mp hs)
  have hids : (folded titleText (rows'.filterMap release)).releaseIds =
      (folded titleText (rows.filterMap release)).releaseIds :=
    @folded_set_perm titleText _ _ hreleases (·.releaseIds) (fun release => [release.releaseId])
      rfl fun folding release => by
        simp [foldRelease]
  have hsets : ∀ (field : Folding → Finset String) (values : Release → List String),
      field emptyFolding = ∅ → (∀ folding release, field (foldRelease titleText folding release) =
        field folding ∪ (values release).toFinset) →
      field (folded titleText (rows'.filterMap release)) =
        field (folded titleText (rows.filterMap release)) := fun field values hempty hstep =>
    folded_set_perm hreleases hempty hstep
  have hcounts : ∀ (field : Folding → Dict String Nat) (values : Release → List String),
      field emptyFolding = .empty → (∀ folding release,
        field (foldRelease titleText folding release) =
          countValues (field folding) (values release)) →
      sortedItems (field (folded titleText (rows'.filterMap release))) =
        sortedItems (field (folded titleText (rows.filterMap release))) :=
    fun field values hempty hstep => folded_count_perm hreleases hempty hstep
  have hjoins : ∀ (field : Folding → Dict String (Finset String))
      (values : Release → List String), (∀ folding release,
        field (foldRelease titleText folding release) =
          joinValues (field folding) release.genres (values release)) →
      sortedSets (field (folded titleText (rows'.filterMap release))) =
        sortedSets (field (folded titleText (rows.filterMap release))) :=
    fun field values hstep => folded_join_perm hreleases hstep
  unfold foldCollection
  dsimp only
  rw [hids, hsets (·.masterIds) (·.masters) rfl fun _ _ => rfl,
    hsets (·.artistIds) (·.artists) rfl fun _ _ => rfl,
    hsets (·.labelIds) (·.labels) rfl fun _ _ => rfl,
    hsets (·.genres) (·.genres) rfl fun _ _ => rfl,
    hsets (·.styles) (·.styles) rfl fun _ _ => rfl,
    hcounts (·.artistCounts) (·.artists) rfl fun _ _ => rfl,
    hcounts (·.labelCounts) (·.labels) rfl fun _ _ => rfl,
    hcounts (·.genreCounts) (·.genres) rfl fun _ _ => rfl,
    hcounts (·.styleCounts) (·.styles) rfl fun _ _ => rfl,
    hjoins (·.genreArtists) (·.artists) fun _ _ => rfl,
    hjoins (·.genreLabels) (·.labels) fun _ _ => rfl,
    hjoins (·.genreStyles) (·.styles) fun _ _ => rfl,
    htitles, folded_title_releases_perm hreleases]

/-- The row read last gives its title keys their title. -/
theorem held_title_last {row : Row} {last : Release} {key : String} (hrow : release row = some last)
    (hkey : key ∈ titleKeys titleText last) (rows : List Row) :
    get (foldCollection titleText (rows ++ [row])).heldTitles key = last.title := by
  have hreleases : (rows ++ [row]).filterMap release = rows.filterMap release ++ [last] := by
    rw [List.filterMap_append, List.filterMap_cons_some hrow, List.filterMap_nil]
  unfold get foldCollection
  dsimp only
  rw [find_sorted_items, hreleases, get_folded_title, List.foldl_append, List.foldl_cons,
    List.foldl_nil, if_pos hkey]

/-- All orders of the rows fold to one collection exactly when no two releases with a common title
key have different titles. -/
theorem fold_order_iff (titleText : String → String) (rows : List Row) :
    (∀ rows', rows'.Perm rows → foldCollection titleText rows' = foldCollection titleText rows) ↔
      TitlesAgree titleText rows := by
  constructor
  · intro hsame r hr s hs key hkeyR hkeyS
    have hlast : ∀ last ∈ rows.filterMap release, key ∈ titleKeys titleText last →
        get (foldCollection titleText rows).heldTitles key = last.title := by
      intro last hmem hkey
      obtain ⟨row, hrow, hrelease⟩ := List.mem_filterMap.mp hmem
      have hperm : (rows.erase row ++ [row]).Perm rows :=
        List.perm_append_singleton row _ |>.trans (List.perm_cons_erase hrow).symm
      rw [← hsame _ hperm, held_title_last hrelease hkey]
    rw [← hlast r hr hkeyR, ← hlast s hs hkeyS]
  · exact fun hagree rows' h => fold_perm h hagree

/-- A release of one artist and nothing else. -/
def pressing (releaseId title : String) : Row :=
  { releaseId := some releaseId, title := some title, artistIds := ["5"], labelIds := [],
    genres := [], styles := [], masterIds := [] }

/-- Two pressings of one record whose titles differ in case fold to different held titles in their
two orders. -/
theorem pressings_fold_apart :
    ¬∀ rows', rows'.Perm [pressing "1" "Blue", pressing "2" "BLUE"] →
      foldCollection Text.lower rows' =
        foldCollection Text.lower [pressing "1" "Blue", pressing "2" "BLUE"] := by
  intro hsame
  have hkey : ∀ last : Release, last.artists = ["5"] → (last.title = some "Blue" ∨
      last.title = some "BLUE") → heldTitleKey Text.lower "5" "Blue" ∈
        titleKeys Text.lower last := by
    rintro last hartists (htitle | htitle)
    · simp [titleKeys, hartists, htitle]
    · have hfolded : heldTitleKey Text.lower "5" "Blue" = heldTitleKey Text.lower "5" "BLUE" := by
        decide
      simp [titleKeys, hartists, htitle, hfolded]
  have hfirst := @held_title_last Text.lower (pressing "2" "BLUE") _ _ rfl
    (hkey _ rfl (Or.inr rfl)) [pressing "1" "Blue"]
  have hsecond := @held_title_last Text.lower (pressing "1" "Blue") _ _ rfl
    (hkey _ rfl (Or.inl rfl)) [pressing "2" "BLUE"]
  rw [List.singleton_append] at hfirst hsecond
  rw [hsame _ (List.Perm.swap _ _ _), hfirst] at hsecond
  exact absurd hsecond (by decide)

end CatalogApi.Fit
