import CatalogApi.Fit.Scores
import CatalogApi.Lib.Greedy

/-!
# Bridged regions

Two regions of a collection are separate when they share no artist and no label. `score_bridge`
compares the merged ids of the two kinds instead, so an artist and a label with one id text keep
two separate regions apart. `bridge_rule_iff` says when that does not matter.
-/

namespace CatalogApi.Fit

open Greedy ByKey

variable {collection : Collection} {context : Context}

/-- The regions share an artist or a label. -/
def sharesFacet (collection : Collection) (region other : String) : Bool :=
  meets (around collection.genreArtists region) (around collection.genreArtists other) ||
    meets (around collection.genreLabels region) (around collection.genreLabels other)

/-- The merged neighbourhoods of the regions overlap. -/
def overlaps (collection : Collection) (region other : String) : Bool :=
  meets (neighbourhood collection region) (neighbourhood collection other)

/-- An artist of one region and a label of the other have one id text. -/
def Crosses (collection : Collection) (region other : String) : Prop :=
  meets (around collection.genreArtists region) (around collection.genreLabels other) ∨
    meets (around collection.genreLabels region) (around collection.genreArtists other)

/-- The greedy family, in order of name, of touched regions no two of which share an artist or a
label. -/
def separateRegions (collection : Collection) (context : Context) : List String :=
  greedy (sharesFacet collection) (touchedRegions collection context)

/-- Bridge counts regions that share no artist and no label. -/
structure CountsSeparate (collection : Collection) (context : Context) : Prop where
  picked : pickedRegions collection context = separateRegions collection context
  separate : (pickedRegions collection context).Pairwise fun earlier later =>
    sharesFacet collection later earlier = false
  blocked : ∀ region ∈ touchedRegions collection context,
    region ∉ pickedRegions collection context →
      ∃ earlier ∈ pickedRegions collection context, earlier < region ∧
        sharesFacet collection region earlier
  score : (scoreBridge collection context).score =
    min bridgeScoreCap (max 0 (((pickedRegions collection context).length : ℚ) - 1))

theorem meets_iff {values others : List String} :
    meets values others ↔ ∃ value ∈ values, value ∈ others := by
  simp [meets, List.any_eq_true]

theorem overlaps_iff {region other : String} :
    overlaps collection region other ↔
      sharesFacet collection region other ∨ Crosses collection region other := by
  simp only [overlaps, neighbourhood, sharesFacet, Crosses, Bool.or_eq_true, meets_iff,
    List.mem_append]
  constructor
  · rintro ⟨value, hmine | hmine, hother | hother⟩
    · exact Or.inl (Or.inl ⟨value, hmine, hother⟩)
    · exact Or.inr (Or.inl ⟨value, hmine, hother⟩)
    · exact Or.inr (Or.inr ⟨value, hmine, hother⟩)
    · exact Or.inl (Or.inr ⟨value, hmine, hother⟩)
  · rintro ((⟨value, hmine, hother⟩ | ⟨value, hmine, hother⟩) |
      (⟨value, hmine, hother⟩ | ⟨value, hmine, hother⟩))
    · exact ⟨value, Or.inl hmine, Or.inl hother⟩
    · exact ⟨value, Or.inr hmine, Or.inr hother⟩
    · exact ⟨value, Or.inl hmine, Or.inr hother⟩
    · exact ⟨value, Or.inr hmine, Or.inl hother⟩

/-- The loop picks the greedy family of the merged neighbourhoods. -/
theorem picked_eq_greedy (collection : Collection) (context : Context) :
    pickedRegions collection context =
      greedy (overlaps collection) (touchedRegions collection context) := by
  have hloop : ∀ (regions picked : List String),
      (regions.foldl (pickRegion collection) (picked, picked.map (neighbourhood collection))).1 =
        greedyFrom (overlaps collection) picked regions := by
    intro regions
    induction regions with
    | nil => exact fun _ => rfl
    | cons region regions ih =>
        intro picked
        have htest : ((picked.map (neighbourhood collection)).any fun existing =>
            meets (neighbourhood collection region) existing) =
            picked.any (overlaps collection region) := by
          rw [List.any_map]
          rfl
        rw [List.foldl_cons, pickRegion, greedyFrom, htest]
        split
        · exact ih picked
        · rw [← ih (picked ++ [region]), List.map_append, List.map_singleton]
  exact hloop (touchedRegions collection context) []

theorem touched_sorted (collection : Collection) (context : Context) :
    (touchedRegions collection context).Pairwise (· ≤ ·) :=
  (sort_by_sorted id collection.genres).filter _

theorem bridge_score (collection : Collection) (context : Context) :
    (scoreBridge collection context).score =
      min bridgeScoreCap (max 0 (((pickedRegions collection context).length : ℚ) - 1)) := by
  have hbounds : 0 ≤ min bridgeScoreCap
      (max 0 (((pickedRegions collection context).length : ℚ) - 1)) :=
    le_min (show (0 : ℚ) ≤ bridgeScoreCap from zero_le_one) (le_max_left 0 _)
  simp only [scoreBridge, component]
  rw [max_eq_right hbounds]
  exact min_eq_right (min_le_left _ _)

/-- Bridge counts separate regions exactly when, in the family it should pick, no artist of one
region has the id text of a label of another. -/
theorem bridge_rule_iff (collection : Collection) (context : Context) :
    CountsSeparate collection context ↔
      (separateRegions collection context).Pairwise fun earlier later =>
        ¬Crosses collection later earlier := by
  have hfinds : ∀ region other, sharesFacet collection region other →
      overlaps collection region other := fun region other h => overlaps_iff.mpr (Or.inl h)
  have hfamily : (separateRegions collection context).Pairwise
      (fun earlier later => overlaps collection later earlier = false) ↔
      (separateRegions collection context).Pairwise fun earlier later =>
        ¬Crosses collection later earlier := by
    have hseparate := @greedy_pairwise _ (sharesFacet collection)
      (touchedRegions collection context)
    constructor
    · refine List.Pairwise.imp fun {earlier later} hno hcross => ?_
      rw [overlaps_iff.mpr (Or.inr hcross)] at hno
      exact absurd hno (by simp)
    · intro hcrosses
      refine (hseparate.and hcrosses).imp fun {earlier later} h => ?_
      refine Bool.eq_false_iff.mpr fun hoverlap => ?_
      rcases overlaps_iff.mp hoverlap with hshares | hcross
      · rw [h.1] at hshares
        exact absurd hshares (by simp)
      · exact h.2 hcross
  rw [← hfamily, separateRegions, ← greedy_eq_iff hfinds, ← picked_eq_greedy]
  constructor
  · exact fun h => h.picked
  · intro hpicked
    refine ⟨hpicked, ?_, fun region hregion hnot => ?_, bridge_score collection context⟩
    · rw [hpicked]
      exact greedy_pairwise _
    · rw [hpicked] at hnot ⊢
      obtain ⟨earlier, hearlier, hbefore, hshares⟩ :=
        greedy_maximal (touched_sorted collection context) hregion hnot
      refine ⟨earlier, hearlier, lt_of_le_of_ne hbefore fun heq => ?_, hshares⟩
      exact hnot (heq ▸ hearlier)

/-- A collection of two regions: artist 5 in the one, label 5 in the other. -/
def twoRegions : Collection :=
  { releaseIds := ["1", "2"], masterIds := [], artistIds := ["5", "6"], labelIds := ["5"],
    genres := ["Jazz", "Rock"], styles := [], artistCounts := [("5", 1), ("6", 1)],
    labelCounts := [("5", 1)], genreCounts := [("Jazz", 1), ("Rock", 1)], styleCounts := [],
    genreArtists := [("Jazz", ["5"]), ("Rock", ["6"])],
    genreLabels := [("Jazz", []), ("Rock", ["5"])],
    genreStyles := [("Jazz", []), ("Rock", [])],
    heldTitles := [], heldTitleReleases := [] }

/-- A candidate of both regions. -/
def ofBothRegions : Context :=
  { id := some "3", title := none, artists := [], labels := [], genres := ["Jazz", "Rock"],
    styles := [], mediaFamilies := [], masterId := none, siblings := [] }

/-- An artist and a label with one id text hide a bridge between two separate regions. -/
theorem crossed_regions_uncounted : ¬CountsSeparate twoRegions ofBothRegions := by
  intro h
  have hpicked : pickedRegions twoRegions ofBothRegions = ["Jazz"] := by decide +kernel
  have hfamily : separateRegions twoRegions ofBothRegions = ["Jazz", "Rock"] := by decide +kernel
  exact absurd (hpicked.symm.trans (h.picked.trans hfamily)) (by decide)

end CatalogApi.Fit
