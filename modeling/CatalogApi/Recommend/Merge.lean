import CatalogApi.Lib.ByKey
import CatalogApi.Lib.Dict
import Mathlib.Algebra.BigOperators.Ring.List
import Mathlib.Algebra.Order.BigOperators.Group.List
import Mathlib.Tactic.Linarith
import Mathlib.Tactic.Ring

/-!
# Merged recommendations

`merge_recommendation_candidates` of `api/queries/recommend_queries.py`. The scores of a signal are
divided by its highest row and added up by release, so a release that a list names more than once
can get more than the signal's weight. `within_weights_iff` says when it does not. Scores are exact
rationals and the rounding to four decimals is left out.
-/

namespace CatalogApi.Recommend

open ByKey

/-- A candidate release of one signal. -/
structure Candidate where
  id : String
  title : Option String
  artist : Option String
  label : Option String
  year : Option Int
  genres : List String
  score : ℚ
  source : Option String

/-- A merged release. -/
structure Recommendation where
  id : String
  title : Option String
  artist : Option String
  label : Option String
  year : Option Int
  genres : List String
  score : ℚ
  reasons : List String

/-- `_SIGNAL_WEIGHTS`. -/
def artistWeight : ℚ := 35 / 100
def labelWeight : ℚ := 25 / 100
def blindspotWeight : ℚ := 25 / 100
def obscurityWeight : ℚ := 15 / 100

/-- The highest score of a list, zero of an empty one. -/
def maxScore (candidates : List Candidate) : ℚ := ((candidates.map (·.score)).max?).getD 0

/-- `_normalize_scores`. -/
def normalizeScores (candidates : List Candidate) : List Candidate :=
  if maxScore candidates ≤ 0 then candidates
  else candidates.map fun c => { c with score := c.score / maxScore candidates }

/-- The entry of a release seen for the first time. -/
def freshEntry (c : Candidate) : Recommendation :=
  { id := c.id, title := c.title, artist := c.artist, label := c.label, year := c.year,
    genres := c.genres, score := 0, reasons := [] }

/-- One candidate of the loop over the signals. -/
def addCandidate (weight : ℚ) (merged : Dict String Recommendation) (c : Candidate) :
    Dict String Recommendation :=
  let entry := (merged.get? c.id).getD (freshEntry c)
  merged.set c.id { entry with
    score := entry.score + c.score * weight
    reasons := entry.reasons ++ [c.source.getD "unknown"] }

/-- The candidates of one signal. -/
def addSignal (merged : Dict String Recommendation) (signal : List Candidate × ℚ) :
    Dict String Recommendation :=
  signal.1.foldl (addCandidate signal.2) merged

/-- `max(collector_counts.values())`. -/
def maxCollectors (collectorCounts : Dict String Nat) : Nat :=
  ((collectorCounts.entries.map (·.2)).max?).getD 1

/-- What the collector counts add to the score of a release. -/
def obscurityBonus (collectorCounts : Dict String Nat) (rid : String) : ℚ :=
  if collectorCounts.entries = [] then 0
  else
    let most := maxCollectors collectorCounts
    let collectors := (collectorCounts.get? rid).getD most
    (if 0 < most then 1 - (collectors : ℚ) / most else 0) * obscurityWeight

/-- The signals of a merge, normalised, with their weights. -/
def signals (artist label blindspot : List Candidate) : List (List Candidate × ℚ) :=
  [(normalizeScores artist, artistWeight), (normalizeScores label, labelWeight),
    (normalizeScores blindspot, blindspotWeight)]

/-- The merged releases with their obscurity bonus, before they are ranked. -/
def mergedEntries (artist label blindspot : List Candidate) (collectorCounts : Dict String Nat) :
    List Recommendation :=
  ((signals artist label blindspot).foldl addSignal .empty).entries.map fun (rid, entry) =>
    { entry with score := entry.score + obscurityBonus collectorCounts rid }

/-- `merge_recommendation_candidates`. -/
def mergeRecommendationCandidates (artist label blindspot : List Candidate)
    (collectorCounts : Dict String Nat) (limit : Nat) : List Recommendation :=
  (sortBy (fun entry => -entry.score)
    (mergedEntries artist label blindspot collectorCounts)).take limit

/-! ## What a signal contributes -/

/-- What the rows of a list add to the score of a release. -/
def contribution (signal : List Candidate × ℚ) (rid : String) : ℚ :=
  ((signal.1.filter fun c => c.id = rid).map fun c => c.score * signal.2).sum

/-- The score of a release in the loop, zero before it is seen. -/
def scoreOf (merged : Dict String Recommendation) (rid : String) : ℚ :=
  (merged.get? rid).elim 0 (·.score)

theorem score_add_signal (signal : List Candidate × ℚ) (merged : Dict String Recommendation)
    (rid : String) :
    scoreOf (addSignal merged signal) rid = scoreOf merged rid + contribution signal rid := by
  obtain ⟨candidates, weight⟩ := signal
  unfold addSignal contribution
  dsimp only
  induction candidates generalizing merged with
  | nil => simp
  | cons c candidates ih =>
      rw [List.foldl_cons, ih]
      by_cases hid : c.id = rid
      · subst hid
        have hadded : scoreOf (addCandidate weight merged c) c.id =
            scoreOf merged c.id + c.score * weight := by
          rw [scoreOf, addCandidate, Dict.get_set, if_pos rfl, scoreOf]
          cases merged.get? c.id <;> simp [freshEntry]
        rw [hadded, List.filter_cons_of_pos (by simp), List.map_cons, List.sum_cons, add_assoc]
      · have hkept : scoreOf (addCandidate weight merged c) rid = scoreOf merged rid := by
          rw [scoreOf, addCandidate, Dict.get_set, if_neg (Ne.symm hid), scoreOf]
        rw [hkept, List.filter_cons_of_neg (by simpa using hid)]

/-- The entries of the loop are the scores it read. -/
theorem score_of_entry {merged : Dict String Recommendation} {rid : String}
    {entry : Recommendation} (h : (rid, entry) ∈ merged.entries) :
    scoreOf merged rid = entry.score := by
  rw [scoreOf, Dict.get_of_mem h, Option.elim_some]

/-- The final score of a release: its contributions and its bonus. -/
theorem merged_score {artist label blindspot : List Candidate} {collectorCounts : Dict String Nat}
    {entry : Recommendation} (h : entry ∈ mergedEntries artist label blindspot collectorCounts) :
    ∃ rid, entry.score =
      ((signals artist label blindspot).map fun signal => contribution signal rid).sum +
        obscurityBonus collectorCounts rid := by
  obtain ⟨⟨rid, held⟩, hheld, rfl⟩ := List.mem_map.mp h
  refine ⟨rid, ?_⟩
  dsimp only
  rw [← score_of_entry hheld]
  simp only [signals, List.foldl_cons, List.foldl_nil, score_add_signal, List.map_cons,
    List.map_nil, List.sum_cons, List.sum_nil]
  have hempty : scoreOf (Dict.empty : Dict String Recommendation) rid = 0 := rfl
  rw [hempty]
  ring

/-! ## The highest score -/

theorem score_le_max {candidates : List Candidate} {c : Candidate} (h : c ∈ candidates) :
    c.score ≤ maxScore candidates := by
  have hmem : c.score ∈ candidates.map (·.score) := List.mem_map_of_mem h
  unfold maxScore
  cases hmax : (candidates.map (·.score)).max? with
  | none => exact absurd (List.max?_eq_none_iff.mp hmax) (List.ne_nil_of_mem hmem)
  | some most => exact (List.max?_eq_some_iff.mp hmax).2 c.score hmem

theorem max_score_nonneg {candidates : List Candidate} (h : ∀ c ∈ candidates, 0 ≤ c.score) :
    0 ≤ maxScore candidates := by
  cases candidates with
  | nil => exact le_rfl
  | cons c candidates => exact (h c List.mem_cons_self).trans (score_le_max List.mem_cons_self)

/-- No release has scores in the list that add up to more than the highest of them. -/
def Modest (candidates : List Candidate) : Prop :=
  ∀ rid, ((candidates.filter fun c => c.id = rid).map (·.score)).sum ≤ maxScore candidates

/-- A release exceeds the weight when its scores add up to more than the best. -/
theorem contribution_le_iff {candidates : List Candidate} {weight : ℚ} (hweight : 0 < weight)
    (hscores : ∀ c ∈ candidates, 0 ≤ c.score) (rid : String) :
    contribution (normalizeScores candidates, weight) rid ≤ weight ↔
      ((candidates.filter fun c => c.id = rid).map (·.score)).sum ≤ maxScore candidates := by
  unfold contribution normalizeScores
  dsimp only
  split
  · rename_i hzero
    -- without a positive score there is nothing to add
    have hnone : ∀ c ∈ candidates.filter (fun c => c.id = rid), c.score = 0 := fun c hc =>
      le_antisymm ((score_le_max (List.mem_of_mem_filter hc)).trans hzero)
        (hscores c (List.mem_of_mem_filter hc))
    have hadded : ((candidates.filter fun c => c.id = rid).map fun c => c.score * weight).sum =
        0 := List.sum_eq_zero (List.forall_mem_map.mpr fun c hc => by rw [hnone c hc, zero_mul])
    have hsum : ((candidates.filter fun c => c.id = rid).map (·.score)).sum = 0 :=
      List.sum_eq_zero (List.forall_mem_map.mpr hnone)
    rw [hadded, hsum]
    exact iff_of_true hweight.le (max_score_nonneg hscores)
  · rename_i hpos
    have hmax : 0 < maxScore candidates := lt_of_not_ge hpos
    have hadded : (((candidates.map fun c =>
        { c with score := c.score / maxScore candidates }).filter fun c => c.id = rid).map
          fun c => c.score * weight).sum =
        ((candidates.filter fun c => c.id = rid).map (·.score)).sum *
          (weight / maxScore candidates) := by
      rw [List.filter_map, List.map_map, ← List.sum_map_mul_right]
      congr 1
      refine List.map_congr_left fun c _ => ?_
      rw [Function.comp_apply]
      ring
    rw [hadded, mul_div_assoc', div_le_iff₀ hmax, mul_comm, mul_le_mul_iff_right₀ hweight]

theorem contribution_nonneg {candidates : List Candidate} {weight : ℚ} (hweight : 0 ≤ weight)
    (hscores : ∀ c ∈ candidates, 0 ≤ c.score) (rid : String) :
    0 ≤ contribution (normalizeScores candidates, weight) rid := by
  have hnormal : ∀ c ∈ normalizeScores candidates, 0 ≤ c.score := by
    unfold normalizeScores
    split
    · exact hscores
    · exact List.forall_mem_map.mpr fun c hc =>
        div_nonneg (hscores c hc) (max_score_nonneg hscores)
  exact List.sum_nonneg (List.forall_mem_map.mpr fun c hc =>
    mul_nonneg (hnormal c (List.mem_of_mem_filter hc)) hweight)

/-! ## The obscurity bonus -/

theorem collectors_le {collectorCounts : Dict String Nat} {rid : String} {collectors : Nat}
    (h : collectorCounts.get? rid = some collectors) :
    collectors ≤ maxCollectors collectorCounts := by
  have hmem : collectors ∈ collectorCounts.entries.map (·.2) :=
    List.mem_map.mpr ⟨_, Dict.mem_of_get h, rfl⟩
  unfold maxCollectors
  cases hmax : (collectorCounts.entries.map (·.2)).max? with
  | none => exact absurd (List.max?_eq_none_iff.mp hmax) (List.ne_nil_of_mem hmem)
  | some most => exact (List.max?_eq_some_iff.mp hmax).2 collectors hmem

theorem obscurity_bonus_range (collectorCounts : Dict String Nat) (rid : String) :
    0 ≤ obscurityBonus collectorCounts rid ∧
      obscurityBonus collectorCounts rid ≤ obscurityWeight := by
  have hweight : (0 : ℚ) < obscurityWeight := by norm_num [obscurityWeight]
  unfold obscurityBonus
  split
  · exact ⟨le_rfl, hweight.le⟩
  · dsimp only
    split
    · rename_i hmost
      have hle : (collectorCounts.get? rid).getD (maxCollectors collectorCounts) ≤
          maxCollectors collectorCounts := by
        cases hget : collectorCounts.get? rid with
        | none => exact le_rfl
        | some collectors => exact collectors_le hget
      have hratio : (((collectorCounts.get? rid).getD (maxCollectors collectorCounts) : ℕ) : ℚ) /
          maxCollectors collectorCounts ≤ 1 :=
        div_le_one_of_le₀ (Nat.cast_le.mpr hle) (Nat.cast_nonneg _)
      have hnonneg : (0 : ℚ) ≤ (((collectorCounts.get? rid).getD
          (maxCollectors collectorCounts) : ℕ) : ℚ) / maxCollectors collectorCounts :=
        div_nonneg (Nat.cast_nonneg _) (Nat.cast_nonneg _)
      exact ⟨mul_nonneg (sub_nonneg.mpr hratio) hweight.le,
        mul_le_of_le_one_left hweight.le (sub_le_self 1 hnonneg)⟩
    · rw [zero_mul]
      exact ⟨le_rfl, hweight.le⟩

/-! ## Within the weights -/

/-- Each signal contributes at most its weight to a release, the bonus is at most its own, and the
final scores are in the unit range. -/
structure WithinWeights (artist label blindspot : List Candidate)
    (collectorCounts : Dict String Nat) : Prop where
  contributions : ∀ signal ∈ signals artist label blindspot, ∀ rid,
    contribution signal rid ≤ signal.2
  bonus : ∀ rid, obscurityBonus collectorCounts rid ≤ obscurityWeight
  scores : ∀ limit, ∀ entry ∈ mergeRecommendationCandidates artist label blindspot collectorCounts
    limit, 0 ≤ entry.score ∧ entry.score ≤ 1

/-- A recommendation signal stays within its weight exactly when no release has scores in one list
that add up to more than the highest score of that list. -/
theorem within_weights_iff (artist label blindspot : List Candidate)
    (collectorCounts : Dict String Nat)
    (hscores : ∀ c ∈ artist ++ label ++ blindspot, 0 ≤ c.score) :
    WithinWeights artist label blindspot collectorCounts ↔
      Modest artist ∧ Modest label ∧ Modest blindspot := by
  have hartist : ∀ c ∈ artist, 0 ≤ c.score := fun c hc =>
    hscores c (List.mem_append_left _ (List.mem_append_left _ hc))
  have hlabel : ∀ c ∈ label, 0 ≤ c.score := fun c hc =>
    hscores c (List.mem_append_left _ (List.mem_append_right _ hc))
  have hblindspot : ∀ c ∈ blindspot, 0 ≤ c.score := fun c hc =>
    hscores c (List.mem_append_right _ hc)
  have hartistWeight : (0 : ℚ) < artistWeight := by norm_num [artistWeight]
  have hlabelWeight : (0 : ℚ) < labelWeight := by norm_num [labelWeight]
  have hblindspotWeight : (0 : ℚ) < blindspotWeight := by norm_num [blindspotWeight]
  have hcontributions : (∀ signal ∈ signals artist label blindspot, ∀ rid,
      contribution signal rid ≤ signal.2) ↔ Modest artist ∧ Modest label ∧ Modest blindspot := by
    simp only [signals, List.forall_mem_cons, List.not_mem_nil, false_implies, implies_true,
      and_true, contribution_le_iff hartistWeight hartist, contribution_le_iff hlabelWeight hlabel,
      contribution_le_iff hblindspotWeight hblindspot, Modest]
  rw [← hcontributions]
  constructor
  · exact fun h => h.contributions
  · intro h
    refine ⟨h, fun rid => (obscurity_bonus_range collectorCounts rid).2,
      fun limit entry hentry => ?_⟩
    have hmerged : entry ∈ mergedEntries artist label blindspot collectorCounts :=
      (sort_by_perm _ _).mem_iff.mp (List.mem_of_mem_take hentry)
    obtain ⟨rid, hscore⟩ := merged_score hmerged
    obtain ⟨hbonus, hbonusLe⟩ := obscurity_bonus_range collectorCounts rid
    have hfirst := contribution_nonneg hartistWeight.le hartist rid
    have hsecond := contribution_nonneg hlabelWeight.le hlabel rid
    have hthird := contribution_nonneg hblindspotWeight.le hblindspot rid
    simp only [signals, List.forall_mem_cons, List.not_mem_nil, false_implies, implies_true,
      and_true] at h
    have hfirstLe := h.1 rid
    have hsecondLe := h.2.1 rid
    have hthirdLe := h.2.2 rid
    have hweights : artistWeight + labelWeight + blindspotWeight + obscurityWeight = 1 := by
      norm_num [artistWeight, labelWeight, blindspotWeight, obscurityWeight]
    rw [hscore]
    simp only [signals, List.map_cons, List.map_nil, List.sum_cons, List.sum_nil, add_zero]
    constructor
    · linarith
    · linarith

/-- A candidate of one label. -/
def labelCandidate (id label : String) (score : ℚ) : Candidate :=
  { id, title := none, artist := none, label := some label, year := none, genres := [], score,
    source := some ("label: " ++ label ++ " (top label)") }

/-- A collector's rows: of the artist signal, and of two labels that one release is on. -/
def collectorRows : List Candidate × List Candidate :=
  ([labelCandidate "1" "Verve" 6, labelCandidate "2" "Verve" 2],
    [labelCandidate "1" "Blue Note" 5, labelCandidate "2" "Blue Note" 3,
      labelCandidate "2" "Prestige" 2])

/-- It is enough to add up the scores of the releases that the rows name. -/
theorem modest_of_rows {candidates : List Candidate} (hmax : 0 ≤ maxScore candidates)
    (h : ∀ c ∈ candidates, ((candidates.filter fun other => other.id = c.id).map (·.score)).sum ≤
      maxScore candidates) : Modest candidates := by
  intro rid
  by_cases hnamed : ∃ c ∈ candidates, c.id = rid
  · obtain ⟨c, hc, rfl⟩ := hnamed
    exact h c hc
  · have hnone : (candidates.filter fun c => c.id = rid) = [] :=
      List.filter_eq_nil_iff.mpr fun c hc hid => hnamed ⟨c, hc, of_decide_eq_true hid⟩
    rw [hnone]
    exact hmax

/-- A release on two labels stays within the weight while its scores do not exceed the highest. -/
theorem collector_rows_within : WithinWeights collectorRows.1 collectorRows.2 []
    ((Dict.empty.set "1" 4).set "2" 1) := by
  refine (within_weights_iff collectorRows.1 collectorRows.2 [] _ ?_).mpr ⟨?_, ?_, fun _ => le_rfl⟩
  · decide
  · exact modest_of_rows (by decide) (by decide +kernel)
  · exact modest_of_rows (by decide) (by decide +kernel)

/-- A release on two of the collector's labels gets twice the weight of the label signal. -/
theorem two_labels_beyond :
    ¬WithinWeights [] [labelCandidate "1" "Blue Note" 3, labelCandidate "1" "Prestige" 3] []
      .empty := by
  intro h
  have hbeyond := h.contributions _ (List.mem_cons_of_mem _ List.mem_cons_self) "1"
  revert hbeyond
  norm_num [contribution, normalizeScores, maxScore, labelCandidate, labelWeight]

end CatalogApi.Recommend
