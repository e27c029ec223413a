import CatalogApi.Recommend.Similarity

/-!
# Similar artists

`compute_similar_artists` of `api/queries/recommend_queries.py`. A candidate is listed exactly when it
has a name and shares a name with the target in some dimension; the answer fails exactly when such a
candidate shares a missing genre or label name together with another one, since these do not compare
(`compute_similar_artists_spec`). The rounding to four decimals, by which the rows are sorted, is a
parameter.
-/

namespace CatalogApi.Recommend

open ByKey

/-- The dimensions of `_WEIGHTS`. -/
inductive Dimension where
  | genre | style | label | collaborator

/-- `_WEIGHTS`. -/
def weights : List (Dimension × ℚ) :=
  [(.genre, 35 / 100), (.style, 25 / 100), (.label, 25 / 100), (.collaborator, 15 / 100)]

/-- The profile of an artist. -/
structure Profile where
  genres : Counts
  styles : Counts
  labels : Counts
  collaborators : Counts

/-- The rows of a dimension. -/
def Profile.counts (profile : Profile) : Dimension → Counts
  | .genre => profile.genres
  | .style => profile.styles
  | .label => profile.labels
  | .collaborator => profile.collaborators

/-- A candidate with its profile; an artist of the graph may have no name. -/
structure CandidateArtist where
  artistId : String
  artistName : Option String
  releaseCount : Option Nat
  profile : Profile

/-- A row of the answer. -/
structure SimilarArtist (ρ : Type) where
  artistId : String
  artistName : String
  similarity : ρ
  breakdown : List (Dimension × ρ)
  releaseCount : Nat
  sharedGenres : List Name
  sharedLabels : List Name

/-- The weighted sum of the cosines. -/
noncomputable def weightedSum (target profile : Profile) : ℝ :=
  (weights.map fun entry => (target.counts entry.1).cosine (profile.counts entry.1) * entry.2).sum

section Ranking

variable {ρ : Type} [LinearOrder ρ] (round : ℝ → ρ)

/-- The row of a candidate with this name. -/
noncomputable def rowOf (target : Profile) (candidate : CandidateArtist) (name : String)
    (sharedGenres sharedLabels : List Name) : SimilarArtist ρ where
  artistId := candidate.artistId
  artistName := name
  similarity := round (weightedSum target candidate.profile)
  breakdown := weights.map fun entry =>
    (entry.1, round ((target.counts entry.1).cosine (candidate.profile.counts entry.1)))
  releaseCount := candidate.releaseCount.getD 0
  sharedGenres
  sharedLabels

open Classical in
/-- One candidate of the loop. -/
noncomputable def scoreCandidate (target : Profile) (candidate : CandidateArtist) :
    Except TypeError (Option (SimilarArtist ρ)) :=
  match candidate.artistName with
  | none => .ok none
  | some name =>
      if name = "" then .ok none
      else if weightedSum target candidate.profile ≤ 0 then .ok none
      else do
        let sharedGenres ← sorted (sharedNames target.genres candidate.profile.genres)
        let sharedLabels ← sorted (sharedNames target.labels candidate.profile.labels)
        pure (some (rowOf round target candidate name sharedGenres sharedLabels))

/-- `compute_similar_artists`. -/
noncomputable def computeSimilarArtists (target : Profile) (candidates : List CandidateArtist)
    (limit : Nat) : Except TypeError (List (SimilarArtist ρ)) :=
  if weights.all fun entry => (toGenreVector (target.counts entry.1).rows).entries.isEmpty then
    .ok []
  else do
    let results ← candidates.mapM (scoreCandidate round target)
    pure ((sortBy (fun row => OrderDual.toDual row.similarity) (results.filterMap id)).take limit)

end Ranking

/-! ## The weighted sum -/

section Weighted

variable (target profile : Profile)

theorem sum_weights : (weights.map fun entry => (entry.2 : ℝ)).sum = 1 := by
  simp only [weights, List.map_cons, List.map_nil, List.sum_cons, List.sum_nil]
  norm_num

theorem weights_pos : ∀ entry ∈ weights, (0 : ℝ) < entry.2 := by
  simp only [weights, List.forall_mem_cons]
  norm_num

theorem mem_weights (dimension : Dimension) : ∃ weight, (dimension, weight) ∈ weights := by
  cases dimension <;> simp [weights]

theorem weighted_sum_comm : weightedSum target profile = weightedSum profile target := by
  simp only [weightedSum, Counts.cosine_comm (target.counts _)]

theorem weighted_sum_nonneg : 0 ≤ weightedSum target profile :=
  List.sum_nonneg (List.forall_mem_map.mpr fun entry hentry =>
    mul_nonneg (Counts.cosine_nonneg _ _) (weights_pos entry hentry).le)

/-- What is missing to one. -/
theorem one_sub_weighted_sum : 1 - weightedSum target profile =
    (weights.map fun entry =>
      (1 - (target.counts entry.1).cosine (profile.counts entry.1)) * (entry.2 : ℝ)).sum := by
  have hsum (l : List (Dimension × ℚ)) : (l.map fun entry =>
      (1 - (target.counts entry.1).cosine (profile.counts entry.1)) * (entry.2 : ℝ)).sum =
        (l.map fun entry => (entry.2 : ℝ)).sum - (l.map fun entry =>
          (target.counts entry.1).cosine (profile.counts entry.1) * entry.2).sum := by
    induction l with
    | nil => simp
    | cons entry l ih =>
        simp only [List.map_cons, List.sum_cons, ih]
        ring
  rw [hsum, sum_weights, weightedSum]

theorem weighted_sum_le_one : weightedSum target profile ≤ 1 := by
  refine sub_nonneg.mp ?_
  rw [one_sub_weighted_sum]
  exact List.sum_nonneg (List.forall_mem_map.mpr fun entry hentry =>
    mul_nonneg (sub_nonneg.mpr (Counts.cosine_le_one _ _)) (weights_pos entry hentry).le)

/-- A sum of terms that are not negative is positive exactly when one of them is. -/
theorem sum_pos_iff {α : Type} {l : List α} {f : α → ℝ} (h : ∀ a ∈ l, 0 ≤ f a) :
    0 < (l.map f).sum ↔ ∃ a ∈ l, 0 < f a := by
  constructor
  case mp =>
    intro hpos
    by_contra hnone
    have hzero : (l.map f).sum = 0 := List.sum_eq_zero fun x hx => by
      obtain ⟨a, ha, rfl⟩ := List.mem_map.mp hx
      exact le_antisymm (not_lt.mp fun hlt => hnone ⟨a, ha, hlt⟩) (h a ha)
    exact hpos.ne' hzero
  case mpr =>
    intro ⟨a, ha, hlt⟩
    exact hlt.trans_le
      (List.single_le_sum (List.forall_mem_map.mpr h) _ (List.mem_map_of_mem ha))

/-- The profiles share a name in some dimension. -/
def Shares : Prop :=
  ∃ dimension, ∃ name ∈ (target.counts dimension).names, name ∈ (profile.counts dimension).names

theorem weighted_sum_pos_iff : 0 < weightedSum target profile ↔ Shares target profile := by
  rw [weightedSum, sum_pos_iff fun entry hentry =>
    mul_nonneg (Counts.cosine_nonneg _ _) (weights_pos entry hentry).le]
  constructor
  case mp =>
    intro ⟨entry, hentry, hpos⟩
    exact ⟨entry.1, (Counts.cosine_pos_iff _ _).mp
      (pos_of_mul_pos_left hpos (weights_pos entry hentry).le)⟩
  case mpr =>
    intro ⟨dimension, hshared⟩
    obtain ⟨weight, hweight⟩ := mem_weights dimension
    exact ⟨_, hweight, mul_pos ((Counts.cosine_pos_iff _ _).mpr hshared) (weights_pos _ hweight)⟩

/-- The profiles have rows, and the same shares, in every dimension. -/
def SameShares : Prop :=
  ∀ dimension, (target.counts dimension).rows ≠ [] ∧
    (target.counts dimension).share = (profile.counts dimension).share

theorem weighted_sum_eq_one_iff : weightedSum target profile = 1 ↔ SameShares target profile := by
  have hnonneg : ∀ entry ∈ weights,
      0 ≤ (1 - (target.counts entry.1).cosine (profile.counts entry.1)) * (entry.2 : ℝ) :=
    fun entry hentry => mul_nonneg (sub_nonneg.mpr (Counts.cosine_le_one _ _))
      (weights_pos entry hentry).le
  have hless := sum_pos_iff hnonneg
  rw [← one_sub_weighted_sum, sub_pos] at hless
  constructor
  case mp =>
    intro hone dimension
    refine (Counts.cosine_eq_one_iff _ _).mp (le_antisymm (Counts.cosine_le_one _ _) ?_)
    by_contra hlt
    obtain ⟨weight, hweight⟩ := mem_weights dimension
    have hsome := hless.mpr ⟨_, hweight,
      mul_pos (sub_pos.mpr (not_le.mp hlt)) (weights_pos _ hweight)⟩
    exact hsome.ne hone
  case mpr =>
    intro hsame
    refine le_antisymm (weighted_sum_le_one target profile) (not_lt.mp fun hlt => ?_)
    obtain ⟨entry, -, hpos⟩ := hless.mp hlt
    rw [(Counts.cosine_eq_one_iff _ _).mpr (hsame entry.1), sub_self, zero_mul] at hpos
    exact lt_irrefl 0 hpos

end Weighted

/-! ## The ranking -/

/-- The candidate has a name, and shares one with the target in some dimension. -/
def Similar (target : Profile) (candidate : CandidateArtist) : Prop :=
  (∃ name, candidate.artistName = some name ∧ name ≠ "") ∧ Shares target candidate.profile

/-- Both sides count releases without a name, and share another name besides. -/
def Clash (target counts : Counts) : Prop :=
  (none ∈ target.names ∧ none ∈ counts.names) ∧
    ∃ name, some name ∈ target.names ∧ some name ∈ counts.names

/-- The genres or the labels that a candidate shares with the target cannot be sorted. -/
def Clashes (target : Profile) (candidate : CandidateArtist) : Prop :=
  Clash target.genres candidate.profile.genres ∨ Clash target.labels candidate.profile.labels

/-- What the similarity of two profiles says. -/
structure Similarity (target profile : Profile) : Prop where
  comm : weightedSum target profile = weightedSum profile target
  bounded : 0 ≤ weightedSum target profile ∧ weightedSum target profile ≤ 1
  pos : 0 < weightedSum target profile ↔ Shares target profile
  one : weightedSum target profile = 1 ↔ SameShares target profile

theorem similarity_holds (target profile : Profile) : Similarity target profile :=
  ⟨weighted_sum_comm target profile,
    ⟨weighted_sum_nonneg target profile, weighted_sum_le_one target profile⟩,
    weighted_sum_pos_iff target profile, weighted_sum_eq_one_iff target profile⟩

theorem mem_shared_names {target counts : Counts} {name : Name} :
    name ∈ sharedNames target counts ↔ name ∈ target.names ∧ name ∈ counts.names := by
  rw [sharedNames, List.mem_filter, decide_eq_true_eq, Counts.keys_vector, Counts.keys_vector,
    and_comm]

/-- A list without repetitions is a missing name alone exactly when it holds one and no other. -/
theorem eq_missing_iff {names : List Name} (hnodup : names.Nodup) (hmissing : none ∈ names) :
    names = [none] ↔ ∀ name, some name ∉ names := by
  constructor
  case mp =>
    rintro rfl name hname
    cases List.mem_singleton.mp hname
  case mpr =>
    intro hnone
    refine List.perm_singleton.mp ((List.perm_ext_iff_of_nodup hnodup
      (List.nodup_singleton none)).mpr fun name => ?_)
    cases name with
    | none => exact iff_of_true hmissing (List.mem_singleton_self none)
    | some name => exact iff_of_false (hnone name) fun h => nomatch List.mem_singleton.mp h

open Classical in
/-- Shared names can be sorted unless they clash. -/
theorem sorted_shared_names (target counts : Counts) :
    sorted (sharedNames target counts) =
      if Clash target counts then .error .unorderable else .ok (inOrder (sharedNames target counts)) := by
  have hnodup : (sharedNames target counts).Nodup := (nodup_keys _).filter _
  have hiff : (none ∈ sharedNames target counts ∧ sharedNames target counts ≠ [none]) ↔
      Clash target counts := by
    rw [Clash, ← mem_shared_names]
    refine and_congr_right fun hmissing => ?_
    rw [Ne, eq_missing_iff hnodup hmissing]
    push Not
    simp only [mem_shared_names]
  rw [sorted]
  exact if_congr hiff rfl rfl

section Listed

variable {ρ : Type} [LinearOrder ρ] (round : ℝ → ρ)

/-- The row of a similar candidate. -/
noncomputable def similarRow (target : Profile) (candidate : CandidateArtist) : SimilarArtist ρ :=
  rowOf round target candidate (candidate.artistName.getD "")
    (inOrder (sharedNames target.genres candidate.profile.genres))
    (inOrder (sharedNames target.labels candidate.profile.labels))

omit [LinearOrder ρ] in
open Classical in
/-- One candidate has a row if it is similar, unless its shared names clash. -/
theorem score_candidate_eq (target : Profile) (candidate : CandidateArtist) :
    scoreCandidate round target candidate =
      if Similar target candidate ∧ Clashes target candidate then .error .unorderable
      else .ok (if Similar target candidate then some (similarRow round target candidate)
        else none) := by
  have hpos := weighted_sum_pos_iff target candidate.profile
  -- a candidate that is not similar is passed over
  have hpassed (hnot : ¬Similar target candidate) :
      (.ok none : Except TypeError (Option (SimilarArtist ρ))) =
        if Similar target candidate ∧ Clashes target candidate then .error .unorderable
        else .ok (if Similar target candidate then some (similarRow round target candidate)
          else none) := by
    rw [if_neg fun h => hnot h.1, if_neg hnot]
  cases hname : candidate.artistName with
  | none =>
      rw [scoreCandidate, hname]
      refine hpassed fun hsimilar => ?_
      obtain ⟨name, hsome, -⟩ := hsimilar.1
      rw [hname] at hsome
      cases hsome
  | some name =>
      rw [scoreCandidate, hname]
      dsimp only
      by_cases hempty : name = ""
      · rw [if_pos hempty]
        refine hpassed fun hsimilar => ?_
        obtain ⟨name', hsome, hne⟩ := hsimilar.1
        rw [hname] at hsome
        exact hne ((Option.some.inj hsome).symm.trans hempty)
      · rw [if_neg hempty]
        by_cases hshares : Shares target candidate.profile
        · have hsimilar : Similar target candidate := ⟨⟨name, hname, hempty⟩, hshares⟩
          rw [if_neg (not_le.mpr (hpos.mpr hshares)), sorted_shared_names, sorted_shared_names,
            if_pos hsimilar]
          simp only [hsimilar, true_and, Clashes, similarRow, hname, Option.getD_some]
          by_cases hgenres : Clash target.genres candidate.profile.genres
          · simp [hgenres, bind, Except.bind]
          · by_cases hlabels : Clash target.labels candidate.profile.labels <;>
              simp [hgenres, hlabels, bind, Except.bind, pure, Except.pure]
        · rw [if_pos (not_lt.mp fun hlt => hshares (hpos.mp hlt))]
          exact hpassed fun hsimilar => hshares hsimilar.2

/-- A target without rows is similar to nobody. -/
theorem not_similar_of_empty {target : Profile}
    (h : (weights.all fun entry =>
      (toGenreVector (target.counts entry.1).rows).entries.isEmpty) = true)
    (candidate : CandidateArtist) : ¬Similar target candidate := by
  intro hsimilar
  obtain ⟨dimension, name, hname, -⟩ := hsimilar.2
  obtain ⟨weight, hweight⟩ := mem_weights dimension
  have hempty := List.isEmpty_iff.mp (List.all_eq_true.mp h _ hweight)
  rw [← Counts.keys_vector, Dict.keys, hempty] at hname
  cases hname

open Classical in
/-- The similar candidates by decreasing similarity. -/
noncomputable def ranking (target : Profile) (candidates : List CandidateArtist) (limit : Nat) :
    List (SimilarArtist ρ) :=
  (sortBy (fun row => OrderDual.toDual row.similarity)
    ((candidates.filter fun candidate => Similar target candidate).map
      (similarRow round target))).take limit

/-- A loop whose steps raise one error raises it exactly when a step does. -/
theorem map_or_raise {α β ε : Type} {f : α → Except ε β} {g : α → β} {error : ε}
    {raises : α → Prop} [DecidablePred raises]
    (h : ∀ a, f a = if raises a then .error error else .ok (g a)) (l : List α) :
    l.mapM f = if ∃ a ∈ l, raises a then .error error else .ok (l.map g) := by
  induction l with
  | nil => rfl
  | cons a l ih =>
      rw [List.mapM_cons, ih, h a]
      by_cases ha : raises a
      · simp [ha, bind, Except.bind]
      · by_cases hl : ∃ b ∈ l, raises b <;>
          simp [ha, hl, bind, Except.bind, pure, Except.pure]

open Classical in
/-- The answer ranks the similar candidates, unless the shared names of one of them clash. -/
theorem compute_similar_artists_eq (target : Profile) (candidates : List CandidateArtist)
    (limit : Nat) :
    computeSimilarArtists round target candidates limit =
      if ∃ candidate ∈ candidates, Similar target candidate ∧ Clashes target candidate then
        .error .unorderable
      else .ok (ranking round target candidates limit) := by
  have hrows : (candidates.map fun candidate =>
      if Similar target candidate then some (similarRow round target candidate)
        else none).filterMap id =
      (candidates.filter fun candidate => Similar target candidate).map
        (similarRow round target) := by
    induction candidates with
    | nil => rfl
    | cons candidate candidates ih =>
        rw [List.map_cons, List.filter_cons]
        by_cases hsimilar : Similar target candidate
        · simp only [hsimilar, if_true, decide_true, List.map_cons, List.filterMap_cons, id_eq]
          exact congrArg (_ :: ·) ih
        · simp only [hsimilar, if_false, decide_false, Bool.false_eq_true, List.filterMap_cons, id_eq]
          exact ih
  rw [computeSimilarArtists]
  split
  case isTrue hempty =>
    have hnone : (candidates.filter fun candidate => decide (Similar target candidate)) = [] :=
      List.filter_eq_nil_iff.mpr fun candidate _ =>
        fun hsimilar => not_similar_of_empty hempty candidate (of_decide_eq_true hsimilar)
    rw [if_neg fun ⟨candidate, _, hsimilar, _⟩ => not_similar_of_empty hempty candidate hsimilar,
      ranking, hnone, List.map_nil, sort_by_eq_nil.mpr rfl, List.take_nil]
  case isFalse =>
    rw [map_or_raise (score_candidate_eq round target)]
    split
    case isTrue => rfl
    case isFalse => rw [ranking, ← hrows]; rfl

open Classical in
/-- The answer ranks the candidates that have a name and share one with the target, and no others;
it fails exactly when such a candidate shares releases without a genre name, or without a label
name, and a name of that kind besides. The similarity is the same from either side, lies between
zero and one, and is one exactly for profiles with rows and the same shares in every dimension. -/
theorem compute_similar_artists_spec (target : Profile) (candidates : List CandidateArtist)
    (limit : Nat) :
    computeSimilarArtists round target candidates limit =
        (if ∃ candidate ∈ candidates, Similar target candidate ∧ Clashes target candidate then
          .error .unorderable
        else .ok ((sortBy (fun row => OrderDual.toDual row.similarity)
          ((candidates.filter fun candidate => Similar target candidate).map
            (similarRow round target))).take limit)) ∧
      ∀ candidate ∈ candidates, Similarity target candidate.profile :=
  ⟨compute_similar_artists_eq round target candidates limit,
    fun candidate _ => similarity_holds target candidate.profile⟩

end Listed

end CatalogApi.Recommend
