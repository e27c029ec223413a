import CatalogApi.Recommend.Similar

/-!
# Precomputed neighbours

The path of `similar_artists` that serves the published list of an artist: `fuse`, `cosine` and
`get_embedding_cosines` of `api/queries/similar_precomputed_queries.py`, `get_profiled_artists` of
`api/queries/recommend_queries.py` and `_rank_precomputed` of `api/routers/recommend.py`. What the
databases answer is data of the request. `rank_precomputed_fused` says which artists the fused
ranking lists and in which order.
-/

namespace CatalogApi.Recommend

open ByKey Correlation

/-- `PrecomputedList`. -/
structure PrecomputedList where
  releaseId : Int
  modelVersion : String
  neighbours : List (String × ℝ)

/-- What reading the stored vectors of a model version comes to. -/
inductive Vectors where
  | noPool
  | unreadable
  | stored (vectors : Dict String (List ℝ))

/-- What the databases answer during a request for an artist. -/
structure Reads where
  /-- `get_artist_profile`. -/
  target : Profile
  /-- `get_candidate_artists`: the profiled page of artists other than the target. -/
  candidates : List CandidateArtist
  /-- The artists of the graph that have a name, in the order the query returns them. -/
  known : List CandidateArtist
  vectors : Vectors

/-- `cosine`. -/
noncomputable def cosine (first second : List ℝ) : ℝ :=
  if first = [] ∨ first.length ≠ second.length then 0
  else
    let norm := √(first.map fun x => x * x).sum * √(second.map fun y => y * y).sum
    if norm = 0 then 0 else (List.zipWith (fun x y => x * y) first second).sum / norm

/-- `get_embedding_cosines`. -/
noncomputable def getEmbeddingCosines (vectors : Vectors) (artistId : String)
    (candidateIds : List String) : Option (Dict String ℝ) :=
  match vectors with
  | .noPool => none
  | .unreadable => if candidateIds = [] then some .empty else none
  | .stored vectors =>
      if candidateIds = [] then some .empty
      else
        match vectors.get? artistId with
        | none => some .empty
        | some target => some (candidateIds.foldl (fun cosines candidate =>
            match vectors.get? candidate with
            | some vector => cosines.set candidate (cosine target vector)
            | none => cosines) .empty)

/-- `get_profiled_artists`. -/
def getProfiledArtists (reads : Reads) (artistIds : List String) : List CandidateArtist :=
  if artistIds = [] then [] else reads.known.filter fun artist => artist.artistId ∈ artistIds

/-- An artist of the fused ranking. -/
structure FusedEntry where
  artistId : String
  fused : ℝ
  cos : ℝ
  heur : ℝ

/-- The entry of an artist. -/
noncomputable def fusedEntry (neighbours : Dict String ℝ)
    (heuristic : Dict String (SimilarArtist ℝ)) (cosines : Dict String ℝ) (alpha : ℝ)
    (artistId : String) : FusedEntry :=
  let cos := (neighbours.get? artistId).getD ((cosines.get? artistId).getD 0)
  let heur := (heuristic.get? artistId).elim 0 (·.similarity)
  ⟨artistId, alpha * cos + (1 - alpha) * heur, cos, heur⟩

/-- What `fuse` sorts by. -/
noncomputable def rank (entry : FusedEntry) : ℝ ×ₗ String := toLex (-entry.fused, entry.artistId)

/-- `fuse`. -/
noncomputable def fuse (neighbours : Dict String ℝ) (heuristic : Dict String (SimilarArtist ℝ))
    (cosines : Dict String ℝ) (alpha : ℝ) : List FusedEntry :=
  sortBy rank ((neighbours.keys ++ heuristic.keys.filter fun id => id ∉ neighbours.keys).map
    (fusedEntry neighbours heuristic cosines alpha))

/-- A `SimilarArtist`-shaped row, with the cosine of the embedding in its breakdown. -/
structure RankedRow where
  artistId : String
  artistName : String
  similarity : ℝ
  breakdown : List (Dimension × ℝ)
  embedding : ℝ
  releaseCount : Nat
  sharedGenres : List Name
  sharedLabels : List Name

/-- What a row takes from the graph or from the heuristic. -/
structure Source where
  artistId : String
  artistName : String
  releaseCount : Nat

/-- `_ranked_row`. -/
noncomputable def rankedRow (round : ℝ → ℝ) (source : Source) (score cos : ℝ)
    (heuristic : Option (SimilarArtist ℝ)) : RankedRow where
  artistId := source.artistId
  artistName := source.artistName
  similarity := round score
  breakdown := heuristic.elim (weights.map fun entry => (entry.1, 0)) (·.breakdown)
  embedding := round cos
  releaseCount := source.releaseCount
  sharedGenres := heuristic.elim [] (·.sharedGenres)
  sharedLabels := heuristic.elim [] (·.sharedLabels)

/-- The rows of artists of the graph, by id. -/
def profiledBy (artists : List CandidateArtist) : Dict String Source :=
  artists.foldl (fun found artist => found.set artist.artistId
    ⟨artist.artistId, artist.artistName.getD "", artist.releaseCount.getD 0⟩) .empty

/-- Rows added by id. -/
def addRows (heuristic : Dict String (SimilarArtist ℝ)) (rows : List (SimilarArtist ℝ)) :
    Dict String (SimilarArtist ℝ) :=
  rows.foldl (fun found row => found.set row.artistId row) heuristic

/-- The neighbours of the published list, the artist itself left out. -/
def neighboursOf (artistId : String) (precomputed : PrecomputedList) : Dict String ℝ :=
  (precomputed.neighbours.filter fun entry => entry.1 ≠ artistId).foldl
    (fun found entry => found.set entry.1 entry.2) .empty

/-- The name and release count of an artist, from its heuristic row if it has one. -/
def sourceOf (profiled : Dict String Source) (heuristic : Dict String (SimilarArtist ℝ))
    (artistId : String) : Option Source :=
  ((heuristic.get? artistId).map fun row => ⟨row.artistId, row.artistName, row.releaseCount⟩).or
    (profiled.get? artistId)

/-- The rows of the fused list; an artist without a name has none. -/
noncomputable def rankedRows (round : ℝ → ℝ) (profiled : Dict String Source)
    (heuristic : Dict String (SimilarArtist ℝ)) (fused : List FusedEntry) : List RankedRow :=
  fused.filterMap fun entry => (sourceOf profiled heuristic entry.artistId).map fun source =>
    rankedRow round source entry.fused entry.cos (heuristic.get? entry.artistId)

/-- `_rank_precomputed`. -/
noncomputable def rankPrecomputed (round : ℝ → ℝ) (reads : Reads) (alpha : ℝ) (artistId : String)
    (precomputed : PrecomputedList) : Except TypeError (Option (List RankedRow)) :=
  let neighbours := neighboursOf artistId precomputed
  if 1 ≤ alpha then
    let profiled := profiledBy (getProfiledArtists reads neighbours.keys)
    .ok (some (neighbours.entries.filterMap fun entry =>
      (profiled.get? entry.1).map fun source => rankedRow round source entry.2 entry.2 none))
  else do
    let rows ← computeSimilarArtists round reads.target reads.candidates 50
    let heuristic := addRows .empty rows
    let extra := getProfiledArtists reads (neighbours.keys.filter fun id => id ∉ heuristic.keys)
    let extraRows ← computeSimilarArtists round reads.target extra extra.length
    let heuristic := addRows heuristic extraRows
    match getEmbeddingCosines reads.vectors artistId
        (heuristic.keys.filter fun id => id ∉ neighbours.keys) with
    | none => pure none
    | some cosines =>
        pure (some (rankedRows round (profiledBy extra) heuristic
          (fuse neighbours heuristic cosines alpha)))

/-! ## The heuristic rows -/

section Heuristic

variable (round : ℝ → ℝ) (reads : Reads) (neighbours : Dict String ℝ)

/-- The neighbours that the heuristic did not surface, as the graph knows them. -/
noncomputable def extraArtists : List CandidateArtist :=
  getProfiledArtists reads (neighbours.keys.filter fun id =>
    id ∉ (addRows .empty (ranking round reads.target reads.candidates 50)).keys)

/-- The heuristic rows of the candidates and of the neighbours that it did not surface, if no shared
names clash. -/
noncomputable def heuristicRows : Dict String (SimilarArtist ℝ) :=
  addRows (addRows .empty (ranking round reads.target reads.candidates 50))
    (ranking round reads.target (extraArtists round reads neighbours)
      (extraArtists round reads neighbours).length)

end Heuristic

/-- What the databases answer about an artist: an artist is a candidate once and known once, the
page of candidates is at most fifty long, and the artist is no candidate of its own. -/
structure Reads.Sound (reads : Reads) (artistId : String) : Prop where
  distinct : (reads.candidates.map (·.artistId)).Nodup
  page : reads.candidates.length ≤ 50
  others : ∀ candidate ∈ reads.candidates, candidate.artistId ≠ artistId
  unique : (reads.known.map (·.artistId)).Nodup

section Rows

variable {round : ℝ → ℝ} {target : Profile} {candidates : List CandidateArtist}

/-- An answer that is not cut has the rows of the similar candidates. -/
theorem mem_similar {limit : Nat} (hlimit : candidates.length ≤ limit) {row : SimilarArtist ℝ} :
    row ∈ ranking round target candidates limit ↔
      ∃ candidate ∈ candidates, Similar target candidate ∧
        similarRow round target candidate = row := by
  classical
  rw [ranking, List.take_of_length_le, mem_sort_by, List.mem_map]
  · simp only [List.mem_filter, decide_eq_true_eq, and_assoc]
  · rw [length_sort_by, List.length_map]
    exact (List.length_filter_le _ _).trans hlimit

/-- Rows of one artist are one row. -/
theorem similar_unique {limit : Nat} (hlimit : candidates.length ≤ limit)
    (hdistinct : (candidates.map (·.artistId)).Nodup) :
    ∀ row ∈ ranking round target candidates limit,
      ∀ row' ∈ ranking round target candidates limit,
        row.artistId = row'.artistId → row = row' := by
  intro row hrow row' hrow' heq
  obtain ⟨candidate, hmem, -, rfl⟩ := (mem_similar hlimit).mp hrow
  obtain ⟨candidate', hmem', -, rfl⟩ := (mem_similar hlimit).mp hrow'
  have hsame : candidate = candidate' := List.inj_on_of_nodup_map hdistinct hmem hmem' heq
  rw [hsame]

theorem get_add_rows {heuristic : Dict String (SimilarArtist ℝ)} {rows : List (SimilarArtist ℝ)}
    (h : ∀ row ∈ rows, ∀ row' ∈ rows, row.artistId = row'.artistId → row = row') (id : String)
    (row : SimilarArtist ℝ) :
    (addRows heuristic rows).get? id = some row ↔
      (row ∈ rows ∧ row.artistId = id) ∨
        (∀ other ∈ rows, other.artistId ≠ id) ∧ heuristic.get? id = some row := by
  have hread := Dict.get_set_all_iff h heuristic id row
  rw [addRows, hread]
  refine or_congr_left ⟨?_, ?_⟩
  · rintro ⟨found, hfound, hid, rfl⟩
    exact ⟨hfound, hid⟩
  · intro hrow
    exact ⟨row, hrow.1, hrow.2, rfl⟩

end Rows

section Fused

variable (round : ℝ → ℝ) {reads : Reads} {artistId : String} (h : reads.Sound artistId)
include h

/-- The rows of the candidates by id. -/
theorem get_candidate_row (id : String) (row : SimilarArtist ℝ) :
    (addRows .empty (ranking round reads.target reads.candidates 50)).get? id =
        some row ↔
      ∃ candidate ∈ reads.candidates, candidate.artistId = id ∧ Similar reads.target candidate ∧
        similarRow round reads.target candidate = row := by
  rw [get_add_rows (similar_unique h.page h.distinct), mem_similar h.page]
  constructor
  · rintro (⟨⟨candidate, hmem, hsimilar, rfl⟩, hid⟩ | ⟨-, hnone⟩)
    · exact ⟨candidate, hmem, hid, hsimilar, rfl⟩
    · cases hnone
  · intro ⟨candidate, hmem, hid, hsimilar, hrow⟩
    subst hrow
    exact .inl ⟨⟨candidate, hmem, hsimilar, rfl⟩, hid⟩

theorem candidate_keys (id : String) :
    id ∈ (addRows .empty (ranking round reads.target reads.candidates 50)).keys ↔
      ∃ candidate ∈ reads.candidates, candidate.artistId = id ∧ Similar reads.target candidate := by
  rw [Dict.mem_keys]
  constructor
  · intro ⟨row, hrow⟩
    obtain ⟨candidate, hmem, hid, hsimilar, -⟩ := (get_candidate_row round h id row).mp hrow
    exact ⟨candidate, hmem, hid, hsimilar⟩
  · intro ⟨candidate, hmem, hid, hsimilar⟩
    exact ⟨_, (get_candidate_row round h id _).mpr ⟨candidate, hmem, hid, hsimilar, rfl⟩⟩

theorem mem_extra (neighbours : Dict String ℝ) (artist : CandidateArtist) :
    artist ∈ extraArtists round reads neighbours ↔
      artist ∈ reads.known ∧ artist.artistId ∈ neighbours.keys ∧
        ¬∃ candidate ∈ reads.candidates, candidate.artistId = artist.artistId ∧
          Similar reads.target candidate := by
  have hfilter (ids : List String) :
      artist ∈ getProfiledArtists reads ids ↔ artist ∈ reads.known ∧ artist.artistId ∈ ids := by
    rw [getProfiledArtists]
    split
    case isTrue hempty => simp [hempty]
    case isFalse => rw [List.mem_filter, decide_eq_true_eq]
  rw [extraArtists, hfilter, List.mem_filter, decide_eq_true_eq, candidate_keys round h]

theorem extra_unique (neighbours : Dict String ℝ) :
    ((extraArtists round reads neighbours).map (·.artistId)).Nodup := by
  rw [extraArtists, getProfiledArtists]
  split
  · exact List.nodup_nil
  · exact (List.filter_sublist.map _).nodup h.unique

/-- The heuristic row of an artist is that of a similar candidate, or of a similar neighbour that is
no similar candidate. -/
theorem get_heuristic_rows (neighbours : Dict String ℝ) (id : String) (row : SimilarArtist ℝ) :
    (heuristicRows round reads neighbours).get? id = some row ↔
      (∃ candidate ∈ reads.candidates, candidate.artistId = id ∧
        Similar reads.target candidate ∧ similarRow round reads.target candidate = row) ∨
      ∃ artist ∈ extraArtists round reads neighbours, artist.artistId = id ∧
        Similar reads.target artist ∧ similarRow round reads.target artist = row := by
  have hdistinct : ((extraArtists round reads neighbours).map (·.artistId)).Nodup :=
    extra_unique round h neighbours
  rw [heuristicRows, get_add_rows (similar_unique le_rfl hdistinct), mem_similar le_rfl, get_candidate_row round h]
  constructor
  · rintro (⟨⟨artist, hmem, hsimilar, rfl⟩, hid⟩ | ⟨-, hcandidate⟩)
    · exact .inr ⟨artist, hmem, hid, hsimilar, rfl⟩
    · exact .inl hcandidate
  · rintro (hcandidate | ⟨artist, hmem, hid, hsimilar, rfl⟩)
    · refine .inr ⟨fun other hother hid => ?_, hcandidate⟩
      obtain ⟨artist, hartist, -, rfl⟩ := (mem_similar le_rfl).mp hother
      obtain ⟨candidate, hmem, hcid, hsimilar, -⟩ := hcandidate
      exact ((mem_extra round h neighbours artist).mp hartist).2.2
        ⟨candidate, hmem, hcid.trans hid.symm, hsimilar⟩
    · exact .inl ⟨⟨artist, hmem, hsimilar, rfl⟩, hid⟩

omit h in
open Classical in
/-- The artist whose heuristic row an id has: a similar candidate, else a similar neighbour. -/
noncomputable def similarArtist (reads : Reads) (neighbours : Dict String ℝ) (id : String) :
    Option CandidateArtist :=
  (reads.candidates.find? fun candidate =>
      candidate.artistId = id ∧ Similar reads.target candidate).or
    (if id ∈ neighbours.keys then
      reads.known.find? fun artist => artist.artistId = id ∧ Similar reads.target artist
    else none)

/-- The heuristic rows are those of the similar artists. -/
theorem heuristic_rows_eq (neighbours : Dict String ℝ) (id : String) :
    (heuristicRows round reads neighbours).get? id =
      (similarArtist reads neighbours id).map (similarRow round reads.target) := by
  classical
  have hfind {l : List CandidateArtist} (hl : (l.map (·.artistId)).Nodup)
      (artist : CandidateArtist) :
      (l.find? fun artist => artist.artistId = id ∧ Similar reads.target artist) = some artist ↔
        artist ∈ l ∧ artist.artistId = id ∧ Similar reads.target artist := by
    constructor
    · intro hfound
      exact ⟨List.mem_of_find?_eq_some hfound, by simpa using List.find?_some hfound⟩
    · intro ⟨hmem, hid, hsimilar⟩
      cases hfound : l.find? fun artist => artist.artistId = id ∧ Similar reads.target artist with
      | none =>
          exact absurd (decide_eq_true ⟨hid, hsimilar⟩) (List.find?_eq_none.mp hfound artist hmem)
      | some other =>
          have hother : other.artistId = id ∧ Similar reads.target other := by
            simpa using List.find?_some hfound
          rw [List.inj_on_of_nodup_map hl (List.mem_of_find?_eq_some hfound) hmem
            (hother.1.trans hid.symm)]
  have hnone {l : List CandidateArtist} : (l.find? fun artist =>
      artist.artistId = id ∧ Similar reads.target artist) = none ↔
        ¬∃ artist ∈ l, artist.artistId = id ∧ Similar reads.target artist := by
    rw [List.find?_eq_none]
    simp
  refine Option.ext fun row => ?_
  rw [get_heuristic_rows round h, Option.map_eq_some_iff]
  simp only [similarArtist, Option.or_eq_some_iff, hfind h.distinct, hnone]
  constructor
  · rintro (⟨candidate, hmem, hid, hsimilar, rfl⟩ | ⟨artist, hmem, hid, hsimilar, rfl⟩)
    · exact ⟨candidate, .inl ⟨hmem, hid, hsimilar⟩, rfl⟩
    · obtain ⟨hknown, hneighbour, hno⟩ := (mem_extra round h neighbours artist).mp hmem
      subst hid
      rw [if_pos hneighbour]
      have hfound := (hfind h.unique artist).mpr ⟨hknown, rfl, hsimilar⟩
      exact ⟨artist, .inr ⟨hno, hfound⟩, rfl⟩
  · rintro ⟨artist, ⟨hmem, hid, hsimilar⟩ | ⟨hno, hfound⟩, rfl⟩
    · exact .inl ⟨artist, hmem, hid, hsimilar, rfl⟩
    · split at hfound
      · rename_i hneighbour
        obtain ⟨hknown, rfl, hsimilar⟩ := (hfind h.unique artist).mp hfound
        have hmem := (mem_extra round h neighbours artist).mpr ⟨hknown, hneighbour, hno⟩
        exact .inr ⟨artist, hmem, rfl, hsimilar, rfl⟩
      · cases hfound

end Fused

/-! ## The cosines of the stored vectors -/

/-- The cosine of two stored vectors, if both are stored. -/
noncomputable def embedding (vectors : Vectors) (artistId id : String) : Option ℝ :=
  match vectors with
  | .stored vectors =>
      (vectors.get? artistId).bind fun target => (vectors.get? id).map (cosine target)
  | _ => none

/-- A map filled with what a function gives for the keys. -/
theorem get_fill {α : Type} (f : String → Option α) (ids : List String) (d : Dict String α)
    (id : String) :
    (ids.foldl (fun found key =>
      match f key with
      | some value => found.set key value
      | none => found) d).get? id = if id ∈ ids then (f id).or (d.get? id) else d.get? id := by
  induction ids generalizing d with
  | nil => rfl
  | cons key ids ih =>
      rw [List.foldl_cons, ih]
      cases hf : f key with
      | none =>
          dsimp only
          by_cases hid : id = key
          · subst hid
            simp [hf]
          · simp [hid]
      | some value =>
          dsimp only
          rw [Dict.get_set]
          by_cases hid : id = key
          · subst hid
            simp [hf]
          · simp [hid]

/-- The cosines that are read are those of the stored vectors. -/
theorem embedding_cosines_eq {vectors : Vectors} {artistId : String} {ids : List String}
    {cosines : Dict String ℝ} (h : getEmbeddingCosines vectors artistId ids = some cosines)
    {id : String} (hid : id ∈ ids) : cosines.get? id = embedding vectors artistId id := by
  have hne : ids ≠ [] := List.ne_nil_of_mem hid
  cases vectors with
  | noPool => cases h
  | unreadable =>
      rw [getEmbeddingCosines, if_neg hne] at h
      cases h
  | stored vectors =>
      rw [getEmbeddingCosines, if_neg hne] at h
      rw [embedding]
      cases htarget : vectors.get? artistId with
      | none =>
          rw [htarget] at h
          obtain rfl := Option.some.inj h
          rfl
      | some target =>
          rw [htarget] at h
          obtain rfl := Option.some.inj h
          have hfill := get_fill (fun key => (vectors.get? key).map (cosine target)) ids .empty id
          rw [if_pos hid, Dict.get_empty, Option.or_none] at hfill
          rw [Option.bind_some, ← hfill]
          congr 1
          refine congrArg (fun f => ids.foldl f Dict.empty) ?_
          refine funext fun found => funext fun key => ?_
          cases vectors.get? key <;> rfl

/-! ## The fused ranking -/

section Ranking

variable (reads : Reads) (round : ℝ → ℝ) (alpha : ℝ) (artistId : String)
  (neighbours : Dict String ℝ)

/-- The cosine of an artist: the stored score of a neighbour, else that of the stored vectors. -/
noncomputable def cosOf (id : String) : ℝ :=
  (neighbours.get? id).getD ((embedding reads.vectors artistId id).getD 0)

/-- The heuristic score of an artist, zero of one that is not similar. -/
noncomputable def heurOf (id : String) : ℝ :=
  (similarArtist reads neighbours id).elim 0 fun artist =>
    round (weightedSum reads.target artist.profile)

/-- The fused score of an artist. -/
noncomputable def fusedOf (id : String) : ℝ :=
  alpha * cosOf reads artistId neighbours id + (1 - alpha) * heurOf reads round neighbours id

/-- The similar candidates, and the neighbours that the graph names. -/
def Listed (id : String) : Prop :=
  (∃ candidate ∈ reads.candidates, candidate.artistId = id ∧ Similar reads.target candidate) ∨
    id ∈ neighbours.keys ∧ ∃ artist ∈ reads.known, artist.artistId = id

/-- What the fused ranking says. -/
structure FusedRanking (rows : List RankedRow) : Prop where
  listed : ∀ id, id ∈ rows.map (·.artistId) ↔ Listed reads neighbours id
  ordered : (rows.map (·.artistId)).Pairwise fun a b =>
    toLex (-fusedOf reads round alpha artistId neighbours a, a) <
      toLex (-fusedOf reads round alpha artistId neighbours b, b)
  scored : ∀ row ∈ rows,
    row.similarity = round (fusedOf reads round alpha artistId neighbours row.artistId) ∧
      row.embedding = round (cosOf reads artistId neighbours row.artistId)
  others : artistId ∉ rows.map (·.artistId)

end Ranking

theorem get_profiled {artists : List CandidateArtist}
    (hdistinct : (artists.map (·.artistId)).Nodup) (id : String) (source : Source) :
    (profiledBy artists).get? id = some source ↔ ∃ artist ∈ artists, artist.artistId = id ∧
      ⟨artist.artistId, artist.artistName.getD "", artist.releaseCount.getD 0⟩ = source := by
  have hsame : ∀ artist ∈ artists, ∀ other ∈ artists, artist.artistId = other.artistId →
      (⟨artist.artistId, artist.artistName.getD "", artist.releaseCount.getD 0⟩ : Source) =
        ⟨other.artistId, other.artistName.getD "", other.releaseCount.getD 0⟩ := by
    intro artist hartist other hother heq
    rw [List.inj_on_of_nodup_map hdistinct hartist hother heq]
  rw [profiledBy, Dict.get_set_all_iff hsame]
  simp

section Proof

variable {reads : Reads} {round : ℝ → ℝ} {alpha : ℝ} {artistId : String}
  (h : reads.Sound artistId) {neighbours cosines : Dict String ℝ}
include h

omit h in
theorem similar_artist_mem {id : String} {artist : CandidateArtist}
    (hfound : similarArtist reads neighbours id = some artist) :
    artist.artistId = id ∧ Listed reads neighbours id := by
  classical
  rw [similarArtist, Option.or_eq_some_iff] at hfound
  rcases hfound with hfound | ⟨-, hfound⟩
  · obtain ⟨hid, hsimilar⟩ : artist.artistId = id ∧ Similar reads.target artist := by
      simpa using List.find?_some hfound
    exact ⟨hid, .inl ⟨artist, List.mem_of_find?_eq_some hfound, hid, hsimilar⟩⟩
  · split at hfound
    · rename_i hneighbour
      obtain ⟨hid, -⟩ : artist.artistId = id ∧ Similar reads.target artist := by
        simpa using List.find?_some hfound
      exact ⟨hid, .inr ⟨hneighbour, artist, List.mem_of_find?_eq_some hfound, hid⟩⟩
    · cases hfound

/-- An artist has a row exactly when it is listed, and the row is its own. -/
theorem source_of_spec (id : String) :
    ((sourceOf (profiledBy (extraArtists round reads neighbours))
      (heuristicRows round reads neighbours) id).isSome = true ↔ Listed reads neighbours id) ∧
    ∀ source, sourceOf (profiledBy (extraArtists round reads neighbours))
      (heuristicRows round reads neighbours) id = some source → source.artistId = id := by
  have hprofiled := get_profiled (extra_unique round h neighbours) id
  cases hfound : similarArtist reads neighbours id with
  | some artist =>
      obtain ⟨hid, hlisted⟩ := similar_artist_mem hfound
      have hsource : sourceOf (profiledBy (extraArtists round reads neighbours))
          (heuristicRows round reads neighbours) id = some ⟨artist.artistId,
            artist.artistName.getD "", artist.releaseCount.getD 0⟩ := by
        rw [sourceOf, heuristic_rows_eq round h, hfound]
        rfl
      rw [hsource]
      refine ⟨⟨fun _ => hlisted, fun _ => rfl⟩, fun source hsome => ?_⟩
      obtain rfl := Option.some.inj hsome
      exact hid
  | none =>
      have hsource : sourceOf (profiledBy (extraArtists round reads neighbours))
          (heuristicRows round reads neighbours) id =
            (profiledBy (extraArtists round reads neighbours)).get? id := by
        rw [sourceOf, heuristic_rows_eq round h, hfound]
        rfl
      rw [hsource]
      constructor
      · rw [Option.isSome_iff_exists]
        constructor
        · intro ⟨source, hsome⟩
          obtain ⟨artist, hmem, hid, -⟩ := (hprofiled source).mp hsome
          obtain ⟨hknown, hneighbour, -⟩ := (mem_extra round h neighbours artist).mp hmem
          exact .inr ⟨hid ▸ hneighbour, artist, hknown, hid⟩
        · intro hlisted
          have hno : ¬∃ candidate ∈ reads.candidates, candidate.artistId = id ∧
              Similar reads.target candidate := by
            intro ⟨candidate, hmem, hid, hsimilar⟩
            have hrow := (get_heuristic_rows round h neighbours id _).mpr
              (.inl ⟨candidate, hmem, hid, hsimilar, rfl⟩)
            rw [heuristic_rows_eq round h, hfound] at hrow
            cases hrow
          obtain ⟨hneighbour, artist, hknown, hid⟩ := hlisted.resolve_left hno
          refine ⟨_, (hprofiled _).mpr ⟨artist, ?_, hid, rfl⟩⟩
          exact (mem_extra round h neighbours artist).mpr ⟨hknown, hid ▸ hneighbour, hid ▸ hno⟩
      · intro source hsome
        obtain ⟨artist, -, hid, rfl⟩ := (hprofiled source).mp hsome
        exact hid

/-- The entry of an artist of the union has its fused score. -/
theorem fused_entry_eq (hcosines : ∀ id ∈ (heuristicRows round reads neighbours).keys.filter
      fun id => id ∉ neighbours.keys, cosines.get? id = embedding reads.vectors artistId id)
    {id : String} (hid : id ∈ neighbours.keys ++ (heuristicRows round reads neighbours).keys.filter
      fun id => id ∉ neighbours.keys) :
    fusedEntry neighbours (heuristicRows round reads neighbours) cosines alpha id =
      ⟨id, fusedOf reads round alpha artistId neighbours id, cosOf reads artistId neighbours id,
        heurOf reads round neighbours id⟩ := by
  have hheur : ((heuristicRows round reads neighbours).get? id).elim 0 (·.similarity) =
      heurOf reads round neighbours id := by
    rw [heuristic_rows_eq round h, heurOf]
    cases similarArtist reads neighbours id <;> rfl
  have hcos : (neighbours.get? id).getD ((cosines.get? id).getD 0) =
      cosOf reads artistId neighbours id := by
    rw [cosOf]
    rcases List.mem_append.mp hid with hneighbour | hother
    · obtain ⟨score, hscore⟩ := Dict.mem_keys.mp hneighbour
      rw [hscore]
      rfl
    · rw [hcosines id hother]
  rw [fusedEntry, hheur, hcos]
  rfl

omit h in
/-- The fused entries are those of the neighbours and of the other heuristic rows. -/
theorem fused_ids : ((fuse neighbours (heuristicRows round reads neighbours) cosines alpha).map
    (·.artistId)).Perm (neighbours.keys ++
      (heuristicRows round reads neighbours).keys.filter fun id => id ∉ neighbours.keys) := by
  rw [fuse]
  refine ((sort_by_perm _ _).map _).trans (List.Perm.of_eq ?_)
  rw [List.map_map]
  exact List.map_id _

omit h in
theorem fused_ids_nodup :
    ((fuse neighbours (heuristicRows round reads neighbours) cosines alpha).map
      (·.artistId)).Nodup := by
  refine fused_ids.nodup_iff.mpr (List.nodup_append.mpr ⟨nodup_keys neighbours, ?_, ?_⟩)
  · exact (nodup_keys _).filter _
  · intro id hid other hother heq
    exact (of_decide_eq_true (List.mem_filter.mp hother).2) (heq ▸ hid)

theorem listed_fused {id : String} (hid : Listed reads neighbours id) :
    id ∈ (fuse neighbours (heuristicRows round reads neighbours) cosines alpha).map
      (·.artistId) := by
  rw [fused_ids.mem_iff, List.mem_append, List.mem_filter]
  by_cases hneighbour : id ∈ neighbours.keys
  · exact .inl hneighbour
  · -- listed without being a neighbour, so a similar candidate, which has a heuristic row
    obtain ⟨candidate, hmem, hcid, hsimilar⟩ := hid.resolve_right fun hright =>
      hneighbour hright.1
    have hrow := (get_heuristic_rows round h neighbours id _).mpr
      (.inl ⟨candidate, hmem, hcid, hsimilar, rfl⟩)
    exact .inr ⟨Dict.mem_keys.mpr ⟨_, hrow⟩, decide_eq_true hneighbour⟩

/-- The rows are those of the entries that have a source, in their order. -/
theorem ranked_ids (round : ℝ → ℝ) (neighbours : Dict String ℝ) (entries : List FusedEntry) :
    (rankedRows round (profiledBy (extraArtists round reads neighbours))
      (heuristicRows round reads neighbours) entries).map (·.artistId) =
    (entries.map (·.artistId)).filter fun id =>
      (sourceOf (profiledBy (extraArtists round reads neighbours))
        (heuristicRows round reads neighbours) id).isSome := by
  unfold rankedRows
  induction entries with
  | nil => rfl
  | cons entry entries ih =>
      rw [List.filterMap_cons, List.map_cons, List.filter_cons]
      cases hsource : sourceOf (profiledBy (extraArtists round reads neighbours))
          (heuristicRows round reads neighbours) entry.artistId with
      | none => exact ih
      | some source =>
          have hid := (source_of_spec h entry.artistId).2 source hsource
          show source.artistId :: _ = entry.artistId :: _
          rw [ih, hid]

/-- The rows of a fused ranking of the listed artists. -/
theorem fused_ranking (hcosines : ∀ id ∈ (heuristicRows round reads neighbours).keys.filter
      fun id => id ∉ neighbours.keys, cosines.get? id = embedding reads.vectors artistId id)
    (hself : artistId ∉ neighbours.keys) :
    FusedRanking reads round alpha artistId neighbours
      (rankedRows round (profiledBy (extraArtists round reads neighbours))
        (heuristicRows round reads neighbours)
        (fuse neighbours (heuristicRows round reads neighbours) cosines alpha)) := by
  generalize hfuse : fuse neighbours (heuristicRows round reads neighbours) cosines alpha = entries
  have hentry : ∀ entry ∈ entries, entry.fused = fusedOf reads round alpha artistId neighbours
      entry.artistId ∧ entry.cos = cosOf reads artistId neighbours entry.artistId := by
    intro entry hmem
    rw [← hfuse, fuse, mem_sort_by, List.mem_map] at hmem
    obtain ⟨id, hid, rfl⟩ := hmem
    rw [fused_entry_eq h hcosines hid]
    exact ⟨rfl, rfl⟩
  have hnodup : (entries.map (·.artistId)).Nodup := hfuse ▸ fused_ids_nodup
  have hlisted : ∀ id, Listed reads neighbours id → id ∈ entries.map (·.artistId) :=
    fun id hid => hfuse ▸ listed_fused h hid
  have hrows := ranked_ids h round neighbours entries
  have hspec (id : String) : (sourceOf (profiledBy (extraArtists round reads neighbours))
      (heuristicRows round reads neighbours) id).isSome = true ↔ Listed reads neighbours id :=
    (source_of_spec h id).1
  constructor
  case listed =>
    intro id
    rw [hrows, List.mem_filter, hspec]
    exact ⟨fun hid => hid.2, fun hid => ⟨hlisted id hid, hid⟩⟩
  case ordered =>
    rw [hrows]
    refine List.Pairwise.sublist List.filter_sublist ?_
    have hsorted : entries.Pairwise fun a b => rank a ≤ rank b := by
      rw [← hfuse, fuse]
      exact sort_by_sorted _ _
    have hordered : (entries.map (·.artistId)).Pairwise fun a b =>
        toLex (-fusedOf reads round alpha artistId neighbours a, a) ≤
          toLex (-fusedOf reads round alpha artistId neighbours b, b) := by
      refine List.pairwise_map.mpr (hsorted.imp_of_mem fun {a b} ha hb hle => ?_)
      rw [← (hentry a ha).1, ← (hentry b hb).1]
      exact hle
    -- equal keys would be one id, and the ids are distinct
    refine (hordered.and hnodup).imp fun {a b} hboth => lt_of_le_of_ne hboth.1 fun heq => ?_
    exact hboth.2 (Prod.mk.inj (toLex_inj.mp heq)).2
  case scored =>
    intro row hrow
    obtain ⟨entry, hmem, hmap⟩ := List.mem_filterMap.mp hrow
    obtain ⟨source, hsource, rfl⟩ := Option.map_eq_some_iff.mp hmap
    have hid := (source_of_spec h entry.artistId).2 source hsource
    obtain ⟨hfused, hcos⟩ := hentry entry hmem
    show round entry.fused = round (fusedOf reads round alpha artistId neighbours source.artistId) ∧
      round entry.cos = round (cosOf reads artistId neighbours source.artistId)
    rw [hid, hfused, hcos]
    exact ⟨rfl, rfl⟩
  case others =>
    rw [hrows, List.mem_filter, hspec]
    intro hself'
    rcases hself'.2 with ⟨candidate, hmem, hid, -⟩ | ⟨hneighbour, -⟩
    · exact h.others candidate hmem hid
    · exact hself hneighbour

end Proof

/-- The neighbours are those of the published list without the artist itself. -/
theorem mem_neighbours {artistId : String} {precomputed : PrecomputedList} {id : String} :
    id ∈ (neighboursOf artistId precomputed).keys ↔
      id ≠ artistId ∧ ∃ score, (id, score) ∈ precomputed.neighbours := by
  have hfold (l : List (String × ℝ)) (d : Dict String ℝ) :
      id ∈ (l.foldl (fun found entry => found.set entry.1 entry.2) d).keys ↔
        id ∈ d.keys ∨ ∃ score, (id, score) ∈ l := by
    induction l generalizing d with
    | nil => simp
    | cons entry l ih =>
        have hset : id ∈ (d.set entry.1 entry.2).keys ↔ id = entry.1 ∨ id ∈ d.keys := by
          rw [Dict.mem_keys, Dict.mem_keys, Dict.get_set]
          by_cases hid : id = entry.1 <;> simp [hid]
        rw [List.foldl_cons, ih, hset]
        constructor
        · rintro ((rfl | hmem) | ⟨score, hscore⟩)
          · exact .inr ⟨entry.2, List.mem_cons_self⟩
          · exact .inl hmem
          · exact .inr ⟨score, List.mem_cons_of_mem _ hscore⟩
        · rintro (hmem | ⟨score, hscore⟩)
          · exact .inl (.inr hmem)
          · rcases List.mem_cons.mp hscore with rfl | hscore
            · exact .inl (.inl rfl)
            · exact .inr ⟨score, hscore⟩
  rw [neighboursOf, hfold]
  simp [Dict.keys, Dict.empty, and_comm]

/-- The cosines are missing exactly when some are needed and cannot be read. -/
theorem embedding_cosines_eq_none {vectors : Vectors} {artistId : String} {ids : List String} :
    getEmbeddingCosines vectors artistId ids = none ↔
      vectors = .noPool ∨ vectors = .unreadable ∧ ids ≠ [] := by
  cases vectors with
  | noPool => exact ⟨fun _ => .inl rfl, fun _ => rfl⟩
  | unreadable => by_cases hids : ids = [] <;> simp [getEmbeddingCosines, hids]
  | stored vectors =>
      by_cases hids : ids = []
      · simp [getEmbeddingCosines, hids]
      · cases htarget : vectors.get? artistId <;> simp [getEmbeddingCosines, hids, htarget]

/-- The shared names of a similar candidate clash, or those of a similar neighbour that the graph names
and that is no similar candidate. -/
def Unorderable (reads : Reads) (neighbours : Dict String ℝ) : Prop :=
  (∃ candidate ∈ reads.candidates, Similar reads.target candidate ∧
      Clashes reads.target candidate) ∨
    ∃ artist ∈ reads.known, (artist.artistId ∈ neighbours.keys ∧
        ¬∃ candidate ∈ reads.candidates, candidate.artistId = artist.artistId ∧
          Similar reads.target candidate) ∧
      Similar reads.target artist ∧ Clashes reads.target artist

open Classical in
/-- The fused path fails exactly where shared names clash, and otherwise answers what the vectors it
reads allow. -/
theorem rank_precomputed_eq (round : ℝ → ℝ) {reads : Reads} {artistId : String}
    (h : reads.Sound artistId) {alpha : ℝ} (halpha : alpha < 1) (precomputed : PrecomputedList) :
    rankPrecomputed round reads alpha artistId precomputed =
      let neighbours := neighboursOf artistId precomputed
      let heuristic := heuristicRows round reads neighbours
      if Unorderable reads neighbours then .error .unorderable
      else .ok ((getEmbeddingCosines reads.vectors artistId
        (heuristic.keys.filter fun id => id ∉ neighbours.keys)).map fun cosines =>
          rankedRows round (profiledBy (extraArtists round reads neighbours)) heuristic
            (fuse neighbours heuristic cosines alpha)) := by
  dsimp only
  rw [rankPrecomputed]
  dsimp only
  rw [if_neg (not_le.mpr halpha)]
  generalize neighboursOf artistId precomputed = neighbours
  have hextra : (∃ artist ∈ extraArtists round reads neighbours, Similar reads.target artist ∧
      Clashes reads.target artist) ↔
      ∃ artist ∈ reads.known, (artist.artistId ∈ neighbours.keys ∧
        ¬∃ candidate ∈ reads.candidates, candidate.artistId = artist.artistId ∧
          Similar reads.target candidate) ∧
        Similar reads.target artist ∧ Clashes reads.target artist :=
    exists_congr fun artist => by rw [mem_extra round h, and_assoc]
  rw [Unorderable, ← hextra, compute_similar_artists_eq]
  by_cases hcandidates : ∃ candidate ∈ reads.candidates, Similar reads.target candidate ∧
      Clashes reads.target candidate
  · rw [if_pos hcandidates, if_pos (Or.inl hcandidates)]
    rfl
  rw [if_neg hcandidates]
  -- the neighbours that the first answer does not hold are asked for
  show (computeSimilarArtists round reads.target (extraArtists round reads neighbours)
    (extraArtists round reads neighbours).length >>= fun extraRows => _) = _
  rw [compute_similar_artists_eq]
  by_cases hneighbours : ∃ artist ∈ extraArtists round reads neighbours,
      Similar reads.target artist ∧ Clashes reads.target artist
  · rw [if_pos hneighbours, if_pos (Or.inr hneighbours)]
    rfl
  rw [if_neg hneighbours, if_neg (not_or.mpr ⟨hcandidates, hneighbours⟩)]
  show (match getEmbeddingCosines reads.vectors artistId
      ((heuristicRows round reads neighbours).keys.filter fun id => id ∉ neighbours.keys) with
    | none => _
    | some cosines => _) = _
  cases getEmbeddingCosines reads.vectors artistId
      ((heuristicRows round reads neighbours).keys.filter fun id => id ∉ neighbours.keys) with
  | none | some => rfl

/-- The fused ranking lists the similar candidates and the neighbours that the graph names, each
once and never the artist itself, by decreasing fused score and then by id, however the reads are
ordered. It fails exactly where shared names clash, and else there is none exactly when the vectors
it needs cannot be read. -/
theorem rank_precomputed_fused (round : ℝ → ℝ) {reads : Reads} {artistId : String}
    (h : reads.Sound artistId) {alpha : ℝ} (halpha : alpha < 1) (precomputed : PrecomputedList) :
    (rankPrecomputed round reads alpha artistId precomputed = .error .unorderable ↔
      Unorderable reads (neighboursOf artistId precomputed)) ∧
    (rankPrecomputed round reads alpha artistId precomputed = .ok none ↔
      ¬Unorderable reads (neighboursOf artistId precomputed) ∧
        (reads.vectors = .noPool ∨ reads.vectors = .unreadable ∧
          ∃ candidate ∈ reads.candidates, Similar reads.target candidate ∧
            candidate.artistId ∉ (neighboursOf artistId precomputed).keys)) ∧
    ∀ rows, rankPrecomputed round reads alpha artistId precomputed = .ok (some rows) →
      FusedRanking reads round alpha artistId (neighboursOf artistId precomputed) rows := by
  have hself : artistId ∉ (neighboursOf artistId precomputed).keys := fun hmem =>
    (mem_neighbours.mp hmem).1 rfl
  -- vectors are needed for the similar candidates that are no neighbours
  have hneeded : (heuristicRows round reads (neighboursOf artistId precomputed)).keys.filter
      (fun id => id ∉ (neighboursOf artistId precomputed).keys) ≠ [] ↔
        ∃ candidate ∈ reads.candidates, Similar reads.target candidate ∧
          candidate.artistId ∉ (neighboursOf artistId precomputed).keys := by
    constructor
    · intro hne
      obtain ⟨id, hid⟩ := List.exists_mem_of_ne_nil _ hne
      obtain ⟨hkey, hother⟩ := List.mem_filter.mp hid
      obtain ⟨row, hrow⟩ := Dict.mem_keys.mp hkey
      rcases (get_heuristic_rows round h _ id row).mp hrow with
        ⟨candidate, hmem, rfl, hsimilar, -⟩ | ⟨artist, hmem, rfl, -⟩
      · exact ⟨candidate, hmem, hsimilar, of_decide_eq_true hother⟩
      · exact absurd ((mem_extra round h _ artist).mp hmem).2.1 (of_decide_eq_true hother)
    · intro ⟨candidate, hmem, hsimilar, hother⟩
      have hrow := (get_heuristic_rows round h (neighboursOf artistId precomputed) _ _).mpr
        (.inl ⟨candidate, hmem, rfl, hsimilar, rfl⟩)
      exact List.ne_nil_of_mem (List.mem_filter.mpr
        ⟨Dict.mem_keys.mpr ⟨_, hrow⟩, decide_eq_true hother⟩)
  have hnone : getEmbeddingCosines reads.vectors artistId
      ((heuristicRows round reads (neighboursOf artistId precomputed)).keys.filter
        fun id => id ∉ (neighboursOf artistId precomputed).keys) = none ↔ _ :=
    embedding_cosines_eq_none
  rw [hneeded] at hnone
  rw [← hnone, rank_precomputed_eq round h halpha]
  dsimp only
  by_cases hclash : Unorderable reads (neighboursOf artistId precomputed)
  · rw [if_pos hclash]
    exact ⟨iff_of_true rfl hclash, iff_of_false nofun fun hnot => hnot.1 hclash, nofun⟩
  rw [if_neg hclash]
  refine ⟨iff_of_false nofun hclash, ?_⟩
  rw [and_iff_right hclash]
  cases hcosines : getEmbeddingCosines reads.vectors artistId
      ((heuristicRows round reads (neighboursOf artistId precomputed)).keys.filter
        fun id => id ∉ (neighboursOf artistId precomputed).keys) with
  | none => exact ⟨iff_of_true rfl rfl, fun rows hrows => nomatch hrows⟩
  | some cosines =>
      refine ⟨iff_of_false nofun nofun, fun rows hrows => ?_⟩
      obtain rfl := Option.some.inj (Except.ok.inj hrows)
      exact fused_ranking h (fun id hid => embedding_cosines_eq hcosines hid) hself

/-- A profile of one genre. -/
def oneGenre (genre : Name) (count : Nat) (h : 0 < count) : Profile where
  genres := ⟨[(genre, count)], List.forall_mem_singleton.mpr h, List.nodup_singleton _⟩
  styles := .none
  labels := .none
  collaborators := .none

/-- A target with one candidate, and one neighbour that the graph knows. -/
def krautReads : Reads where
  target := oneGenre (some "Rock") 7 (Nat.succ_pos 6)
  candidates := [⟨"2", some "Neu!", some 9, oneGenre (some "Rock") 3 (Nat.succ_pos 2)⟩]
  known := [⟨"3", some "Can", some 12, oneGenre (some "Jazz") 1 (Nat.succ_pos 0)⟩]
  vectors := .stored .empty

theorem kraut_sound : krautReads.Sound "1" := by
  constructor
  case distinct => exact List.nodup_singleton "2"
  case page => decide
  case others => exact List.forall_mem_singleton.mpr (by decide)
  case unique => exact List.nodup_singleton "3"

theorem kraut_fused :
    (rankPrecomputed id krautReads (1 / 2) "1" ⟨4, "v1", [("3", 3 / 4)]⟩ = .error .unorderable ↔
      Unorderable krautReads (neighboursOf "1" ⟨4, "v1", [("3", 3 / 4)]⟩)) ∧
    (rankPrecomputed id krautReads (1 / 2) "1" ⟨4, "v1", [("3", 3 / 4)]⟩ = .ok none ↔
      ¬Unorderable krautReads (neighboursOf "1" ⟨4, "v1", [("3", 3 / 4)]⟩) ∧
        (krautReads.vectors = .noPool ∨ krautReads.vectors = .unreadable ∧
          ∃ candidate ∈ krautReads.candidates, Similar krautReads.target candidate ∧
            candidate.artistId ∉ (neighboursOf "1" ⟨4, "v1", [("3", 3 / 4)]⟩).keys)) ∧
    ∀ rows, rankPrecomputed id krautReads (1 / 2) "1" ⟨4, "v1", [("3", 3 / 4)]⟩ = .ok (some rows) →
      FusedRanking krautReads id (1 / 2) "1" (neighboursOf "1" ⟨4, "v1", [("3", 3 / 4)]⟩) rows :=
  rank_precomputed_fused id kraut_sound one_half_lt_one ⟨4, "v1", [("3", 3 / 4)]⟩

end CatalogApi.Recommend
