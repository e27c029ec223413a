import CatalogApi.Explore.Walk
import CatalogApi.Lib.Firsts

/-!
# The selection from a walk

`_select` of `api/explore_discovery.py`: every genre and style, and of artists and labels the first
hundred, a distance at a time. The popularity that cuts a distance comes from a query, whose rows
are a parameter.
-/

namespace CatalogApi.Explore

open ByKey

/-- `ARTIST_LABEL_LIMIT`. -/
def artistLabelLimit : Nat := 100

/-- A label as the queries return it. -/
def Kind.text : Kind → String
  | .release => "Release"
  | .master => "Master"
  | .artist => "Artist"
  | .label => "Label"
  | .genre => "Genre"
  | .style => "Style"

/-- `_output_type`. -/
def Kind.outputType : Kind → String
  | .release => "release"
  | .master => "master"
  | .artist => "artist"
  | .label => "label"
  | .genre => "genre"
  | .style => "style"

/-- A genre or a style. -/
def Kind.tag (kind : Kind) : Bool := kind = .genre ∨ kind = .style

/-- An artist or a label. -/
def Kind.act (kind : Kind) : Bool := kind = .artist ∨ kind = .label

theorem Kind.tag_iff {kind : Kind} : kind.tag = true ↔ kind = .genre ∨ kind = .style :=
  decide_eq_true_iff

theorem Kind.tag_eligible {kind : Kind} (h : kind.tag = true) : kind.eligible = true := by
  rcases Kind.tag_iff.mp h with rfl | rfl
  · rfl
  · rfl

theorem Kind.act_iff {kind : Kind} : kind.act = true ↔ kind = .artist ∨ kind = .label :=
  decide_eq_true_iff

theorem Kind.act_eligible {kind : Kind} (h : kind.act = true) : kind.eligible = true := by
  rcases Kind.act_iff.mp h with rfl | rfl
  · rfl
  · rfl

theorem Kind.text_injective {kind other : Kind} (h : kind.text = other.text) : kind = other := by
  cases kind with
  | release => cases other <;> first | rfl | simp [text] at h
  | master => cases other <;> first | rfl | simp [text] at h
  | artist => cases other <;> first | rfl | simp [text] at h
  | label => cases other <;> first | rfl | simp [text] at h
  | genre => cases other <;> first | rfl | simp [text] at h
  | style => cases other <;> first | rfl | simp [text] at h

theorem Kind.output_type_injective {kind other : Kind} (h : kind.outputType = other.outputType) : kind = other := by
  cases kind with
  | release => cases other <;> first | rfl | simp [outputType] at h
  | master => cases other <;> first | rfl | simp [outputType] at h
  | artist => cases other <;> first | rfl | simp [outputType] at h
  | label => cases other <;> first | rfl | simp [outputType] at h
  | genre => cases other <;> first | rfl | simp [outputType] at h
  | style => cases other <;> first | rfl | simp [outputType] at h

/-- The relationships of a type that lead to a node. -/
def Graph.incoming (graph : Graph) (rel : Rel) (eid : String) : Nat :=
  graph.edges.countP fun edge => edge.rel = rel ∧ edge.target = eid

/-- The `pop` of `_POPULARITY_Q`. -/
def Graph.popularity (graph : Graph) (node : GraphNode) : Nat :=
  match node.kind with
  | .label => node.releaseCount.getD (graph.incoming .onLabel node.eid)
  | _ => graph.incoming .byArtist node.eid

/-- The rows of `_POPULARITY_Q`. -/
def Graph.popularityRows (graph : Graph) (eids : List String) : List (String × Nat) :=
  eids.flatMap fun eid =>
    (graph.nodes.filter fun node => node.eid = eid).map fun node => (eid, graph.popularity node)

/-- The rows that `_POPULARITY_Q` returns for a list of element ids. -/
abbrev Pops := List String → List (String × Nat)

/-- The query returns its rows in some order. -/
def Pops.Of (pops : Pops) (graph : Graph) : Prop :=
  ∀ eids, (pops eids).Perm (graph.popularityRows eids)

/-- `pops.get(eid, 0)` of the dictionary of the rows. -/
def popOf (rows : List (String × Nat)) (eid : String) : Nat := (rows.reverse.lookup eid).getD 0

/-- A row of an answer, as `_row` builds it. -/
structure AnswerRow where
  id : Option String
  name : Option String
  type : String
  pathNames : List (Option String)
  relTypes : List Rel
  dist : Nat
  deriving DecidableEq

/-- `_row`. -/
def Discovery.row (item : Discovery) : AnswerRow :=
  { id := some item.id
    name := some item.name
    type := item.kind.outputType
    pathNames := item.pathNames.map some
    relTypes := item.relTypes
    dist := item.dist }

/-- The order of a distance that is cut. -/
def cutKey (rows : List (String × Nat)) (item : Discovery) : Bool ×ₗ Int ×ₗ String :=
  toLex (item.placeholder, toLex (-(popOf rows item.eid : Int), item.id))

/-- The order of a distance that is kept. -/
def tierKey (item : Discovery) : Bool ×ₗ String := toLex (item.placeholder, item.id)

/-- The order of genres and styles. -/
def tagKey (item : Discovery) : Nat ×ₗ String ×ₗ String :=
  toLex (item.dist, toLex (item.kind.text, item.name))

section Selection

variable (pops : Pops)

/-- The artists and labels of one distance, while there is room for them. -/
def tierOf (room : Nat) (tier : List Discovery) : List Discovery :=
  if room < tier.length then (sortBy (cutKey (pops (tier.map (·.eid)))) tier).take room
  else sortBy tierKey tier

/-- The loop of `_select` over the distances. -/
def chooseTiers (acts : List Discovery) : List Nat → List Discovery → List Discovery
  | [], chosen => chosen
  | dist :: dists, chosen =>
      if artistLabelLimit ≤ chosen.length then chosen
      else
        chooseTiers acts dists
          (chosen ++ tierOf pops (artistLabelLimit - chosen.length)
            (acts.filter fun item => item.dist = dist))

/-- `_select`. -/
def select (discovered : List Discovery) : List AnswerRow :=
  let tags := discovered.filter fun item => item.kind.tag
  let acts := discovered.filter fun item => item.kind.act
  let chosen := chooseTiers pops acts (sortedSet (acts.map (·.dist))) []
  (sortBy (·.dist) (sortBy tagKey tags ++ chosen)).map (·.row)

theorem tag_selected {discovered : List Discovery} {item : Discovery} (hitem : item ∈ discovered)
    (htag : item.kind.tag = true) : item.row ∈ select pops discovered := by
  refine List.mem_map_of_mem ?_
  rw [mem_sort_by, List.mem_append, mem_sort_by]
  exact Or.inl (List.mem_filter.mpr ⟨hitem, htag⟩)

/-- One distance with more than a hundred artists and labels is cut to the first hundred. -/
theorem select_one_tier {discovered : List Discovery} {d : Nat}
    (hdist : ∀ item ∈ discovered, item.dist = d)
    (hmany : artistLabelLimit < (discovered.filter fun item => item.kind.act).length) :
    ∃ rows, rows = pops ((discovered.filter fun item => item.kind.act).map (·.eid)) ∧
      select pops discovered =
        (sortBy tagKey (discovered.filter fun item => item.kind.tag) ++
          (sortBy (cutKey rows) (discovered.filter fun item => item.kind.act)).take
            artistLabelLimit).map (·.row) := by
  refine ⟨_, rfl, ?_⟩
  generalize hacts : (discovered.filter fun item => item.kind.act) = acts at hmany ⊢
  have hactDist : ∀ item ∈ acts, item.dist = d := fun item hitem =>
    hdist item (List.mem_of_mem_filter (hacts ▸ hitem))
  have hdists : sortedSet (acts.map (·.dist)) = [d] := by
    have hone : sortedSet [d] = [d] := rfl
    rw [← hone]
    refine sorted_set_congr fun k => ?_
    rw [List.mem_map, List.mem_singleton]
    constructor
    · rintro ⟨item, hitem, rfl⟩
      exact hactDist item hitem
    · rintro rfl
      obtain ⟨item, hitem⟩ := List.exists_mem_of_length_pos (Nat.zero_lt_of_lt hmany)
      exact ⟨item, hitem, hactDist item hitem⟩
  have htier : (acts.filter fun item => item.dist = d) = acts :=
    List.filter_eq_self.mpr fun item hitem => decide_eq_true (hactDist item hitem)
  have hchosen : chooseTiers pops acts [d] [] =
      (sortBy (cutKey (pops (acts.map (·.eid)))) acts).take artistLabelLimit := by
    have hroom : ¬artistLabelLimit ≤ ([] : List Discovery).length := by decide
    rw [chooseTiers, if_neg hroom, chooseTiers, htier, List.nil_append, List.length_nil, Nat.sub_zero,
      tierOf, if_pos hmany]
  unfold select
  simp only [hacts, hdists, hchosen]
  congr 1
  -- everything is at one distance, so the last sort changes nothing
  refine List.Pairwise.insertionSort_eq (List.pairwise_iff_forall_sublist.mpr fun {a b} hpair => ?_)
  have hall : ∀ item ∈ sortBy tagKey (discovered.filter fun item => item.kind.tag) ++
      (sortBy (cutKey (pops (acts.map (·.eid)))) acts).take artistLabelLimit, item.dist = d := by
    intro item hitem
    rcases List.mem_append.mp hitem with hitem | hitem
    · exact hdist item (List.mem_of_mem_filter (mem_sort_by.mp hitem))
    · exact hactDist item (mem_sort_by.mp (List.mem_of_mem_take hitem))
  have hmem := hpair.subset
  show a.dist ≤ b.dist
  rw [hall a (hmem List.mem_cons_self), hall b (hmem (List.mem_cons_of_mem a List.mem_cons_self))]

end Selection

end CatalogApi.Explore
