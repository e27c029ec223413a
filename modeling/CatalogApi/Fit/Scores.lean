import CatalogApi.Fit.Collection
import Mathlib.Algebra.Order.Field.Rat
import Mathlib.Algebra.BigOperators.Group.List.Basic

/-!
# The fit scores

`api/fit.py`: the five components of a fit over the folded collection and the candidate's context,
each a score and its evidence, and the fit they add up to. Scores are exact rationals and the
rounding to four decimals is left out. An absent value is `none` or the empty text.
-/

namespace CatalogApi.Fit

open ByKey

/-! ## The candidate -/

/-- An artist or a label of the candidate. -/
structure Named where
  id : Option String
  name : Option String

/-- Another release of the candidate's master. -/
structure Sibling where
  id : Option String
  title : Option String
  mediaFamilies : List String

/-- A row of `_RELEASE_CONTEXT_CYPHER`, less the columns no score reads. -/
structure Context where
  id : Option String
  title : Option String
  artists : List Named
  labels : List Named
  genres : List String
  styles : List String
  mediaFamilies : List String
  masterId : Option String
  siblings : List Sibling

/-- The keys of `affinity_weights`. -/
inductive Dimension where
  | artist | label | genre | style

/-- `_DIMENSION_NOUN`. -/
def Dimension.noun : Dimension → String
  | .artist => "artist"
  | .label => "label"
  | .genre => "genre"
  | .style => "style"

/-- `_ATLAS_NODES`. -/
def Dimension.drawable : Dimension → Bool
  | .artist => false
  | .label => false
  | .genre => true
  | .style => true

/-- `FIT_CONSTANTS["affinity_weights"]`. -/
def affinityWeights : List (Dimension × ℚ) :=
  [(.artist, 35 / 100), (.label, 25 / 100), (.genre, 25 / 100), (.style, 15 / 100)]

def depthSaturation : Nat := 5
def bridgeScoreCap : ℚ := 1
def redundancyHeldRelease : ℚ := 1
def redundancySameMasterSameFamily : ℚ := 1
def redundancySameMasterOtherFamily : ℚ := 6 / 10
def redundancySameArtistAndTitle : ℚ := 3 / 10
def evidenceLimit : Nat := 3

/-! ## Evidence -/

/-- The kinds of evidence. -/
inductive Kind where
  | shared | unheld | thread | bridge | heuristic | duplicate | duplicateTitle

/-- `_entry`. The type of an entity is there exactly when its id is. -/
structure Entry where
  dimension : String
  entity : String
  kind : Kind
  count : Option Nat := none
  releaseId : Option String := none
  detail : Option String := none
  entityId : Option (String × String) := none
  genres : Option (List String) := none
  masterId : Option String := none
  drawable : Bool := false

/-- `_article`. -/
def article (noun : String) : String :=
  if noun.toList.head?.any (· ∈ "aeiou".toList) then "an" else "a"

/-- `_render_entry`. -/
def renderEntry (entry : Entry) : String :=
  let count := (entry.count.map toString).getD "None"
  let detail := entry.detail.getD "None"
  match entry.kind with
  | .shared =>
      "shares " ++ entry.dimension ++ " " ++ entry.entity ++ " with " ++ count ++ " release" ++
        (if entry.count = some 1 then "" else "s") ++ " you hold"
  | .unheld =>
      entry.entity ++ " is " ++ article entry.dimension ++ " " ++ entry.dimension ++
        " your collection has never held"
  | .thread => "deepens " ++ entry.dimension ++ " " ++ entry.entity ++ " (" ++ count ++ " held)"
  | .bridge =>
      "bridges " ++ entry.entity ++ ", which share no artist or label in your collection"
  | .heuristic => "region boundaries are the v0 genre heuristic, not a computed community"
  | .duplicate =>
      if entry.detail.isNone then "you already hold this exact release"
      else "you hold " ++ entry.entity ++ ", the same record on " ++ detail
  | .duplicateTitle =>
      "you hold " ++ entry.entity ++ " by " ++ detail ++
        ", which no master links to this pressing"

/-- `_item`: an entry with the keys of `evidence_items` only. -/
def item (entry : Entry) : Entry :=
  { entry with entityId := none, genres := none, masterId := none, drawable := false }

/-- A component of a fit. -/
structure Component where
  score : ℚ
  evidence : List String
  evidenceItems : List Entry
  evidenceEntries : List Entry

/-- `_component`. -/
def component (score : ℚ) (entries : List Entry) : Component :=
  let capped := entries.take evidenceLimit
  { score := min 1 (max 0 score)
    evidence := capped.map renderEntry
    evidenceItems := capped.map item
    evidenceEntries := entries }

/-! ## The facets -/

/-- The `(id, name)` pairs of a list of artists or labels. -/
def namedPairs (entries : List Named) : List (String × String) :=
  entries.filterMap fun entry =>
    (truthy entry.id).map fun identifier => (identifier, (truthy entry.name).getD identifier)

/-- `_candidate_facets`. -/
def candidateFacets (context : Context) : Dimension → List (String × String)
  | .artist => namedPairs context.artists
  | .label => namedPairs context.labels
  | .genre => (present context.genres).map fun value => (value, value)
  | .style => (present context.styles).map fun value => (value, value)

/-- `_held`. -/
def held (collection : Collection) : Dimension → List String
  | .artist => collection.artistIds
  | .label => collection.labelIds
  | .genre => collection.genres
  | .style => collection.styles

/-- `_counts`. -/
def counts (collection : Collection) : Dimension → List (String × Nat)
  | .artist => collection.artistCounts
  | .label => collection.labelCounts
  | .genre => collection.genreCounts
  | .style => collection.styleCounts

/-- `counts.get(identifier, 0)`. -/
def countOf (collection : Collection) (dimension : Dimension) (identifier : String) : Nat :=
  (get (counts collection dimension) identifier).getD 0

/-- A counted facet of the candidate: `(count, noun, name, identifier)`. -/
structure Counted where
  count : Nat
  dimension : Dimension
  name : String
  identifier : String

/-- Loudest first, then by noun and name. -/
def loudest (facets : List Counted) : List Counted :=
  sortBy (fun facet => toLex (-(facet.count : Int), toLex (facet.dimension.noun, facet.name)))
    facets

/-! ## The components -/

/-- The candidate's facets of one dimension that the collector holds. -/
def heldFacets (collection : Collection) (context : Context) (dimension : Dimension) :
    List (String × String) :=
  (candidateFacets context dimension).filter fun pair => pair.1 ∈ held collection dimension

/-- The dimensions the candidate has, with their weights. -/
def weighedDimensions (context : Context) : List (Dimension × ℚ) :=
  affinityWeights.filter fun weighed => candidateFacets context weighed.1 ≠ []

/-- The evidence of a shared facet. -/
def sharedEntry (facet : Counted) : Entry :=
  { dimension := facet.dimension.noun, entity := facet.name, kind := .shared,
    count := some facet.count, entityId := some (facet.dimension.noun, facet.identifier),
    drawable := facet.dimension.drawable }

/-- `score_affinity`. -/
def scoreAffinity (collection : Collection) (context : Context) : Component :=
  let weighed := weighedDimensions context
  let weighted := (weighed.map fun (dimension, weight) => weight *
    ((heldFacets collection context dimension).length /
      (candidateFacets context dimension).length)).sum
  let weightTotal := (weighed.map (·.2)).sum
  let shared := weighed.flatMap fun (dimension, _) =>
    (heldFacets collection context dimension).map fun (identifier, name) =>
      { count := countOf collection dimension identifier, dimension, name, identifier : Counted }
  let score := if weightTotal = 0 then 0 else weighted / weightTotal
  component score (((loudest shared).filter fun facet => facet.count ≠ 0).map sharedEntry)

/-- `score_novelty`. -/
def scoreNovelty (collection : Collection) (context : Context) : Component :=
  let dimensions := (weighedDimensions context).map (·.1)
  let total := (dimensions.map fun dimension => (candidateFacets context dimension).length).sum
  let new := dimensions.flatMap fun dimension =>
    ((candidateFacets context dimension).filter
      fun pair => pair.1 ∉ held collection dimension).map fun pair => (dimension, pair.2, pair.1)
  let score : ℚ := if total = 0 then 0 else new.length / total
  let sorted := sortBy (fun facet => toLex (facet.1.noun, toLex facet.2)) new
  component score (sorted.map fun (dimension, name, identifier) =>
    { dimension := dimension.noun, entity := name, kind := .unheld,
      entityId := some (dimension.noun, identifier), drawable := dimension.drawable })

/-- The labels and artists of the candidate that the collector holds. -/
def deepened (collection : Collection) (context : Context) : List Counted :=
  ([Dimension.label, Dimension.artist].flatMap fun dimension =>
    (candidateFacets context dimension).map fun (identifier, name) =>
      { count := countOf collection dimension identifier, dimension, name,
        identifier : Counted }).filter fun facet => 0 < facet.count

/-- `score_depth`. -/
def scoreDepth (collection : Collection) (context : Context) : Component :=
  let score := (deepened collection context).foldl
    (fun score facet => max score (min 1 ((facet.count : ℚ) / depthSaturation))) 0
  component score ((loudest (deepened collection context)).map fun facet =>
    { dimension := facet.dimension.noun, entity := facet.name, kind := .thread,
      count := some facet.count, entityId := some (facet.dimension.noun, facet.identifier) })

/-! ## The bridge -/

/-- The two sets have an element in common. -/
def meets (values others : List String) : Bool := values.any fun value => value ∈ others

/-- `mapping.get(region) or []`. -/
def around (mapping : List (String × List String)) (region : String) : List String :=
  (get mapping region).getD []

/-- The regions of the collection that the candidate touches, in order of their names. -/
def touchedRegions (collection : Collection) (context : Context) : List String :=
  (sortBy id collection.genres).filter fun region =>
    region ∈ context.genres ∨ meets context.styles (around collection.genreStyles region)

/-- The artists and labels of a region. -/
def neighbourhood (collection : Collection) (region : String) : List String :=
  around collection.genreArtists region ++ around collection.genreLabels region

/-- One pass of the loop over the touched regions: `picked` and `picked_neighbourhoods`. -/
def pickRegion (collection : Collection) (state : List String × List (List String))
    (region : String) : List String × List (List String) :=
  if state.2.any fun existing => meets (neighbourhood collection region) existing then state
  else (state.1 ++ [region], state.2 ++ [neighbourhood collection region])

/-- `picked`. -/
def pickedRegions (collection : Collection) (context : Context) : List String :=
  ((touchedRegions collection context).foldl (pickRegion collection) ([], [])).1

/-- `score_bridge`. -/
def scoreBridge (collection : Collection) (context : Context) : Component :=
  let picked := pickedRegions collection context
  let score := min bridgeScoreCap (max 0 ((picked.length : ℚ) - 1))
  let named := ", ".intercalate picked.dropLast ++ " and " ++ picked.getLast?.getD ""
  component score (if 0 < score then
    [{ dimension := "genre", entity := named, kind := .bridge, count := some picked.length,
       genres := some picked, drawable := true },
     { dimension := "bridge", entity := "v0 heuristic", kind := .heuristic }] else [])

/-! ## The redundancy -/

/-- `str(sibling.get("id"))`. -/
def siblingId (sibling : Sibling) : String := sibling.id.getD "None"

/-- The evidence of a held sibling. -/
def siblingEntry (context : Context) (sibling : Sibling) (detail : String) : Entry :=
  { dimension := "release", entity := (truthy sibling.title).getD (siblingId sibling),
    kind := .duplicate, releaseId := some (siblingId sibling), detail := some detail,
    entityId := some ("release", siblingId sibling), masterId := truthy context.masterId,
    drawable := (truthy context.masterId).isSome }

/-- The held siblings of the candidate. -/
def heldSiblings (collection : Collection) (context : Context) : List Sibling :=
  context.siblings.filter fun sibling => (truthy sibling.id).getD "" ∈ collection.releaseIds

/-- Those that share a media family with the candidate. -/
def sameFamily (collection : Collection) (context : Context) : List Sibling :=
  (heldSiblings collection context).filter fun sibling =>
    meets (present sibling.mediaFamilies) (present context.mediaFamilies)

/-- The held title of the first artist that has one, with its key and the artist's name. -/
def heldTitle (titleText : String → String) (collection : Collection) (context : Context) :
    Option (String × String × String) :=
  (truthy context.title).bind fun title =>
    (candidateFacets context .artist).findSome? fun (identifier, name) =>
      let key := heldTitleKey titleText identifier title
      (truthy (get collection.heldTitles key)).map fun held => (held, key, name)

/-- `score_redundancy`. -/
def scoreRedundancy (titleText : String → String) (collection : Collection) (context : Context) :
    Component :=
  let candidateId := (truthy context.id).getD ""
  if candidateId ≠ "" ∧ candidateId ∈ collection.releaseIds then
    component redundancyHeldRelease
      [{ dimension := "release", entity := candidateId, kind := .duplicate,
         releaseId := some candidateId, entityId := some ("release", candidateId),
         masterId := truthy context.masterId, drawable := (truthy context.masterId).isSome }]
  else match firstBy siblingId (sameFamily collection context) with
    | some sibling =>
        let shared := sortedSet ((present sibling.mediaFamilies).filter
          fun family => family ∈ present context.mediaFamilies)
        component redundancySameMasterSameFamily
          [siblingEntry context sibling (", ".intercalate shared)]
    | none => match firstBy siblingId (heldSiblings collection context) with
        | some sibling =>
            let families := sortedSet (present sibling.mediaFamilies)
            component redundancySameMasterOtherFamily [siblingEntry context sibling
              (if families = [] then "another format" else ", ".intercalate families)]
        | none => match heldTitle titleText collection context with
            | some (held, key, name) =>
                component redundancySameArtistAndTitle
                  [{ dimension := "release", entity := held, kind := .duplicateTitle,
                     detail := some name,
                     entityId := (truthy (get collection.heldTitleReleases key)).map
                       fun heldId => ("release", heldId) }]
            | none => component 0 []

/-! ## The fit -/

/-- `identity_confidence`. -/
inductive Confidence where
  | exact | master

def identityConfidence (context : Context) : Confidence :=
  if (truthy context.id).isSome then .exact else .master

/-- What `compute_fit` returns, less the version. -/
structure FitProfile where
  fit : ℚ
  affinity : Component
  novelty : Component
  bridge : Component
  depth : Component
  redundancy : Component
  confidence : Confidence

/-- `compute_fit`. -/
def computeFit (titleText : String → String) (collection : Collection) (context : Context) :
    FitProfile :=
  let affinity := scoreAffinity collection context
  let novelty := scoreNovelty collection context
  let bridge := scoreBridge collection context
  let depth := scoreDepth collection context
  let redundancy := scoreRedundancy titleText collection context
  let raw := affinity.score + novelty.score + bridge.score + depth.score - redundancy.score
  { fit := min 1 (max 0 raw), affinity, novelty, bridge, depth, redundancy,
    confidence := identityConfidence context }

end CatalogApi.Fit
