import CatalogApi.Explore.Exact
import CatalogApi.Explore.Select

/-!
# The stored answer of a hub

`_build_hub` of `api/explore_discovery.py` with its three scans and the query for linking releases.
A scan limits artists and labels to a hundred each, and the answer both together to a hundred. A
tie at a limit, and the order in which a query returns its rows, are left open. For a start with
more than a hundred artists and labels two steps away the rows are those of the walk
(`built_as_walked`).
-/

namespace CatalogApi.Explore

open ByKey ShortestPaths

/-! ## The scans -/

/-- The relationship by which a release or master is linked to a node of the label. -/
def Kind.linkRel : Kind → Rel
  | .artist => .byArtist
  | .label => .onLabel
  | _ => .isOf

/-- The property that a start is matched by. -/
def GraphNode.key (node : GraphNode) : Option String :=
  if node.kind.tag then node.name else node.id

def Graph.leads (graph : Graph) (source : String) (rel : Rel) (target : String) : Bool :=
  ⟨source, rel, target⟩ ∈ graph.edges

/-- `r:Release|Master`. -/
def GraphNode.issued (node : GraphNode) : Bool := node.kind = .release ∨ node.kind = .master

/-- The pairs of hub and release or master that a pattern of `_HUB_RELEASES` matches. -/
def Graph.hubReleases (graph : Graph) (kind : Kind) (entityId : String) :
    List (GraphNode × GraphNode) :=
  graph.nodes.flatMap fun hub =>
    if hub.kind = kind ∧ hub.key = some entityId then
      (graph.nodes.filter fun release =>
        release.issued && graph.leads release.eid kind.linkRel hub.eid).map fun release =>
          (hub, release)
    else []

/-- A row of `_HUB_GENRE_STYLE_Q`. -/
structure TagRow where
  kind : Kind
  name : Option String
  witness : Option String

/-- A row of `_HUB_ARTIST_Q` or `_HUB_LABEL_Q`. -/
structure ActRow where
  kind : Kind
  id : Option String
  name : Option String
  pop : Nat
  placeholder : Bool

/-- A text with null last. Python does not compare null with a text. -/
def nullLast (text : Option String) : WithTop String := text

/-- The order of artists and labels, in the scans and in `_build_hub`. -/
def actKey (row : ActRow) : Bool ×ₗ Int ×ₗ WithTop String :=
  toLex (row.placeholder, toLex (-(row.pop : Int), nullLast row.id))

/-- The order of genres and styles in `_build_hub`. -/
def tagRowKey (row : TagRow) : String ×ₗ WithTop String :=
  toLex (row.kind.text, nullLast row.name)

section Scans

variable (graph : Graph) (kind : Kind) (entityId : String)

/-- The matches of `_HUB_GENRE_STYLE_Q`: a genre or style with the release that links it. -/
def Graph.tagMatches : List (GraphNode × GraphNode) :=
  (graph.hubReleases kind entityId).flatMap fun pair =>
    (graph.nodes.filter fun other => other.kind.tag ∧ other.eid ≠ pair.1.eid ∧
      graph.leads pair.2.eid .isOf other.eid).map fun other => (other, pair.2)

/-- What the rows of `_HUB_GENRE_STYLE_Q` are grouped by. -/
def tagGroup (found : GraphNode × GraphNode) : Kind × Option String := (found.1.kind, found.1.name)

/-- The rows of `_HUB_GENRE_STYLE_Q`. -/
def Graph.tagRows : List TagRow :=
  let found := graph.tagMatches kind entityId
  (found.map tagGroup).eraseDups.map fun group =>
    { kind := group.1
      name := group.2
      witness := ((found.filter fun pair => tagGroup pair = group).filterMap (·.2.title)).min? }

/-- The artists of `_HUB_ARTIST_Q`, before its limit. -/
def Graph.hubArtists : List GraphNode :=
  graph.nodes.filter fun other => other.kind = .artist ∧
    (graph.hubReleases kind entityId).any fun pair => graph.leads pair.2.eid .byArtist other.eid

/-- The labels of `_HUB_LABEL_Q`, before its limit. -/
def Graph.hubLabels : List GraphNode :=
  graph.nodes.filter fun other => other.kind = .label ∧
    (graph.hubReleases kind entityId).any fun pair =>
      other.eid ≠ pair.1.eid ∧ graph.leads pair.2.eid .onLabel other.eid

/-- The row of an artist. -/
def Graph.artistRow (artist : GraphNode) : ActRow :=
  { kind := .artist, id := artist.id, name := artist.name,
    pop := graph.incoming .byArtist artist.eid, placeholder := artist.name.isNone }

/-- The row of a label. -/
def GraphNode.labelRow (label : GraphNode) : ActRow :=
  { kind := .label, id := label.id, name := label.name, pop := label.releaseCount.getD 0,
    placeholder := false }

/-- The rows of `_HUB_WITNESS_Q`: the least title of the releases that link an id. -/
def Graph.witnessRows (target : Kind) (ids : List (Option String)) :
    List (Option String × Option String) :=
  ids.eraseDups.filterMap fun id =>
    let links := (graph.hubReleases kind entityId).filter fun pair => graph.nodes.any fun other =>
      other.kind = target ∧ id.isSome ∧ other.id = id ∧
        graph.leads pair.2.eid target.linkRel other.eid
    if links = [] then none else some (id, (links.filterMap (·.2.title)).min?)

/-- The rows that the queries of a build return. -/
structure HubAnswers where
  tags : List TagRow
  artists : List ActRow
  labels : List ActRow
  witnesses : Kind → List (Option String) → List (Option String × Option String)

/-- The queries return their rows in some order, and a limit keeps some of those that tie at it. -/
structure HubAnswers.Of (answers : HubAnswers) : Prop where
  tags : answers.tags.Perm (graph.tagRows kind entityId)
  artists : Firsts actKey artistLabelLimit
    ((graph.hubArtists kind entityId).map graph.artistRow) answers.artists
  labels : Firsts actKey artistLabelLimit
    ((graph.hubLabels kind entityId).map (·.labelRow)) answers.labels
  witnesses : ∀ target ids,
    (answers.witnesses target ids).Perm (graph.witnessRows kind entityId target ids)

end Scans

/-! ## The build -/

/-- A text that Python takes for true. -/
def truthy (text : Option String) : Option String := text.filter fun text => text ≠ ""

section Build

variable (answers : HubAnswers)

/-- The artists and labels of the answer. -/
def hubActs : List ActRow :=
  (sortBy actKey (answers.artists ++ answers.labels)).take artistLabelLimit

/-- `found.get(r["id"]) or r["name"] or r["id"]`. -/
def witnessOf (row : ActRow) : Option String :=
  let chosen := ((hubActs answers).filter fun other => other.kind = row.kind).map (·.id)
  let found := answers.witnesses row.kind chosen
  ((truthy (found.reverse.lookup row.id).join).or (truthy row.name)).or row.id

/-- The answer's row of a genre or style. -/
def TagRow.answer (kind : Kind) (name : String) (row : TagRow) : AnswerRow :=
  { id := row.name
    name := row.name
    type := row.kind.outputType
    pathNames := [some name, row.witness, row.name]
    relTypes := [kind.linkRel, .isOf]
    dist := 2 }

/-- The answer's row of an artist or label. -/
def actAnswer (kind : Kind) (name : String) (row : ActRow) : AnswerRow :=
  { id := row.id
    name := row.name.or row.id
    type := row.kind.outputType
    pathNames := [some name, witnessOf answers row, row.name.or row.id]
    relTypes := [kind.linkRel, row.kind.linkRel]
    dist := 2 }

/-- `_build_hub`, the rows of its result. -/
def buildHub (kind : Kind) (name : String) : List AnswerRow :=
  (sortBy tagRowKey answers.tags).map (·.answer kind name) ++
    (hubActs answers).map (actAnswer answers kind name)

end Build

/-- What the catalog identifies its nodes by: genres and styles by their names, and labels by their
ids. -/
structure Graph.Keyed (graph : Graph) : Prop where
  named : ∀ node ∈ graph.nodes, node.kind.tag = true → ∃ name, node.name = some name
  tags : ∀ node ∈ graph.nodes, ∀ other ∈ graph.nodes, node.kind.tag = true →
    node.kind = other.kind → node.name = other.name → node = other
  labels : ∀ node ∈ graph.nodes, ∀ other ∈ graph.nodes, node.kind = .label → other.kind = .label →
    ∀ id, node.id = some id → other.id = some id → node = other

/-- Every label has a stored count, no genre or style has an id beside its name, every artist and
label has one, and no artist and label share both id and popularity. -/
structure Graph.Counted (graph : Graph) : Prop where
  tags : ∀ node ∈ graph.nodes, node.kind.tag = true → node.id = none
  acts : ∀ node ∈ graph.nodes, node.kind.act = true → ∃ id, node.id = some id
  labels : ∀ node ∈ graph.nodes, node.kind = .label → ∃ count, node.releaseCount = some count
  apart : ∀ artist ∈ graph.nodes, ∀ label ∈ graph.nodes, artist.kind = .artist →
    label.kind = .label → artist.id = label.id → graph.popularity artist ≠ graph.popularity label

end CatalogApi.Explore
