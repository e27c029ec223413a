import Mathlib.Data.List.Nodup

/-!
# The catalog graph

The nodes and relationships that `api/explore_discovery.py` walks, typed by the catalog schema, and
the Cypher statement that expands a frontier: one row a neighbour, with the least edge to it by the
position of the frontier node and then by type.
-/

namespace CatalogApi.Explore

/-! ## Nodes and relationships -/

/-- The label of a node. -/
inductive Kind where
  | release | master | artist | label | genre | style
  deriving DecidableEq

/-- `_ELIGIBLE`. -/
def Kind.eligible : Kind → Bool
  | .artist => true
  | .label => true
  | .genre => true
  | .style => true
  | _ => false

/-- The relationship types `ALIAS_OF`, `BY`, `DERIVED_FROM`, `IS`, `MEMBER_OF` and `ON`. -/
inductive Rel where
  | aliasOf | byArtist | derivedFrom | isOf | memberOf | onLabel
  deriving DecidableEq

/-- `_REL_CODES`, and the `CASE type(rel)` of `_EXPAND_Q`. -/
def Rel.code : Rel → Nat
  | .aliasOf => 0
  | .byArtist => 1
  | .derivedFrom => 2
  | .isOf => 3
  | .memberOf => 4
  | .onLabel => 5

/-- `_REL_BY_CODE`. -/
def Rel.byCode : Nat → Option Rel
  | 0 => some .aliasOf
  | 1 => some .byArtist
  | 2 => some .derivedFrom
  | 3 => some .isOf
  | 4 => some .memberOf
  | 5 => some .onLabel
  | _ => none

theorem Rel.by_code_code (rel : Rel) : Rel.byCode rel.code = some rel := by
  cases rel with
  | aliasOf => rfl
  | byArtist => rfl
  | derivedFrom => rfl
  | isOf => rfl
  | memberOf => rfl
  | onLabel => rfl

theorem Rel.code_lt (rel : Rel) : rel.code < 8 := by
  cases rel with
  | aliasOf => decide
  | byArtist => decide
  | derivedFrom => decide
  | isOf => decide
  | memberOf => decide
  | onLabel => decide

/-- `_EXPAND_ALL`. -/
def expandAll : List Rel :=
  [.byArtist, .onLabel, .isOf, .aliasOf, .memberOf, .derivedFrom]

/-- `_LAST_HOP_FROM_RELEASE`. -/
def lastHopFromRelease : List Rel := [.byArtist, .onLabel, .isOf]

/-- `_LAST_HOP_FROM_ARTIST`. -/
def lastHopFromArtist : List Rel := [.aliasOf, .memberOf]

/-- A node with its element id, its label and the properties the statements read. -/
structure GraphNode where
  eid : String
  kind : Kind
  name : Option String
  title : Option String
  id : Option String
  releaseCount : Option Nat
  deriving DecidableEq

/-- `str(coalesce(n.name, n.title, n.id))`. -/
def GraphNode.displayName (node : GraphNode) : String :=
  ((node.name.or node.title).or node.id).getD "None"

/-- `str(coalesce(n.id, n.name))`. -/
def GraphNode.keyId (node : GraphNode) : String := (node.id.or node.name).getD "None"

/-- A relationship from one node to another. -/
structure Edge where
  source : String
  rel : Rel
  target : String
  deriving DecidableEq

structure Graph where
  nodes : List GraphNode
  edges : List Edge

/-- A relationship of this type joins the nodes, in either direction. -/
def Graph.joins (graph : Graph) (eid : String) (rel : Rel) (other : String) : Bool :=
  graph.edges.any fun edge => edge.rel = rel ∧
    (edge.source = eid ∧ edge.target = other ∨ edge.source = other ∧ edge.target = eid)

/-- The labels that a relationship of this type leads from and to. -/
def Rel.Admits : Rel → Kind → Kind → Prop
  | .byArtist, source, target => (source = .release ∨ source = .master) ∧ target = .artist
  | .onLabel, source, target => (source = .release ∨ source = .master) ∧ target = .label
  | .isOf, source, target =>
      (source = .release ∨ source = .master) ∧ (target = .genre ∨ target = .style)
  | .aliasOf, source, target => source = .artist ∧ target = .artist
  | .memberOf, source, target => source = .artist ∧ target = .artist
  | .derivedFrom, source, target => source = .release ∧ target = .master

instance (rel : Rel) (source target : Kind) : Decidable (rel.Admits source target) :=
  match rel with
  | .byArtist => inferInstanceAs (Decidable (_ ∧ _))
  | .onLabel => inferInstanceAs (Decidable (_ ∧ _))
  | .isOf => inferInstanceAs (Decidable (_ ∧ _))
  | .aliasOf => inferInstanceAs (Decidable (_ ∧ _))
  | .memberOf => inferInstanceAs (Decidable (_ ∧ _))
  | .derivedFrom => inferInstanceAs (Decidable (_ ∧ _))

/-- A graph of the catalog schema: element ids are distinct, and every relationship joins nodes of
the labels its type admits. -/
structure Graph.Typed (graph : Graph) : Prop where
  eids : (graph.nodes.map (·.eid)).Nodup
  edges : ∀ edge ∈ graph.edges, ∃ source ∈ graph.nodes, ∃ target ∈ graph.nodes,
    source.eid = edge.source ∧ target.eid = edge.target ∧ edge.rel.Admits source.kind target.kind

theorem Graph.Typed.node_unique {graph : Graph} (h : graph.Typed) {node other : GraphNode}
    (hnode : node ∈ graph.nodes) (hother : other ∈ graph.nodes) (heid : node.eid = other.eid) :
    node = other :=
  List.inj_on_of_nodup_map h.eids hnode hother heid

/-- The search for the element id of a node finds the node. -/
theorem Graph.Typed.find_node {graph : Graph} (h : graph.Typed) {node : GraphNode}
    (hnode : node ∈ graph.nodes) :
    (graph.nodes.find? fun other => other.eid = node.eid) = some node := by
  cases hfind : graph.nodes.find? fun other => other.eid = node.eid with
  | none =>
      have hnone := List.find?_eq_none.mp hfind node hnode
      simp at hnone
  | some other =>
      have heid : other.eid = node.eid := by simpa using List.find?_some hfind
      rw [h.node_unique (List.mem_of_find?_eq_some hfind) hnode heid]

/-- Joined nodes are nodes of the graph, of the labels of their relationship. -/
theorem Graph.Typed.joined {graph : Graph} (h : graph.Typed) {eid other : String} {rel : Rel}
    (hjoins : graph.joins eid rel other = true) :
    ∃ node ∈ graph.nodes, ∃ far ∈ graph.nodes, node.eid = eid ∧ far.eid = other ∧
      (rel.Admits node.kind far.kind ∨ rel.Admits far.kind node.kind) := by
  obtain ⟨edge, hedge, hends⟩ := List.any_eq_true.mp hjoins
  rw [decide_eq_true_eq] at hends
  obtain ⟨rfl, hends⟩ := hends
  obtain ⟨source, hsource, target, htarget, hs, ht, hadmits⟩ := h.edges edge hedge
  rcases hends with ⟨rfl, rfl⟩ | ⟨rfl, rfl⟩
  · exact ⟨source, hsource, target, htarget, hs, ht, Or.inl hadmits⟩
  · exact ⟨target, htarget, source, hsource, ht, hs, Or.inr hadmits⟩

/-! ## Expanding a frontier -/

/-- A row of `_EXPAND_Q`, its name and id as text. -/
structure Row where
  eid : String
  kind : Kind
  name : String
  id : String
  nameless : Bool
  best : Nat

/-- `i * 8 + CASE type(rel) …` of the edges from the frontier to a node. -/
def Graph.edgeKeys (graph : Graph) (frontier : List String) (types : List Rel) (eid : String) :
    List Nat :=
  frontier.zipIdx.flatMap fun entry =>
    (types.filter fun rel => graph.joins entry.1 rel eid).map fun rel => entry.2 * 8 + rel.code

/-- The rows of `_EXPAND_Q`, one a neighbour of the frontier. -/
def Graph.expandRows (graph : Graph) (frontier : List String) (types : List Rel) : List Row :=
  graph.nodes.filterMap fun node =>
    (graph.edgeKeys frontier types node.eid).min?.map fun best =>
      { eid := node.eid, kind := node.kind, name := node.displayName, id := node.keyId,
        nameless := node.name.isNone, best }

theorem Graph.mem_edge_keys {graph : Graph} {frontier : List String} {types : List Rel}
    {eid : String} {key : Nat} :
    key ∈ graph.edgeKeys frontier types eid ↔ ∃ i fid rel, frontier[i]? = some fid ∧ rel ∈ types ∧
      graph.joins fid rel eid = true ∧ key = i * 8 + rel.code := by
  simp only [edgeKeys, List.mem_flatMap, List.mem_map, List.mem_filter, Prod.exists,
    List.mem_zipIdx_iff_getElem?]
  constructor
  · rintro ⟨fid, i, hget, rel, ⟨htype, hjoins⟩, rfl⟩
    exact ⟨i, fid, rel, hget, htype, hjoins, rfl⟩
  · rintro ⟨i, fid, rel, hget, htype, hjoins, rfl⟩
    exact ⟨fid, i, hget, rel, ⟨htype, hjoins⟩, rfl⟩

/-- A row shows a node joined to the frontier, by the least of the edges between them. -/
structure RowOf (graph : Graph) (frontier : List String) (types : List Rel) (row : Row) : Prop where
  shows : ∃ node ∈ graph.nodes, row.eid = node.eid ∧ row.kind = node.kind ∧
    row.name = node.displayName ∧ row.id = node.keyId ∧ row.nameless = node.name.isNone
  edge : ∃ i fid rel, frontier[i]? = some fid ∧ rel ∈ types ∧
    graph.joins fid rel row.eid = true ∧ row.best = i * 8 + rel.code
  least : ∀ i fid rel, frontier[i]? = some fid → rel ∈ types →
    graph.joins fid rel row.eid = true → row.best ≤ i * 8 + rel.code

theorem Graph.expand_row {graph : Graph} {frontier : List String} {types : List Rel} {row : Row}
    (h : row ∈ graph.expandRows frontier types) : RowOf graph frontier types row := by
  obtain ⟨node, hnode, hrow⟩ := List.mem_filterMap.mp h
  obtain ⟨best, hbest, rfl⟩ := Option.map_eq_some_iff.mp hrow
  obtain ⟨hmem, hle⟩ := List.min?_eq_some_iff.mp hbest
  refine ⟨⟨node, hnode, rfl, rfl, rfl, rfl, rfl⟩, mem_edge_keys.mp hmem, ?_⟩
  intro i fid rel hget htype hjoins
  exact hle _ (mem_edge_keys.mpr ⟨i, fid, rel, hget, htype, hjoins, rfl⟩)

/-- Every node joined to the frontier has a row. -/
theorem Graph.expand_complete {graph : Graph} {frontier : List String} {types : List Rel}
    {node : GraphNode} (hnode : node ∈ graph.nodes) {fid : String} {rel : Rel}
    (hfid : fid ∈ frontier) (htype : rel ∈ types) (hjoins : graph.joins fid rel node.eid = true) :
    ∃ row ∈ graph.expandRows frontier types, row.eid = node.eid := by
  obtain ⟨i, hi⟩ := List.mem_iff_getElem?.mp hfid
  have hkey := mem_edge_keys.mpr ⟨i, fid, rel, hi, htype, hjoins, rfl⟩
  cases hmin : (graph.edgeKeys frontier types node.eid).min? with
  | none =>
      rw [List.min?_eq_none_iff] at hmin
      rw [hmin] at hkey
      cases hkey
  | some best =>
      exact ⟨_, List.mem_filterMap.mpr ⟨node, hnode, by rw [hmin]; rfl⟩, rfl⟩

end CatalogApi.Explore
