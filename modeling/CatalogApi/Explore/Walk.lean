import CatalogApi.Explore.Graph
import CatalogApi.Lib.ByKey
import Mathlib.Data.String.Basic

/-!
# Walking out from a node

`_expand`, `_bfs` and `_path` of `api/explore_discovery.py`. The dictionaries `nodes`, `dist` and
`parent` have the same keys but for the start, which has no parent, and are one map here. The order
in which each query returns its rows is a parameter.
-/

namespace CatalogApi.Explore

open ByKey

/-- `_Node`. -/
structure Node where
  eid : String
  kind : Kind
  name : String
  id : String
  nameless : Bool

/-- The `_Node` of a row. -/
def Row.node (row : Row) : Node :=
  { eid := row.eid
    kind := row.kind
    name := row.name
    id := row.id
    nameless := row.nameless && decide (row.kind = .artist) }

/-- What the dictionaries hold of a node. -/
structure Found where
  node : Node
  dist : Nat
  parent : Option (String × Rel)

/-- The entries of the dictionaries in insertion order. -/
abbrev Visited := List (String × Found)

/-- An item of `discovered`. -/
structure Discovery where
  eid : String
  kind : Kind
  id : String
  name : String
  pathNames : List String
  relTypes : List Rel
  dist : Nat
  placeholder : Bool

/-- The rows that the queries of a call return, by the number of the query, its frontier and its
types. -/
abbrev Answers := Nat → List String → List Rel → List Row

/-- Each query returns its rows in some order. -/
def Answers.Of (answers : Answers) (graph : Graph) : Prop :=
  ∀ query frontier types, (answers query frontier types).Perm (graph.expandRows frontier types)

/-- `_path`. The parents of a node lead to the start in as many steps as its distance, which the
fuel is not less than. -/
def path (visited : Visited) : Nat → String → List String × List Rel
  | fuel, eid =>
      match visited.lookup eid with
      | none => ([], [])
      | some found =>
          match fuel, found.parent with
          | fuel + 1, some (up, rel) =>
              let (names, rels) := path visited fuel up
              (names ++ [found.node.name], rels ++ [rel])
          | _, _ => ([found.node.name], [])

/-- The entry of a key replaced. -/
def Visited.set (visited : Visited) (eid : String) (found : Found) : Visited :=
  visited.map fun entry => if entry.1 = eid then (eid, found) else entry

/-- The walk while it takes the rows of one depth. -/
structure Layer where
  visited : Visited
  next : List Node

section Walk

variable (answers : Answers) (hops : Nat)

/-- `_path_names`. -/
def pathNames (visited : Visited) (eid : String) : List String := (path visited hops eid).1

/-- `_expand`. -/
def expand (query : Nat) (members : List Node) (types : List Rel) : List Row :=
  if members = [] then [] else answers query (members.map (·.eid)) types

/-- The row loop of `_bfs`. -/
def takeRow (depth : Nat) (members : List Node) (layer : Layer) (row : Row) : Layer :=
  match members[row.best / 8]?, Rel.byCode (row.best % 8) with
  | some parentNode, some rel =>
      match layer.visited.lookup row.eid with
      | none =>
          if depth + 1 = hops ∧ row.kind.eligible = false then layer
          else
            { visited := layer.visited ++ [(row.eid,
                { node := row.node, dist := depth + 1, parent := some (parentNode.eid, rel) })]
              next := layer.next ++ [row.node] }
      | some found =>
          match found.parent with
          | none => layer
          | some (held, _) =>
              if found.dist = depth + 1 ∧
                  pathNames hops layer.visited parentNode.eid < pathNames hops layer.visited held then
                { layer with
                  visited := layer.visited.set row.eid
                    { found with parent := some (parentNode.eid, rel) } }
              else layer
  | _, _ => layer

/-- The order of the rows: by name, then by element id. -/
def rowKey (row : Row) : String ×ₗ String := toLex (row.name, row.eid)

/-- The members of a depth with the types they are expanded by. -/
def batches (depth : Nat) (frontier : List Node) : List (List Node × List Rel) :=
  if depth + 1 = hops then
    [(frontier.filter fun node => node.kind = .release ∨ node.kind = .master, lastHopFromRelease),
     (frontier.filter fun node => node.kind = .artist, lastHopFromArtist)]
  else [(frontier, expandAll)]

/-- One batch of a depth. -/
def takeBatch (depth : Nat) (layer : Layer) (batch : (List Node × List Rel) × Nat) : Layer :=
  (sortBy rowKey (expand answers (2 * depth + batch.2) batch.1.1 batch.1.2)).foldl
    (takeRow hops depth batch.1.1) layer

/-- The order of a frontier: by the names of the paths, then by element id. -/
def frontierKey (visited : Visited) (node : Node) : List String ×ₗ String :=
  toLex (pathNames hops visited node.eid, node.eid)

/-- One depth of `_bfs`. -/
def takeDepth (layer : Layer) (depth : Nat) : Layer :=
  let frontier := sortBy (frontierKey hops layer.visited) layer.next
  (batches hops depth frontier).zipIdx.foldl (takeBatch answers hops depth)
    { visited := layer.visited, next := [] }

/-- The dictionaries after the depths. -/
def walk (start : Node) : Visited :=
  ((List.range hops).foldl (takeDepth answers hops)
    { visited := [(start.eid, { node := start, dist := 0, parent := none })],
      next := [start] }).visited

/-- `_bfs`. -/
def bfs (start : Node) : List Discovery :=
  let visited := walk answers hops start
  visited.filterMap fun entry =>
    let (eid, found) := entry
    if eid = start.eid ∨ found.node.kind.eligible = false then none
    else
      let (names, rels) := path visited hops eid
      some { eid, kind := found.node.kind, id := found.node.id, name := found.node.name,
             pathNames := names, relTypes := rels, dist := found.dist,
             placeholder := found.node.nameless }

end Walk

/-- The `_Node` of `_find_start`. -/
def GraphNode.start (node : GraphNode) : Node :=
  { eid := node.eid, kind := node.kind, name := node.displayName, id := node.keyId,
    nameless := false }

end CatalogApi.Explore
