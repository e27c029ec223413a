import CatalogApi.Explore.Walk
import CatalogApi.Lib.ShortestPaths

/-!
# The walk is exact

Each depth of `_bfs` finds the nodes one step beyond the last, and gives each the parent whose path
has the least names (`Layering.row`). So after `d` depths the dictionaries hold the nodes within
distance `d`, at the last depth only the eligible ones, each with a shortest path of least names
(`take_depth_exact`). `bfs_exact` is the result for a start.
-/

namespace CatalogApi.Explore

open ByKey ShortestPaths

/-! ## Lookups -/

theorem lookup_cons_if (entry : String × Found) (visited : Visited) (eid : String) :
    List.lookup eid (entry :: visited) =
      if eid = entry.1 then some entry.2 else visited.lookup eid := by
  rw [List.lookup_cons]
  by_cases h : eid = entry.1
  · rw [if_pos h, h, beq_self_eq_true]
  · rw [if_neg h, beq_false_of_ne h]

theorem lookup_set (visited : Visited) (eid other : String) (found : Found) :
    (visited.set eid found).lookup other =
      if other = eid then (visited.lookup eid).map fun _ => found else visited.lookup other := by
  induction visited with
  | nil => simp [Visited.set]
  | cons entry visited ih =>
      have hset : Visited.set (entry :: visited) eid found =
          (if entry.1 = eid then (eid, found) else entry) :: Visited.set visited eid found := rfl
      rw [hset, lookup_cons_if, lookup_cons_if, lookup_cons_if, ih]
      by_cases hkey : entry.1 = eid
      · by_cases hother : other = eid
        · simp [hkey, hother]
        · simp [hkey, hother]
      · by_cases hother : other = eid
        · simp [hkey, hother, Ne.symm hkey]
        · simp [hkey, hother]

theorem set_keys (visited : Visited) (eid : String) (found : Found) :
    (visited.set eid found).map (·.1) = visited.map (·.1) := by
  rw [Visited.set, List.map_map]
  refine List.map_congr_left fun entry _ => ?_
  by_cases hkey : entry.1 = eid
  · simp [hkey]
  · simp [hkey]

theorem lookup_snoc (visited : Visited) (eid other : String) (found : Found)
    (hnone : visited.lookup eid = none) :
    (visited ++ [(eid, found)]).lookup other =
      if other = eid then some found else visited.lookup other := by
  rw [List.lookup_append, lookup_cons_if]
  by_cases hother : other = eid
  · simp [hother, hnone]
  · simp [hother]

theorem lookup_eq_none_iff (visited : Visited) (eid : String) :
    visited.lookup eid = none ↔ eid ∉ visited.map (·.1) := by
  induction visited with
  | nil => simp
  | cons entry visited ih =>
      rw [lookup_cons_if, List.map_cons, List.mem_cons, not_or, ← ih]
      by_cases h : eid = entry.1
      · simp [h]
      · simp [h]

theorem mem_iff_lookup {visited : Visited} (h : (visited.map (·.1)).Nodup) {eid : String}
    {found : Found} : (eid, found) ∈ visited ↔ visited.lookup eid = some found := by
  induction visited with
  | nil => simp
  | cons entry visited ih =>
      rw [List.map_cons, List.nodup_cons] at h
      rw [List.mem_cons, lookup_cons_if, ih h.2]
      by_cases heid : eid = entry.1
      · subst heid
        have hnone := (lookup_eq_none_iff visited entry.1).mpr h.1
        rw [if_pos rfl, hnone]
        simp [Prod.ext_iff, eq_comm]
      · simp [heid, Prod.ext_iff]

/-! ## Paths in the dictionaries -/

/-- The nodes that a relationship of the type joins. -/
abbrev Graph.step (graph : Graph) : String → Rel → String → Prop :=
  fun eid rel other => graph.joins eid rel other = true

/-- The display name of an element id. -/
def Graph.nameOf (graph : Graph) (eid : String) : String :=
  ((graph.nodes.find? fun node => node.eid = eid).map (·.displayName)).getD ""

theorem Graph.Typed.name_of {graph : Graph} (h : graph.Typed) {node : GraphNode}
    (hnode : node ∈ graph.nodes) : graph.nameOf node.eid = node.displayName := by
  rw [Graph.nameOf, h.find_node hnode, Option.map_some, Option.getD_some]

/-- The parents of a node lead to the start by these hops. -/
inductive Chain (graph : Graph) (start : String) (visited : Visited) :
    String → List (Rel × String) → Prop where
  | root {found : Found} (hlookup : visited.lookup start = some found)
      (hparent : found.parent = none) (hname : found.node.name = graph.nameOf start) :
      Chain graph start visited start []
  | hop {eid up : String} {found : Found} {rel : Rel} {chain : List (Rel × String)}
      (hlookup : visited.lookup eid = some found) (hparent : found.parent = some (up, rel))
      (hname : found.node.name = graph.nameOf eid) (hup : Chain graph start visited up chain) :
      Chain graph start visited eid (chain ++ [(rel, eid)])

section Chains

variable {graph : Graph} {start eid : String} {visited visited' : Visited}
  {chain : List (Rel × String)}

theorem Chain.mono (h : Chain graph start visited eid chain)
    (hkeeps : ∀ eid found, visited.lookup eid = some found → visited'.lookup eid = some found) :
    Chain graph start visited' eid chain := by
  induction h with
  | root hlookup hparent hname => exact .root (hkeeps _ _ hlookup) hparent hname
  | hop hlookup hparent hname _ ih => exact .hop (hkeeps _ _ hlookup) hparent hname ih

/-- `_path` reads the chain of parents back. -/
theorem path_chain (h : Chain graph start visited eid chain) {fuel : Nat}
    (hfuel : chain.length ≤ fuel) :
    path visited fuel eid =
      (ShortestPaths.pathNames graph.nameOf start chain, chain.map (·.1)) := by
  induction h generalizing fuel with
  | root hlookup hparent hname =>
      cases fuel with
      | zero => simp [path, hlookup, hname, ShortestPaths.pathNames]
      | succ fuel => simp [path, hlookup, hparent, hname, ShortestPaths.pathNames]
  | hop hlookup hparent hname hup ih =>
      rw [List.length_append, List.length_singleton] at hfuel
      cases fuel with
      | zero => omega
      | succ fuel =>
          simp only [path, hlookup, hparent, ih (Nat.le_of_succ_le_succ hfuel), hname,
            path_names_snoc, List.map_append, List.map_cons, List.map_nil]

end Chains

/-! ## The walk between two depths -/

/-- The `_Node` of a row that shows the node. -/
def GraphNode.seen (node : GraphNode) : Node :=
  { eid := node.eid, kind := node.kind, name := node.displayName, id := node.keyId,
    nameless := node.name.isNone && decide (node.kind = .artist) }

/-- The entry of a key is the start, or shows another node of the graph. -/
def Shows (graph : Graph) (start : GraphNode) (eid : String) (found : Found) : Prop :=
  (eid = start.eid ∧ found.node = start.start) ∨
    (eid ≠ start.eid ∧ ∃ node ∈ graph.nodes, node.eid = eid ∧ found.node = node.seen)

/-- The walk after `d` depths: what it holds are nodes of the graph within that distance, each with
a shortest path of least names, and it holds all of them, but at the last depth only the eligible
ones; the frontier is what lies at that distance. -/
structure Walked (graph : Graph) (start : GraphNode) (hops d : Nat) (layer : Layer) : Prop where
  shows : ∀ eid found, layer.visited.lookup eid = some found → Shows graph start eid found
  least : ∀ eid found, layer.visited.lookup eid = some found → found.dist ≤ d ∧
    ∃ chain, Chain graph start.eid layer.visited eid chain ∧ chain.length = found.dist ∧
      Least graph.step start.eid graph.nameOf chain eid
  complete : ∀ node ∈ graph.nodes, ∀ k ≤ d, Dist graph.step start.eid k node.eid →
    k < hops ∨ node.kind.eligible = true → ∃ found, layer.visited.lookup node.eid = some found
  frontier : ∀ node, node ∈ layer.next ↔
    ∃ eid found, layer.visited.lookup eid = some found ∧ found.node = node ∧ found.dist = d
  keys : (layer.visited.map (·.1)).Nodup

/-- The walk within a depth, over the dictionaries at its start and the edges taken so far: a new
node has a parent with the least names among the edges to it, and every node that one of the edges
leads to and the depth keeps has been found. -/
structure Layering (graph : Graph) (start : GraphNode) (hops d : Nat) (base : Visited)
    (taken : String → Rel → String → Prop) (layer : Layer) : Prop where
  old : ∀ eid found, base.lookup eid = some found → layer.visited.lookup eid = some found
  fresh : ∀ eid found, base.lookup eid = none → layer.visited.lookup eid = some found →
    found.dist = d + 1 ∧ eid ≠ start.eid ∧
      (∃ node ∈ graph.nodes, node.eid = eid ∧ found.node = node.seen ∧
        (d + 1 < hops ∨ node.kind.eligible = true)) ∧
      ∃ up rel, found.parent = some (up, rel) ∧ taken up rel eid ∧ ∀ up' rel', taken up' rel' eid →
        pathNames hops base up ≤ pathNames hops base up'
  reach : ∀ up rel node, taken up rel node.eid → base.lookup node.eid = none →
    node ∈ graph.nodes → d + 1 < hops ∨ node.kind.eligible = true →
    ∃ found, layer.visited.lookup node.eid = some found
  next : ∀ node, node ∈ layer.next ↔ ∃ eid found, base.lookup eid = none ∧
    layer.visited.lookup eid = some found ∧ found.node = node
  keys : (layer.visited.map (·.1)).Nodup

section Rows

variable {graph : Graph} {start : GraphNode} {hops d : Nat} {layer before : Layer}
  {taken : String → Rel → String → Prop} {members : List Node} {types : List Rel} {seen : Row}

/-- The edges of a batch. -/
def BatchEdge (graph : Graph) (members : List Node) (types : List Rel) (up : String) (rel : Rel)
    (eid : String) : Prop :=
  up ∈ members.map (·.eid) ∧ rel ∈ types ∧ graph.step up rel eid

/-- The names of the paths to what a depth began with do not change within it. -/
theorem Layering.names_kept (hbefore : Walked graph start hops d before) (hd : d ≤ hops)
    (h : Layering graph start hops d before.visited taken layer) {eid : String} {found : Found}
    (hfound : before.visited.lookup eid = some found) :
    pathNames hops layer.visited eid = pathNames hops before.visited eid := by
  obtain ⟨hle, chain, hchain, hlength, -⟩ := hbefore.least eid found hfound
  have hfuel : chain.length ≤ hops := by omega
  rw [pathNames, pathNames, path_chain hchain hfuel, path_chain (hchain.mono h.old) hfuel]

/-- The dictionaries stay as they are while edges are taken that lead to nothing better. -/
theorem Layering.widen {taken' : String → Rel → String → Prop}
    (h : Layering graph start hops d before.visited taken layer)
    (hsub : ∀ up rel eid, taken up rel eid → taken' up rel eid)
    (hfresh : ∀ eid found up rel, before.visited.lookup eid = none →
      layer.visited.lookup eid = some found → found.parent = some (up, rel) →
      ∀ up' rel', taken' up' rel' eid →
        pathNames hops before.visited up ≤ pathNames hops before.visited up')
    (hreach : ∀ up rel node, taken' up rel node.eid → before.visited.lookup node.eid = none →
      node ∈ graph.nodes → d + 1 < hops ∨ node.kind.eligible = true →
      ∃ found, layer.visited.lookup node.eid = some found) :
    Layering graph start hops d before.visited taken' layer where
  old := h.old
  fresh := by
    intro eid found hnone hfound
    obtain ⟨hdist, hne, hnode, up, rel, hparent, htaken, -⟩ := h.fresh eid found hnone hfound
    exact ⟨hdist, hne, hnode, up, rel, hparent, hsub up rel eid htaken,
      hfresh eid found up rel hnone hfound hparent⟩
  reach := hreach
  next := h.next
  keys := h.keys

/-- The parent that a row chooses, with the least names among the edges of the batch. -/
theorem row_choice
    (hsorted : members.Pairwise fun a b =>
      pathNames hops before.visited a.eid ≤ pathNames hops before.visited b.eid)
    (hrow : RowOf graph (members.map (·.eid)) types seen) :
    ∃ member rel, members[seen.best / 8]? = some member ∧ Rel.byCode (seen.best % 8) = some rel ∧
      BatchEdge graph members types member.eid rel seen.eid ∧
      ∀ up rel', BatchEdge graph members types up rel' seen.eid →
        pathNames hops before.visited member.eid ≤ pathNames hops before.visited up := by
  obtain ⟨i, fid, rel, hget, htype, hjoins, hbest⟩ := hrow.edge
  have hcode := rel.code_lt
  have hdiv : seen.best / 8 = i := by omega
  have hmod : seen.best % 8 = rel.code := by omega
  rw [List.getElem?_map, Option.map_eq_some_iff] at hget
  obtain ⟨member, hmember, rfl⟩ := hget
  refine ⟨member, rel, by rw [hdiv, hmember], by rw [hmod, Rel.by_code_code],
    ⟨List.mem_map_of_mem (List.mem_of_getElem? hmember), htype, hjoins⟩, ?_⟩
  rintro up rel' ⟨hup, htype', hjoins'⟩
  obtain ⟨j, hj⟩ := List.mem_iff_getElem?.mp hup
  have hle := hrow.least j up rel' hj htype' hjoins'
  have hcode' := rel'.code_lt
  rw [List.getElem?_map, Option.map_eq_some_iff] at hj
  obtain ⟨other, hother, rfl⟩ := hj
  rcases Nat.lt_or_ge i j with hlt | hge
  · obtain ⟨hi, rfl⟩ := List.getElem?_eq_some_iff.mp hmember
    obtain ⟨hj, rfl⟩ := List.getElem?_eq_some_iff.mp hother
    exact List.pairwise_iff_getElem.mp hsorted i j hi hj hlt
  · have heq : i = j := by omega
    rw [← heq, hmember] at hother
    rw [Option.some.inj hother]

theorem Layering.fresh_parent (h : Layering graph start hops d before.visited taken layer)
    {eid up : String} {found : Found} {rel : Rel} (hnone : before.visited.lookup eid = none)
    (hfound : layer.visited.lookup eid = some found) (hparent : found.parent = some (up, rel)) :
    taken up rel eid ∧ ∀ up' rel', taken up' rel' eid →
      pathNames hops before.visited up ≤ pathNames hops before.visited up' := by
  obtain ⟨-, -, -, up', rel', hparent', htaken, hleast⟩ := h.fresh eid found hnone hfound
  rw [hparent, Option.some.injEq, Prod.mk.injEq] at hparent'
  obtain ⟨rfl, rfl⟩ := hparent'
  exact ⟨htaken, hleast⟩

/-- What is not in a depth was not there before it. -/
theorem Layering.none_before (h : Layering graph start hops d before.visited taken layer)
    {eid : String} (hnone : layer.visited.lookup eid = none) :
    before.visited.lookup eid = none := by
  cases hfound : before.visited.lookup eid with
  | none => rfl
  | some found =>
      rw [h.old eid found hfound] at hnone
      cases hnone

/-- The edges taken with a row of the batch. -/
def TakenWith (graph : Graph) (members : List Node) (types : List Rel)
    (taken : String → Rel → String → Prop) (seen : Row) (up : String) (rel : Rel) (eid : String) :
    Prop :=
  taken up rel eid ∨ eid = seen.eid ∧ BatchEdge graph members types up rel eid

section

variable (h : Layering graph start hops d before.visited taken layer)
include h

/-- A node that the depth skips leaves the walk as it is. -/
theorem Layering.skip (htyped : graph.Typed) {node : GraphNode} (hnode : node ∈ graph.nodes)
    (heid : seen.eid = node.eid) (hlookup : layer.visited.lookup seen.eid = none)
    (hskip : ¬(d + 1 < hops ∨ node.kind.eligible = true)) :
    Layering graph start hops d before.visited (TakenWith graph members types taken seen) layer := by
  refine h.widen (fun _ _ _ => Or.inl) ?_ ?_
  · rintro eid found up rel hnone hfound hparent up' rel' (htaken | ⟨rfl, -⟩)
    · exact (h.fresh_parent hnone hfound hparent).2 up' rel' htaken
    · rw [hlookup] at hfound
      cases hfound
  · rintro up rel other (htaken | ⟨heq, -⟩) hnone hother hkeep
    · exact h.reach up rel other htaken hnone hother hkeep
    · obtain rfl := htyped.node_unique hother hnode (heq.trans heid)
      exact absurd hkeep hskip

/-- A node held before the depth stays as it is. -/
theorem Layering.keep {found : Found} (hfound : before.visited.lookup seen.eid = some found) :
    Layering graph start hops d before.visited (TakenWith graph members types taken seen) layer := by
  refine h.widen (fun _ _ _ => Or.inl) ?_ ?_
  · rintro eid found up rel hnone hfound' hparent up' rel' (htaken | ⟨rfl, -⟩)
    · exact (h.fresh_parent hnone hfound' hparent).2 up' rel' htaken
    · rw [hfound] at hnone
      cases hnone
  · rintro up rel other (htaken | ⟨heq, -⟩) hnone hother hkeep
    · exact h.reach up rel other htaken hnone hother hkeep
    · rw [heq, hfound] at hnone
      cases hnone

/-- A node found in the depth keeps its parent when no edge of the batch has lesser names. -/
theorem Layering.stay {found : Found} {up : String} {rel : Rel}
    (hfound : layer.visited.lookup seen.eid = some found) (hparent : found.parent = some (up, rel))
    (hleast : ∀ up' rel', BatchEdge graph members types up' rel' seen.eid →
      pathNames hops before.visited up ≤ pathNames hops before.visited up') :
    Layering graph start hops d before.visited (TakenWith graph members types taken seen) layer := by
  refine h.widen (fun _ _ _ => Or.inl) ?_ ?_
  · rintro eid found' up' rel' hnone hfound' hparent' up'' rel'' (htaken | ⟨rfl, hedge⟩)
    · exact (h.fresh_parent hnone hfound' hparent').2 up'' rel'' htaken
    · rw [hfound] at hfound'
      obtain rfl := Option.some.inj hfound'
      rw [hparent, Option.some.injEq, Prod.mk.injEq] at hparent'
      rw [← hparent'.1]
      exact hleast up'' rel'' hedge
  · rintro up' rel' other (htaken | ⟨heq, -⟩) hnone hother hkeep
    · exact h.reach up' rel' other htaken hnone hother hkeep
    · exact ⟨found, heq ▸ hfound⟩

end

/-- The start is held from the beginning. -/
theorem Walked.start_held (hbefore : Walked graph start hops d before) (hd : d < hops)
    (hstart : start ∈ graph.nodes) : ∃ found, before.visited.lookup start.eid = some found :=
  hbefore.complete start hstart 0 (Nat.zero_le d) dist_start (Or.inl (Nat.zero_lt_of_lt hd))

/-- A node that no dictionary holds is added with the parent of its row. -/
theorem Layering.add (hbefore : Walked graph start hops d before) (hd : d < hops)
    (hstart : start ∈ graph.nodes)
    (h : Layering graph start hops d before.visited taken layer) {node : GraphNode}
    (hnode : node ∈ graph.nodes) (heid : seen.eid = node.eid)
    (hlookup : layer.visited.lookup seen.eid = none)
    (hkeep : d + 1 < hops ∨ node.kind.eligible = true) {up : String} {rel : Rel}
    (hedge : BatchEdge graph members types up rel seen.eid)
    (hleast : ∀ up' rel', BatchEdge graph members types up' rel' seen.eid →
      pathNames hops before.visited up ≤ pathNames hops before.visited up') :
    Layering graph start hops d before.visited (TakenWith graph members types taken seen)
      { visited := layer.visited ++
          [(seen.eid, { node := node.seen, dist := d + 1, parent := some (up, rel) })]
        next := layer.next ++ [node.seen] } := by
  have hbase := h.none_before hlookup
  have hsnoc := fun eid => lookup_snoc layer.visited seen.eid eid
    { node := node.seen, dist := d + 1, parent := some (up, rel) } hlookup
  constructor
  · intro eid found hfound
    have hheld := h.old eid found hfound
    dsimp only
    rw [hsnoc, if_neg]
    · exact hheld
    · rintro rfl
      rw [hlookup] at hheld
      cases hheld
  · intro eid found hnone hfound
    dsimp only at hfound
    rw [hsnoc] at hfound
    -- the new entry itself, or one that stood in the layer before
    by_cases heq : eid = seen.eid
    · rw [if_pos heq, Option.some.injEq] at hfound
      subst hfound
      subst heq
      refine ⟨rfl, ?_, ⟨node, hnode, heid.symm, rfl, hkeep⟩, up, rel, rfl, Or.inr ⟨rfl, hedge⟩, ?_⟩
      · intro hself
        obtain ⟨held, hheld⟩ := hbefore.start_held hd hstart
        rw [← hself, hbase] at hheld
        cases hheld
      · rintro up' rel' (htaken | ⟨-, hedge'⟩)
        · -- an edge taken before would have found the node
          obtain ⟨held, hheld⟩ := h.reach up' rel' node (heid ▸ htaken) (heid ▸ hbase) hnode hkeep
          rw [← heid, hlookup] at hheld
          cases hheld
        · exact hleast up' rel' hedge'
    · rw [if_neg heq] at hfound
      obtain ⟨hdist, hne, hshown, up', rel', hparent, htaken, hless⟩ :=
        h.fresh eid found hnone hfound
      refine ⟨hdist, hne, hshown, up', rel', hparent, Or.inl htaken, ?_⟩
      rintro up'' rel'' (htaken' | ⟨rfl, -⟩)
      · exact hless up'' rel'' htaken'
      · exact absurd rfl heq
  · rintro up' rel' other (htaken | ⟨heq, -⟩) hnone hother hkeep'
    · obtain ⟨held, hheld⟩ := h.reach up' rel' other htaken hnone hother hkeep'
      dsimp only
      rw [hsnoc]
      split
      · exact ⟨_, rfl⟩
      · exact ⟨held, hheld⟩
    · dsimp only
      rw [hsnoc, if_pos heq]
      exact ⟨_, rfl⟩
  · intro other
    dsimp only
    rw [List.mem_append, List.mem_singleton, h.next]
    constructor
    · rintro (⟨eid, found, hnone, hfound, hshows⟩ | rfl)
      · refine ⟨eid, found, hnone, ?_, hshows⟩
        rw [hsnoc, if_neg]
        · exact hfound
        · rintro rfl
          rw [hlookup] at hfound
          cases hfound
      · exact ⟨seen.eid, _, hbase, by rw [hsnoc, if_pos rfl], rfl⟩
    · rintro ⟨eid, found, hnone, hfound, hshows⟩
      rw [hsnoc] at hfound
      by_cases heq : eid = seen.eid
      · rw [if_pos heq, Option.some.injEq] at hfound
        subst hfound
        exact Or.inr hshows.symm
      · rw [if_neg heq] at hfound
        exact Or.inl ⟨eid, found, hnone, hfound, hshows⟩
  · dsimp only
    rw [List.map_append]
    refine List.nodup_append.mpr ⟨h.keys, List.nodup_singleton _, ?_⟩
    rintro eid heid' other hother rfl
    rw [List.mem_singleton.mp hother] at heid'
    exact (lookup_eq_none_iff _ _).mp hlookup heid'

/-- A node found in the depth takes the parent of its row when its names are less. -/
theorem Layering.improve (h : Layering graph start hops d before.visited taken layer)
    {found : Found} {held up : String} {rel heldRel : Rel}
    (hbase : before.visited.lookup seen.eid = none)
    (hfound : layer.visited.lookup seen.eid = some found)
    (hparent : found.parent = some (held, heldRel))
    (hless : pathNames hops before.visited up < pathNames hops before.visited held)
    (hedge : BatchEdge graph members types up rel seen.eid)
    (hleast : ∀ up' rel', BatchEdge graph members types up' rel' seen.eid →
      pathNames hops before.visited up ≤ pathNames hops before.visited up') :
    Layering graph start hops d before.visited (TakenWith graph members types taken seen)
      { layer with
        visited := layer.visited.set seen.eid { found with parent := some (up, rel) } } := by
  have hset := fun eid => lookup_set layer.visited seen.eid eid
    { found with parent := some (up, rel) }
  rw [hfound] at hset
  obtain ⟨hdist, hne, hshown, -⟩ := h.fresh seen.eid found hbase hfound
  constructor
  · intro eid held hheld
    dsimp only
    rw [hset, if_neg]
    · exact h.old eid held hheld
    · rintro rfl
      rw [hbase] at hheld
      cases hheld
  · intro eid other hnone hother
    dsimp only at hother
    rw [hset] at hother
    by_cases heq : eid = seen.eid
    · rw [if_pos heq, Option.map_some, Option.some.injEq] at hother
      subst hother
      subst heq
      refine ⟨hdist, hne, hshown, up, rel, rfl, Or.inr ⟨rfl, hedge⟩, ?_⟩
      rintro up' rel' (htaken | ⟨-, hedge'⟩)
      · exact hless.le.trans ((h.fresh_parent hbase hfound hparent).2 up' rel' htaken)
      · exact hleast up' rel' hedge'
    · rw [if_neg heq] at hother
      obtain ⟨hdist', hne', hshown', up', rel', hparent', htaken, hless'⟩ :=
        h.fresh eid other hnone hother
      refine ⟨hdist', hne', hshown', up', rel', hparent', Or.inl htaken, ?_⟩
      rintro up'' rel'' (htaken' | ⟨rfl, -⟩)
      · exact hless' up'' rel'' htaken'
      · exact absurd rfl heq
  · rintro up' rel' other (htaken | ⟨heq, -⟩) hnone hother hkeep
    · obtain ⟨held, hheld⟩ := h.reach up' rel' other htaken hnone hother hkeep
      dsimp only
      rw [hset]
      split
      · exact ⟨_, rfl⟩
      · exact ⟨held, hheld⟩
    · dsimp only
      rw [hset, if_pos heq]
      exact ⟨_, rfl⟩
  · intro node
    dsimp only
    rw [h.next]
    constructor
    · rintro ⟨eid, other, hnone, hother, hshows⟩
      by_cases heq : eid = seen.eid
      · subst heq
        rw [hfound] at hother
        obtain rfl := Option.some.inj hother
        exact ⟨_, { found with parent := some (up, rel) }, hnone, by rw [hset, if_pos rfl]; rfl,
          hshows⟩
      · exact ⟨eid, other, hnone, by rw [hset, if_neg heq, hother], hshows⟩
    · rintro ⟨eid, other, hnone, hother, hshows⟩
      rw [hset] at hother
      by_cases heq : eid = seen.eid
      · rw [if_pos heq, Option.map_some, Option.some.injEq] at hother
        subst hother
        subst heq
        exact ⟨_, found, hnone, hfound, hshows⟩
      · rw [if_neg heq] at hother
        exact ⟨eid, other, hnone, hother, hshows⟩
  · dsimp only
    rw [set_keys]
    exact h.keys

theorem Layering.congr {taken' : String → Rel → String → Prop}
    (h : Layering graph start hops d before.visited taken layer)
    (hsame : ∀ up rel eid, taken' up rel eid ↔ taken up rel eid) :
    Layering graph start hops d before.visited taken' layer := by
  have heq : taken' = taken := by
    funext up rel eid
    exact propext (hsame up rel eid)
  rw [heq]
  exact h

section Batch

variable {answers : Answers} (hbefore : Walked graph start hops d before) (hd : d < hops)
  (hstart : start ∈ graph.nodes) (htyped : graph.Typed)
  (hsorted : members.Pairwise fun a b =>
    pathNames hops before.visited a.eid ≤ pathNames hops before.visited b.eid)
  (hmembers : ∀ member ∈ members, ∃ found, before.visited.lookup member.eid = some found)
include hbefore hd hstart htyped hsorted hmembers

/-- Taking a row takes the edges of the batch to its node. -/
theorem Layering.row (h : Layering graph start hops d before.visited taken layer)
    (hinside : ∀ up rel eid, taken up rel eid → ∃ found, before.visited.lookup up = some found)
    (hrow : RowOf graph (members.map (·.eid)) types seen) :
    Layering graph start hops d before.visited (TakenWith graph members types taken seen)
      (takeRow hops d members layer seen) := by
  obtain ⟨member, rel, hmember, hrel, hedge, hleast⟩ := row_choice hsorted hrow
  obtain ⟨node, hnode, heid, hkind, hname, hid, hnameless⟩ := hrow.shows
  obtain ⟨memberFound, hmemberFound⟩ := hmembers member (List.mem_of_getElem? hmember)
  have hmemberNames := h.names_kept hbefore hd.le hmemberFound
  unfold takeRow
  rw [hmember, hrel]
  dsimp only
  cases hlookup : layer.visited.lookup seen.eid with
  | none =>
      dsimp only
      by_cases hskip : d + 1 = hops ∧ seen.kind.eligible = false
      · rw [if_pos hskip]
        refine h.skip htyped hnode heid hlookup ?_
        rw [← hkind]
        rintro (hlast | heligible)
        · omega
        · rw [hskip.2] at heligible
          cases heligible
      · rw [if_neg hskip]
        have hkeep : d + 1 < hops ∨ node.kind.eligible = true := by
          rw [← hkind]
          by_cases hlast : d + 1 = hops
          · exact Or.inr (Bool.of_not_eq_false fun hno => hskip ⟨hlast, hno⟩)
          · exact Or.inl (by omega)
        have hseen : seen.node = node.seen := by
          rw [Row.node, heid, hkind, hname, hid, hnameless]
          rfl
        rw [hseen]
        exact h.add hbefore hd hstart hnode heid hlookup hkeep hedge hleast
  | some found =>
      dsimp only
      cases hbase : before.visited.lookup seen.eid with
      | some held =>
          -- held before the depth, at a smaller distance
          have hsame : found = held := by
            have hkept := h.old _ _ hbase
            rw [hlookup] at hkept
            exact Option.some.inj hkept
          subst hsame
          have hnear := (hbefore.least _ _ hbase).1
          split
          · exact h.keep hbase
          · rw [if_neg fun hcond => by omega]
            exact h.keep hbase
      | none =>
          obtain ⟨hdist, -, -, held, heldRel, hparent, htaken, -⟩ := h.fresh _ _ hbase hlookup
          obtain ⟨heldFound, hheldFound⟩ := hinside held heldRel _ htaken
          have hheldNames := h.names_kept hbefore hd.le hheldFound
          rw [hparent]
          dsimp only
          rw [hmemberNames, hheldNames]
          by_cases hless : pathNames hops before.visited member.eid <
              pathNames hops before.visited held
          · rw [if_pos ⟨hdist, hless⟩]
            exact h.improve hbase hlookup hparent hless hedge hleast
          · rw [if_neg fun hcond => hless hcond.2]
            refine h.stay hlookup hparent fun up' rel' hedge' => ?_
            exact (not_lt.mp hless).trans (hleast up' rel' hedge')

/-- Taking rows takes the edges of the batch to their nodes. -/
theorem Layering.rows (h : Layering graph start hops d before.visited taken layer)
    (hinside : ∀ up rel eid, taken up rel eid → ∃ found, before.visited.lookup up = some found)
    (rows : List Row) (hrows : ∀ row ∈ rows, RowOf graph (members.map (·.eid)) types row) :
    Layering graph start hops d before.visited
      (fun up rel eid => taken up rel eid ∨
        (∃ row ∈ rows, eid = row.eid) ∧ BatchEdge graph members types up rel eid)
      (rows.foldl (takeRow hops d members) layer) := by
  induction rows generalizing layer taken with
  | nil => exact h.congr fun up rel eid => by simp
  | cons row rows ih =>
      have hstep := h.row hbefore hd hstart htyped hsorted hmembers hinside
        (hrows row List.mem_cons_self)
      have hinside' : ∀ up rel eid, TakenWith graph members types taken row up rel eid →
          ∃ found, before.visited.lookup up = some found := by
        rintro up rel eid (htaken | ⟨-, hup, -⟩)
        · exact hinside up rel eid htaken
        · obtain ⟨member, hmember, rfl⟩ := List.mem_map.mp hup
          exact hmembers member hmember
      refine (ih hstep hinside' fun other hother => hrows other (List.mem_cons_of_mem _ hother)).congr
        fun up rel eid => ?_
      simp only [TakenWith, List.mem_cons, exists_eq_or_imp]
      tauto

/-- A batch takes all its edges. -/
theorem Layering.batch (hanswers : answers.Of graph)
    (h : Layering graph start hops d before.visited taken layer)
    (hinside : ∀ up rel eid, taken up rel eid → ∃ found, before.visited.lookup up = some found)
    (types : List Rel) (query : Nat) :
    Layering graph start hops d before.visited
      (fun up rel eid => taken up rel eid ∨ BatchEdge graph members types up rel eid)
      (takeBatch answers hops d layer ((members, types), query)) := by
  have hmem : ∀ row, row ∈ sortBy rowKey (expand answers (2 * d + query) members types) ↔
      members ≠ [] ∧ row ∈ graph.expandRows (members.map (·.eid)) types := by
    intro row
    rw [mem_sort_by, expand]
    by_cases hnil : members = []
    · simp [hnil]
    · rw [if_neg hnil, (hanswers _ _ _).mem_iff]
      simp [hnil]
  refine (h.rows hbefore hd hstart htyped hsorted hmembers hinside _ fun row hrow =>
    Graph.expand_row ((hmem row).mp hrow).2).congr fun up rel eid => ?_
  refine or_congr_right ⟨fun hedge => ⟨?_, hedge⟩, fun hedge => hedge.2⟩
  obtain ⟨hup, htype, hjoins⟩ := hedge
  obtain ⟨-, -, far, hfar, -, rfl, -⟩ := htyped.joined hjoins
  obtain ⟨row, hrow, heid⟩ := Graph.expand_complete hfar hup htype hjoins
  refine ⟨row, (hmem row).mpr ⟨?_, hrow⟩, heid.symm⟩
  rintro rfl
  cases hup

end Batch

end Rows

/-! ## Whole depths -/

section Depths

variable {graph : Graph} {start : GraphNode} {hops d : Nat} {before : Layer} {answers : Answers}

theorem mem_expand_all (rel : Rel) : rel ∈ expandAll := by
  cases rel with
  | aliasOf => decide
  | byArtist => decide
  | derivedFrom => decide
  | isOf => decide
  | memberOf => decide
  | onLabel => decide

/-- Only a release, a master or an artist leads to an eligible node, by the edges of the last
hop. -/
theorem eligible_edge (htyped : graph.Typed) {node far : GraphNode} {rel : Rel}
    (hnode : node ∈ graph.nodes) (hfar : far ∈ graph.nodes) (heligible : far.kind.eligible = true)
    (hstep : graph.step node.eid rel far.eid) :
    (node.kind = .release ∨ node.kind = .master) ∧ rel ∈ lastHopFromRelease ∨
      node.kind = .artist ∧ rel ∈ lastHopFromArtist := by
  obtain ⟨other, hother, far', hfar', heid, heid', hadmits⟩ := htyped.joined hstep
  obtain rfl := htyped.node_unique hother hnode heid
  obtain rfl := htyped.node_unique hfar' hfar heid'
  cases rel with
  | aliasOf =>
      refine Or.inr ⟨?_, by decide⟩
      rcases hadmits with ⟨h, -⟩ | ⟨-, h⟩
      · exact h
      · exact h
  | memberOf =>
      refine Or.inr ⟨?_, by decide⟩
      rcases hadmits with ⟨h, -⟩ | ⟨-, h⟩
      · exact h
      · exact h
  | byArtist =>
      refine Or.inl ⟨?_, by decide⟩
      rcases hadmits with ⟨h, -⟩ | ⟨h | h, -⟩
      · exact h
      · rw [h] at heligible
        cases heligible
      · rw [h] at heligible
        cases heligible
  | onLabel =>
      refine Or.inl ⟨?_, by decide⟩
      rcases hadmits with ⟨h, -⟩ | ⟨h | h, -⟩
      · exact h
      · rw [h] at heligible
        cases heligible
      · rw [h] at heligible
        cases heligible
  | isOf =>
      refine Or.inl ⟨?_, by decide⟩
      rcases hadmits with ⟨h, -⟩ | ⟨h | h, -⟩
      · exact h
      · rw [h] at heligible
        cases heligible
      · rw [h] at heligible
        cases heligible
  | derivedFrom =>
      rcases hadmits with ⟨-, h⟩ | ⟨h, -⟩
      · rw [h] at heligible
        cases heligible
      · rw [h] at heligible
        cases heligible

/-- What has a distance is a node of the graph. -/
theorem dist_node (htyped : graph.Typed) (hstart : start ∈ graph.nodes) {k : Nat} {eid : String}
    (h : Dist graph.step start.eid k eid) : ∃ node ∈ graph.nodes, node.eid = eid := by
  cases k with
  | zero => exact ⟨start, hstart, (dist_zero h).symm⟩
  | succ k =>
      obtain ⟨⟨u, rel, -, hstep⟩, -⟩ := dist_succ_iff.mp h
      obtain ⟨-, -, far, hfar, -, heid, -⟩ := htyped.joined hstep
      exact ⟨far, hfar, heid⟩

theorem Shows.eid {eid : String} {found : Found} (h : Shows graph start eid found) :
    found.node.eid = eid := by
  rcases h with ⟨rfl, hnode⟩ | ⟨-, node, -, rfl, hnode⟩
  · rw [hnode]
    rfl
  · rw [hnode]
    rfl

/-- The edges that a depth takes: those of its batches. -/
def DepthEdge (graph : Graph) (hops d : Nat) (frontier : List Node) (up : String) (rel : Rel)
    (eid : String) : Prop :=
  ∃ batch ∈ batches hops d frontier, BatchEdge graph batch.1 batch.2 up rel eid

/-- The edges of a depth lead from nodes at its distance. -/
theorem depth_edge_from (hbefore : Walked graph start hops d before) {frontier : List Node}
    (hfrontier : ∀ node ∈ frontier, node ∈ before.next) {up eid : String} {rel : Rel}
    (h : DepthEdge graph hops d frontier up rel eid) :
    graph.step up rel eid ∧ ∃ found, before.visited.lookup up = some found ∧ found.dist = d := by
  obtain ⟨batch, hbatch, hup, -, hstep⟩ := h
  refine ⟨hstep, ?_⟩
  obtain ⟨member, hmember, rfl⟩ := List.mem_map.mp hup
  have hin : member ∈ frontier := by
    unfold batches at hbatch
    split at hbatch
    · simp only [List.mem_cons, List.not_mem_nil, or_false] at hbatch
      rcases hbatch with rfl | rfl
      · exact List.mem_of_mem_filter hmember
      · exact List.mem_of_mem_filter hmember
    · obtain rfl := List.mem_singleton.mp hbatch
      exact hmember
  obtain ⟨eid', found, hfound, rfl, hdist⟩ := (hbefore.frontier member).mp (hfrontier _ hin)
  rw [(hbefore.shows _ _ hfound).eid]
  exact ⟨found, hfound, hdist⟩

/-- A depth takes every edge from its distance to a node that it keeps. -/
theorem depth_edge_complete (hbefore : Walked graph start hops d before) (htyped : graph.Typed)
    (hstart : start ∈ graph.nodes) (hd : d < hops) {frontier : List Node} (hfrontier : ∀ node ∈ before.next, node ∈ frontier)
    {up : GraphNode} (hup : up ∈ graph.nodes) (hdist : Dist graph.step start.eid d up.eid)
    {far : GraphNode} (hfar : far ∈ graph.nodes) {rel : Rel}
    (hstep : graph.step up.eid rel far.eid) (hkeep : d + 1 < hops ∨ far.kind.eligible = true) :
    DepthEdge graph hops d frontier up.eid rel far.eid := by
  obtain ⟨found, hfound⟩ := hbefore.complete up hup d le_rfl hdist (Or.inl hd)
  have hat : found.dist = d := by
    obtain ⟨-, chain, -, hlength, hleast⟩ := hbefore.least _ _ hfound
    exact hlength ▸ (hleast.1.dist.unique hdist)
  have hin := hfrontier _ ((hbefore.frontier found.node).mpr ⟨_, found, hfound, rfl, hat⟩)
  have heid := (hbefore.shows _ _ hfound).eid
  have hkind : found.node.kind = up.kind := by
    rcases hbefore.shows _ _ hfound with ⟨hself, hnode⟩ | ⟨-, node, hnode, hself, hshown⟩
    · rw [hnode, htyped.node_unique hstart hup hself.symm]
      rfl
    · rw [hshown, htyped.node_unique hnode hup hself]
      rfl
  unfold DepthEdge batches
  by_cases hlast : d + 1 = hops
  · rw [if_pos hlast]
    have heligible := hkeep.resolve_left (by omega)
    rcases eligible_edge htyped hup hfar heligible hstep with ⟨hrelease, hrel⟩ | ⟨hartist, hrel⟩
    · refine ⟨_, List.mem_cons_self, List.mem_map.mpr ⟨found.node, ?_, heid⟩, hrel, hstep⟩
      rw [List.mem_filter, decide_eq_true_eq, hkind]
      exact ⟨hin, hrelease⟩
    · refine ⟨_, List.mem_cons_of_mem _ List.mem_cons_self,
        List.mem_map.mpr ⟨found.node, ?_, heid⟩, hrel, hstep⟩
      rw [List.mem_filter, decide_eq_true_eq, hkind]
      exact ⟨hin, hartist⟩
  · rw [if_neg hlast]
    exact ⟨_, List.mem_cons_self, List.mem_map.mpr ⟨found.node, hin, heid⟩, mem_expand_all rel,
      hstep⟩

/-- A depth begins with the dictionaries as they are and no edge taken. -/
theorem Layering.begin (hbefore : Walked graph start hops d before) :
    Layering graph start hops d before.visited (fun _ _ _ => False)
      { visited := before.visited, next := [] } where
  old := fun _ _ h => h
  fresh := by
    intro eid found hnone hfound
    rw [hnone] at hfound
    cases hfound
  reach := by
    rintro up rel node ⟨⟩
  next := by
    intro node
    refine iff_of_false (by simp) ?_
    rintro ⟨eid, found, hnone, hfound, -⟩
    rw [hnone] at hfound
    cases hfound
  keys := hbefore.keys

/-- Taking batches takes their edges. -/
theorem Layering.batches (hanswers : answers.Of graph) (hbefore : Walked graph start hops d before)
    (hd : d < hops) (hstart : start ∈ graph.nodes) (htyped : graph.Typed)
    {taken : String → Rel → String → Prop} {layer : Layer}
    (h : Layering graph start hops d before.visited taken layer)
    (hinside : ∀ up rel eid, taken up rel eid → ∃ found, before.visited.lookup up = some found)
    (all : List ((List Node × List Rel) × Nat))
    (hsorted : ∀ batch ∈ all, batch.1.1.Pairwise fun a b =>
      pathNames hops before.visited a.eid ≤ pathNames hops before.visited b.eid)
    (hmembers : ∀ batch ∈ all, ∀ member ∈ batch.1.1,
      ∃ found, before.visited.lookup member.eid = some found) :
    Layering graph start hops d before.visited
      (fun up rel eid => taken up rel eid ∨
        ∃ batch ∈ all, BatchEdge graph batch.1.1 batch.1.2 up rel eid)
      (all.foldl (takeBatch answers hops d) layer) := by
  induction all generalizing layer taken with
  | nil => exact h.congr fun up rel eid => by simp
  | cons batch all ih =>
      have hstep := h.batch hbefore hd hstart htyped (hsorted batch List.mem_cons_self)
        (hmembers batch List.mem_cons_self) hanswers hinside batch.1.2 batch.2
      have hinside' : ∀ up rel eid,
          taken up rel eid ∨ BatchEdge graph batch.1.1 batch.1.2 up rel eid →
            ∃ found, before.visited.lookup up = some found := by
        rintro up rel eid (htaken | ⟨hup, -⟩)
        · exact hinside up rel eid htaken
        · obtain ⟨member, hmember, rfl⟩ := List.mem_map.mp hup
          exact hmembers batch List.mem_cons_self member hmember
      refine (ih hstep hinside' (fun other hother => hsorted other (List.mem_cons_of_mem _ hother))
        fun other hother => hmembers other (List.mem_cons_of_mem _ hother)).congr
        fun up rel eid => ?_
      simp only [List.mem_cons, exists_eq_or_imp]
      exact (or_assoc).symm

/-- The members of the batches of a depth are nodes of its frontier, in their order. -/
theorem batches_sublist {frontier : List Node} {batch : List Node × List Rel}
    (h : batch ∈ batches hops d frontier) : batch.1.Sublist frontier := by
  unfold Explore.batches at h
  split at h
  · simp only [List.mem_cons, List.not_mem_nil, or_false] at h
    rcases h with rfl | rfl
    · exact List.filter_sublist
    · exact List.filter_sublist
  · rw [List.mem_singleton.mp h]

/-- A depth takes the edges of its batches. -/
theorem take_depth_layering (hanswers : answers.Of graph)
    (hbefore : Walked graph start hops d before) (hd : d < hops) (hstart : start ∈ graph.nodes)
    (htyped : graph.Typed) :
    Layering graph start hops d before.visited
      (DepthEdge graph hops d (sortBy (frontierKey hops before.visited) before.next))
      (takeDepth answers hops before d) := by
  have hsorted : (sortBy (frontierKey hops before.visited) before.next).Pairwise fun a b =>
      pathNames hops before.visited a.eid ≤ pathNames hops before.visited b.eid := by
    refine (sort_by_sorted (frontierKey hops before.visited) before.next).imp fun {a b} hle => ?_
    rcases Prod.Lex.le_iff.mp hle with hlt | ⟨heq, -⟩
    · exact le_of_lt hlt
    · exact le_of_eq heq
  have hmembers : ∀ member ∈ sortBy (frontierKey hops before.visited) before.next,
      ∃ found, before.visited.lookup member.eid = some found := by
    intro member hmember
    obtain ⟨eid, found, hfound, rfl, -⟩ := (hbefore.frontier member).mp (mem_sort_by.mp hmember)
    rw [(hbefore.shows _ _ hfound).eid]
    exact ⟨found, hfound⟩
  have hbatch : ∀ batch ∈ (batches hops d
      (sortBy (frontierKey hops before.visited) before.next)).zipIdx,
      batch.1.1.Sublist (sortBy (frontierKey hops before.visited) before.next) := by
    intro batch hbatch
    exact batches_sublist (List.fst_mem_of_mem_zipIdx hbatch)
  refine ((Layering.begin hbefore).batches hanswers hbefore hd hstart htyped
    (fun _ _ _ h => h.elim) _ (fun batch h => hsorted.sublist (hbatch batch h))
    fun batch h member hmember => hmembers member ((hbatch batch h).subset hmember)).congr
    fun up rel eid => ?_
  rw [false_or, DepthEdge]
  constructor
  · rintro ⟨batch, hin, hedge⟩
    obtain ⟨i, hi⟩ := List.mem_iff_getElem?.mp hin
    exact ⟨(batch, i), List.mem_zipIdx_iff_getElem?.mpr hi, hedge⟩
  · rintro ⟨batch, hin, hedge⟩
    exact ⟨batch.1, List.fst_mem_of_mem_zipIdx hin, hedge⟩

/-- Two least paths to a vertex have the same names. -/
theorem least_names {eid : String} {chain chain' : List (Rel × String)}
    (h : Least graph.step start.eid graph.nameOf chain eid)
    (h' : Least graph.step start.eid graph.nameOf chain' eid) :
    ShortestPaths.pathNames graph.nameOf start.eid chain =
      ShortestPaths.pathNames graph.nameOf start.eid chain' :=
  le_antisymm (h.2 _ h'.1) (h'.2 _ h.1)

/-- The names of the path to what the walk holds are those of a least path. -/
theorem Walked.names (hbefore : Walked graph start hops d before) (hd : d ≤ hops) {eid : String}
    {found : Found} (hfound : before.visited.lookup eid = some found)
    {chain : List (Rel × String)} (hleast : Least graph.step start.eid graph.nameOf chain eid) :
    pathNames hops before.visited eid =
      ShortestPaths.pathNames graph.nameOf start.eid chain := by
  obtain ⟨hle, held, hheld, hlength, hleast'⟩ := hbefore.least _ _ hfound
  rw [pathNames, path_chain hheld (by omega)]
  exact least_names hleast' hleast

/-- A new node has a least path through its parent. -/
theorem fresh_least (hbefore : Walked graph start hops d before) (htyped : graph.Typed)
    (hstart : start ∈ graph.nodes) (hd : d < hops) {layer : Layer}
    (h : Layering graph start hops d before.visited
      (DepthEdge graph hops d (sortBy (frontierKey hops before.visited) before.next)) layer)
    {eid : String} {found : Found} (hnone : before.visited.lookup eid = none)
    (hfound : layer.visited.lookup eid = some found) :
    ∃ chain, Chain graph start.eid layer.visited eid chain ∧ chain.length = found.dist ∧
      Least graph.step start.eid graph.nameOf chain eid := by
  obtain ⟨hdist, -, ⟨node, hnode, rfl, hshown, hkeep⟩, up, rel, hparent, htaken, hless⟩ :=
    h.fresh _ found hnone hfound
  obtain ⟨hstep, upFound, hup, hupDist⟩ :=
    depth_edge_from hbefore (fun node hnode => mem_sort_by.mp hnode) htaken
  obtain ⟨-, chain, hchain, hlength, hleast⟩ := hbefore.least _ _ hup
  rw [hupDist] at hlength
  have hfar : ∀ k ≤ chain.length, ¬Dist graph.step start.eid k node.eid := by
    intro k hk hnear
    obtain ⟨held, hheld⟩ := hbefore.complete node hnode k (hlength ▸ hk) hnear (Or.inl (by omega))
    rw [hnone] at hheld
    cases hheld
  have hname : found.node.name = graph.nameOf node.eid := by
    rw [hshown, htyped.name_of hnode]
    rfl
  refine ⟨chain ++ [(rel, node.eid)], .hop hfound hparent hname (hchain.mono h.old), ?_, ?_⟩
  · rw [List.length_append, List.length_singleton, hlength, hdist]
  · refine hleast.snoc hstep hfar ?_ ?_
    · -- another predecessor is at this distance too, so its edge was taken
      intro other rel' chain' hleast' hlength' hstep'
      rw [hlength] at hlength'
      have hat : Dist graph.step start.eid d other := hlength' ▸ hleast'.1.dist
      obtain ⟨otherNode, hother, rfl⟩ := dist_node htyped hstart hat
      obtain ⟨otherFound, hotherFound⟩ :=
        hbefore.complete otherNode hother d le_rfl hat (Or.inl hd)
      have hle := hless _ rel' (depth_edge_complete hbefore htyped hstart hd
        (fun node hnode => mem_sort_by.mpr hnode) hother hat hnode hstep' hkeep)
      rw [hbefore.names hd.le hup hleast, hbefore.names hd.le hotherFound hleast'] at hle
      exact hle
    · intro other hother
      rw [hlength] at hother
      obtain ⟨otherNode, hotherNode, rfl⟩ := dist_node htyped hstart hother
      obtain ⟨otherFound, hotherFound⟩ :=
        hbefore.complete otherNode hotherNode d le_rfl hother (Or.inl hd)
      obtain ⟨-, chain', -, -, hleast'⟩ := hbefore.least _ _ hotherFound
      exact ⟨chain', hleast'⟩

/-- A depth of the walk goes one step further. -/
theorem take_depth_exact (hanswers : answers.Of graph) (htyped : graph.Typed)
    (hstart : start ∈ graph.nodes) (hd : d < hops)
    (hbefore : Walked graph start hops d before) :
    Walked graph start hops (d + 1) (takeDepth answers hops before d) := by
  have h := take_depth_layering hanswers hbefore hd hstart htyped
  have hcases : ∀ eid found, (takeDepth answers hops before d).visited.lookup eid = some found →
      before.visited.lookup eid = some found ∨ before.visited.lookup eid = none := by
    intro eid found hfound
    cases hheld : before.visited.lookup eid with
    | none => exact Or.inr rfl
    | some held =>
        rw [h.old _ _ hheld] at hfound
        exact Or.inl hfound
  constructor
  · intro eid found hfound
    rcases hcases eid found hfound with hheld | hnone
    · exact hbefore.shows eid found hheld
    · obtain ⟨-, hne, ⟨node, hnode, heid, hshown, -⟩, -⟩ := h.fresh eid found hnone hfound
      exact Or.inr ⟨hne, node, hnode, heid, hshown⟩
  · intro eid found hfound
    rcases hcases eid found hfound with hheld | hnone
    · obtain ⟨hle, chain, hchain, hlength, hleast⟩ := hbefore.least eid found hheld
      exact ⟨Nat.le_succ_of_le hle, chain, hchain.mono h.old, hlength, hleast⟩
    · exact ⟨(h.fresh eid found hnone hfound).1.le,
        fresh_least hbefore htyped hstart hd h hnone hfound⟩
  · intro node hnode k hk hdist hkeep
    cases hheld : before.visited.lookup node.eid with
    | some found => exact ⟨found, h.old _ _ hheld⟩
    | none =>
        rcases Nat.lt_or_ge d k with hlt | hge
        · obtain rfl : k = d + 1 := by omega
          obtain ⟨⟨up, rel, hup, hstep⟩, -⟩ := dist_succ_iff.mp hdist
          obtain ⟨upNode, hupNode, rfl⟩ := dist_node htyped hstart hup
          exact h.reach _ rel node (depth_edge_complete hbefore htyped hstart hd
            (fun node hnode => mem_sort_by.mpr hnode) hupNode hup hnode hstep hkeep) hheld hnode
            hkeep
        · obtain ⟨found, hfound⟩ := hbefore.complete node hnode k hge hdist (Or.inl (by omega))
          rw [hheld] at hfound
          cases hfound
  · intro node
    rw [h.next]
    constructor
    · rintro ⟨eid, found, hnone, hfound, hshown⟩
      exact ⟨eid, found, hfound, hshown, (h.fresh eid found hnone hfound).1⟩
    · rintro ⟨eid, found, hfound, hshown, hdist⟩
      rcases hcases eid found hfound with hheld | hnone
      · have hnear := (hbefore.least eid found hheld).1
        omega
      · exact ⟨eid, found, hnone, hfound, hshown⟩
  · exact h.keys

/-- The walk at its start. -/
theorem walked_start (htyped : graph.Typed) (hstart : start ∈ graph.nodes) :
    Walked graph start hops 0
      { visited := [(start.eid, { node := start.start, dist := 0, parent := none })],
        next := [start.start] } := by
  have hlookup : ∀ eid found, List.lookup eid
      [(start.eid, { node := start.start, dist := 0, parent := none : Found })] = some found →
      eid = start.eid ∧ found = { node := start.start, dist := 0, parent := none } := by
    intro eid found h
    rw [lookup_cons_if] at h
    split at h
    · exact ⟨by assumption, (Option.some.inj h).symm⟩
    · cases h
  have hself : List.lookup start.eid
      [(start.eid, { node := start.start, dist := 0, parent := none : Found })] =
        some { node := start.start, dist := 0, parent := none } := by
    rw [lookup_cons_if, if_pos rfl]
  constructor
  · intro eid found h
    obtain ⟨rfl, rfl⟩ := hlookup eid found h
    exact Or.inl ⟨rfl, rfl⟩
  · intro eid found h
    obtain ⟨rfl, rfl⟩ := hlookup eid found h
    exact ⟨le_rfl, [], .root hself rfl (htyped.name_of hstart).symm, rfl, least_nil _⟩
  · intro node hnode k hk hdist _
    obtain rfl := Nat.le_zero.mp hk
    rw [dist_zero hdist]
    exact ⟨_, hself⟩
  · intro node
    rw [List.mem_singleton]
    constructor
    · rintro rfl
      exact ⟨_, _, hself, rfl, rfl⟩
    · rintro ⟨eid, found, h, rfl, -⟩
      rw [(hlookup eid found h).2]
  · exact List.nodup_singleton _

/-- The walk after all its depths. -/
theorem walk_exact (hanswers : answers.Of graph) (htyped : graph.Typed)
    (hstart : start ∈ graph.nodes) (hops : Nat) :
    ∃ layer, Walked graph start hops hops layer ∧ layer.visited = walk answers hops start.start := by
  have hall : ∀ d ≤ hops, Walked graph start hops d
      ((List.range d).foldl (takeDepth answers hops)
        { visited := [(start.eid, { node := start.start, dist := 0, parent := none })],
          next := [start.start] }) := by
    intro d
    induction d with
    | zero => exact fun _ => walked_start htyped hstart
    | succ d ih =>
        intro hd
        rw [List.range_succ, List.foldl_append]
        exact take_depth_exact hanswers htyped hstart hd (ih (Nat.le_of_succ_le hd))
  exact ⟨_, hall hops le_rfl, rfl⟩

end Depths

/-- What `_bfs` returns of a node at a distance: a shortest path to it, whose names are the least
among all shortest paths. -/
structure Discovery.Exact (graph : Graph) (start node : GraphNode) (item : Discovery) : Prop where
  eid : item.eid = node.eid
  kind : item.kind = node.kind
  id : item.id = node.keyId
  name : item.name = node.displayName
  placeholder : item.placeholder = (node.name.isNone && decide (node.kind = .artist))
  path : ∃ chain, Least graph.step start.eid graph.nameOf chain node.eid ∧
    chain.length = item.dist ∧
    item.pathNames = ShortestPaths.pathNames graph.nameOf start.eid chain ∧
    item.relTypes = chain.map (·.1)

section Items

variable {graph : Graph} {start : GraphNode} {hops : Nat} {answers : Answers}

/-- The item of a node that the walk holds. -/
def itemOf (visited : Visited) (hops : Nat) (eid : String) (found : Found) : Discovery :=
  { eid, kind := found.node.kind, id := found.node.id, name := found.node.name,
    pathNames := (path visited hops eid).1, relTypes := (path visited hops eid).2,
    dist := found.dist, placeholder := found.node.nameless }

theorem bfs_eq (start : Node) :
    bfs answers hops start = (walk answers hops start).filterMap fun entry =>
      if entry.1 = start.eid ∨ entry.2.node.kind.eligible = false then none
      else some (itemOf (walk answers hops start) hops entry.1 entry.2) :=
  rfl

theorem mem_bfs (hkeys : ((walk answers hops start.start).map (·.1)).Nodup) {item : Discovery} :
    item ∈ bfs answers hops start.start ↔ ∃ eid found,
      (walk answers hops start.start).lookup eid = some found ∧ eid ≠ start.eid ∧
        found.node.kind.eligible = true ∧
        item = itemOf (walk answers hops start.start) hops eid found := by
  rw [bfs_eq, List.mem_filterMap]
  constructor
  · rintro ⟨⟨eid, found⟩, hmem, hitem⟩
    rw [Option.ite_none_left_eq_some, not_or, Bool.not_eq_false] at hitem
    exact ⟨eid, found, (mem_iff_lookup hkeys).mp hmem, hitem.1.1, hitem.1.2,
      (Option.some.inj hitem.2).symm⟩
  · rintro ⟨eid, found, hfound, hne, heligible, rfl⟩
    refine ⟨(eid, found), (mem_iff_lookup hkeys).mpr hfound, ?_⟩
    rw [Option.ite_none_left_eq_some, not_or, Bool.not_eq_false]
    exact ⟨⟨hne, heligible⟩, rfl⟩

theorem filter_map_keys {item : String × Found → Option Discovery}
    (hitem : ∀ entry found, item entry = some found → found.eid = entry.1) (visited : Visited) :
    ((visited.filterMap item).map (·.eid)).Sublist (visited.map (·.1)) := by
  induction visited with
  | nil => exact .slnil
  | cons entry visited ih =>
      rw [List.filterMap_cons, List.map_cons]
      cases hentry : item entry with
      | none => exact ih.cons _
      | some found =>
          dsimp only
          rw [List.map_cons, hitem entry found hentry]
          exact ih.cons_cons _

/-- The element ids of the items are keys of the walk, in its order. -/
theorem bfs_eids_sublist (start : Node) :
    ((bfs answers hops start).map (·.eid)).Sublist ((walk answers hops start).map (·.1)) := by
  rw [bfs_eq]
  refine filter_map_keys (fun entry found hentry => ?_) _
  rw [Option.ite_none_left_eq_some] at hentry
  rw [← Option.some.inj hentry.2]
  rfl

/-- An item shows a node of the graph with its distance and a least path. -/
theorem item_exact {layer : Layer} (hwalked : Walked graph start hops hops layer) {eid : String}
    {found : Found} (hfound : layer.visited.lookup eid = some found) (hne : eid ≠ start.eid) :
    ∃ node ∈ graph.nodes, node.eid = eid ∧ found.node.kind = node.kind ∧
      (itemOf layer.visited hops eid found).Exact graph start node := by
  obtain ⟨-, node, hnode, rfl, hshown⟩ := (hwalked.shows eid found hfound).resolve_left
    fun h => hne h.1
  obtain ⟨hle, chain, hchain, hlength, hleast⟩ := hwalked.least _ found hfound
  have hpath : path layer.visited hops node.eid = _ := path_chain hchain (by omega)
  refine ⟨node, hnode, rfl, by rw [hshown]; rfl, rfl, ?_, ?_, ?_, ?_, chain, hleast, hlength, ?_, ?_⟩
  · rw [itemOf, hshown]
    rfl
  · rw [itemOf, hshown]
    rfl
  · rw [itemOf, hshown]
    rfl
  · rw [itemOf, hshown]
    rfl
  · rw [itemOf, hpath]
  · rw [itemOf, hpath]

end Items

section Results

variable {graph : Graph} {answers : Answers} {start : GraphNode} (hops : Nat)
  (htyped : graph.Typed) (hanswers : answers.Of graph) (hstart : start ∈ graph.nodes)
include htyped hanswers hstart

/-- No node is returned twice. -/
theorem bfs_nodup : ((bfs answers hops start.start).map (·.eid)).Nodup := by
  obtain ⟨layer, hwalked, hvisited⟩ := walk_exact hanswers htyped hstart hops
  have hkeys := hwalked.keys
  rw [hvisited] at hkeys
  exact hkeys.sublist (bfs_eids_sublist _)

/-- What is returned shows a node of the graph with its distance and a least path. -/
theorem bfs_sound : ∀ item ∈ bfs answers hops start.start,
    ∃ node ∈ graph.nodes, item.Exact graph start node := by
  intro item hitem
  obtain ⟨layer, hwalked, hvisited⟩ := walk_exact hanswers htyped hstart hops
  have hkeys := hwalked.keys
  rw [hvisited] at hkeys
  obtain ⟨eid, found, hfound, hne, -, rfl⟩ := (mem_bfs hkeys).mp hitem
  rw [← hvisited] at hfound ⊢
  obtain ⟨node, hnode, -, -, hexact⟩ := item_exact hwalked hfound hne
  exact ⟨node, hnode, hexact⟩

/-- What is returned are the artists, labels, genres and styles within the hops, at their
distance. -/
theorem bfs_complete : ∀ node ∈ graph.nodes, ∀ d,
    (∃ item ∈ bfs answers hops start.start, item.eid = node.eid ∧ item.dist = d) ↔
      node.kind.eligible = true ∧ node ≠ start ∧ d ≤ hops ∧
        Dist graph.step start.eid d node.eid := by
  intro node hnode d
  obtain ⟨layer, hwalked, hvisited⟩ := walk_exact hanswers htyped hstart hops
  have hkeys := hwalked.keys
  rw [hvisited] at hkeys
  constructor
  · rintro ⟨item, hitem, heid, rfl⟩
    obtain ⟨eid, found, hfound, hne, heligible, rfl⟩ := (mem_bfs hkeys).mp hitem
    rw [← hvisited] at hfound heid ⊢
    obtain ⟨other, hother, hself, hkind, -⟩ := item_exact hwalked hfound hne
    obtain ⟨hle, chain, -, hlength, hleast⟩ := hwalked.least _ found hfound
    obtain rfl := htyped.node_unique hother hnode (hself.trans heid)
    refine ⟨hkind ▸ heligible, ?_, hle, ?_⟩
    · rintro rfl
      exact hne hself.symm
    · rw [hself]
      exact ⟨chain, hleast.1, hlength⟩
  · rintro ⟨heligible, hne, hle, hdist⟩
    obtain ⟨found, hfound⟩ := hwalked.complete node hnode d hle hdist (Or.inr heligible)
    have hne' : node.eid ≠ start.eid := fun heq => hne (htyped.node_unique hnode hstart heq)
    obtain ⟨other, hother, hself, hkind, -⟩ := item_exact hwalked hfound hne'
    obtain rfl := htyped.node_unique hother hnode hself
    obtain ⟨-, chain, -, hlength, hleast⟩ := hwalked.least _ found hfound
    have hat := hleast.1.dist.unique hdist
    rw [hvisited] at hfound
    exact ⟨_, (mem_bfs hkeys).mpr ⟨_, found, hfound, hne', hkind ▸ heligible, rfl⟩, rfl,
      hlength.symm.trans hat⟩

end Results

/-- Whatever order the queries return their rows in, `_bfs` returns each artist, label, genre and
style other than the start within the hops once, with its distance and the least shortest path. -/
theorem bfs_exact (graph : Graph) (answers : Answers) (start : GraphNode) (hops : Nat)
    (htyped : graph.Typed) (hanswers : answers.Of graph) (hstart : start ∈ graph.nodes) :
    ((bfs answers hops start.start).map (·.eid)).Nodup ∧
    (∀ item ∈ bfs answers hops start.start, ∃ node ∈ graph.nodes, item.Exact graph start node) ∧
    ∀ node ∈ graph.nodes, ∀ d,
      (∃ item ∈ bfs answers hops start.start, item.eid = node.eid ∧ item.dist = d) ↔
        node.kind.eligible = true ∧ node ≠ start ∧ d ≤ hops ∧
          Dist graph.step start.eid d node.eid :=
  ⟨bfs_nodup hops htyped hanswers hstart, bfs_sound hops htyped hanswers hstart,
    bfs_complete hops htyped hanswers hstart⟩

/-- Two releases of one artist, the second with another artist and a genre. -/
def twoReleases : Graph :=
  { nodes :=
      [⟨"A", .artist, some "Alpha", none, some "1", none⟩,
       ⟨"B", .artist, none, none, some "2", none⟩,
       ⟨"R1", .release, none, some "First", some "10", none⟩,
       ⟨"R2", .release, none, some "Second", some "11", none⟩,
       ⟨"G", .genre, some "Rock", none, none, some 2⟩]
    edges :=
      [⟨"R1", .byArtist, "A"⟩, ⟨"R2", .byArtist, "A"⟩, ⟨"R2", .byArtist, "B"⟩,
       ⟨"R1", .isOf, "G"⟩, ⟨"R2", .isOf, "G"⟩] }

theorem two_releases_typed : twoReleases.Typed where
  eids := by decide
  edges := by decide

/-- The queries that return their rows in the order of the nodes. -/
def inOrder (graph : Graph) : Answers := fun _ frontier types => graph.expandRows frontier types

theorem in_order (graph : Graph) : (inOrder graph).Of graph :=
  fun _ _ _ => List.Perm.refl _

/-- The artist of the two releases. -/
def alpha : GraphNode := ⟨"A", .artist, some "Alpha", none, some "1", none⟩

theorem two_releases_exact :
    ((bfs (inOrder twoReleases) 3 alpha.start).map (·.eid)).Nodup ∧
      ∀ item ∈ bfs (inOrder twoReleases) 3 alpha.start, ∃ node ∈ twoReleases.nodes,
        item.Exact twoReleases alpha node := by
  obtain ⟨hnodup, hexact, -⟩ := bfs_exact twoReleases (inOrder twoReleases) alpha 3
    two_releases_typed (in_order twoReleases) (by decide)
  exact ⟨hnodup, hexact⟩

/-- The genre is reached through the release of lesser name. -/
example : ((bfs (inOrder twoReleases) 2 alpha.start).find? fun item => item.eid = "G").map
    (·.pathNames) = some ["Alpha", "First", "Rock"] := by
  decide

end CatalogApi.Explore
