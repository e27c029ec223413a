import CatalogApi.Explore.Near
import Mathlib.Data.Set.Card

/-!
# A stored hub answers as the walk

The genres and styles that `_build_hub` scans, and its artists and labels before any limit, are
those that the walk finds within two steps (`hub_acts_perm`, `hub_tags_perm`). Both orders read the
same of a node (`Standing`), and first rows of first rows are first rows, so both answers list the
same in the same order (`built_as_walked`).
-/

namespace CatalogApi.Explore

open ByKey ShortestPaths

/-! ## What an order reads -/

/-- What the order of artists and labels reads of one, and its label. -/
structure Standing where
  placeholder : Bool
  pop : Nat
  id : Option String
  kind : Kind

def Standing.key (standing : Standing) : Bool ×ₗ Int ×ₗ WithTop String :=
  toLex (standing.placeholder, toLex (-(standing.pop : Int), nullLast standing.id))

def Graph.standing (graph : Graph) (node : GraphNode) : Standing :=
  { placeholder := node.name.isNone && decide (node.kind = .artist)
    pop := graph.popularity node
    id := node.id
    kind := node.kind }

def ActRow.standing (row : ActRow) : Standing :=
  { placeholder := row.placeholder, pop := row.pop, id := row.id, kind := row.kind }

def Discovery.standing (rows : List (String × Nat)) (item : Discovery) : Standing :=
  { placeholder := item.placeholder, pop := popOf rows item.eid, id := some item.id,
    kind := item.kind }

theorem null_last_le {text other : String} :
    nullLast (some text) ≤ nullLast (some other) ↔ text ≤ other :=
  WithTop.coe_le_coe

/-- The order of the walk's artists and labels is that of their standings. -/
theorem standing_le {rows : List (String × Nat)} {item other : Discovery}
    (h : cutKey rows item ≤ cutKey rows other) :
    (item.standing rows).key ≤ (other.standing rows).key := by
  rw [cutKey, cutKey, Prod.Lex.toLex_le_toLex] at h
  rw [Standing.key, Standing.key, Prod.Lex.toLex_le_toLex]
  rcases h with hlt | ⟨heq, hle⟩
  · exact Or.inl hlt
  · refine Or.inr ⟨heq, ?_⟩
    dsimp only at hle ⊢
    rw [Prod.Lex.toLex_le_toLex] at hle ⊢
    rcases hle with hlt | ⟨heq, hle⟩
    · exact Or.inl hlt
    · exact Or.inr ⟨heq, null_last_le.mpr hle⟩

theorem lookup_of_mem {rows : List (String × Nat)} {eid : String} {pop : Nat}
    (hmem : (eid, pop) ∈ rows) (hall : ∀ other, (eid, other) ∈ rows → other = pop) :
    rows.lookup eid = some pop := by
  cases hlookup : rows.lookup eid with
  | none =>
      have hne := List.lookup_eq_none_iff.mp hlookup _ hmem
      simp at hne
  | some other =>
      obtain ⟨before, after, hrows, -⟩ := List.lookup_eq_some_iff.mp hlookup
      rw [hall other (hrows ▸ by simp)]

section Popularity

variable {graph : Graph} {pops : Pops} {node : GraphNode} {eids : List String}

/-- The dictionary holds the popularity of every node that was asked for. -/
theorem pop_of_eq (htyped : graph.Typed) (hpops : pops.Of graph) (hnode : node ∈ graph.nodes)
    (hmem : node.eid ∈ eids) : popOf (pops eids) node.eid = graph.popularity node := by
  have hrow : ∀ pop, (node.eid, pop) ∈ (pops eids).reverse ↔ pop = graph.popularity node := by
    intro pop
    rw [List.mem_reverse, (hpops eids).mem_iff, Graph.popularityRows, List.mem_flatMap]
    constructor
    · rintro ⟨eid, -, hrow⟩
      obtain ⟨other, hother, heq⟩ := List.mem_map.mp hrow
      obtain ⟨hother, heid⟩ := List.mem_filter.mp hother
      rw [Prod.mk.injEq] at heq
      rw [← heq.2, htyped.node_unique hother hnode ((of_decide_eq_true heid).trans heq.1)]
    · rintro rfl
      refine ⟨node.eid, hmem, List.mem_map.mpr ⟨node, ?_, rfl⟩⟩
      exact List.mem_filter.mpr ⟨hnode, decide_eq_true rfl⟩
  rw [popOf, lookup_of_mem ((hrow _).mpr rfl) fun other h => (hrow other).mp h]
  rfl

end Popularity

/-! ## What the scans find -/

section Scans

variable {graph : Graph} {start node other release : GraphNode} {entityId : String}

theorem tag_link {kind : Kind} (h : kind.tag = true) : kind.linkRel = .isOf := by
  rcases Kind.tag_iff.mp h with rfl | rfl
  · rfl
  · rfl

section

variable (h : graph.Keyed) (hstart : start ∈ graph.nodes) (hhub : start.kind.hub = true) (hkey : start.key = some entityId)
include h hstart hhub hkey

/-- A start is the only node of its label with its key. -/
theorem Graph.Keyed.only (hother : other ∈ graph.nodes)
    (hkind : other.kind = start.kind) (hsame : other.key = some entityId) : other = start := by
  rw [GraphNode.key] at hkey hsame
  rw [hkind] at hsame
  by_cases htag : start.kind.tag = true
  · rw [if_pos htag] at hkey hsame
    exact (h.tags start hstart other hother htag hkind.symm (hkey.trans hsame.symm)).symm
  · rw [if_neg htag] at hkey hsame
    rw [Kind.hub, Bool.or_eq_true, decide_eq_true_eq] at hhub
    have hlabel := hhub.resolve_left htag
    exact h.labels other hother start hstart (hkind.trans hlabel) hlabel entityId hsame hkey

/-- The releases and masters of a hub. -/
theorem mem_hub_releases :
    (other, release) ∈ graph.hubReleases start.kind entityId ↔ other = start ∧
      release ∈ graph.nodes ∧ release.issued = true ∧
        graph.leads release.eid start.kind.linkRel start.eid = true := by
  rw [Graph.hubReleases, List.mem_flatMap]
  constructor
  · rintro ⟨hub, hnode, hpair⟩
    split at hpair
    · rename_i hmatch
      obtain rfl := h.only hstart hhub hkey hnode hmatch.1 hmatch.2
      obtain ⟨found, hfound, heq⟩ := List.mem_map.mp hpair
      rw [Prod.mk.injEq] at heq
      obtain ⟨rfl, rfl⟩ := heq
      rw [List.mem_filter, Bool.and_eq_true] at hfound
      exact ⟨rfl, hfound.1, hfound.2.1, hfound.2.2⟩
    · cases hpair
  · rintro ⟨rfl, hrelease, hissued, hleads⟩
    refine ⟨other, hstart, ?_⟩
    rw [if_pos ⟨rfl, hkey⟩]
    refine List.mem_map_of_mem (List.mem_filter.mpr ⟨hrelease, ?_⟩)
    rw [Bool.and_eq_true]
    exact ⟨hissued, hleads⟩

/-- A scan asks whether some release or master of the hub links to the node. -/
theorem any_hub_release :
    ((graph.hubReleases start.kind entityId).any fun pair =>
      graph.leads pair.2.eid node.kind.linkRel node.eid) = true ↔ graph.Shares start node := by
  rw [List.any_eq_true]
  constructor
  · rintro ⟨⟨hub, release⟩, hpair, hleads⟩
    obtain ⟨-, hrelease, hissued, hlinked⟩ := (mem_hub_releases h hstart hhub hkey).mp hpair
    exact ⟨release, hrelease, hissued, hlinked, hleads⟩
  · rintro ⟨release, hrelease, hissued, hlinked, hleads⟩
    exact ⟨(start, release),
      (mem_hub_releases h hstart hhub hkey).mpr ⟨rfl, hrelease, hissued, hlinked⟩, hleads⟩

/-- The artists of a hub before the limit. -/
theorem mem_hub_artists :
    node ∈ graph.hubArtists start.kind entityId ↔
      node ∈ graph.nodes ∧ node.kind = .artist ∧ graph.Shares start node := by
  rw [Graph.hubArtists, List.mem_filter, decide_eq_true_eq]
  refine and_congr_right fun _ => and_congr_right fun hkind => ?_
  have hany : _ ↔ graph.Shares start node := any_hub_release h hstart hhub hkey
  rw [hkind] at hany
  exact hany

end

/-- The labels of a hub before the limit. -/
theorem mem_hub_labels (htyped : graph.Typed) (h : graph.Keyed) (hstart : start ∈ graph.nodes)
    (hhub : start.kind.hub = true) (hkey : start.key = some entityId) :
    node ∈ graph.hubLabels start.kind entityId ↔
      node ∈ graph.nodes ∧ node.kind = .label ∧ node ≠ start ∧ graph.Shares start node := by
  rw [Graph.hubLabels, List.mem_filter, decide_eq_true_eq, List.any_eq_true]
  refine and_congr_right fun hnode => and_congr_right fun hkind => ?_
  constructor
  · rintro ⟨⟨hub, release⟩, hpair, hlinks⟩
    obtain ⟨rfl, hrelease, hissued, hlinked⟩ := (mem_hub_releases h hstart hhub hkey).mp hpair
    rw [decide_eq_true_eq] at hlinks
    refine ⟨fun heq => hlinks.1 (heq ▸ rfl), release, hrelease, hissued, hlinked, ?_⟩
    rw [hkind]
    exact hlinks.2
  · rintro ⟨hne, release, hrelease, hissued, hlinked, hleads⟩
    refine ⟨(start, release),
      (mem_hub_releases h hstart hhub hkey).mpr ⟨rfl, hrelease, hissued, hlinked⟩, ?_⟩
    rw [hkind] at hleads
    rw [decide_eq_true_eq]
    exact ⟨fun heid => hne (htyped.node_unique hnode hstart heid), hleads⟩

/-- The genres and styles of a hub. -/
theorem mem_tag_groups (htyped : graph.Typed) (h : graph.Keyed) (hstart : start ∈ graph.nodes)
    (hhub : start.kind.hub = true) (hkey : start.key = some entityId)
    {group : Kind × Option String} :
    group ∈ (graph.tagMatches start.kind entityId).map tagGroup ↔ ∃ node ∈ graph.nodes,
      node.kind.tag = true ∧ node ≠ start ∧ graph.Shares start node ∧
        (node.kind, node.name) = group := by
  rw [List.mem_map]
  constructor
  · rintro ⟨⟨other, release⟩, hmatch, rfl⟩
    obtain ⟨⟨hub, found⟩, hpair, hmatch⟩ := List.mem_flatMap.mp hmatch
    obtain ⟨tag, htag, heq⟩ := List.mem_map.mp hmatch
    rw [Prod.mk.injEq] at heq
    obtain ⟨rfl, rfl⟩ := heq
    rw [List.mem_filter, decide_eq_true_eq] at htag
    obtain ⟨hnode, htag, hne, hleads⟩ := htag
    obtain ⟨rfl, hrelease, hissued, hlinked⟩ := (mem_hub_releases h hstart hhub hkey).mp hpair
    refine ⟨tag, hnode, htag, fun heq => hne (heq ▸ rfl), ⟨found, hrelease, hissued, hlinked, ?_⟩,
      rfl⟩
    rw [tag_link htag]
    exact hleads
  · rintro ⟨node, hnode, htag, hne, ⟨release, hrelease, hissued, hlinked, hleads⟩, rfl⟩
    refine ⟨(node, release), List.mem_flatMap.mpr ⟨(start, release),
      (mem_hub_releases h hstart hhub hkey).mpr ⟨rfl, hrelease, hissued, hlinked⟩, ?_⟩, rfl⟩
    refine List.mem_map_of_mem (List.mem_filter.mpr ⟨hnode, ?_⟩)
    rw [tag_link htag] at hleads
    rw [decide_eq_true_eq]
    exact ⟨htag, fun heid => hne (htyped.node_unique hnode hstart heid), hleads⟩

end Scans

/-! ## What the walk finds -/

section Walked

variable {graph : Graph} {start node : GraphNode} {answers : Answers} {entityId : String}

/-- What the walk finds of a label within two steps of a hub. -/
theorem mem_walk_eids (htyped : graph.Typed) (hanswers : answers.Of graph)
    (hstart : start ∈ graph.nodes) (hhub : start.kind.hub = true) {p : Kind → Bool}
    (hp : ∀ kind, p kind = true → kind.eligible = true) {eid : String} :
    eid ∈ ((bfs answers 2 start.start).filter fun item => p item.kind).map (·.eid) ↔
      ∃ node ∈ graph.nodes, node.eid = eid ∧ p node.kind = true ∧ node ≠ start ∧
        graph.Shares start node := by
  have hexact := bfs_sound 2 htyped hanswers hstart
  have hcomplete := bfs_complete 2 htyped hanswers hstart
  rw [List.mem_map]
  constructor
  · rintro ⟨item, hitem, rfl⟩
    obtain ⟨hitem, hkind⟩ := List.mem_filter.mp hitem
    obtain ⟨node, hnode, hshows⟩ := hexact item hitem
    rw [hshows.kind] at hkind
    obtain ⟨heligible, hne, hle, hdist⟩ :=
      (hcomplete node hnode item.dist).mp ⟨item, hitem, hshows.eid, rfl⟩
    exact ⟨node, hnode, hshows.eid.symm, hkind, hne,
      (near_two htyped hstart hhub hnode heligible hne).mp ⟨item.dist, hle, hdist⟩⟩
  · rintro ⟨node, hnode, rfl, hkind, hne, hshares⟩
    have heligible := hp node.kind hkind
    obtain ⟨d, hle, hdist⟩ := (near_two htyped hstart hhub hnode heligible hne).mpr hshares
    obtain ⟨item, hitem, heid, -⟩ := (hcomplete node hnode d).mpr ⟨heligible, hne, hle, hdist⟩
    obtain ⟨other, hother, hshows⟩ := hexact item hitem
    obtain rfl := htyped.node_unique hother hnode (hshows.eid.symm.trans heid)
    refine ⟨item, List.mem_filter.mpr ⟨hitem, ?_⟩, heid⟩
    rw [hshows.kind]
    exact hkind

/-- Everything that the walk finds from a hub is two steps away. -/
theorem walk_dist (htyped : graph.Typed) (hanswers : answers.Of graph)
    (hstart : start ∈ graph.nodes) (hhub : start.kind.hub = true) {item : Discovery}
    (hitem : item ∈ bfs answers 2 start.start) : item.dist = 2 := by
  have hexact := bfs_sound 2 htyped hanswers hstart
  have hcomplete := bfs_complete 2 htyped hanswers hstart
  obtain ⟨node, hnode, hshows⟩ := hexact item hitem
  obtain ⟨heligible, hne, hle, hdist⟩ :=
    (hcomplete node hnode item.dist).mp ⟨item, hitem, hshows.eid, rfl⟩
  have hfar : item.dist ≠ 0 := fun hzero =>
    hne (htyped.node_unique hnode hstart (dist_zero (hzero ▸ hdist)))
  have hfar' : item.dist ≠ 1 := by
    intro hone
    rw [hone] at hdist
    exact not_eligible_dist_one htyped hstart hhub hnode heligible hdist
  omega

/-- A part of a list of nodes has distinct element ids. -/
theorem Graph.Typed.eids_nodup (htyped : graph.Typed) (p : GraphNode → Bool) :
    ((graph.nodes.filter p).map (·.eid)).Nodup :=
  htyped.eids.sublist (List.filter_sublist.map _)

/-- The artists and labels of the walk are those of the scans before their limits. -/
theorem hub_acts_perm (htyped : graph.Typed) (hkeyed : graph.Keyed) (hanswers : answers.Of graph)
    (hstart : start ∈ graph.nodes) (hhub : start.kind.hub = true)
    (hkey : start.key = some entityId) :
    (((bfs answers 2 start.start).filter fun item => item.kind.act).map (·.eid)).Perm
      ((graph.hubArtists start.kind entityId ++ graph.hubLabels start.kind entityId).map
        (·.eid)) := by
  refine (List.perm_ext_iff_of_nodup ?_ ?_).mpr fun eid => ?_
  · exact (bfs_nodup 2 htyped hanswers hstart).sublist
      (List.filter_sublist.map _)
  · rw [List.map_append]
    refine List.nodup_append.mpr ⟨htyped.eids_nodup _, htyped.eids_nodup _, ?_⟩
    rintro _ hfirst _ hsecond rfl
    obtain ⟨artist, hartist, rfl⟩ := List.mem_map.mp hfirst
    obtain ⟨label, hlabel, heid⟩ := List.mem_map.mp hsecond
    obtain ⟨hnode, hkind, -⟩ := (mem_hub_artists hkeyed hstart hhub hkey).mp hartist
    obtain ⟨hother, hkind', -⟩ := (mem_hub_labels htyped hkeyed hstart hhub hkey).mp hlabel
    rw [htyped.node_unique hother hnode heid, hkind] at hkind'
    cases hkind'
  · rw [mem_walk_eids htyped hanswers hstart hhub fun _ => Kind.act_eligible, List.map_append,
      List.mem_append, List.mem_map, List.mem_map]
    constructor
    · rintro ⟨node, hnode, rfl, hact, hne, hshares⟩
      rcases Kind.act_iff.mp hact with hkind | hkind
      · exact Or.inl ⟨node, (mem_hub_artists hkeyed hstart hhub hkey).mpr ⟨hnode, hkind, hshares⟩,
          rfl⟩
      · exact Or.inr ⟨node, (mem_hub_labels htyped hkeyed hstart hhub hkey).mpr
          ⟨hnode, hkind, hne, hshares⟩, rfl⟩
    · rintro (⟨node, hnode, rfl⟩ | ⟨node, hnode, rfl⟩)
      · obtain ⟨hnode, hkind, hshares⟩ := (mem_hub_artists hkeyed hstart hhub hkey).mp hnode
        refine ⟨node, hnode, rfl, Kind.act_iff.mpr (Or.inl hkind), ?_, hshares⟩
        rintro rfl
        rw [hkind] at hhub
        cases hhub
      · obtain ⟨hnode, hkind, hne, hshares⟩ :=
          (mem_hub_labels htyped hkeyed hstart hhub hkey).mp hnode
        exact ⟨node, hnode, rfl, Kind.act_iff.mpr (Or.inr hkind), hne, hshares⟩

/-- The standing of the node with an element id. -/
def Graph.standingAt (graph : Graph) (eid : String) : Option Standing :=
  (graph.nodes.find? fun node => node.eid = eid).map graph.standing

theorem Graph.Typed.standing_at (htyped : graph.Typed) (hnode : node ∈ graph.nodes) :
    graph.standingAt node.eid = some (graph.standing node) := by
  rw [Graph.standingAt, htyped.find_node hnode, Option.map_some]

end Walked

/-! ## The two answers -/

theorem perm_of_map_some {α : Type} {l l' : List α} (h : (l.map some).Perm (l'.map some)) :
    l.Perm l' := by
  have hsome := h.filterMap id
  rw [List.filterMap_map, List.filterMap_map] at hsome
  simpa using hsome

section Answers

variable {graph : Graph} {start : GraphNode} {answers : Answers} {pops : Pops} {hub : HubAnswers}
  {entityId : String}

/-- The artists and labels that the walk finds. -/
abbrev walkedActs (answers : Answers) (start : GraphNode) : List Discovery :=
  (bfs answers 2 start.start).filter fun item => item.kind.act

/-- The dictionary of popularity of what the walk finds. -/
abbrev walkedPops (answers : Answers) (pops : Pops) (start : GraphNode) : List (String × Nat) :=
  pops ((walkedActs answers start).map (·.eid))

/-- An artist or label that the walk finds has the standing of its node. -/
theorem walked_standing (htyped : graph.Typed) (hcounted : graph.Counted)
    (hanswers : answers.Of graph) (hpops : pops.Of graph) (hstart : start ∈ graph.nodes)
    {item : Discovery} (hitem : item ∈ walkedActs answers start) :
    ∃ node ∈ graph.nodes, node.eid = item.eid ∧ node.kind.act = true ∧
      item.standing (walkedPops answers pops start) = graph.standing node := by
  obtain ⟨hmem, hact⟩ := List.mem_filter.mp hitem
  have hexact := bfs_sound 2 htyped hanswers hstart
  obtain ⟨node, hnode, hshows⟩ := hexact item hmem
  rw [hshows.kind] at hact
  have hasked : node.eid ∈ (walkedActs answers start).map (·.eid) :=
    hshows.eid ▸ List.mem_map_of_mem hitem
  obtain ⟨id, hid⟩ := hcounted.acts node hnode hact
  refine ⟨node, hnode, hshows.eid.symm, hact, ?_⟩
  have hkeyId : some node.keyId = node.id := by rw [GraphNode.keyId, hid]; rfl
  rw [Discovery.standing, Graph.standing, hshows.placeholder, hshows.kind, hshows.id, hshows.eid,
    pop_of_eq htyped hpops hnode hasked, hkeyId]

/-- The rows of the scans before their limits. -/
def Graph.hubRows (graph : Graph) (kind : Kind) (entityId : String) : List ActRow :=
  (graph.hubArtists kind entityId).map graph.artistRow ++
    (graph.hubLabels kind entityId).map (·.labelRow)

/-- The standings of the scans' rows are those of what the walk finds. -/
theorem standings_perm (htyped : graph.Typed) (hkeyed : graph.Keyed) (hcounted : graph.Counted)
    (hanswers : answers.Of graph) (hpops : pops.Of graph) (hstart : start ∈ graph.nodes)
    (hhub : start.kind.hub = true) (hkey : start.key = some entityId) :
    ((walkedActs answers start).map (·.standing (walkedPops answers pops start))).Perm
      ((graph.hubRows start.kind entityId).map (·.standing)) := by
  have hwalked : ((walkedActs answers start).map
      (·.standing (walkedPops answers pops start))).map some =
        ((walkedActs answers start).map (·.eid)).map graph.standingAt := by
    rw [List.map_map, List.map_map]
    refine List.map_congr_left fun item hitem => ?_
    obtain ⟨node, hnode, heid, -, hstanding⟩ :=
      walked_standing htyped hcounted hanswers hpops hstart hitem
    rw [Function.comp_apply, Function.comp_apply, hstanding, ← heid, htyped.standing_at hnode]
  have hartists : (((graph.hubArtists start.kind entityId).map graph.artistRow).map
      (·.standing)).map some =
        ((graph.hubArtists start.kind entityId).map (·.eid)).map graph.standingAt := by
    rw [List.map_map, List.map_map, List.map_map]
    refine List.map_congr_left fun node hmem => ?_
    obtain ⟨hnode, hkind, -⟩ := (mem_hub_artists hkeyed hstart hhub hkey).mp hmem
    simp only [Function.comp_apply, htyped.standing_at hnode, ActRow.standing, Graph.artistRow,
      Graph.standing, Graph.popularity, hkind, decide_true, Bool.and_true]
  have hlabels : (((graph.hubLabels start.kind entityId).map (·.labelRow)).map
      (·.standing)).map some =
        ((graph.hubLabels start.kind entityId).map (·.eid)).map graph.standingAt := by
    rw [List.map_map, List.map_map, List.map_map]
    refine List.map_congr_left fun node hmem => ?_
    obtain ⟨hnode, hkind, -⟩ := (mem_hub_labels htyped hkeyed hstart hhub hkey).mp hmem
    obtain ⟨count, hcount⟩ := hcounted.labels node hnode hkind
    simp [htyped.standing_at hnode, ActRow.standing, GraphNode.labelRow, Graph.standing,
      Graph.popularity, hkind, hcount]
  refine perm_of_map_some ?_
  rw [hwalked, Graph.hubRows, List.map_append, List.map_append, hartists, hlabels,
    ← List.map_append, ← List.map_append]
  exact (hub_acts_perm htyped hkeyed hanswers hstart hhub hkey).map graph.standingAt

/-- The key of a standing tells what the walk finds apart. -/
theorem standings_separate (htyped : graph.Typed) (hcounted : graph.Counted)
    (hanswers : answers.Of graph) (hpops : pops.Of graph) (hstart : start ∈ graph.nodes) :
    Separates Standing.key
      ((walkedActs answers start).map (·.standing (walkedPops answers pops start))) := by
  intro first hfirst second hsecond hkey
  obtain ⟨item, hitem, rfl⟩ := List.mem_map.mp hfirst
  obtain ⟨item', hitem', rfl⟩ := List.mem_map.mp hsecond
  obtain ⟨node, hnode, -, hact, hstanding⟩ :=
    walked_standing htyped hcounted hanswers hpops hstart hitem
  obtain ⟨other, hother, -, hact', hstanding'⟩ :=
    walked_standing htyped hcounted hanswers hpops hstart hitem'
  rw [hstanding, hstanding'] at hkey ⊢
  rw [Standing.key, Standing.key, EmbeddingLike.apply_eq_iff_eq, Prod.mk.injEq,
    EmbeddingLike.apply_eq_iff_eq, Prod.mk.injEq, Int.neg_inj, Int.natCast_inj] at hkey
  obtain ⟨hplaceholder, hpop, hid⟩ := hkey
  have hkind : node.kind = other.kind := by
    rcases Kind.act_iff.mp hact with hkind | hkind
    · rcases Kind.act_iff.mp hact' with hkind' | hkind'
      · rw [hkind, hkind']
      · exact absurd hpop (hcounted.apart node hnode other hother hkind hkind' hid)
    · rcases Kind.act_iff.mp hact' with hkind' | hkind'
      · exact absurd hpop.symm (hcounted.apart other hother node hnode hkind' hkind hid.symm)
      · rw [hkind, hkind']
  rw [Standing.mk.injEq]
  exact ⟨hplaceholder, hpop, hid, hkind⟩

/-- The artists and labels of both answers have the same standings in the same order. -/
theorem acts_agree (htyped : graph.Typed) (hkeyed : graph.Keyed) (hcounted : graph.Counted)
    (hanswers : answers.Of graph) (hpops : pops.Of graph) (hstart : start ∈ graph.nodes)
    (hhub : start.kind.hub = true) (hkey : start.key = some entityId)
    (hbuilt : hub.Of graph start.kind entityId) :
    ((sortBy (cutKey (walkedPops answers pops start)) (walkedActs answers start)).take
      artistLabelLimit).map (·.standing (walkedPops answers pops start)) =
        (hubActs hub).map (·.standing) := by
  have hperm := standings_perm htyped hkeyed hcounted hanswers hpops hstart hhub hkey
  have hseparates := standings_separate htyped hcounted hanswers hpops hstart
  have hwalked : Firsts Standing.key artistLabelLimit _
      (((sortBy (cutKey (walkedPops answers pops start)) (walkedActs answers start)).take
        artistLabelLimit).map (·.standing (walkedPops answers pops start))) :=
    (firsts_sort (cutKey (walkedPops answers pops start)) artistLabelLimit
      (walkedActs answers start)).map fun _ _ _ _ => standing_le
  have hscanned : Firsts Standing.key artistLabelLimit
      ((graph.hubRows start.kind entityId).map (·.standing))
      ((hubActs hub).map (·.standing)) :=
    (hbuilt.artists.append hbuilt.labels (firsts_sort actKey artistLabelLimit _)).map
      fun _ _ _ _ hle => hle
  rw [hwalked.eq_take ?_ hseparates, hscanned.eq_take ?_ (hseparates.of_perm hperm),
    sort_by_eq_of_perm hperm hseparates]
  · exact List.pairwise_map.mpr ((sort_by_sorted actKey _).sublist (List.take_sublist _ _))
  · exact List.pairwise_map.mpr
      (((sort_by_sorted (cutKey (walkedPops answers pops start)) _).sublist
        (List.take_sublist _ _)).imp standing_le)

/-- What the order of genres and styles reads. -/
def groupKey (group : Kind × Option String) : String ×ₗ WithTop String :=
  toLex (group.1.text, nullLast group.2)

theorem group_key_separates (groups : List (Kind × Option String)) : Separates groupKey groups := by
  rintro ⟨kind, name⟩ - ⟨kind', name'⟩ - hkey
  rw [groupKey, groupKey, EmbeddingLike.apply_eq_iff_eq, Prod.mk.injEq] at hkey
  obtain ⟨htext, hname⟩ := hkey
  rw [Prod.mk.injEq]
  exact ⟨Kind.text_injective htext, hname⟩

/-- The genres and styles that the walk finds. -/
abbrev walkedTags (answers : Answers) (start : GraphNode) : List Discovery :=
  (bfs answers 2 start.start).filter fun item => item.kind.tag

def Discovery.group (item : Discovery) : Kind × Option String := (item.kind, some item.name)

def TagRow.group (row : TagRow) : Kind × Option String := (row.kind, row.name)

theorem tag_rows_groups (graph : Graph) (kind : Kind) (entityId : String) :
    (graph.tagRows kind entityId).map (·.group) =
      ((graph.tagMatches kind entityId).map tagGroup).eraseDups := by
  rw [Graph.tagRows, List.map_map]
  exact List.map_id _

section

variable (htyped : graph.Typed) (hkeyed : graph.Keyed)
include htyped hkeyed

/-- A genre or style that the walk finds has the group of its node. -/
theorem walked_group (hanswers : answers.Of graph)
    (hstart : start ∈ graph.nodes) {item : Discovery} (hitem : item ∈ walkedTags answers start) :
    ∃ node ∈ graph.nodes, node.eid = item.eid ∧ node.kind.tag = true ∧
      item.group = (node.kind, node.name) := by
  obtain ⟨hmem, htag⟩ := List.mem_filter.mp hitem
  have hexact := bfs_sound 2 htyped hanswers hstart
  obtain ⟨node, hnode, hshows⟩ := hexact item hmem
  rw [hshows.kind] at htag
  obtain ⟨name, hname⟩ := hkeyed.named node hnode htag
  have hdisplay : some node.displayName = node.name := by
    rw [GraphNode.displayName, hname]
    rfl
  refine ⟨node, hnode, hshows.eid.symm, htag, ?_⟩
  rw [Discovery.group, hshows.kind, hshows.name, hdisplay]

/-- A genre or style that the walk finds is listed by its name. -/
theorem walked_tag_id (hcounted : graph.Counted)
    (hanswers : answers.Of graph) (hstart : start ∈ graph.nodes) {item : Discovery}
    (hitem : item ∈ walkedTags answers start) : item.id = item.name := by
  obtain ⟨hmem, htag⟩ := List.mem_filter.mp hitem
  have hexact := bfs_sound 2 htyped hanswers hstart
  obtain ⟨node, hnode, hshows⟩ := hexact item hmem
  rw [hshows.kind] at htag
  obtain ⟨name, hname⟩ := hkeyed.named node hnode htag
  rw [hshows.id, hshows.name, GraphNode.keyId, GraphNode.displayName,
    hcounted.tags node hnode htag, hname]
  rfl

theorem walked_groups_nodup (hanswers : answers.Of graph) (hstart : start ∈ graph.nodes) :
    ((walkedTags answers start).map (·.group)).Nodup := by
  have heids : ((walkedTags answers start).map (·.eid)).Nodup :=
    (bfs_nodup 2 htyped hanswers hstart).sublist (List.filter_sublist.map _)
  refine heids.of_map.map_on fun item hitem other hother heq => ?_
  obtain ⟨node, hnode, heid, htag, hgroup⟩ := walked_group htyped hkeyed hanswers hstart hitem
  obtain ⟨node', hnode', heid', -, hgroup'⟩ := walked_group htyped hkeyed hanswers hstart hother
  rw [hgroup, hgroup', Prod.mk.injEq] at heq
  obtain rfl := hkeyed.tags node hnode node' hnode' htag heq.1 heq.2
  exact List.inj_on_of_nodup_map heids hitem hother (heid.symm.trans heid')

/-- The genres and styles of both answers are the same. -/
theorem hub_tags_perm (hanswers : answers.Of graph)
    (hstart : start ∈ graph.nodes) (hhub : start.kind.hub = true)
    (hkey : start.key = some entityId) :
    ((walkedTags answers start).map (·.group)).Perm
      ((graph.tagRows start.kind entityId).map (·.group)) := by
  rw [tag_rows_groups]
  refine (List.perm_ext_iff_of_nodup
    (walked_groups_nodup htyped hkeyed hanswers hstart) (nodup_erase_dups _)).mpr fun group => ?_
  rw [List.mem_eraseDups, mem_tag_groups htyped hkeyed hstart hhub hkey, List.mem_map]
  constructor
  · rintro ⟨item, hitem, rfl⟩
    obtain ⟨node, hnode, heid, htag, hgroup⟩ := walked_group htyped hkeyed hanswers hstart hitem
    obtain ⟨other, hother, heid', -, hne, hshares⟩ :=
      (mem_walk_eids htyped hanswers hstart hhub fun _ => Kind.tag_eligible).mp
        (List.mem_map_of_mem hitem)
    obtain rfl := htyped.node_unique hother hnode (heid'.trans heid.symm)
    exact ⟨other, hnode, htag, hne, hshares, hgroup.symm⟩
  · rintro ⟨node, hnode, htag, hne, hshares, rfl⟩
    have hfound := (mem_walk_eids htyped hanswers hstart hhub fun _ => Kind.tag_eligible).mpr
      ⟨node, hnode, rfl, htag, hne, hshares⟩
    obtain ⟨item, hitem, heid⟩ := List.mem_map.mp hfound
    obtain ⟨other, hother, heid', -, hgroup⟩ := walked_group htyped hkeyed hanswers hstart hitem
    rw [htyped.node_unique hother hnode (heid'.trans heid)] at hgroup
    exact ⟨item, hitem, hgroup⟩

/-- The genres and styles of both answers are in the same order. -/
theorem tags_agree (hanswers : answers.Of graph)
    (hstart : start ∈ graph.nodes) (hhub : start.kind.hub = true)
    (hkey : start.key = some entityId) (hbuilt : hub.Of graph start.kind entityId) :
    (sortBy tagKey (walkedTags answers start)).map (·.group) =
      (sortBy tagRowKey hub.tags).map (·.group) := by
  have hperm : ((sortBy tagKey (walkedTags answers start)).map (·.group)).Perm
      ((sortBy tagRowKey hub.tags).map (·.group)) :=
    (((sort_by_perm _ _).map _).trans
      (hub_tags_perm htyped hkeyed hanswers hstart hhub hkey)).trans
        ((hbuilt.tags.symm.trans (sort_by_perm _ _).symm).map _)
  have hfirst : ((sortBy tagKey (walkedTags answers start)).map (·.group)).Pairwise
      fun group other => groupKey group ≤ groupKey other := by
    refine List.pairwise_map.mpr ((sort_by_sorted tagKey _).imp_of_mem ?_)
    intro item other hitem hother hle
    have hdist := walk_dist htyped hanswers hstart hhub
      (List.mem_of_mem_filter (mem_sort_by.mp hitem))
    have hdist' := walk_dist htyped hanswers hstart hhub
      (List.mem_of_mem_filter (mem_sort_by.mp hother))
    rw [tagKey, tagKey, hdist, hdist', Prod.Lex.toLex_le_toLex] at hle
    have hnames := (hle.resolve_left (lt_irrefl _)).2
    rw [Prod.Lex.toLex_le_toLex] at hnames
    rw [groupKey, groupKey, Prod.Lex.toLex_le_toLex]
    rcases hnames with hlt | ⟨heq, hle⟩
    · exact Or.inl hlt
    · exact Or.inr ⟨heq, null_last_le.mpr hle⟩
  have hsecond : ((sortBy tagRowKey hub.tags).map (·.group)).Pairwise
      fun group other => groupKey group ≤ groupKey other :=
    List.pairwise_map.mpr (sort_by_sorted tagRowKey _)
  refine List.Perm.eq_of_pairwise (fun group other _ _ hle hge => ?_) hfirst hsecond hperm
  exact group_key_separates [group, other] group List.mem_cons_self other
    (List.mem_cons_of_mem _ List.mem_cons_self) (le_antisymm hle hge)

end

/-- The walk finds more than a hundred artists and labels when so many are two steps away. -/
theorem walked_acts_many (htyped : graph.Typed) (hanswers : answers.Of graph)
    (hstart : start ∈ graph.nodes) {n : Nat}
    (hmany : n < {eid | ∃ node ∈ graph.nodes, node.eid = eid ∧ node.kind.act = true ∧
      Dist graph.step start.eid 2 eid}.ncard) : n < (walkedActs answers start).length := by
  have hexact := bfs_sound 2 htyped hanswers hstart
  have hcomplete := bfs_complete 2 htyped hanswers hstart
  refine lt_of_lt_of_le hmany ?_
  calc Set.ncard _
    _ ≤ Set.ncard (((walkedActs answers start).map (·.eid)).toFinset : Set String) := by
        refine Set.ncard_le_ncard ?_ (Finset.finite_toSet _)
        rintro eid ⟨node, hnode, rfl, hact, hdist⟩
        have hne : node ≠ start := by
          rintro rfl
          exact absurd (hdist.unique dist_start) (by decide)
        obtain ⟨item, hitem, heid, -⟩ :=
          (hcomplete node hnode 2).mpr ⟨Kind.act_eligible hact, hne, le_rfl, hdist⟩
        obtain ⟨other, hother, hshows⟩ := hexact item hitem
        obtain rfl := htyped.node_unique hother hnode (hshows.eid.symm.trans heid)
        rw [Finset.mem_coe, List.mem_toFinset, ← heid]
        refine List.mem_map_of_mem (List.mem_filter.mpr ⟨hitem, ?_⟩)
        rw [hshows.kind]
        exact hact
    _ = ((walkedActs answers start).map (·.eid)).toFinset.card := Set.ncard_coe_finset _
    _ ≤ ((walkedActs answers start).map (·.eid)).length := List.toFinset_card_le _
    _ = (walkedActs answers start).length := List.length_map _

end Answers

/-- Where an answer lists a node: its type, its id and its distance. -/
def AnswerRow.place (row : AnswerRow) : String × Option String × Nat := (row.type, row.id, row.dist)

/-- A genre, style or label with more than a hundred artists and labels two steps away has the same
sequence of types, ids and distances in its stored answer as in the selection from the walk,
whatever order the queries return their rows in and whichever rows they keep of a tie. -/
theorem built_as_walked (graph : Graph) (answers : Answers) (pops : Pops) (hub : HubAnswers)
    (start : GraphNode) (entityId name : String) (htyped : graph.Typed) (hkeyed : graph.Keyed)
    (hcounted : graph.Counted) (hanswers : answers.Of graph) (hpops : pops.Of graph)
    (hstart : start ∈ graph.nodes) (hhub : start.kind.hub = true)
    (hkey : start.key = some entityId) (hbuilt : hub.Of graph start.kind entityId)
    (hmany : 100 < {eid | ∃ node ∈ graph.nodes, node.eid = eid ∧ node.kind.act = true ∧
      Dist graph.step start.eid 2 eid}.ncard) :
    (buildHub hub start.kind name).map (·.place) =
      (select pops (bfs answers 2 start.start)).map (·.place) := by
  have hlong := walked_acts_many htyped hanswers hstart hmany
  obtain ⟨_, rfl, hselect⟩ := select_one_tier pops
    (fun item hitem => walk_dist htyped hanswers hstart hhub hitem) hlong
  have htags : (sortBy tagKey (walkedTags answers start)).map (·.row.place) =
      (sortBy tagRowKey hub.tags).map fun row => (row.answer start.kind name).place := by
    have hgroup : (sortBy tagKey (walkedTags answers start)).map (·.row.place) =
        ((sortBy tagKey (walkedTags answers start)).map (·.group)).map fun group =>
          (group.1.outputType, group.2, 2) := by
      rw [List.map_map]
      refine List.map_congr_left fun item hitem => ?_
      rw [mem_sort_by] at hitem
      have hdist := walk_dist htyped hanswers hstart hhub (List.mem_of_mem_filter hitem)
      have hid := walked_tag_id htyped hkeyed hcounted hanswers hstart hitem
      simp [AnswerRow.place, Discovery.row, Discovery.group, hdist, hid]
    rw [hgroup, tags_agree htyped hkeyed hanswers hstart hhub hkey hbuilt, List.map_map]
    rfl
  have hacts : ((sortBy (cutKey (walkedPops answers pops start)) (walkedActs answers start)).take
      artistLabelLimit).map (·.row.place) =
        (hubActs hub).map fun row => (actAnswer hub start.kind name row).place := by
    have hstanding : ((sortBy (cutKey (walkedPops answers pops start))
        (walkedActs answers start)).take artistLabelLimit).map (·.row.place) =
          (((sortBy (cutKey (walkedPops answers pops start)) (walkedActs answers start)).take
            artistLabelLimit).map (·.standing (walkedPops answers pops start))).map fun standing =>
              (standing.kind.outputType, standing.id, 2) := by
      rw [List.map_map]
      refine List.map_congr_left fun item hitem => ?_
      have hmem := mem_sort_by.mp (List.mem_of_mem_take hitem)
      have hdist := walk_dist htyped hanswers hstart hhub (List.mem_of_mem_filter hmem)
      simp [AnswerRow.place, Discovery.row, Discovery.standing, hdist]
    rw [hstanding, acts_agree htyped hkeyed hcounted hanswers hpops hstart hhub hkey hbuilt,
      List.map_map]
    rfl
  rw [hselect, buildHub, List.map_append, List.map_append, List.map_append, List.map_map,
    List.map_map, List.map_map, List.map_map]
  exact congrArg₂ (· ++ ·) htags.symm hacts.symm

/-! ## A release of many artists -/

/-- The element id, name and id of an artist. -/
def crowdName (i : Nat) : String := String.ofList (List.replicate (i + 1) 'x')

def crowdArtist (i : Nat) : GraphNode :=
  ⟨crowdName i, .artist, some (crowdName i), none, some (crowdName i), none⟩

def rock : GraphNode := ⟨"G", .genre, some "Rock", none, none, some 1⟩

/-- A release of a genre by 101 artists. -/
def crowded : Graph :=
  { nodes := rock :: ⟨"R", .release, none, some "Session", some "10", none⟩ ::
      (List.range 101).map crowdArtist
    edges := ⟨"R", .isOf, "G"⟩ :: (List.range 101).map fun i => ⟨"R", .byArtist, crowdName i⟩ }

theorem crowd_name_list (i : Nat) : (crowdName i).toList = List.replicate (i + 1) 'x' := by
  simp [crowdName]

theorem crowd_name_injective : Function.Injective crowdName := by
  intro i j h
  have hlength := congrArg (fun text => text.toList.length) h
  simpa [crowd_name_list] using hlength

theorem crowd_name_ne {i : Nat} {text : String} (h : 'x' ∉ text.toList) : text ≠ crowdName i := by
  rintro rfl
  rw [crowd_name_list] at h
  exact h (List.mem_replicate.mpr ⟨by omega, rfl⟩)

theorem mem_crowded {i : Nat} (hi : i < 101) : crowdArtist i ∈ crowded.nodes :=
  List.mem_cons_of_mem _ (List.mem_cons_of_mem _ (List.mem_map_of_mem (List.mem_range.mpr hi)))

theorem crowded_typed : crowded.Typed where
  eids := by
    have hcrowd : ((List.range 101).map crowdName).Nodup :=
      List.nodup_range.map crowd_name_injective
    have hother : ∀ text : String, 'x' ∉ text.toList → text ∉ (List.range 101).map crowdName := by
      intro text hx hmem
      obtain ⟨i, -, rfl⟩ := List.mem_map.mp hmem
      exact crowd_name_ne hx rfl
    have heids : crowded.nodes.map (·.eid) = "G" :: "R" :: (List.range 101).map crowdName := by
      simp [crowded, rock, crowdArtist]
    rw [heids, List.nodup_cons, List.nodup_cons, List.mem_cons, not_or]
    exact ⟨⟨by decide, hother "G" (by decide)⟩, hother "R" (by decide), hcrowd⟩
  edges := by
    intro edge hedge
    rcases List.mem_cons.mp hedge with rfl | hedge
    · exact ⟨_, List.mem_cons_of_mem _ List.mem_cons_self, _, List.mem_cons_self, rfl, rfl,
        by decide⟩
    · obtain ⟨i, hi, rfl⟩ := List.mem_map.mp hedge
      exact ⟨_, List.mem_cons_of_mem _ List.mem_cons_self, _,
        mem_crowded (List.mem_range.mp hi), rfl, rfl, Or.inl rfl, rfl⟩

/-- The nodes are the genre, the release and the artists. -/
theorem crowded_cases {node : GraphNode} (h : node ∈ crowded.nodes) :
    node = rock ∨ node.kind = .release ∨ ∃ i < 101, node = crowdArtist i := by
  rcases List.mem_cons.mp h with rfl | h
  · exact Or.inl rfl
  rcases List.mem_cons.mp h with rfl | h
  · exact Or.inr (Or.inl rfl)
  obtain ⟨i, hi, rfl⟩ := List.mem_map.mp h
  exact Or.inr (Or.inr ⟨i, List.mem_range.mp hi, rfl⟩)

theorem crowded_tag {node : GraphNode} (h : node ∈ crowded.nodes) (htag : node.kind.tag = true) :
    node = rock := by
  rcases crowded_cases h with rfl | hkind | ⟨i, -, rfl⟩
  · rfl
  · rw [hkind] at htag
    cases htag
  · cases htag

theorem crowded_no_label {node : GraphNode} (h : node ∈ crowded.nodes) : node.kind ≠ .label := by
  rcases crowded_cases h with rfl | hkind | ⟨i, -, rfl⟩
  · exact nofun
  · rw [hkind]
    exact nofun
  · exact nofun

theorem crowded_keyed : crowded.Keyed where
  named node hnode htag := by
    rw [crowded_tag hnode htag]
    exact ⟨_, rfl⟩
  tags node hnode other hother htag hkind _ := by
    rw [crowded_tag hnode htag, crowded_tag hother (hkind ▸ htag)]
  labels node hnode _ _ hkind := absurd hkind (crowded_no_label hnode)

theorem crowded_counted : crowded.Counted where
  tags node hnode htag := by
    rw [crowded_tag hnode htag]
    rfl
  acts node hnode hact := by
    rcases crowded_cases hnode with rfl | hkind | ⟨i, -, rfl⟩
    · cases hact
    · rw [hkind] at hact
      cases hact
    · exact ⟨_, rfl⟩
  labels node hnode hkind := absurd hkind (crowded_no_label hnode)
  apart _ _ label hlabel _ hkind := absurd hkind (crowded_no_label hlabel)

/-- All the artists are two steps from the genre. -/
theorem crowded_many : 100 < {eid | ∃ node ∈ crowded.nodes, node.eid = eid ∧
    node.kind.act = true ∧ Dist crowded.step rock.eid 2 eid}.ncard := by
  have hfinite : {eid | ∃ node ∈ crowded.nodes, node.eid = eid ∧ node.kind.act = true ∧
      Dist crowded.step rock.eid 2 eid}.Finite := by
    refine (Finset.finite_toSet (crowded.nodes.map (·.eid)).toFinset).subset ?_
    rintro eid ⟨node, hnode, rfl, -⟩
    exact List.mem_toFinset.mpr (List.mem_map_of_mem hnode)
  have hcard : ((Finset.range 101).image crowdName).card = 101 := by
    rw [Finset.card_image_of_injective _ crowd_name_injective, Finset.card_range]
  have hsub : (((Finset.range 101).image crowdName : Finset String) : Set String) ⊆
      {eid | ∃ node ∈ crowded.nodes, node.eid = eid ∧ node.kind.act = true ∧
        Dist crowded.step rock.eid 2 eid} := by
    intro eid heid
    obtain ⟨i, hi, rfl⟩ := Finset.mem_image.mp heid
    have hnode := mem_crowded (Finset.mem_range.mp hi)
    have hne : crowdArtist i ≠ rock := fun heq => nomatch congrArg GraphNode.kind heq
    refine ⟨crowdArtist i, hnode, rfl, rfl, ?_⟩
    refine dist_two_of_shares crowded_typed List.mem_cons_self rfl hnode rfl hne ?_
    refine ⟨_, List.mem_cons_of_mem _ List.mem_cons_self, rfl, decide_eq_true List.mem_cons_self,
      decide_eq_true (List.mem_cons_of_mem _ ?_)⟩
    exact List.mem_map_of_mem (List.mem_range.mpr (Finset.mem_range.mp hi))
  refine lt_of_lt_of_le ?_ (Set.ncard_le_ncard hsub hfinite)
  rw [Set.ncard_coe_finset, hcard]
  decide

/-- The scans that return their rows in the order of the graph, or of their keys. -/
def scanned (graph : Graph) (kind : Kind) (entityId : String) : HubAnswers :=
  { tags := graph.tagRows kind entityId
    artists := (sortBy actKey ((graph.hubArtists kind entityId).map graph.artistRow)).take
      artistLabelLimit
    labels := (sortBy actKey ((graph.hubLabels kind entityId).map (·.labelRow))).take
      artistLabelLimit
    witnesses := graph.witnessRows kind entityId }

theorem scanned_of (graph : Graph) (kind : Kind) (entityId : String) :
    (scanned graph kind entityId).Of graph kind entityId where
  tags := List.Perm.refl _
  artists := firsts_sort actKey _ _
  labels := firsts_sort actKey _ _
  witnesses _ _ := List.Perm.refl _

theorem pops_in_order (graph : Graph) : Pops.Of graph.popularityRows graph :=
  fun _ => List.Perm.refl _

theorem crowded_built :
    (buildHub (scanned crowded .genre "Rock") .genre "Rock").map (·.place) =
      (select crowded.popularityRows (bfs (inOrder crowded) 2 rock.start)).map (·.place) :=
  built_as_walked crowded (inOrder crowded) crowded.popularityRows (scanned crowded .genre "Rock")
    rock "Rock" "Rock" crowded_typed crowded_keyed crowded_counted (in_order crowded)
    (pops_in_order crowded) List.mem_cons_self rfl rfl (scanned_of crowded .genre "Rock")
    crowded_many

end CatalogApi.Explore
