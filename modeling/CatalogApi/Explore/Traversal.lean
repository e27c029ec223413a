import CatalogApi.Explore.Built

/-!
# Genres and styles from an entity

`get_explore_traversal` of `api/explore_discovery.py`, with what is stored for a hub as a parameter.
A walk returns every genre and style within the hops. A hub answers three hops with what is within
two, so it leaves out a genre or style of another pressing's master (or of another pressing of the
master) that none of its own releases and masters has (`traversal_complete_iff`).
-/

namespace CatalogApi.Explore

open ByKey ShortestPaths

/-- `_ALLOWED`. -/
def allowed : String → Option Kind
  | "genre" => some .genre
  | "style" => some .style
  | "artist" => some .artist
  | "label" => some .label
  | "release" => some .release
  | "master" => some .master
  | _ => none

/-- `HUB_MIN_RELEASES`. -/
def hubMinReleases : Nat := 50000

/-- The node of `_find_start`. -/
def Graph.findStart (graph : Graph) (kind : Kind) (entityId : String) : Option GraphNode :=
  graph.nodes.find? fun node => node.kind = kind ∧ node.key = some entityId

/-- The `releases` of `_find_start`. -/
def GraphNode.releases (node : GraphNode) : Nat :=
  if node.kind.hub then node.releaseCount.getD 0 else 0

inductive TraversalError where
  /-- `HubNotReadyError`. -/
  | hubNotReady
  deriving DecidableEq

/-- `get_explore_traversal`, given what `_hub_result` finds of the entity. -/
def getExploreTraversal (graph : Graph) (answers : Answers) (pops : Pops)
    (stored : Option (List AnswerRow)) (entityType entityId : String) (hops : Int) :
    Except TraversalError (List AnswerRow) :=
  let hops := if 1 ≤ hops ∧ hops ≤ 3 then hops.toNat else 2
  match allowed entityType with
  | none => .ok []
  | some kind =>
      match graph.findStart kind entityId with
      | none => .ok []
      | some start =>
          if kind.hub ∧ hubMinReleases ≤ start.releases then
            if hops = 1 then .ok []
            else
              match stored with
              | none => .error .hubNotReady
              | some rows => .ok rows
          else .ok (select pops (bfs answers hops start.start))

/-- An answer lists a genre or style. -/
def Returned (rows : List AnswerRow) (node : GraphNode) : Prop :=
  ∃ row ∈ rows, row.type = node.kind.outputType ∧ row.name = some node.displayName

/-- An answer lists every genre and style other than the start within the hops. -/
def TagsComplete (graph : Graph) (start : GraphNode) (hops : Nat) (rows : List AnswerRow) : Prop :=
  ∀ node ∈ graph.nodes, node.kind.tag = true → node ≠ start →
    (∃ d ≤ hops, Dist graph.step start.eid d node.eid) → Returned rows node

/-- The start is a hub. -/
def GraphNode.isHub (node : GraphNode) : Prop :=
  node.kind.hub = true ∧ hubMinReleases ≤ node.releaseCount.getD 0

/-- The genres and styles of a release or master that `DERIVED_FROM` joins to one of the start are
the start or genres and styles of a release or master of the start. -/
def Graph.Covers (graph : Graph) (start : GraphNode) : Prop :=
  ∀ release ∈ graph.nodes, release.issued = true →
    graph.leads release.eid start.kind.linkRel start.eid = true →
    ∀ far ∈ graph.nodes, far.issued = true → graph.joins release.eid .derivedFrom far.eid = true →
    ∀ node ∈ graph.nodes, node.kind.tag = true → graph.leads far.eid .isOf node.eid = true →
      node = start ∨ graph.Shares start node

section Three

variable {graph : Graph} {start node release far : GraphNode} {rel : Rel}

/-- Releases and masters are joined by `DERIVED_FROM` alone. -/
theorem Graph.Typed.joins_both_issued (h : graph.Typed) (hrelease : release ∈ graph.nodes)
    (hfar : far ∈ graph.nodes) (hissued : release.issued = true) (hfarIssued : far.issued = true)
    (hjoins : graph.joins release.eid rel far.eid = true) : rel = .derivedFrom := by
  rw [GraphNode.issued_iff] at hissued hfarIssued
  have hone : ∀ source target : Kind, (source = .release ∨ source = .master) →
      (target = .release ∨ target = .master) → rel.Admits source target → rel = .derivedFrom := by
    intro source target hsource htarget hadmits
    cases rel with
    | derivedFrom => rfl
    | byArtist =>
        rw [hadmits.2] at htarget
        simp at htarget
    | onLabel =>
        rw [hadmits.2] at htarget
        simp at htarget
    | isOf =>
        rcases hadmits.2 with hkind | hkind
        · rw [hkind] at htarget
          simp at htarget
        · rw [hkind] at htarget
          simp at htarget
    | aliasOf =>
        rw [hadmits.2] at htarget
        simp at htarget
    | memberOf =>
        rw [hadmits.2] at htarget
        simp at htarget
  rcases joins_iff.mp hjoins with hleads | hleads
  · exact hone _ _ hissued hfarIssued (h.admits hrelease hfar hleads)
  · exact hone _ _ hfarIssued hissued (h.admits hfar hrelease hleads)

/-- A genre or style within three steps of a hub is within two, or of a release or master derived
from one of the hub or that one of the hub derives from. -/
theorem near_three (htyped : graph.Typed) (hstart : start ∈ graph.nodes)
    (hhub : start.kind.hub = true) (hnode : node ∈ graph.nodes) (htag : node.kind.tag = true)
    (hne : node ≠ start) :
    (∃ d ≤ 3, Dist graph.step start.eid d node.eid) ↔ graph.Shares start node ∨
      ∃ release ∈ graph.nodes, release.issued = true ∧
        graph.leads release.eid start.kind.linkRel start.eid = true ∧
        ∃ far ∈ graph.nodes, far.issued = true ∧
          graph.joins release.eid .derivedFrom far.eid = true ∧
          graph.leads far.eid .isOf node.eid = true := by
  have heligible := Kind.tag_eligible htag
  have hnodeHub : node.kind.hub = true := by rw [Kind.hub, htag, Bool.true_or]
  constructor
  · rintro ⟨d, hle, hdist⟩
    rcases Nat.lt_or_ge d 3 with hlt | hge
    · exact Or.inl ((near_two htyped hstart hhub hnode heligible hne).mp ⟨d, by omega, hdist⟩)
    obtain rfl : d = 3 := by omega
    obtain ⟨⟨up, rel, hup, hstep⟩, -⟩ := dist_succ_iff.mp hdist
    obtain ⟨⟨up', rel', hup', hstep'⟩, -⟩ := dist_succ_iff.mp hup
    obtain ⟨release, hrelease, rfl, hissued, hleads⟩ := dist_one_hub htyped hstart hhub hup'
    have hback : graph.joins node.eid rel up = true := joins_comm.trans hstep
    obtain ⟨far, hfar, rfl, hfarIssued⟩ := htyped.hub_joined hnode hnodeHub hback
    obtain rfl := htyped.joins_both_issued hrelease hfar hissued hfarIssued hstep'
    have hlink := ((htyped.joins_issued hfar hfarIssued hnode heligible).mp hstep).2
    rw [tag_link htag] at hlink
    exact Or.inr ⟨release, hrelease, hissued, hleads, far, hfar, hfarIssued, hstep', hlink⟩
  · rintro (hshares | ⟨release, -, -, hleads, far, -, -, hjoins, hlink⟩)
    · obtain ⟨d, hle, hdist⟩ := (near_two htyped hstart hhub hnode heligible hne).mpr hshares
      exact ⟨d, by omega, hdist⟩
    · have hfirst : graph.step start.eid start.kind.linkRel release.eid :=
        joins_iff.mpr (Or.inr hleads)
      have hlast : graph.step far.eid .isOf node.eid := joins_iff.mpr (Or.inl hlink)
      exact dist_of_path (((Path.nil.snoc hfirst).snoc hjoins).snoc hlast)

end Three

/-! ## The two paths of an answer -/

section Paths

variable {graph : Graph} {start node : GraphNode} {answers : Answers} {pops : Pops} {hops : Nat}
  {hub : HubAnswers} {entityId name : String}

/-- The selection from a walk lists every genre and style within the hops. -/
theorem walk_complete (htyped : graph.Typed) (hanswers : answers.Of graph)
    (hstart : start ∈ graph.nodes) :
    TagsComplete graph start hops (select pops (bfs answers hops start.start)) := by
  rintro node hnode htag hne ⟨d, hle, hdist⟩
  have hexact := bfs_sound hops htyped hanswers hstart
  have hcomplete := bfs_complete hops htyped hanswers hstart
  obtain ⟨item, hitem, heid, -⟩ :=
    (hcomplete node hnode d).mpr ⟨Kind.tag_eligible htag, hne, hle, hdist⟩
  obtain ⟨other, hother, hshows⟩ := hexact item hitem
  obtain rfl := htyped.node_unique hother hnode (hshows.eid.symm.trans heid)
  refine ⟨item.row, tag_selected pops hitem (hshows.kind ▸ htag), ?_, ?_⟩
  · rw [← hshows.kind]
    rfl
  · rw [← hshows.name]
    rfl

/-- The artists and labels of a stored answer. -/
theorem hub_act_kind (hbuilt : hub.Of graph start.kind entityId) {row : ActRow}
    (hrow : row ∈ hubActs hub) : row.kind.act = true := by
  have hmem := mem_sort_by.mp (List.mem_of_mem_take hrow)
  rcases List.mem_append.mp hmem with hmem | hmem
  · obtain ⟨artist, -, rfl⟩ := List.mem_map.mp (hbuilt.artists.mem hmem)
    rfl
  · obtain ⟨label, -, rfl⟩ := List.mem_map.mp (hbuilt.labels.mem hmem)
    rfl

section

variable (htyped : graph.Typed) (hkeyed : graph.Keyed) (hstart : start ∈ graph.nodes)
  (hhub : start.kind.hub = true) (hkey : start.key = some entityId)
  (hbuilt : hub.Of graph start.kind entityId)
include htyped hkeyed hstart hhub hkey hbuilt

/-- The genres and styles of a stored answer. -/
theorem mem_hub_tags {group : Kind × Option String} :
    (∃ row ∈ hub.tags, row.group = group) ↔ ∃ node ∈ graph.nodes, node.kind.tag = true ∧
      node ≠ start ∧ graph.Shares start node ∧ (node.kind, node.name) = group := by
  rw [← mem_tag_groups htyped hkeyed hstart hhub hkey, ← List.mem_eraseDups, ← tag_rows_groups,
    List.mem_map]
  refine exists_congr fun row => and_congr_left fun _ => ?_
  exact hbuilt.tags.mem_iff

/-- The stored answer of a hub lists a genre or style that shares a release or master with it, and
no other. -/
theorem built_returned_iff (hnode : node ∈ graph.nodes) (htag : node.kind.tag = true)
    (hne : node ≠ start) :
    Returned (buildHub hub start.kind name) node ↔ graph.Shares start node := by
  obtain ⟨text, htext⟩ := hkeyed.named node hnode htag
  have hdisplay : some node.displayName = node.name := by
    rw [GraphNode.displayName, htext]
    rfl
  constructor
  · rintro ⟨row, hrow, htype, hname⟩
    rw [hdisplay] at hname
    rcases List.mem_append.mp hrow with hrow | hrow
    · obtain ⟨tag, htagRow, rfl⟩ := List.mem_map.mp hrow
      obtain ⟨other, hother, hotherTag, -, hshares, hgroup⟩ :=
        (mem_hub_tags htyped hkeyed hstart hhub hkey hbuilt).mp
          ⟨tag, mem_sort_by.mp htagRow, rfl⟩
      rw [TagRow.group, Prod.mk.injEq] at hgroup
      have hkind : other.kind = node.kind :=
        hgroup.1.trans (Kind.output_type_injective htype)
      rw [← hkeyed.tags other hother node hnode hotherTag hkind (hgroup.2.trans hname)]
      exact hshares
    · obtain ⟨act, hact, rfl⟩ := List.mem_map.mp hrow
      have hactKind := hub_act_kind hbuilt hact
      have hkind : act.kind = node.kind := Kind.output_type_injective htype
      rcases Kind.act_iff.mp hactKind with hartist | hlabel
      · rw [← hkind, hartist] at htag
        cases htag
      · rw [← hkind, hlabel] at htag
        cases htag
  · intro hshares
    obtain ⟨row, hrow, hgroup⟩ := (mem_hub_tags htyped hkeyed hstart hhub hkey hbuilt).mpr
      ⟨node, hnode, htag, hne, hshares, rfl⟩
    rw [TagRow.group, Prod.mk.injEq] at hgroup
    refine ⟨row.answer start.kind name, List.mem_append_left _ (List.mem_map_of_mem
      (mem_sort_by.mpr hrow)), ?_, hgroup.2.trans hdisplay.symm⟩
    rw [← hgroup.1]
    rfl

/-- The stored answer of a hub lists every genre and style within two steps. -/
theorem built_complete_two :
    TagsComplete graph start 2 (buildHub hub start.kind name) := by
  intro node hnode htag hne hnear
  refine (built_returned_iff htyped hkeyed hstart hhub hkey hbuilt hnode htag hne).mpr ?_
  exact (near_two htyped hstart hhub hnode (Kind.tag_eligible htag) hne).mp hnear

/-- It lists every genre and style within three steps exactly when no pressing beyond the hub's own
has another. -/
theorem built_complete_three :
    TagsComplete graph start 3 (buildHub hub start.kind name) ↔ graph.Covers start := by
  constructor
  · intro hcomplete release hrelease hissued hleads far hfar hfarIssued hjoins node hnode htag hlink
    by_cases hne : node = start
    · exact Or.inl hne
    · have hnear := (near_three htyped hstart hhub hnode htag hne).mpr
        (Or.inr ⟨release, hrelease, hissued, hleads, far, hfar, hfarIssued, hjoins, hlink⟩)
      have hreturned := hcomplete node hnode htag hne hnear
      exact Or.inr
        ((built_returned_iff htyped hkeyed hstart hhub hkey hbuilt hnode htag hne).mp hreturned)
  · intro hcovers node hnode htag hne hnear
    refine (built_returned_iff htyped hkeyed hstart hhub hkey hbuilt hnode htag hne).mpr ?_
    rcases (near_three htyped hstart hhub hnode htag hne).mp hnear with
      hshares | ⟨release, hrelease, hissued, hleads, far, hfar, hfarIssued, hjoins, hlink⟩
    · exact hshares
    · exact (hcovers release hrelease hissued hleads far hfar hfarIssued hjoins node hnode htag
        hlink).resolve_left hne

end

end Paths

/-- Whatever order the queries return their rows in, an answer within two or three steps lists every
genre and style so near exactly when the start is no hub, or the steps are two, or each genre and
style of a release or master that `DERIVED_FROM` joins to one of the hub is the hub or a genre or
style of a release or master of the hub. -/
theorem traversal_complete_iff (graph : Graph) (answers : Answers) (pops : Pops) (hub : HubAnswers)
    (kind : Kind) (entityType entityId name : String) (hops : Nat) (start : GraphNode)
    (htyped : graph.Typed) (hkeyed : graph.Keyed) (hanswers : answers.Of graph)
    (hallowed : allowed entityType = some kind)
    (hfound : graph.findStart kind entityId = some start) (hhops : hops = 2 ∨ hops = 3)
    (hbuilt : start.isHub → hub.Of graph kind entityId) :
    (∃ rows, getExploreTraversal graph answers pops (some (buildHub hub kind name)) entityType
        entityId hops = .ok rows ∧ TagsComplete graph start hops rows) ↔
      (start.isHub → hops = 3 → graph.Covers start) := by
  have hstart : start ∈ graph.nodes := List.mem_of_find?_eq_some hfound
  obtain ⟨rfl, hkey⟩ : start.kind = kind ∧ start.key = some entityId := by
    simpa using List.find?_some hfound
  have hsteps : (if 1 ≤ (hops : Int) ∧ (hops : Int) ≤ 3 then (hops : Int).toNat else 2) = hops := by
    rw [if_pos (by omega), Int.toNat_natCast]
  simp only [getExploreTraversal, hsteps, hallowed, hfound]
  by_cases hhub : start.isHub
  · have hreleases : start.kind.hub = true ∧ hubMinReleases ≤ start.releases := by
      rw [GraphNode.releases, if_pos hhub.1]
      exact hhub
    have hone : hops ≠ 1 := by omega
    simp only [if_pos hreleases, if_neg hone, Except.ok.injEq, exists_eq_left']
    rcases hhops with rfl | rfl
    · have htwo : TagsComplete graph start 2 (buildHub hub start.kind name) :=
        built_complete_two htyped hkeyed hstart hhub.1 hkey (hbuilt hhub)
      simp [htwo]
    · rw [built_complete_three htyped hkeyed hstart hhub.1 hkey (hbuilt hhub)]
      simp [hhub]
  · have hreleases : ¬(start.kind.hub = true ∧ hubMinReleases ≤ start.releases) := by
      rintro ⟨hkind, hmany⟩
      rw [GraphNode.releases, if_pos hkind] at hmany
      exact hhub ⟨hkind, hmany⟩
    have hwalk : TagsComplete graph start hops (select pops (bfs answers hops start.start)) :=
      walk_complete htyped hanswers hstart
    simp only [if_neg hreleases, Except.ok.injEq, exists_eq_left']
    simp [hwalk, hhub]

/-- A genre of 50,000 releases. -/
def rockHub : GraphNode := ⟨"G", .genre, some "Rock", none, none, some 50000⟩

def punk : GraphNode := ⟨"S", .style, some "Punk", none, none, some 1⟩

/-- A release of the genre derived from a master of a style. -/
def derived : Graph :=
  { nodes :=
      [rockHub, ⟨"R", .release, none, some "First", some "10", none⟩,
       ⟨"M", .master, none, some "Whole", some "20", none⟩, punk]
    edges := [⟨"R", .isOf, "G"⟩, ⟨"R", .derivedFrom, "M"⟩, ⟨"M", .isOf, "S"⟩] }

theorem derived_typed : derived.Typed where
  eids := by decide
  edges := by decide

theorem derived_keyed : derived.Keyed where
  named node hnode htag := by
    simp only [derived, List.mem_cons, List.not_mem_nil, or_false] at hnode
    rcases hnode with rfl | rfl | rfl | rfl
    · exact ⟨_, rfl⟩
    · cases htag
    · cases htag
    · exact ⟨_, rfl⟩
  tags := by decide
  labels node hnode _ _ hkind := by
    simp only [derived, List.mem_cons, List.not_mem_nil, or_false] at hnode
    rcases hnode with rfl | rfl | rfl | rfl
    · cases hkind
    · cases hkind
    · cases hkind
    · cases hkind

/-- What is stored for the genre, as an answer within three steps gives it, lacks the style. -/
theorem derived_style_dropped :
    getExploreTraversal derived (inOrder derived) derived.popularityRows
        (some (buildHub (scanned derived .genre "Rock") .genre "Rock")) "genre" "Rock" 3 = .ok [] ∧
      punk ∈ derived.nodes ∧ punk ≠ rockHub ∧
      (∃ d ≤ 3, Dist derived.step rockHub.eid d punk.eid) ∧ ¬Returned [] punk := by
  refine ⟨by decide, by decide, by decide, ?_, fun ⟨row, hrow, _⟩ => List.not_mem_nil hrow⟩
  refine (near_three derived_typed (by decide) rfl (by decide) rfl (by decide)).mpr (Or.inr ?_)
  exact ⟨_, List.mem_cons_of_mem _ List.mem_cons_self, rfl, by decide, _,
    List.mem_cons_of_mem _ (List.mem_cons_of_mem _ List.mem_cons_self), rfl, by decide, by decide⟩

def indie : GraphNode := ⟨"I", .style, some "Indie", none, none, some 2⟩

/-- The same with a style of the release itself. -/
def tagged : Graph :=
  { nodes := derived.nodes ++ [indie], edges := derived.edges ++ [⟨"R", .isOf, "I"⟩] }

theorem tagged_typed : tagged.Typed where
  eids := by decide
  edges := by decide

theorem tagged_keyed : tagged.Keyed where
  named node hnode htag := by
    rcases List.mem_append.mp hnode with hold | hnew
    · exact derived_keyed.named node hold htag
    · obtain rfl := List.mem_singleton.mp hnew
      exact ⟨_, rfl⟩
  tags := by decide
  labels node hnode _ _ hkind :=
    absurd hkind ((by decide : ∀ node ∈ tagged.nodes, node.kind ≠ .label) node hnode)

/-- Within two steps the stored answer has the style of the release and lacks none. -/
theorem tagged_complete_two :
    ∃ rows, getExploreTraversal tagged (inOrder tagged) tagged.popularityRows
        (some (buildHub (scanned tagged .genre "Rock") .genre "Rock")) "genre" "Rock" 2 = .ok rows ∧
      TagsComplete tagged rockHub 2 rows ∧ Returned rows indie := by
  obtain ⟨rows, hrows, hcomplete⟩ := (traversal_complete_iff tagged (inOrder tagged)
    tagged.popularityRows (scanned tagged .genre "Rock") .genre "genre" "Rock" "Rock" 2 rockHub
    tagged_typed tagged_keyed (in_order tagged) rfl (by decide) (Or.inl rfl)
    fun _ => scanned_of tagged .genre "Rock").mpr fun _ h => absurd h (by decide)
  refine ⟨rows, hrows, hcomplete, hcomplete indie (by decide) rfl (by decide) ?_⟩
  exact (near_two tagged_typed (by decide) rfl (by decide) rfl (by decide)).mpr
    ⟨_, List.mem_cons_of_mem _ List.mem_cons_self, rfl, by decide, by decide⟩

end CatalogApi.Explore
