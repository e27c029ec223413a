import CatalogApi.Explore.Stored

/-!
# Around a hub

Relationships of a schema graph read in one direction: a genre, style or label is linked to by
releases and masters alone, and these link to nothing else that is eligible. So what is eligible
within two steps of a hub is what a release or master of the hub links to (`near_two`).
-/

namespace CatalogApi.Explore

open ShortestPaths

/-! ## What relationships join -/

/-- A label that a hub can have. -/
def Kind.hub (kind : Kind) : Bool := kind.tag || decide (kind = .label)

theorem Kind.hub_eligible {kind : Kind} (h : kind.hub = true) : kind.eligible = true := by
  cases kind with
  | label => rfl
  | genre => rfl
  | style => rfl
  | release => cases h
  | master => cases h
  | artist => cases h

namespace Rel.Admits

variable {rel : Rel} {source target : Kind}

/-- A relationship that leads to a genre, style or label leads from a release or a master. -/
theorem hub_target (h : rel.Admits source target) (hhub : target.hub = true) :
    source = .release ∨ source = .master := by
  cases rel with
  | byArtist => exact h.1
  | onLabel => exact h.1
  | isOf => exact h.1
  | aliasOf =>
      obtain ⟨-, rfl⟩ := h
      cases hhub
  | memberOf =>
      obtain ⟨-, rfl⟩ := h
      cases hhub
  | derivedFrom =>
      obtain ⟨-, rfl⟩ := h
      cases hhub

/-- A relationship from an eligible node leads from an artist to an artist. -/
theorem eligible_source (h : rel.Admits source target) (hsource : source.eligible = true) :
    source = .artist ∧ target = .artist := by
  cases rel with
  | aliasOf => exact h
  | memberOf => exact h
  | byArtist =>
      rcases h.1 with rfl | rfl
      · cases hsource
      · cases hsource
  | onLabel =>
      rcases h.1 with rfl | rfl
      · cases hsource
      · cases hsource
  | isOf =>
      rcases h.1 with rfl | rfl
      · cases hsource
      · cases hsource
  | derivedFrom =>
      obtain ⟨rfl, -⟩ := h
      cases hsource

/-- The label a release or master links to decides the relationship. -/
theorem link (h : rel.Admits source target) (hsource : source = .release ∨ source = .master)
    (htarget : target.eligible = true) : rel = target.linkRel := by
  cases rel with
  | byArtist =>
      obtain ⟨-, rfl⟩ := h
      rfl
  | onLabel =>
      obtain ⟨-, rfl⟩ := h
      rfl
  | isOf =>
      rcases h.2 with rfl | rfl
      · rfl
      · rfl
  | aliasOf =>
      obtain ⟨rfl, -⟩ := h
      rcases hsource with hkind | hkind
      · cases hkind
      · cases hkind
  | memberOf =>
      obtain ⟨rfl, -⟩ := h
      rcases hsource with hkind | hkind
      · cases hkind
      · cases hkind
  | derivedFrom =>
      obtain ⟨-, rfl⟩ := h
      cases htarget

end Rel.Admits

section Links

variable {graph : Graph} {node other release far start : GraphNode} {rel : Rel} {eid : String}

theorem joins_iff {other : String} :
    graph.joins eid rel other = true ↔
      graph.leads eid rel other = true ∨ graph.leads other rel eid = true := by
  simp only [Graph.joins, Graph.leads, List.any_eq_true, decide_eq_true_eq]
  constructor
  · rintro ⟨⟨source, kept, target⟩, hedge, rfl, ⟨rfl, rfl⟩ | ⟨rfl, rfl⟩⟩
    · exact Or.inl hedge
    · exact Or.inr hedge
  · rintro (hedge | hedge)
    · exact ⟨_, hedge, rfl, Or.inl ⟨rfl, rfl⟩⟩
    · exact ⟨_, hedge, rfl, Or.inr ⟨rfl, rfl⟩⟩

theorem joins_comm {other : String} : graph.joins eid rel other = graph.joins other rel eid := by
  rw [Bool.eq_iff_iff, joins_iff, joins_iff, or_comm]

theorem GraphNode.issued_iff :
    release.issued = true ↔ release.kind = .release ∨ release.kind = .master :=
  decide_eq_true_iff

namespace Graph.Typed

/-- The labels of a relationship's ends. -/
theorem admits (h : graph.Typed) (hnode : node ∈ graph.nodes) (hother : other ∈ graph.nodes)
    (hleads : graph.leads node.eid rel other.eid = true) : rel.Admits node.kind other.kind := by
  obtain ⟨source, hsource, target, htarget, hs, ht, hadmits⟩ :=
    h.edges _ (of_decide_eq_true hleads)
  rw [h.node_unique hsource hnode hs, h.node_unique htarget hother ht] at hadmits
  exact hadmits

/-- A release or master is joined to an eligible node by linking to it. -/
theorem joins_issued (h : graph.Typed) (hrelease : release ∈ graph.nodes)
    (hissued : release.issued = true) (hfar : far ∈ graph.nodes)
    (heligible : far.kind.eligible = true) :
    graph.joins release.eid rel far.eid = true ↔
      rel = far.kind.linkRel ∧ graph.leads release.eid far.kind.linkRel far.eid = true := by
  rw [GraphNode.issued_iff] at hissued
  rw [joins_iff]
  constructor
  · rintro (hleads | hleads)
    · have hrel := (h.admits hrelease hfar hleads).link hissued heligible
      exact ⟨hrel, hrel ▸ hleads⟩
    · obtain ⟨-, hartist⟩ := (h.admits hfar hrelease hleads).eligible_source heligible
      rw [hartist] at hissued
      rcases hissued with hkind | hkind
      · cases hkind
      · cases hkind
  · rintro ⟨rfl, hleads⟩
    exact Or.inl hleads

/-- What is joined to a genre, style or label is a release or a master. -/
theorem hub_joined (h : graph.Typed) (hnode : node ∈ graph.nodes) (hhub : node.kind.hub = true)
    (hjoins : graph.joins node.eid rel eid = true) :
    ∃ release ∈ graph.nodes, release.eid = eid ∧ release.issued = true := by
  obtain ⟨self, hself, release, hrelease, heid, rfl, hadmits⟩ := h.joined hjoins
  obtain rfl := h.node_unique hself hnode heid
  refine ⟨release, hrelease, rfl, GraphNode.issued_iff.mpr ?_⟩
  rcases hadmits with hadmits | hadmits
  · obtain ⟨hartist, -⟩ := hadmits.eligible_source (Kind.hub_eligible hhub)
    rw [hartist] at hhub
    cases hhub
  · exact hadmits.hub_target hhub

end Graph.Typed

/-! ## Two steps from a hub -/

/-- A release or master that links to the start links to the node. -/
def Graph.Shares (graph : Graph) (start node : GraphNode) : Prop :=
  ∃ release ∈ graph.nodes, release.issued = true ∧
    graph.leads release.eid start.kind.linkRel start.eid = true ∧
    graph.leads release.eid node.kind.linkRel node.eid = true

section

variable (htyped : graph.Typed) (hstart : start ∈ graph.nodes) (hhub : start.kind.hub = true)
include htyped hstart hhub

/-- A release or master at distance one from a hub. -/
theorem dist_one_hub (hdist : Dist graph.step start.eid 1 eid) :
    ∃ release ∈ graph.nodes, release.eid = eid ∧ release.issued = true ∧
      graph.leads release.eid start.kind.linkRel start.eid = true := by
  obtain ⟨⟨up, rel, hup, hstep⟩, -⟩ := dist_succ_iff.mp hdist
  obtain rfl := dist_zero hup
  obtain ⟨release, hrelease, rfl, hissued⟩ := htyped.hub_joined hstart hhub hstep
  refine ⟨release, hrelease, rfl, hissued, ?_⟩
  rw [Graph.step, joins_comm] at hstep
  exact ((htyped.joins_issued hrelease hissued hstart (Kind.hub_eligible hhub)).mp hstep).2

theorem not_eligible_dist_one (hnode : node ∈ graph.nodes)
    (heligible : node.kind.eligible = true) : ¬Dist graph.step start.eid 1 node.eid := by
  intro hdist
  obtain ⟨release, hrelease, heid, hissued, -⟩ := dist_one_hub htyped hstart hhub hdist
  obtain rfl := htyped.node_unique hrelease hnode heid
  rcases GraphNode.issued_iff.mp hissued with hkind | hkind
  · rw [hkind] at heligible
    cases heligible
  · rw [hkind] at heligible
    cases heligible

/-- What is eligible within two steps of a hub shares a release or a master with it. -/
theorem near_two (hnode : node ∈ graph.nodes)
    (heligible : node.kind.eligible = true) (hne : node ≠ start) :
    (∃ d ≤ 2, Dist graph.step start.eid d node.eid) ↔ graph.Shares start node := by
  constructor
  · rintro ⟨d, hle, hdist⟩
    obtain rfl | rfl | rfl : d = 0 ∨ d = 1 ∨ d = 2 := by omega
    · exact absurd (htyped.node_unique hnode hstart (dist_zero hdist)) hne
    · exact absurd hdist (not_eligible_dist_one htyped hstart hhub hnode heligible)
    · obtain ⟨⟨up, rel, hup, hstep⟩, -⟩ := dist_succ_iff.mp hdist
      obtain ⟨release, hrelease, rfl, hissued, hleads⟩ := dist_one_hub htyped hstart hhub hup
      exact ⟨release, hrelease, hissued, hleads,
        ((htyped.joins_issued hrelease hissued hnode heligible).mp hstep).2⟩
  · rintro ⟨release, hrelease, hissued, hleads, hnear⟩
    have hfirst : graph.step start.eid start.kind.linkRel release.eid :=
      joins_iff.mpr (Or.inr hleads)
    have hsecond : graph.step release.eid node.kind.linkRel node.eid :=
      joins_iff.mpr (Or.inl hnear)
    exact dist_of_path ((Path.nil.snoc hfirst).snoc hsecond)

theorem dist_two_of_shares (hnode : node ∈ graph.nodes)
    (heligible : node.kind.eligible = true) (hne : node ≠ start) (h : graph.Shares start node) :
    Dist graph.step start.eid 2 node.eid := by
  obtain ⟨d, hle, hdist⟩ := (near_two htyped hstart hhub hnode heligible hne).mpr h
  obtain rfl | rfl | rfl : d = 0 ∨ d = 1 ∨ d = 2 := by omega
  · exact absurd (htyped.node_unique hnode hstart (dist_zero hdist)) hne
  · exact absurd hdist (not_eligible_dist_one htyped hstart hhub hnode heligible)
  · exact hdist

end

end Links

end CatalogApi.Explore
