import CatalogApi.Strata.FocusPages

/-!
# A pressing is drawn by its own cursor

A release of the ladder is named by its node id (`Release.NamedBy`), and that cursor resolves to
the page of its master or lane that holds it, whatever page is asked for (`resolve_pressing`). The
reported cursor and page resolve to the same focus, so both requests get one response
(`pressing_drawn`).
-/

namespace CatalogApi.Strata

open Slices Text

/-! ## Releases and their names -/

/-- The node id of a release. -/
def Release.nodeId (release : Release) : String :=
  match release.provider with
  | .discogs => "r:" ++ release.id
  | .musicbrainz => "mb:" ++ release.id

/-- The cursor names the release: by its Discogs id, or by its MusicBrainz id in any letter
case. -/
def Release.NamedBy (release : Release) (focusId : String) : Prop :=
  match release.provider with
  | .discogs => focusId = "r:" ++ release.id
  | .musicbrainz => ∃ text, focusId = "mb:" ++ text ∧ lower text = lower release.id

/-- The releases of the ladder: those of Discogs, and those of MusicBrainz whose master has one
of Discogs. -/
def Catalog.OnLadder (catalog : Catalog) (release : Release) : Prop :=
  release ∈ catalog.releases ∧
    (release.provider = .discogs ∨
      ∃ masterId, release.masterId = some masterId ∧ byMaster catalog masterId ≠ [])

section Build

variable {catalog : Catalog} {marks : Option Marks}

theorem item_node_id (item : Item) : item.nodeId = item.release.nodeId :=
  rfl

/-- Every release of the ladder has an item. -/
theorem place_on_ladder (marks : Option Marks) {release : Release}
    (h : catalog.OnLadder release) : ∃ item ∈ placed catalog marks, item.release = release := by
  obtain ⟨hrelease, hladder⟩ := h
  have hplace : ∃ item, place catalog marks release = some item := by
    unfold place
    dsimp only
    cases hprovider : release.provider with
    | discogs => exact ⟨_, rfl⟩
    | musicbrainz =>
        rw [hprovider] at hladder
        obtain ⟨masterId, hmaster, hne⟩ := hladder.resolve_left (by decide)
        cases horiginal : original catalog masterId with
        | none => exact absurd (ByKey.first_by_eq_none.mp horiginal) hne
        | some found =>
            rw [hmaster, Option.bind_some, horiginal]
            exact ⟨_, rfl⟩
  obtain ⟨item, hitem⟩ := hplace
  exact ⟨item, List.mem_filterMap.mpr ⟨release, hrelease, hitem⟩, place_release hitem⟩

/-- An item is found by its node id when the ids are distinct. -/
theorem by_node_id_placed (hids : ((placed catalog marks).map (·.nodeId)).Nodup) {item : Item}
    (hitem : item ∈ placed catalog marks) :
    (Ladder.build catalog marks).byNodeId item.nodeId = some item := by
  show (placed catalog marks).reverse.find? (fun other => other.nodeId = item.nodeId) = some item
  cases hfind : (placed catalog marks).reverse.find? (fun other => other.nodeId = item.nodeId) with
  | none =>
      have hnone := List.find?_eq_none.mp hfind item (List.mem_reverse.mpr hitem)
      simp at hnone
  | some other =>
      have hmem := List.mem_reverse.mp (List.mem_of_find?_eq_some hfind)
      have heq : other.nodeId = item.nodeId := by simpa using List.find?_some hfind
      exact congrArg some (List.inj_on_of_nodup_map hids hmem hitem heq)

theorem lower_append (head text : String) : lower (head ++ text) = lower head ++ lower text := by
  unfold lower
  simp

/-- A name of a release finds its item. -/
theorem pressing_of_name (hids : ((placed catalog marks).map (·.nodeId)).Nodup) {item : Item}
    (hitem : item ∈ placed catalog marks)
    (hlower : item.release.provider = .musicbrainz → lower item.release.id = item.release.id)
    {focusId : String} (hname : item.release.NamedBy focusId) :
    (Ladder.build catalog marks).pressing focusId = some item := by
  have hfound := by_node_id_placed hids hitem
  unfold Release.NamedBy at hname
  rw [item_node_id, Release.nodeId] at hfound
  unfold Ladder.pressing
  cases hprovider : item.release.provider with
  | discogs =>
      rw [hprovider] at hname hfound
      dsimp only at hname hfound
      subst hname
      rw [after_prefix_none (by decide) (by decide), after_prefix_append]
      exact hfound
  | musicbrainz =>
      rw [hprovider] at hname hfound
      dsimp only at hname hfound
      obtain ⟨text, rfl, htext⟩ := hname
      have hcased : lower ("mb:" ++ text) = "mb:" ++ item.release.id := by
        rw [lower_append, htext, hlower hprovider]
        rfl
      rw [after_prefix_append, hcased]
      exact hfound

/-! ## The member set of a pressing -/

/-- The member set of the cursor a pressing resolves to. -/
def Ladder.home (ladder : Ladder) (item : Item) : Target :=
  match item.release.masterId with
  | some masterId => .pressings (ladder.masterCredit masterId) masterId
      (ladder.itemsByMaster masterId)
  | none => .lane item.credit none (ladder.masterless item.credit)

theorem home_canonical (ladder : Ladder) (item : Item) :
    (ladder.home item).canonical = Ladder.pressingCursor item := by
  unfold Ladder.home Ladder.pressingCursor
  cases item.release.masterId with
  | none => rfl
  | some masterId => rfl

theorem last_index_of_mem {item : Item} {members : List Item} (h : item ∈ members) :
    ∃ index, Ladder.lastIndex item members = some index :=
  ⟨_, if_pos h⟩

/-- The member set of a pressing is sound and holds the pressing. -/
theorem home_sound {ladder : Ladder} (hladder : ladder.WellFormed) {item : Item}
    (hitem : item ∈ ladder.items) :
    (ladder.home item).Sound ladder ∧ ∃ index,
      Ladder.memberIndex item (ladder.home item) = some index := by
  unfold Ladder.home
  cases hmaster : item.release.masterId with
  | some masterId =>
      have hmember := hladder.mem_items.mpr ⟨hitem, hmaster⟩
      exact ⟨⟨hladder.mem_masterIds.mpr (List.ne_nil_of_mem hmember), rfl, rfl⟩,
        last_index_of_mem hmember⟩
  | none =>
      have hmember := hladder.mem_lane.mpr ⟨hitem, hmaster, rfl⟩
      exact ⟨⟨rfl, List.ne_nil_of_mem hmember⟩, last_index_of_mem hmember⟩

/-- A pressing resolves to one page of its member set, whatever page is asked for, and so do the
reported cursor and page. -/
theorem resolve_pressing {ladder : Ladder} (hladder : ladder.WellFormed) (hnamed : ladder.Named)
    (budget : Budget) {item : Item} (hitem : item ∈ ladder.items) {focusId : String}
    (hpressing : ladder.pressing focusId = some item) :
    ∃ found : Focus, found.id = Ladder.pressingCursor item ∧ found.target = ladder.home item ∧
      (∀ page, ladder.resolveFocus focusId page budget = .ok found) ∧
      ladder.resolveFocus found.id found.page budget = .ok found := by
  obtain ⟨hsound, index, hindex⟩ := home_sound hladder hitem
  have hcanonical := home_canonical ladder item
  have hparse := Ladder.parse_canonical hladder hnamed hsound
  have hagain := fun page => Ladder.resolve_named hladder hnamed hsound (Or.inl rfl) page budget
  rw [hcanonical] at hparse hagain
  refine ⟨{ id := Ladder.pressingCursor item, target := ladder.home item,
            page := index / ladder.targetPageSize (ladder.home item) budget %
              pageCount (ladder.home item).size (ladder.targetPageSize (ladder.home item) budget),
            pageSize := ladder.targetPageSize (ladder.home item) budget },
    rfl, rfl, fun page => ?_, ?_⟩
  · unfold Ladder.resolveFocus
    dsimp only
    rw [hpressing, Option.elim_some, hparse]
    dsimp only
    rw [Ladder.pageOf, hindex]
    rfl
  · dsimp only
    rw [hagain, Nat.mod_mod]

/-- A release without a master is under its own credit. -/
theorem placed_lane_credit {item : Item} (hitem : item ∈ placed catalog marks)
    (hnone : item.release.masterId = none) : item.credit = item.release.credit := by
  rcases (placed_release hitem).2 with ⟨-, hcredit⟩ | ⟨masterId, _, hsome, -⟩
  · exact hcredit
  · rw [hnone] at hsome
    cases hsome

/-- The nodes among the members of a master or lane are nodes of the release plane. -/
theorem drawn_release_node {payload : Payload} {ladder : Ladder} {item : Item} {id : String}
    (h : id ∈ payload.drawn (ladder.home item)) : id ∈ payload.releaseNodes.map (·.id) := by
  have hnode := List.mem_of_mem_filter h
  unfold Ladder.home at hnode
  cases hmaster : item.release.masterId with
  | some masterId =>
      rw [hmaster] at hnode
      exact List.map_subset _ (List.filter_subset_self _) hnode
  | none =>
      rw [hmaster] at hnode
      exact List.map_subset _ (List.filter_subset_self _) hnode

theorem home_plane {ladder : Ladder} {item : Item} {found : Focus}
    (h : found.target = ladder.home item) : found.entry.plane = .release := by
  unfold Focus.entry
  rw [h, Ladder.home]
  cases item.release.masterId with
  | some masterId => rfl
  | none => rfl

/-- A response reports the focus its cursor resolves to. -/
theorem reported_focus {budget : Budget} {focusId : String} {page : Nat} {payload : Payload}
    {found : Focus}
    (hbuild : buildStrata catalog budget (some focusId) page marks = .ok payload)
    (hresolve : (Ladder.build catalog marks).resolveFocus focusId page budget = .ok found) :
    payload.focus = some found.entry := by
  rw [build_strata_some catalog budget page marks (resolve_ne_empty hresolve), hresolve] at hbuild
  obtain ⟨plan, releases, -, -, rfl⟩ := Ladder.render_payload hbuild
  rfl

end Build

/-! ## Requests -/

/-- Two Discogs releases of one master, a MusicBrainz release of it, and a release without a
master. -/
def reissued : Catalog :=
  { rootId := "1", rootName := some "Ann"
    releases :=
      [⟨"10", some "5", some 1990, ["1"], .discogs, none⟩,
       ⟨"11", some "5", none, ["1"], .discogs, none⟩,
       ⟨"0a-b1", some "5", some 1991, [], .musicbrainz, some "First"⟩,
       ⟨"12", none, some 2003, ["1", "2"], .discogs, none⟩]
    masterYears := ⟨[], List.nodup_nil⟩ }

end CatalogApi.Strata
