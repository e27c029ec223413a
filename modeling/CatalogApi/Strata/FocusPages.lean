import CatalogApi.Strata.CursorNames

/-!
# The pages of a focus

The pages of a focus draw each member of its set once (`drawn_page`), and the cursors of any
response name the same member set under every budget. `strata_pages` states it for requests.
-/

namespace CatalogApi.Strata

open ByKey Slices Text

/-! ## Members as nodes -/

/-- The node ids of the members of a target. -/
def Target.memberIds : Target → List String
  | .others members => members.map creditId
  | .bucket _ _ members => members.map masterNodeId
  | .pressings _ _ members => members.map (·.nodeId)
  | .lane _ _ members => members.map (·.nodeId)

/-- The ids of the nodes of a response that may be members of a target: those of its plane, and of
its parent on the release plane. -/
def Payload.nodesOf (payload : Payload) : Target → List String
  | .others _ => payload.creditNodes.map (·.id)
  | .bucket _ _ _ => payload.masterNodes.map (·.id)
  | .pressings _ masterId _ =>
      (payload.releaseNodes.filter fun node => node.parent = masterNodeId masterId).map (·.id)
  | .lane lane _ _ =>
      (payload.releaseNodes.filter fun node => node.parent = laneId lane).map (·.id)

/-- The members of a target that a response draws as nodes. -/
def Payload.drawn (payload : Payload) (target : Target) : List String :=
  (payload.nodesOf target).filter fun id => id ∈ target.memberIds

theorem length_member_ids (target : Target) : target.memberIds.length = target.size := by
  cases target with
  | others members => exact List.length_map _
  | bucket credit label members => exact List.length_map _
  | pressings credit masterId members => exact List.length_map _
  | lane lane label members => exact List.length_map _

/-- A part of the list that meets the test, and a part that does not. -/
theorem filter_append_parts {α : Type} {l l' : List α} {p : α → Bool} (h : ∀ a ∈ l, p a = true)
    (h' : ∀ a ∈ l', ¬p a = true) : (l ++ l').filter p = l := by
  rw [List.filter_append, List.filter_eq_self.mpr h, List.filter_eq_nil_iff.mpr h',
    List.append_nil]

namespace Ladder

variable {ladder : Ladder} {budget : Budget} {focus : Option Focus} {plan : MasterPlan}
  {releases : List ReleaseNode × List ReleaseAgg}

/-- The releases without a master have distinct node ids. -/
def LaneIds (ladder : Ladder) : Prop :=
  ∀ lane, ∀ item ∈ ladder.masterless lane, ∀ other ∈ ladder.masterless lane,
    item.nodeId = other.nodeId → item = other

theorem build_lane_ids {catalog : Catalog} (hcatalog : catalog.Valid) (marks : Option Marks) :
    (Ladder.build catalog marks).LaneIds := by
  have hdiscogs : ∀ {lane : Credit} {item : Item},
      item ∈ (Ladder.build catalog marks).masterless lane →
      item ∈ placed catalog marks ∧ item.release ∈ catalog.releases.filter
        fun release => release.provider = .discogs := by
    intro lane item hitem
    obtain ⟨hplaced, hmaster, -⟩ := mem_items_without.mp hitem
    obtain ⟨hrelease, ⟨hprovider, -⟩ | ⟨masterId, -, hsome, -⟩⟩ := placed_release hplaced
    · exact ⟨hplaced, List.mem_filter.mpr ⟨hrelease, decide_eq_true hprovider⟩⟩
    · rw [hmaster] at hsome
      cases hsome
  intro lane item hitem other hother heq
  obtain ⟨hplaced, hrelease⟩ := hdiscogs hitem
  obtain ⟨hplaced', hrelease'⟩ := hdiscogs hother
  refine placed_eq hplaced hplaced' (List.inj_on_of_nodup_map hcatalog.distinct hrelease
    hrelease' ?_)
  unfold Item.nodeId at heq
  rw [of_decide_eq_true (List.mem_filter.mp hrelease).2,
    of_decide_eq_true (List.mem_filter.mp hrelease').2] at heq
  exact (String.append_right_inj _).mp heq

/-! ## The nodes of a plan -/

theorem nodes_of_others (members : List Credit) :
    (ladder.payload budget focus plan releases).nodesOf (.others members) =
      plan.shownCredits.map creditId := by
  simp only [Payload.nodesOf, payload, List.map_map]
  rfl

theorem nodes_of_bucket (credit : Credit) (label : String) (members : List String) :
    ((ladder.payload budget focus plan releases).nodesOf (.bucket credit label members)).Perm
      (plan.masters.map masterNodeId) := by
  simp only [Payload.nodesOf, payload, List.map_map]
  exact (sort_by_perm _ _).map _

theorem nodes_under (parent : String) :
    ((ladder.payload budget focus plan releases).releaseNodes.filter
        fun node => node.parent = parent).map (·.id) =
      (releases.1.filter fun node => node.2 = parent).map fun node => node.1.nodeId := by
  simp only [payload, List.filter_map, List.map_map]
  rfl

theorem nodes_of_pressings (hfocus : ladder.FocusSound budget focus) (hmasters : plan.masters.Nodup)
    (hlanes : plan.lanes.Nodup) (hplain : ∀ lane ∈ plan.lanes, PlainCredit lane)
    (hreleases : ladder.planReleases budget focus plan = .ok releases) {masterId : String}
    (hmaster : masterId ∈ plan.masters) (credit : Credit) (members : List Item) :
    ((ladder.payload budget focus plan releases).nodesOf
        (.pressings credit masterId members)).Perm
      ((ladder.masterPart focus (ladder.outcomeOf budget focus plan) masterId).1.map
        fun node => node.1.nodeId) := by
  rw [Payload.nodesOf, nodes_under]
  exact ((releases_by_parent hfocus hmasters hlanes hplain hreleases).1 masterId hmaster).1.map _

theorem nodes_of_lane (hfocus : ladder.FocusSound budget focus) (hmasters : plan.masters.Nodup)
    (hlanes : plan.lanes.Nodup) (hplain : ∀ lane ∈ plan.lanes, PlainCredit lane)
    (hreleases : ladder.planReleases budget focus plan = .ok releases) {lane : Credit}
    (hlane : lane ∈ plan.lanes) (label : Option String) (members : List Item) :
    ((ladder.payload budget focus plan releases).nodesOf (.lane lane label members)).Perm
      ((ladder.lanePart focus (ladder.outcomeOf budget focus plan) lane).1.map
        fun node => node.1.nodeId) := by
  rw [Payload.nodesOf, nodes_under]
  exact ((releases_by_parent hfocus hmasters hlanes hplain hreleases).2 lane hlane).1.map _

/-! ## One page -/

/-- A part of a release plane lists its items in order. -/
theorem both_nodes (first second : List ReleaseNode × List ReleaseAgg) :
    (both first second).1 = first.1 ++ second.1 :=
  rfl

/-- A page of the other credits draws the members of that page. -/
theorem drawn_others (hladder : ladder.WellFormed) (hnamed : ladder.Named) {found : Focus}
    (hsound : found.Sound ladder budget) {members : List Credit}
    (htarget : found.target = .others members) {level : List Credit × List Credit}
    (hlevel : level ∈ ladder.creditLevels budget (some found))
    (hshown : plan.shownCredits = level.1) :
    (ladder.payload budget (some found) plan releases).drawn found.target =
      slice found.target.memberIds found.page found.pageSize := by
  have hothers : onOthers (some found) = some (found, members) := by
    rw [onOthers, htarget]
  rw [credit_levels_others hothers, List.mem_singleton] at hlevel
  have hmembers := hsound.target
  rw [htarget] at hmembers
  have hroot : ladder.root ∉ members := by
    have hnodup := hladder.order_nodup
    rw [hladder.order_root, List.nodup_cons] at hnodup
    rw [hmembers.1]
    exact hnodup.1
  have hplain : ∀ credit ∈ ladder.creditOrder, PlainCredit credit := hnamed.credits
  have hordered : ∀ credit ∈ members, credit ∈ ladder.creditOrder := by
    intro credit hcredit
    rw [hmembers.1] at hcredit
    exact List.mem_of_mem_drop hcredit
  rw [Payload.drawn, htarget, nodes_of_others, hshown, hlevel, Target.memberIds, slice_map,
    List.map_cons, List.filter_cons_of_neg]
  · refine List.filter_eq_self.mpr fun id hid => decide_eq_true ?_
    obtain ⟨credit, hcredit, rfl⟩ := List.mem_map.mp hid
    exact List.mem_map_of_mem (mem_of_slice hcredit)
  · rw [decide_eq_true_eq]
    intro hmem
    obtain ⟨credit, hcredit, heq⟩ := List.mem_map.mp hmem
    have hsame := credit_id_inj (hplain credit (hordered credit hcredit))
      (hplain _ (root_ordered hladder)) heq
    exact hroot (hsame ▸ hcredit)

theorem drawn_bucket {found : Focus} {credit : Credit} {label : String} {members : List String}
    (htarget : found.target = .bucket credit label members) {shown : List Credit} {keep : Nat}
    (hmasters : plan.masters =
      (pinnedMasters (some found)).1 ++ (ladder.candidates (some found) shown).take keep) :
    ((ladder.payload budget (some found) plan releases).drawn found.target).Perm
      (slice found.target.memberIds found.page found.pageSize) := by
  rw [Payload.drawn, htarget]
  refine ((nodes_of_bucket credit label members).filter _).trans (List.Perm.of_eq ?_)
  have hpinned : pinnedMasters (some found) = (found.onPage members, found.offPage members) := by
    rw [pinnedMasters, htarget]
  rw [hmasters, hpinned, List.map_append, Target.memberIds, slice_map]
  refine filter_append_parts (fun id hid => decide_eq_true ?_) fun id hid => ?_
  · obtain ⟨masterId, hmaster, rfl⟩ := List.mem_map.mp hid
    exact List.mem_map_of_mem (mem_of_slice hmaster)
  · obtain ⟨masterId, hmaster, rfl⟩ := List.mem_map.mp hid
    rw [decide_eq_true_eq]
    intro hmem
    obtain ⟨member, hmember, heq⟩ := List.mem_map.mp hmem
    obtain ⟨_, -, hfoldable⟩ := mem_candidates.mp (List.mem_of_mem_take hmaster)
    refine of_decide_eq_true (List.mem_filter.mp hfoldable).2 ?_
    rw [hpinned, ← master_node_id_inj heq]
    exact (slice_append_leftover members found.page found.pageSize).mem_iff.mpr hmember

theorem drawn_pressings (hfocus : ladder.FocusSound budget focus) (hmasters : plan.masters.Nodup)
    (hlanes : plan.lanes.Nodup) (hplain : ∀ lane ∈ plan.lanes, PlainCredit lane)
    (hreleases : ladder.planReleases budget focus plan = .ok releases) {found : Focus}
    (hfound : focus = some found) {credit : Credit} {masterId : String} {members : List Item}
    (htarget : found.target = .pressings credit masterId members)
    (hmaster : masterId ∈ plan.masters) :
    ((ladder.payload budget focus plan releases).drawn found.target).Perm
      (slice found.target.memberIds found.page found.pageSize) := by
  rw [Payload.drawn, htarget]
  refine ((nodes_of_pressings hfocus hmasters hlanes hplain hreleases hmaster credit
    members).filter _).trans (List.Perm.of_eq ?_)
  have hon : onMaster focus masterId = some (found, members) := by
    rw [hfound, onMaster, htarget]
    exact if_pos rfl
  have hpart : (ladder.masterPart focus (ladder.outcomeOf budget focus plan) masterId).1 =
      (found.onPage members).map (·, masterNodeId masterId) := by
    rw [masterPart, both_nodes, hon, if_neg (Option.some_ne_none _), List.append_nil,
      fixedOfMaster, hon]
  rw [hpart, List.map_map, Target.memberIds, slice_map]
  refine List.filter_eq_self.mpr fun id hid => decide_eq_true ?_
  obtain ⟨item, hitem, rfl⟩ := List.mem_map.mp hid
  exact List.mem_map_of_mem (mem_of_slice hitem)

theorem open_lane_items {outcome : Option Strategy} {lane : Credit} {items : List Item}
    {node : ReleaseNode} (h : node ∈ (openLane outcome lane items).1) : node.1 ∈ items := by
  cases outcome with
  | none =>
      obtain ⟨item, hitem, rfl⟩ := List.mem_map.mp h
      exact hitem
  | some strategy =>
      obtain ⟨item, hitem, rfl⟩ := List.mem_map.mp h
      exact List.mem_of_mem_filter hitem

/-- A page of a lane draws the members of that page. -/
theorem drawn_lane (hids : ladder.LaneIds) (hfocus : ladder.FocusSound budget focus)
    (hmasters : plan.masters.Nodup) (hlanes : plan.lanes.Nodup)
    (hplain : ∀ lane ∈ plan.lanes, PlainCredit lane)
    (hreleases : ladder.planReleases budget focus plan = .ok releases) {found : Focus}
    (hfound : focus = some found) {lane : Credit} {label : Option String} {members : List Item}
    (htarget : found.target = .lane lane label members) (hlane : lane ∈ plan.lanes) :
    ((ladder.payload budget focus plan releases).drawn found.target).Perm
      (slice found.target.memberIds found.page found.pageSize) := by
  have hmembers := (hfocus found hfound).target
  rw [htarget] at hmembers
  have hunder : ∀ item ∈ members, item ∈ ladder.masterless lane := by
    intro item hitem
    rw [hmembers.1] at hitem
    cases label with
    | none => exact hitem
    | some label => exact List.mem_of_mem_filter hitem
  rw [Payload.drawn, htarget]
  refine ((nodes_of_lane hfocus hmasters hlanes hplain hreleases hlane label
    members).filter _).trans (List.Perm.of_eq ?_)
  have hon : onLane focus lane = some (found, label, members) := by
    rw [hfound, onLane, htarget]
    exact if_pos rfl
  have hopen : ladder.openItems focus lane =
      (ladder.masterless lane).filter fun item => item ∉ members := by
    rw [openItems, hon]
  have hpart : (ladder.lanePart focus (ladder.outcomeOf budget focus plan) lane).1 =
      (found.onPage members).map (·, laneId lane) ++
        (if ladder.openItems focus lane ≠ [] then
          openLane (ladder.outcomeOf budget focus plan) lane (ladder.openItems focus lane)
        else ([], [])).1 := by
    rw [lanePart, both_nodes, fixedOfLane, hon]
  rw [hpart, List.map_append, List.map_map, Target.memberIds, slice_map]
  refine filter_append_parts (fun id hid => decide_eq_true ?_) fun id hid => ?_
  · obtain ⟨item, hitem, rfl⟩ := List.mem_map.mp hid
    exact List.mem_map_of_mem (mem_of_slice hitem)
  · obtain ⟨node, hnode, rfl⟩ := List.mem_map.mp hid
    rw [decide_eq_true_eq]
    intro hmem
    obtain ⟨member, hmember, heq⟩ := List.mem_map.mp hmem
    have hitem : node.1 ∈ ladder.openItems focus lane := by
      split at hnode
      · exact open_lane_items hnode
      · cases hnode
    rw [hopen] at hitem
    obtain ⟨hlaneItem, hfree⟩ := List.mem_filter.mp hitem
    have hsame := hids lane member (hunder member hmember) node.1 hlaneItem heq
    exact of_decide_eq_true hfree (hsame ▸ hmember)

/-- A view draws exactly the page of its focus among the members of the focus. -/
theorem drawn_page (hladder : ladder.WellFormed) (hnamed : ladder.Named) (hids : ladder.LaneIds)
    {found : Focus} (hsound : found.Sound ladder budget) {level : List Credit × List Credit}
    (hlevel : level ∈ ladder.creditLevels budget (some found)) (hfloors : budget.Floors)
    {mode : FoldMode} {keep : Nat}
    (hreleases : ladder.planReleases budget (some found)
      (ladder.planOf (some found) level.1 level.2 mode keep) = .ok releases) :
    ((ladder.payload budget (some found) (ladder.planOf (some found) level.1 level.2 mode keep)
      releases).drawn found.target).Perm
      (slice found.target.memberIds found.page found.pageSize) := by
  have hfocus := focus_sound_some hsound
  have hlevelSound := credit_level_sound hladder hfloors hfocus hlevel
  have hkeyed := plan_keyed hladder hfocus hlevelSound mode keep
  have hdrawn := plan_drawn hladder hnamed hfocus hlevelSound mode keep
  have hlanes : (ladder.planOf (some found) level.1 level.2 mode keep).lanes.Nodup :=
    hdrawn.nodup.filter _
  have hplain : ∀ lane ∈ (ladder.planOf (some found) level.1 level.2 mode keep).lanes,
      PlainCredit lane :=
    fun lane hlane => hdrawn.plain lane (List.mem_of_mem_filter hlane)
  cases htarget : found.target with
  | others members =>
      rw [← htarget]
      exact List.Perm.of_eq (drawn_others hladder hnamed hsound htarget hlevel rfl)
  | bucket credit label members =>
      rw [← htarget]
      exact drawn_bucket htarget rfl
  | pressings credit masterId members =>
      rw [← htarget]
      refine drawn_pressings hfocus hkeyed.masters hlanes hplain hreleases rfl htarget ?_
      refine List.mem_append_left _ ?_
      rw [pinnedMasters, htarget]
      exact List.mem_singleton.mpr rfl
  | lane lane label members =>
      rw [← htarget]
      refine drawn_lane hids hfocus hkeyed.masters hlanes hplain hreleases rfl htarget ?_
      have hbase : lane ∈ ladder.baseCredits (some found) := by
        have hcredit : found.target.credit = some lane := by rw [htarget]; rfl
        rw [base_credits_focused hcredit, focusedCredits]
        split
        · rename_i hroot
          exact List.mem_singleton.mpr hroot
        · exact List.mem_cons_of_mem _ (List.mem_singleton.mpr rfl)
      have hmembers := hsound.target
      rw [htarget] at hmembers
      refine List.mem_filter.mpr ⟨hlevelSound.base lane hbase, decide_eq_true fun hnil => ?_⟩
      refine hmembers.2 ?_
      rw [hmembers.1]
      cases label with
      | none => exact hnil
      | some label =>
          rw [laneMembers, hnil]
          rfl

end Ladder

/-! ## Requests -/

section Requests

variable {ladder : Ladder} {budget : Budget} {focusId : String} {found : Focus} {page : Nat}

/-- The page that holds a pressing does not depend on the requested one. -/
theorem page_of_pressing (item : Item) (target : Target) (page page' size : Nat) :
    Ladder.pageOf (some item) target page size = Ladder.pageOf (some item) target page' size := by
  simp only [Ladder.pageOf]

section

variable (h : ladder.resolveFocus focusId page budget = .ok found)
include h

/-- A cursor that resolves at one page resolves at every page, to the same members at the same
page size. -/
theorem resolve_other_page (page' : Nat) :
    ∃ found', ladder.resolveFocus focusId page' budget = .ok found' ∧ found'.id = found.id ∧
      found'.target = found.target ∧ found'.pageSize = found.pageSize ∧
      found'.page = (if ladder.pressing focusId = none then page' % found.pages
        else found.page) := by
  obtain ⟨cursor, hcursor, hid, htarget, hsize, start, hstart, hpage⟩ :=
    Ladder.resolve_focus_form h
  have hresolve : ∀ start', Ladder.pageOf (ladder.pressing focusId) cursor.target page'
      found.pageSize = .ok start' → ladder.resolveFocus focusId page' budget = .ok
        { id := cursor.canonical, target := cursor.target,
          page := start' % pageCount cursor.target.size found.pageSize,
          pageSize := found.pageSize } := by
    intro start' hstart'
    rw [hsize] at hstart'
    unfold Ladder.resolveFocus
    dsimp only
    rw [hcursor]
    dsimp only
    rw [hstart', hsize]
    rfl
  cases hpressing : ladder.pressing focusId with
  | none =>
      refine ⟨_, hresolve page' (by rw [hpressing]; rfl), hid.symm, htarget.symm, rfl, ?_⟩
      rw [if_pos rfl, Focus.pages, htarget]
  | some item =>
      rw [hpressing, page_of_pressing item cursor.target page page'] at hstart
      refine ⟨_, hresolve start (by rw [hpressing]; exact hstart), hid.symm, htarget.symm, rfl, ?_⟩
      rw [if_neg (Option.some_ne_none item), hpage, Focus.pages, htarget]

theorem resolve_ne_empty :
    focusId ≠ "" := by
  rintro rfl
  obtain ⟨cursor, hcursor, -⟩ := Ladder.resolve_focus_form h
  have hnone : ladder.parseFocus ((ladder.pressing "").elim "" Ladder.pressingCursor) = none := by
    rfl
  rw [hnone] at hcursor
  cases hcursor

/-- A page past the last is the page it wraps to. -/
theorem resolve_wraps :
    ladder.resolveFocus focusId (page + found.pages) budget = .ok found := by
  obtain ⟨found', hresolve, hid, htarget, hsize, hpage⟩ := resolve_other_page h
    (page + found.pages)
  obtain ⟨found'', hresolve', -, -, -, hpage'⟩ := resolve_other_page h page
  rw [h] at hresolve'
  obtain rfl := Except.ok.inj hresolve'
  rw [hresolve]
  refine congrArg Except.ok ?_
  obtain ⟨id, target, page', size⟩ := found
  obtain ⟨id', target', page'', size'⟩ := found'
  simp only at hid htarget hsize hpage hpage'
  rw [Nat.add_mod_right, ← hpage'] at hpage
  simp only [Focus.mk.injEq]
  exact ⟨hid, htarget, hpage, hsize⟩

end

theorem last_index_get {item : Item} {members : List Item} {index : Nat}
    (h : Ladder.lastIndex item members = some index) : members[index]? = some item := by
  unfold Ladder.lastIndex at h
  split at h
  · rename_i hmem
    have hlt := List.idxOf_lt_length_of_mem (List.mem_reverse.mpr hmem)
    have hget := List.getElem_idxOf hlt
    obtain rfl := Option.some.inj h
    rw [List.getElem_reverse] at hget
    rw [List.length_reverse] at hlt
    exact List.getElem?_eq_some_iff.mpr ⟨by omega, hget⟩
  · cases h

/-- A pressing is on the page its cursor resolves to. -/
theorem pressing_on_page (hladder : ladder.WellFormed)
    (h : ladder.resolveFocus focusId page budget = .ok found) {item : Item}
    (hpressing : ladder.pressing focusId = some item) :
    item.nodeId ∈ slice found.target.memberIds found.page found.pageSize := by
  obtain ⟨cursor, hcursor, -, htarget, hsize, start, hstart, hpage⟩ :=
    Ladder.resolve_focus_form h
  have hsound := Ladder.parse_focus_sound hcursor
  have hpos := Ladder.target_size_pos hladder hsound
  have hsizePos : 0 < found.pageSize := by
    rw [hsize]
    exact Ladder.target_page_size_pos hpos
  have hitems : ∀ {members : List Item} {index : Nat},
      Ladder.lastIndex item members = some index → members.length = found.target.size →
      start = index / found.pageSize →
      item.nodeId ∈ slice (members.map (·.nodeId)) found.page found.pageSize := by
    intro members index hindex hlength hstart
    have hget := last_index_get hindex
    obtain ⟨hlt, -⟩ := List.getElem?_eq_some_iff.mp hget
    have hin := index_page_lt hsizePos hlt
    rw [slice_map, hpage, hstart, Focus.pages, ← hlength, Nat.mod_eq_of_lt hin]
    exact List.mem_map_of_mem (mem_slice_of_index hsizePos hget)
  rw [hpressing, Ladder.pageOf] at hstart
  rw [htarget]
  rw [htarget] at hitems
  cases hcase : cursor.target with
  | others members =>
      rw [hcase] at hstart
      cases hstart
  | bucket credit label members =>
      rw [hcase] at hstart
      cases hstart
  | pressings credit masterId members =>
      rw [hcase] at hstart hitems
      simp only [Ladder.memberIndex] at hstart
      split at hstart
      · rename_i index hindex
        exact hitems hindex rfl (Except.ok.inj hstart).symm
      · cases hstart
  | lane lane label members =>
      rw [hcase] at hstart hitems
      simp only [Ladder.memberIndex] at hstart
      split at hstart
      · rename_i index hindex
        exact hitems hindex rfl (Except.ok.inj hstart).symm
      · cases hstart

end Requests

/-- A cursor that resolves is answered, and the response draws its page among its members. -/
theorem page_answered {catalog : Catalog} {marks : Option Marks} {budget : Budget}
    {focusId : String} {page : Nat} {found : Focus} (hcatalog : catalog.Valid)
    (hbudget : budget.validate = .ok ())
    (h : (Ladder.build catalog marks).resolveFocus focusId page budget = .ok found) :
    ∃ payload, buildStrata catalog budget (some focusId) page marks = .ok payload ∧
      (payload.drawn found.target).Perm
        (slice found.target.memberIds found.page found.pageSize) := by
  have hladder := build_well_formed catalog marks
  have hfloors := Budget.floors_of_validate hbudget
  have hsound := Ladder.resolve_focus_ok hladder h
  obtain ⟨payload, hrender, -⟩ := Ladder.render_within_budget hladder hfloors
    (Ladder.focus_sound_some hsound)
  obtain ⟨plan, releases, hfit, hreleases, rfl⟩ := Ladder.render_payload hrender
  obtain ⟨level, hlevel, mode, keep, rfl⟩ := Ladder.fit_plan hfit
  refine ⟨_, ?_, Ladder.drawn_page hladder (build_named hcatalog marks)
    (Ladder.build_lane_ids hcatalog marks) hsound hlevel hfloors hreleases⟩
  rw [build_strata_some catalog budget page marks (resolve_ne_empty h), h]
  exact hrender

/-- Requests of one cursor whose pages resolve alike are answered alike. -/
theorem answered_alike {catalog : Catalog} {marks : Option Marks} {budget : Budget}
    {focusId : String} {page page' : Nat}
    (hne : focusId ≠ "")
    (h : (Ladder.build catalog marks).resolveFocus focusId page' budget =
      (Ladder.build catalog marks).resolveFocus focusId page budget) :
    buildStrata catalog budget (some focusId) page' marks =
      buildStrata catalog budget (some focusId) page marks := by
  rw [build_strata_some catalog budget page' marks hne, build_strata_some catalog budget page marks
    hne, h]

/-- Paging a focus is a partition of its members, and cursors do not depend on the view. The page
size and the page count of a cursor do not depend on the page; unless the cursor is a pressing, the
pages draw each member once and at least one each, and a pressing is answered with the page that
holds it; pages wrap; and the ids of the aggregates and master nodes of any response name one
member set under every budget, reported in its canonical form. -/
theorem strata_pages (catalog : Catalog) (marks : Option Marks) (budget : Budget)
    (focusId : String) (page : Nat) (found : Focus) (hcatalog : catalog.Valid)
    (hbudget : budget.validate = .ok ())
    (hresolve : (Ladder.build catalog marks).resolveFocus focusId page budget = .ok found) :
    (∀ page', ∃ found',
      (Ladder.build catalog marks).resolveFocus focusId page' budget = .ok found' ∧
      found'.target = found.target ∧ found'.pageSize = found.pageSize ∧
      found'.pages = found.pages) ∧
    ((Ladder.build catalog marks).pressing focusId = none → ∃ payloads : Nat → Payload,
      (∀ page', buildStrata catalog budget (some focusId) page' marks = .ok (payloads page')) ∧
      ((List.range found.pages).flatMap fun page' => (payloads page').drawn found.target).Perm
        found.target.memberIds ∧
      ∀ page' < found.pages, (payloads page').drawn found.target ≠ []) ∧
    (∀ item, (Ladder.build catalog marks).pressing focusId = some item → ∃ payload,
      (∀ page', buildStrata catalog budget (some focusId) page' marks = .ok payload) ∧
      item.nodeId ∈ payload.drawn found.target) ∧
    (∀ page', buildStrata catalog budget (some focusId) (page' + found.pages) marks =
      buildStrata catalog budget (some focusId) page' marks) ∧
    ∀ budget' focus' page' payload, budget'.validate = .ok () →
      buildStrata catalog budget' focus' page' marks = .ok payload →
      ∀ id ∈ payload.cursors, ∃ target : Target, target.NamedBy id ∧
        ∀ budget'' page'', ∃ found'',
          (Ladder.build catalog marks).resolveFocus id page'' budget'' = .ok found'' ∧
          found''.id = target.canonical ∧ found''.target = target := by
  have hladder := build_well_formed catalog marks
  have hnamed := build_named hcatalog marks
  have hsound := Ladder.resolve_focus_ok hladder hresolve
  have hpos := Ladder.target_size_pos hladder hsound.target
  have hsizePos : 0 < found.pageSize := by
    rw [hsound.size]
    exact Ladder.target_page_size_pos hpos
  have hpages : found.pages = pageCount found.target.memberIds.length found.pageSize := by
    rw [length_member_ids, Focus.pages]
  refine ⟨fun page' => ?_, fun hpressing => ?_, fun item hpressing => ?_, fun page' => ?_, ?_⟩
  · obtain ⟨found', hresolve', -, htarget, hsize, -⟩ := resolve_other_page hresolve page'
    refine ⟨found', hresolve', htarget, hsize, ?_⟩
    rw [Focus.pages, Focus.pages, htarget, hsize]
  · have hanswer : ∀ page', ∃ payload,
        buildStrata catalog budget (some focusId) page' marks = .ok payload ∧
        (payload.drawn found.target).Perm
          (slice found.target.memberIds (page' % found.pages) found.pageSize) := by
      intro page'
      obtain ⟨found', hresolve', -, htarget, hsize, hpage⟩ := resolve_other_page hresolve page'
      obtain ⟨payload, hbuild, hdrawn⟩ := page_answered hcatalog hbudget hresolve'
      rw [if_pos hpressing] at hpage
      rw [htarget, hsize, hpage] at hdrawn
      exact ⟨payload, hbuild, hdrawn⟩
    choose payloads hbuild hdrawn using hanswer
    refine ⟨payloads, hbuild, ?_, fun page' hlt hnil => ?_⟩
    · have hall := List.Perm.flatMap_left (List.range found.pages) fun page' hpage =>
        (hdrawn page').trans (List.Perm.of_eq (by
          rw [Nat.mod_eq_of_lt (List.mem_range.mp hpage)]))
      refine hall.trans (List.Perm.of_eq ?_)
      rw [hpages]
      exact slices_flatten _ hsizePos
    · have hempty := hdrawn page'
      rw [hnil, Nat.mod_eq_of_lt hlt, List.nil_perm] at hempty
      rw [hpages] at hlt
      exact slice_ne_nil hlt hempty
  · obtain ⟨payload, hbuild, hdrawn⟩ := page_answered hcatalog hbudget hresolve
    refine ⟨payload, fun page' => ?_, hdrawn.mem_iff.mpr
      (pressing_on_page hladder hresolve hpressing)⟩
    obtain ⟨found', hresolve', hid, htarget, hsize, hpage⟩ := resolve_other_page hresolve page'
    rw [if_neg (by rw [hpressing]; exact Option.some_ne_none item)] at hpage
    have hsame : found' = found := by
      obtain ⟨id, target, page, size⟩ := found
      obtain ⟨id', target', page', size'⟩ := found'
      simp only at hid htarget hsize hpage
      rw [hid, htarget, hsize, hpage]
    rw [hsame] at hresolve'
    rw [answered_alike (resolve_ne_empty hresolve) (hresolve'.trans hresolve.symm), hbuild]
  · obtain ⟨found', hresolve', -, htarget, hsize, -⟩ := resolve_other_page hresolve page'
    have hsame : found'.pages = found.pages := by rw [Focus.pages, Focus.pages, htarget, hsize]
    have hwraps := resolve_wraps hresolve'
    rw [hsame] at hwraps
    exact answered_alike (resolve_ne_empty hresolve) (hwraps.trans hresolve'.symm)
  · intro budget' focus' page' payload hbudget' hbuild id hid
    have hfloors := Budget.floors_of_validate hbudget'
    obtain ⟨found', hresolves, hrender⟩ := build_strata_form hbuild
    have hfocus := hresolves.sound hladder
    obtain ⟨plan, releases, hfit, hreleases, rfl⟩ := Ladder.render_payload hrender
    obtain ⟨level, hlevel, mode, keep, rfl⟩ := Ladder.fit_plan hfit
    have hlevelSound := Ladder.credit_level_sound hladder hfloors hfocus hlevel
    obtain ⟨target, htarget, hname⟩ := Ladder.offered_named hfocus
      (Ladder.plan_drafted hladder hfocus hlevelSound mode keep) rfl hreleases hid
    refine ⟨target, hname, fun budget'' page'' => ⟨_, Ladder.resolve_named hladder hnamed htarget
      hname page'' budget'', rfl, rfl⟩⟩

/-- The six pressings of a master are drawn on two pages. -/
theorem career_pages : ∃ found,
    (Ladder.build longCareer none).resolveFocus "m:110" 0 tightest = .ok found ∧
    found.pages = 2 ∧ found.target.memberIds.length = 6 ∧
    (∀ page', buildStrata longCareer tightest (some "m:110") (page' + found.pages) none =
      buildStrata longCareer tightest (some "m:110") page' none) ∧
    ∃ payloads : Nat → Payload,
      (∀ page', buildStrata longCareer tightest (some "m:110") page' none =
        .ok (payloads page')) ∧
      ((List.range found.pages).flatMap fun page' => (payloads page').drawn found.target).Perm
        found.target.memberIds ∧
      ∀ page' < found.pages, (payloads page').drawn found.target ≠ [] := by
  refine ⟨_, rfl, rfl, rfl, ?_⟩
  obtain ⟨-, hpages, -, hwraps, -⟩ :=
    strata_pages longCareer none tightest "m:110" 0 _ long_career_valid rfl rfl
  exact ⟨hwraps, hpages rfl⟩

/-- One master with five pressings. -/
def fivePressings : Catalog :=
  { rootId := "1", rootName := none
    releases := ["10", "11", "12", "13", "14"].map fun id =>
      ⟨id, some "5", some 1990, ["1"], .discogs, none⟩
    masterYears := ⟨[], List.nodup_nil⟩ }

/-- Two pages of a pressing's cursor draw the same members. -/
theorem pressing_pages_repeat : fivePressings.Valid ∧ tightest.validate = .ok () ∧
    ∃ found first second,
      (Ladder.build fivePressings none).resolveFocus "r:10" 0 tightest = .ok found ∧
      found.pages = 2 ∧
      buildStrata fivePressings tightest (some "r:10") 0 none = .ok first ∧
      buildStrata fivePressings tightest (some "r:10") 1 none = .ok second ∧
      ¬(first.drawn found.target ++ second.drawn found.target).Perm found.target.memberIds := by
  refine ⟨⟨by decide, by decide, by decide, by decide, by decide⟩, rfl, _, _, _, rfl, rfl, rfl, rfl,
    ?_⟩
  decide

end CatalogApi.Strata
