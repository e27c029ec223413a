import CatalogApi.Strata.Discography

/-!
# Similar ladders

Two ladders are similar when the items of one are those of the other with something changed that
no fold reads (`Similar`). A cursor then resolves to the same page of both (`resolve_focus_map`),
the same masters and credits are drawn (`fit_map`), and so are the same releases
(`plan_releases_map`).
-/

namespace CatalogApi.Strata

open ByKey Slices Text

/-! ## Changing the items of a view -/

/-- A target with its items changed. -/
def Target.map (change : Item → Item) : Target → Target
  | .others members => .others members
  | .bucket credit label members => .bucket credit label members
  | .pressings credit masterId members => .pressings credit masterId (members.map change)
  | .lane credit label members => .lane credit label (members.map change)

/-- A cursor with its items changed. -/
def Cursor.map (change : Item → Item) (cursor : Cursor) : Cursor :=
  { cursor with target := cursor.target.map change }

/-- A focus with its items changed. -/
def Focus.map (change : Item → Item) (focus : Focus) : Focus :=
  { focus with target := focus.target.map change }

/-- A release plane with its items changed. -/
def changePlane (change : Item → Item) (plane : List ReleaseNode × List ReleaseAgg) :
    List ReleaseNode × List ReleaseAgg :=
  (plane.1.map fun node => (change node.1, node.2),
    plane.2.map fun agg => { agg with items := agg.items.map change })

@[simp] theorem Target.size_map (change : Item → Item) (target : Target) :
    (target.map change).size = target.size := by
  cases target with
  | others members => rfl
  | bucket credit label members => rfl
  | pressings credit masterId members => exact List.length_map _
  | lane credit label members => exact List.length_map _

@[simp] theorem Target.credit_map (change : Item → Item) (target : Target) :
    (target.map change).credit = target.credit := by
  cases target with
  | others members => rfl
  | bucket credit label members => rfl
  | pressings credit masterId members => rfl
  | lane credit label members => rfl

theorem present_map {α β : Type} (f : α → β) (items : List α) :
    present (items.map f) = present items := by
  simp only [present, List.map_eq_nil_iff]

theorem filter_map_kept {α : Type} {f : α → α} {p : α → Bool} {items : List α}
    (h : ∀ item ∈ items, p (f item) = p item) :
    (items.map f).filter p = (items.filter p).map f := by
  rw [List.filter_map]
  exact congrArg _ (List.filter_congr h)

/-- An injective change finds an item where it was. -/
theorem idx_of_map {change : Item → Item} {item : Item} {members : List Item}
    (h : ∀ other ∈ members, change other = change item → other = item) :
    (members.map change).idxOf (change item) = members.idxOf item := by
  induction members with
  | nil => rfl
  | cons other members ih =>
      rw [List.map_cons, List.idxOf_cons, List.idxOf_cons,
        ih fun next hnext => h next (List.mem_cons_of_mem _ hnext)]
      by_cases heq : other = item
      · rw [heq, beq_self_eq_true, beq_self_eq_true]
      · have hne : change other ≠ change item := fun hc => heq (h other List.mem_cons_self hc)
        rw [beq_false_of_ne hne, beq_false_of_ne heq]

/-! ## Similar ladders -/

/-- The second ladder has the items of the first, changed in a way that keeps what the folds
read, in the same groups and in the same order within each group. -/
structure Similar (change : Item → Item) (ladder ladder' : Ladder) : Prop where
  release : ∀ item, (change item).release = item.release
  year : ∀ item, (change item).year = item.year
  yearSource : ∀ item, (change item).yearSource = item.yearSource
  credit : ∀ item, (change item).credit = item.credit
  stateful : ∀ item ∈ ladder.items, (change item).stateful = item.stateful
  inj : ∀ item ∈ ladder.items, ∀ other ∈ ladder.items, change item = change other → item = other
  rootId : ladder'.catalog.rootId = ladder.catalog.rootId
  rootName : ladder'.catalog.rootName = ladder.catalog.rootName
  years : ladder'.catalog.masterYears.get? = ladder.catalog.masterYears.get?
  anchor : ladder'.anchor = ladder.anchor
  items : ladder'.items.Perm (ladder.items.map change)
  masterIds : ladder'.masterIds.Perm ladder.masterIds
  itemsByMaster : ∀ masterId, ladder'.itemsByMaster masterId =
    (ladder.itemsByMaster masterId).map change
  masterlessCredits : ladder'.masterlessCredits.Perm ladder.masterlessCredits
  masterless : ∀ credit, ladder'.masterless credit = (ladder.masterless credit).map change
  byNodeId : ∀ nodeId, ladder'.byNodeId nodeId = (ladder.byNodeId nodeId).map change
  found : ∀ nodeId item, ladder.byNodeId nodeId = some item → item ∈ ladder.items
  masterCredit : ladder'.masterCredit = ladder.masterCredit
  masterYear : ladder'.masterYear = ladder.masterYear
  mastersByCredit : ladder'.mastersByCredit = ladder.mastersByCredit
  statefulMasters : ladder'.statefulMasters = ladder.statefulMasters
  creditOrder : ladder'.creditOrder = ladder.creditOrder

namespace Similar

variable {change : Item → Item} {ladder ladder' : Ladder} {budget : Budget}

section

variable (h : Similar change ladder ladder')
include h

theorem root : ladder'.root = ladder.root := by
  rw [Ladder.root, Ladder.root, h.rootId]

theorem masterless_nil (credit : Credit) :
    ladder'.masterless credit = [] ↔ ladder.masterless credit = [] := by
  rw [h.masterless, List.map_eq_nil_iff]

theorem present_masterless (credit : Credit) :
    present (ladder'.masterless credit) = present (ladder.masterless credit) := by
  rw [h.masterless, present_map]

theorem length_masterless (credit : Credit) :
    (ladder'.masterless credit).length = (ladder.masterless credit).length := by
  rw [h.masterless, List.length_map]

theorem bucket : ladder'.bucket = ladder.bucket := by
  funext mode masterId
  simp only [Ladder.bucket, h.masterCredit, h.masterYear]

theorem credit_rank : ladder'.creditRank = ladder.creditRank := by
  funext credit
  rw [Ladder.creditRank, Ladder.creditRank, h.creditOrder]

theorem master_node_key : ladder'.masterNodeKey = ladder.masterNodeKey := by
  funext masterId
  rw [Ladder.masterNodeKey, Ladder.masterNodeKey, h.masterYear, h.credit_rank, h.masterCredit]

theorem bucket_key : ladder'.bucketKey = ladder.bucketKey := by
  funext bucket
  rw [Ladder.bucketKey, Ladder.bucketKey, h.credit_rank]

/-! ## Cursors -/

theorem master_cursor (masterId : String) :
    ladder'.masterCursor masterId = (ladder.masterCursor masterId).map (Cursor.map change) := by
  unfold Ladder.masterCursor
  by_cases hmem : masterId ∈ ladder.masterIds
  · rw [if_pos hmem, if_pos (h.masterIds.mem_iff.mpr hmem), h.masterCredit, h.itemsByMaster]
    rfl
  · rw [if_neg hmem, if_neg fun hm => hmem (h.masterIds.mem_iff.mp hm)]
    rfl

theorem lane_cursor (text : String) :
    ladder'.laneCursor text = (ladder.laneCursor text).map (Cursor.map change) := by
  unfold Ladder.laneCursor
  split
  · rfl
  · rename_i credit _
    by_cases hnil : ladder.masterless credit = []
    · rw [if_pos hnil, if_pos ((h.masterless_nil credit).mpr hnil)]
      rfl
    · rw [if_neg hnil, if_neg fun hn => hnil ((h.masterless_nil credit).mp hn), h.masterless]
      rfl
  · rename_i credit label _
    have hmembers : ((ladder'.masterless credit).filter fun item => decade item.year = label) =
        ((ladder.masterless credit).filter fun item => decade item.year = label).map change := by
      rw [h.masterless]
      exact filter_map_kept fun item _ => by rw [h.year]
    dsimp only
    rw [hmembers]
    by_cases hnil : ((ladder.masterless credit).filter fun item => decade item.year = label) = []
    · rw [if_pos hnil, if_pos (List.map_eq_nil_iff.mpr hnil)]
      rfl
    · rw [if_neg hnil, if_neg fun hn => hnil (List.map_eq_nil_iff.mp hn)]
      rfl

theorem bucket_cursor (text : String) :
    ladder'.bucketCursor text = (ladder.bucketCursor text).map (Cursor.map change) := by
  unfold Ladder.bucketCursor
  rw [h.mastersByCredit, h.bucket]
  split
  · dsimp only
    split
    · rfl
    · rfl
  · rfl

theorem others_cursor :
    ladder'.othersCursor = ladder.othersCursor.map (Cursor.map change) := by
  unfold Ladder.othersCursor
  rw [h.creditOrder]
  dsimp only
  split
  · rfl
  · rfl

theorem parse_focus (focusId : String) :
    ladder'.parseFocus focusId = (ladder.parseFocus focusId).map (Cursor.map change) := by
  unfold Ladder.parseFocus
  by_cases hothers : focusId = otherCredits
  · rw [if_pos hothers, if_pos hothers, h.others_cursor]
  · rw [if_neg hothers, if_neg hothers]
    split
    · exact h.master_cursor _
    · split
      · exact h.master_cursor _
      · split
        · exact h.lane_cursor _
        · split
          · exact h.lane_cursor _
          · split
            · exact h.bucket_cursor _
            · rfl

theorem pressing (focusId : String) :
    ladder'.pressing focusId = (ladder.pressing focusId).map change := by
  unfold Ladder.pressing
  split
  · exact h.byNodeId _
  · split
    · exact h.byNodeId _
    · rfl

theorem pressing_found {focusId : String} {item : Item}
    (hfound : ladder.pressing focusId = some item) : item ∈ ladder.items := by
  unfold Ladder.pressing at hfound
  split at hfound
  · exact h.found _ _ hfound
  · split at hfound
    · exact h.found _ _ hfound
    · cases hfound

theorem pressing_cursor (item : Item) :
    Ladder.pressingCursor (change item) = Ladder.pressingCursor item := by
  rw [Ladder.pressingCursor, Ladder.pressingCursor, h.release, h.credit]

/-! ## The page -/

theorem other_master_entries (credit : Credit) (members : List String) :
    ladder'.otherMasterEntries credit members = ladder.otherMasterEntries credit members := by
  simp only [Ladder.otherMasterEntries, h.present_masterless, h.mastersByCredit, h.root]

theorem focused_credits (credit : Credit) :
    ladder'.focusedCredits credit = ladder.focusedCredits credit := by
  rw [Ladder.focusedCredits, Ladder.focusedCredits, h.root]

theorem other_lanes (credit : Credit) (lane : Option Credit) (members : List Item) :
    ladder'.otherLanes credit lane (members.map change) =
      ladder.otherLanes credit lane members := by
  simp only [Ladder.otherLanes, h.focused_credits, h.present_masterless, h.length_masterless,
    List.length_map]

theorem target_page_size (target : Target) :
    ladder'.targetPageSize (target.map change) budget = ladder.targetPageSize target budget := by
  cases target with
  | others members => rfl
  | bucket credit label members =>
      simp only [Target.map, Ladder.targetPageSize, h.other_master_entries, h.focused_credits,
        h.present_masterless]
  | pressings credit masterId members =>
      simp only [Target.map, Ladder.targetPageSize, h.other_lanes, List.length_map]
  | lane credit label members =>
      simp only [Target.map, Ladder.targetPageSize, h.other_lanes, List.length_map]

end

theorem last_index {item : Item} {members : List Item}
    (hinj : ∀ other ∈ members, change other = change item → other = item) :
    Ladder.lastIndex (change item) (members.map change) = Ladder.lastIndex item members := by
  unfold Ladder.lastIndex
  have hmem : change item ∈ members.map change ↔ item ∈ members := by
    constructor
    · intro hm
      obtain ⟨other, hother, heq⟩ := List.mem_map.mp hm
      rw [← hinj other hother heq]
      exact hother
    · exact List.mem_map_of_mem
  by_cases hm : item ∈ members
  · rw [if_pos hm, if_pos (hmem.mpr hm), List.length_map, ← List.map_reverse,
      idx_of_map fun other hother => hinj other (List.mem_reverse.mp hother)]
  · rw [if_neg hm, if_neg fun hc => hm (hmem.mp hc)]

/-- The items of a target of the ladder. -/
theorem target_items (hladder : ladder.WellFormed) {target : Target}
    (htarget : target.Sound ladder) :
    match target with
    | .pressings _ _ members => ∀ item ∈ members, item ∈ ladder.items
    | .lane _ _ members => ∀ item ∈ members, item ∈ ladder.items
    | _ => True := by
  cases target with
  | others members => trivial
  | bucket credit label members => trivial
  | pressings credit masterId members =>
      intro item hitem
      rw [htarget.2.2] at hitem
      exact (hladder.mem_items.mp hitem).1
  | lane credit label members =>
      intro item hitem
      rw [htarget.1] at hitem
      cases label with
      | none => exact (hladder.mem_lane.mp hitem).1
      | some label => exact (hladder.mem_lane.mp (List.mem_of_mem_filter hitem)).1

theorem member_index (h : Similar change ladder ladder') (hladder : ladder.WellFormed)
    {item : Item} (hitem : item ∈ ladder.items) {target : Target}
    (htarget : target.Sound ladder) :
    Ladder.memberIndex (change item) (target.map change) = Ladder.memberIndex item target := by
  have hitems := target_items hladder htarget
  cases target with
  | others members => rfl
  | bucket credit label members => rfl
  | pressings credit masterId members =>
      exact last_index fun other hother => h.inj other (hitems other hother) item hitem
  | lane credit label members =>
      exact last_index fun other hother => h.inj other (hitems other hother) item hitem

/-- A cursor resolves to the same page of similar ladders. -/
theorem resolve_focus_map (h : Similar change ladder ladder') (hladder : ladder.WellFormed)
    (focusId : String) (page : Nat) :
    ladder'.resolveFocus focusId page budget =
      (ladder.resolveFocus focusId page budget).map (Focus.map change) := by
  unfold Ladder.resolveFocus
  have hcursor : (ladder'.pressing focusId).elim focusId Ladder.pressingCursor =
      (ladder.pressing focusId).elim focusId Ladder.pressingCursor := by
    rw [h.pressing]
    cases ladder.pressing focusId with
    | none => rfl
    | some item => exact h.pressing_cursor item
  dsimp only
  rw [hcursor, h.parse_focus]
  cases hparse : ladder.parseFocus ((ladder.pressing focusId).elim focusId
      Ladder.pressingCursor) with
  | none => rfl
  | some cursor =>
      have hpage : Ladder.pageOf (ladder'.pressing focusId) (cursor.target.map change) page
          (ladder.targetPageSize cursor.target budget) =
          Ladder.pageOf (ladder.pressing focusId) cursor.target page
            (ladder.targetPageSize cursor.target budget) := by
        rw [h.pressing]
        cases hitem : ladder.pressing focusId with
        | none => rfl
        | some item =>
            simp only [Ladder.pageOf, Option.map_some, h.member_index hladder
              (h.pressing_found hitem) (Ladder.parse_focus_sound hparse)]
      simp only [Option.map_some, Cursor.map, h.target_page_size, hpage, Target.size_map]
      cases Ladder.pageOf (ladder.pressing focusId) cursor.target page
          (ladder.targetPageSize cursor.target budget) with
      | error error => rfl
      | ok start => rfl

/-! ## Credits and masters -/

section

variable (change) (focus : Option Focus)

theorem on_others_map :
    onOthers (focus.map (Focus.map change)) =
      (onOthers focus).map fun found => (found.1.map change, found.2) := by
  cases focus with
  | none => rfl
  | some found =>
      obtain ⟨id, target, page, pageSize⟩ := found
      cases target with
      | others members => rfl
      | bucket credit label members => rfl
      | pressings credit masterId members => rfl
      | lane credit label members => rfl

theorem on_master_map (masterId : String) :
    onMaster (focus.map (Focus.map change)) masterId =
      (onMaster focus masterId).map fun found => (found.1.map change, found.2.map change) := by
  cases focus with
  | none => rfl
  | some found =>
      obtain ⟨id, target, page, pageSize⟩ := found
      cases target with
      | others members => rfl
      | bucket credit label members => rfl
      | pressings credit focused members =>
          by_cases heq : focused = masterId
          · simp [onMaster, Focus.map, Target.map, heq]
          · simp [onMaster, Focus.map, Target.map, heq]
      | lane credit label members => rfl

theorem on_lane_map (lane : Credit) :
    onLane (focus.map (Focus.map change)) lane =
      (onLane focus lane).map fun found =>
        (found.1.map change, found.2.1, found.2.2.map change) := by
  cases focus with
  | none => rfl
  | some found =>
      obtain ⟨id, target, page, pageSize⟩ := found
      cases target with
      | others members => rfl
      | bucket credit label members => rfl
      | pressings credit masterId members => rfl
      | lane focused label members =>
          by_cases heq : focused = lane
          · simp [onLane, Focus.map, Target.map, heq]
          · simp [onLane, Focus.map, Target.map, heq]

theorem pinned_masters_map :
    pinnedMasters (focus.map (Focus.map change)) = pinnedMasters focus := by
  cases focus with
  | none => rfl
  | some found =>
      obtain ⟨id, target, page, pageSize⟩ := found
      cases target with
      | others members => rfl
      | bucket credit label members => rfl
      | pressings credit masterId members => rfl
      | lane credit label members => rfl

end

theorem base_credits_map (h : Similar change ladder ladder') (focus : Option Focus) :
    ladder'.baseCredits (focus.map (Focus.map change)) = ladder.baseCredits focus := by
  have hcredit : (focus.map (Focus.map change)).bind (·.target.credit) =
      focus.bind (·.target.credit) := by
    cases focus with
    | none => rfl
    | some found => exact Target.credit_map change found.target
  unfold Ladder.baseCredits
  rw [hcredit, h.root]

theorem credit_levels_map (h : Similar change ladder ladder') (focus : Option Focus) :
    ladder'.creditLevels budget (focus.map (Focus.map change)) =
      ladder.creditLevels budget focus := by
  unfold Ladder.creditLevels
  rw [on_others_map, h.base_credits_map, h.root, h.creditOrder]
  cases onOthers focus with
  | none => rfl
  | some found => rfl

theorem master_floor_map (change : Item → Item) (focus : Option Focus) (masterId : String) :
    Ladder.masterFloor (focus.map (Focus.map change)) masterId =
      Ladder.masterFloor focus masterId := by
  unfold Ladder.masterFloor
  rw [on_master_map]
  cases onMaster focus masterId with
  | none => rfl
  | some found =>
      simp only [Option.map_some, Focus.map, Focus.onPage, Focus.offPage, slice_map, leftover_map,
        List.length_map, present_map]

section

variable (h : Similar change ladder ladder') (focus : Option Focus)
include h focus

theorem lane_floor_map (lane : Credit) :
    ladder'.laneFloor (focus.map (Focus.map change)) lane = ladder.laneFloor focus lane := by
  unfold Ladder.laneFloor
  rw [on_lane_map]
  cases onLane focus lane with
  | none => rfl
  | some found =>
      simp only [Option.map_some, Focus.map, Focus.onPage, Focus.offPage, slice_map, leftover_map,
        List.length_map, present_map, h.length_masterless]

theorem candidates_map (shown : List Credit) :
    ladder'.candidates (focus.map (Focus.map change)) shown = ladder.candidates focus shown := by
  have hpriority : ladder'.masterPriority = ladder.masterPriority := by
    funext masterId
    rw [Ladder.masterPriority, Ladder.masterPriority, h.statefulMasters, h.itemsByMaster,
      List.length_map]
  unfold Ladder.candidates
  rw [pinned_masters_map, hpriority, h.mastersByCredit]

theorem plan_masters_map (shown folded : List Credit) (mode : FoldMode) :
    ladder'.planMasters budget (focus.map (Focus.map change)) shown folded mode =
      ladder.planMasters budget focus shown folded mode := by
  have hlanes : ladder'.lanesOf shown = ladder.lanesOf shown :=
    List.filter_congr fun credit _ => decide_eq_decide.mpr (not_congr (h.masterless_nil credit))
  have hfloor : Ladder.masterFloor (focus.map (Focus.map change)) = Ladder.masterFloor focus :=
    funext (master_floor_map change focus)
  have hlaneFloor : ladder'.laneFloor (focus.map (Focus.map change)) = ladder.laneFloor focus :=
    funext (h.lane_floor_map focus)
  have hfixed : ladder'.fixedMasters (focus.map (Focus.map change)) shown =
      ladder.fixedMasters focus shown := by
    rw [Ladder.fixedMasters, Ladder.fixedMasters, pinned_masters_map, hlanes]
  have hreleases : ladder'.fixedReleases (focus.map (Focus.map change)) shown =
      ladder.fixedReleases focus shown := by
    rw [Ladder.fixedReleases, Ladder.fixedReleases, pinned_masters_map, hlanes,
      Ladder.releaseFloor, Ladder.releaseFloor, hfloor, hlaneFloor]
  rw [Ladder.plan_masters_eq, Ladder.plan_masters_eq, hfixed, hreleases, hlanes, h.bucket,
    h.candidates_map, pinned_masters_map]

/-- The same credits and masters of similar ladders are drawn. -/
theorem fit_map :
    ladder'.fit budget (focus.map (Focus.map change)) = ladder.fit budget focus := by
  unfold Ladder.fit
  simp only [h.credit_levels_map, h.plan_masters_map]

end

/-! ## Releases -/

/-- One aggregate of the rest, when there is a rest. -/
theorem one_agg_map (items : List Item) (agg : List Item → ReleaseAgg)
    (hagg : ∀ items, { agg items with items := (agg items).items.map change } =
      agg (items.map change)) :
    (if items.map change = [] then [] else [agg (items.map change)]) =
      (if items = [] then [] else [agg items]).map fun agg =>
        { agg with items := agg.items.map change } := by
  by_cases hnil : items = []
  · rw [if_pos hnil, if_pos (List.map_eq_nil_iff.mpr hnil)]
    rfl
  · rw [if_neg hnil, if_neg fun hn => hnil (List.map_eq_nil_iff.mp hn)]
    exact congrArg (fun agg => [agg]) (hagg items).symm

theorem fixed_of_master_map (focus : Option Focus) (masterId : String) :
    Ladder.fixedOfMaster (focus.map (Focus.map change)) masterId =
      changePlane change (Ladder.fixedOfMaster focus masterId) := by
  unfold Ladder.fixedOfMaster
  rw [on_master_map]
  cases onMaster focus masterId with
  | none => rfl
  | some found =>
      simp only [Option.map_some, changePlane, Focus.map, Focus.onPage, Focus.offPage, slice_map,
        leftover_map]
      refine Prod.ext ?_ ?_
      · simp only [List.map_map]
        rfl
      · exact one_agg_map _ (fun items => ⟨found.1.id, _, items, none⟩) fun _ => rfl

theorem fixed_of_lane_map (focus : Option Focus) (lane : Credit) :
    Ladder.fixedOfLane (focus.map (Focus.map change)) lane =
      changePlane change (Ladder.fixedOfLane focus lane) := by
  unfold Ladder.fixedOfLane
  rw [on_lane_map]
  cases onLane focus lane with
  | none => rfl
  | some found =>
      simp only [Option.map_some, changePlane, Focus.map, Focus.onPage, Focus.offPage, slice_map,
        leftover_map]
      refine Prod.ext ?_ ?_
      · simp only [List.map_map]
        rfl
      · exact one_agg_map _ (fun items => ⟨found.1.id, _, items, found.2.1⟩) fun _ => rfl

theorem keeps_of_master (h : Similar change ladder ladder') (strategy : Strategy)
    (masterId : String) {item : Item} (hitem : item ∈ ladder.items) :
    ladder'.keepsOfMaster strategy masterId (change item) =
      ladder.keepsOfMaster strategy masterId item := by
  unfold Ladder.keepsOfMaster
  rw [h.release, h.anchor, h.stateful item hitem]

theorem fold_master_map (h : Similar change ladder ladder') (hladder : ladder.WellFormed)
    (strategy : Strategy) (masterId : String) :
    ladder'.foldMaster strategy masterId =
      changePlane change (ladder.foldMaster strategy masterId) := by
  have hitems : ∀ item ∈ ladder.itemsByMaster masterId, item ∈ ladder.items :=
    fun item hitem => (hladder.mem_items.mp hitem).1
  have hkept : (ladder'.itemsByMaster masterId).filter (ladder'.keepsOfMaster strategy masterId) =
      ((ladder.itemsByMaster masterId).filter (ladder.keepsOfMaster strategy masterId)).map
        change := by
    rw [h.itemsByMaster, List.filter_map]
    exact congrArg _ (List.filter_congr fun item hitem =>
      h.keeps_of_master strategy masterId (hitems item hitem))
  have hrest : ((ladder'.itemsByMaster masterId).filter fun item =>
        ¬ladder'.keepsOfMaster strategy masterId item) =
      ((ladder.itemsByMaster masterId).filter fun item =>
        ¬ladder.keepsOfMaster strategy masterId item).map change := by
    rw [h.itemsByMaster, List.filter_map]
    refine congrArg _ (List.filter_congr fun item hitem => ?_)
    rw [Function.comp_apply, h.keeps_of_master strategy masterId (hitems item hitem)]
  unfold Ladder.foldMaster
  simp only [hkept, hrest, changePlane]
  refine Prod.ext ?_ ?_
  · simp only [List.map_map]
    rfl
  · exact one_agg_map _ (fun items => ⟨_, _, items, none⟩) fun _ => rfl

/-- A lane of changed items folds as the lane, with its items changed. -/
theorem fold_lane_map (h : Similar change ladder ladder') (strategy : Strategy) (lane : Credit)
    {items : List Item} (hitems : ∀ item ∈ items, item ∈ ladder.items) :
    Ladder.foldLane strategy lane (items.map change) =
      changePlane change (Ladder.foldLane strategy lane items) := by
  have hkept : ((items.map change).filter fun item => strategy.keepStateful ∧ item.stateful) =
      (items.filter fun item => strategy.keepStateful ∧ item.stateful).map change :=
    filter_map_kept fun item hitem => by rw [h.stateful item (hitems item hitem)]
  have hrest : ((items.map change).filter fun item =>
        ¬(strategy.keepStateful ∧ item.stateful)) =
      (items.filter fun item => ¬(strategy.keepStateful ∧ item.stateful)).map change :=
    filter_map_kept fun item hitem => by rw [h.stateful item (hitems item hitem)]
  unfold Ladder.foldLane
  simp only [hkept, hrest, changePlane]
  refine Prod.ext ?_ ?_
  · simp only [List.map_map]
    rfl
  · by_cases hnil : (items.filter fun item => ¬(strategy.keepStateful ∧ item.stateful)) = []
    · rw [if_pos hnil, if_pos (List.map_eq_nil_iff.mpr hnil)]
      rfl
    · rw [if_neg hnil, if_neg fun hn => hnil (List.map_eq_nil_iff.mp hn)]
      by_cases hdecade : strategy.byDecade
      · have hlabel : ((fun item : Item => decade item.year) ∘ change) =
            fun item => decade item.year := funext fun item => by
          rw [Function.comp_apply, h.year]
        rw [if_pos hdecade, if_pos hdecade]
        dsimp only
        rw [List.map_map, hlabel, List.map_map]
        refine List.map_congr_left fun label _ => ?_
        rw [Function.comp_apply]
        refine congrArg (ReleaseAgg.mk _ _ · _) ?_
        exact filter_map_kept fun item _ => by rw [h.year]
      · rw [if_neg hdecade, if_neg hdecade]
        rfl

theorem open_items_map (h : Similar change ladder ladder') (hladder : ladder.WellFormed)
    {focus : Option Focus} (hfocus : ladder.FocusSound budget focus) (lane : Credit) :
    ladder'.openItems (focus.map (Focus.map change)) lane =
      (ladder.openItems focus lane).map change := by
  unfold Ladder.openItems
  rw [on_lane_map]
  cases hon : onLane focus lane with
  | none => exact h.masterless lane
  | some found =>
      obtain ⟨found, label, members⟩ := found
      obtain ⟨rfl, htarget⟩ := Ladder.on_lane_eq hon
      have hsound := (hfocus found rfl).target
      rw [htarget] at hsound
      have hmembers := target_items hladder hsound
      simp only [Option.map_some]
      rw [h.masterless]
      rw [List.filter_map]
      refine congrArg _ (List.filter_congr fun item hitem => ?_)
      have hiff : change item ∈ members.map change ↔ item ∈ members := by
        constructor
        · intro hm
          obtain ⟨other, hother, heq⟩ := List.mem_map.mp hm
          rw [← h.inj other (hmembers other hother) item (hladder.mem_lane.mp hitem).1 heq]
          exact hother
        · exact List.mem_map_of_mem
      rw [Function.comp_apply, decide_eq_decide, hiff]

theorem open_items_items (hladder : ladder.WellFormed) (focus : Option Focus) (lane : Credit) :
    ∀ item ∈ ladder.openItems focus lane, item ∈ ladder.items := by
  intro item hitem
  unfold Ladder.openItems at hitem
  split at hitem
  · exact (hladder.mem_lane.mp hitem).1
  · exact (hladder.mem_lane.mp (List.mem_of_mem_filter hitem)).1

theorem everything_map (h : Similar change ladder ladder') (masters : List String)
    (lanes : List (Credit × List Item)) :
    ladder'.everything masters (lanes.map fun lane => (lane.1, lane.2.map change)) =
      (ladder.everything masters lanes).map fun node => (change node.1, node.2) := by
  simp only [Ladder.everything, h.itemsByMaster, List.map_append, List.map_flatMap,
    List.flatMap_map, List.map_map]
  rfl

theorem fold_releases_map (h : Similar change ladder ladder') (hladder : ladder.WellFormed)
    (masters : List String) {lanes : List (Credit × List Item)}
    (hlanes : ∀ lane ∈ lanes, ∀ item ∈ lane.2, item ∈ ladder.items) (strategy : Strategy) :
    ladder'.foldReleases masters (lanes.map fun lane => (lane.1, lane.2.map change)) strategy =
      changePlane change (ladder.foldReleases masters lanes strategy) := by
  have hfold : ∀ lane ∈ lanes, Ladder.foldLane strategy lane.1 (lane.2.map change) =
      changePlane change (Ladder.foldLane strategy lane.1 lane.2) :=
    fun lane hlane => h.fold_lane_map strategy lane.1 (hlanes lane hlane)
  have hnodes := List.flatMap_congr fun lane hlane => congrArg Prod.fst (hfold lane hlane)
  have haggs := List.flatMap_congr fun lane hlane => congrArg Prod.snd (hfold lane hlane)
  simp only [Ladder.foldReleases, h.fold_master_map hladder, List.flatMap_map, hnodes, haggs]
  simp only [changePlane, List.map_append, List.map_flatMap]

theorem first_fitting_map (room : Int) (fold : Strategy → List ReleaseNode × List ReleaseAgg)
    (strategies : List Strategy) :
    Ladder.firstFitting room (fun strategy => changePlane change (fold strategy)) strategies =
      (Ladder.firstFitting room fold strategies).map (changePlane change) := by
  induction strategies with
  | nil => rfl
  | cons strategy rest ih =>
      have hlength : (changePlane change (fold strategy)).1.length = (fold strategy).1.length ∧
          (changePlane change (fold strategy)).2.length = (fold strategy).2.length :=
        ⟨List.length_map _, List.length_map _⟩
      simp only [Ladder.firstFitting, ih, hlength.1, hlength.2]
      split
      · rfl
      · rfl

theorem open_lanes_map (h : Similar change ladder ladder') (hladder : ladder.WellFormed)
    {focus : Option Focus} (hfocus : ladder.FocusSound budget focus) (plan : MasterPlan) :
    ladder'.openLanes (focus.map (Focus.map change)) plan =
      (ladder.openLanes focus plan).map fun lane => (lane.1, lane.2.map change) := by
  unfold Ladder.openLanes
  have hlanes : (plan.lanes.map fun lane =>
      (lane, ladder'.openItems (focus.map (Focus.map change)) lane)) =
      (plan.lanes.map fun lane => (lane, ladder.openItems focus lane)).map
        fun lane => (lane.1, lane.2.map change) := by
    rw [List.map_map]
    refine List.map_congr_left fun lane _ => ?_
    rw [Function.comp_apply, h.open_items_map hladder hfocus]
  rw [hlanes, List.filter_map]
  refine congrArg _ (List.filter_congr fun lane _ => ?_)
  rw [Function.comp_apply, decide_eq_decide]
  exact not_congr List.map_eq_nil_iff

/-- The same releases of similar ladders are drawn. -/
theorem plan_releases_map (h : Similar change ladder ladder') (hladder : ladder.WellFormed)
    {focus : Option Focus} (hfocus : ladder.FocusSound budget focus) (plan : MasterPlan) :
    ladder'.planReleases budget (focus.map (Focus.map change)) plan =
      (ladder.planReleases budget focus plan).map (changePlane change) := by
  have hopenMasters : Ladder.openMasters (focus.map (Focus.map change)) plan =
      Ladder.openMasters focus plan := by
    refine List.filter_congr fun masterId _ => decide_eq_decide.mpr ?_
    rw [on_master_map, Option.map_eq_none_iff]
  have hfixedNodes : Ladder.fixedNodes (focus.map (Focus.map change)) plan =
      (Ladder.fixedNodes focus plan).map fun node => (change node.1, node.2) := by
    simp only [Ladder.fixedNodes, fixed_of_master_map, fixed_of_lane_map, changePlane,
      List.map_append, List.map_flatMap]
  have hfixedAggs : Ladder.fixedAggs (focus.map (Focus.map change)) plan =
      (Ladder.fixedAggs focus plan).map fun agg =>
        { agg with items := agg.items.map change } := by
    simp only [Ladder.fixedAggs, fixed_of_master_map, fixed_of_lane_map, changePlane,
      List.map_append, List.map_flatMap]
  have hitems : ∀ lane ∈ ladder.openLanes focus plan, ∀ item ∈ lane.2, item ∈ ladder.items := by
    intro lane hlane
    obtain ⟨credit, -, rfl⟩ := List.mem_map.mp (List.mem_of_mem_filter hlane)
    exact open_items_items hladder focus credit
  have hfold := funext (h.fold_releases_map hladder (Ladder.openMasters focus plan) hitems)
  unfold Ladder.planReleases
  rw [hopenMasters, hfixedNodes, hfixedAggs, h.open_lanes_map hladder hfocus]
  dsimp only
  rw [h.everything_map, hfold, List.length_map, List.length_map, List.length_map]
  by_cases hroom : ((ladder.everything (Ladder.openMasters focus plan)
      (ladder.openLanes focus plan)).length : Int) ≤ (budget.releases : Int) -
        (Ladder.fixedNodes focus plan).length - (Ladder.fixedAggs focus plan).length
  · rw [if_pos hroom, if_pos hroom]
    simp only [pure, Except.pure, Except.map, changePlane, List.map_append]
  · rw [if_neg hroom, if_neg hroom, first_fitting_map]
    cases Ladder.firstFitting ((budget.releases : Int) - (Ladder.fixedNodes focus plan).length -
        (Ladder.fixedAggs focus plan).length) (ladder.foldReleases
          (Ladder.openMasters focus plan) (ladder.openLanes focus plan)) strategies with
    | error error => rfl
    | ok plane =>
        simp only [bind, Except.bind, pure, Except.pure, Except.map, changePlane, List.map_append]

end Similar

end CatalogApi.Strata
