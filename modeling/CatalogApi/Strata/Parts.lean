import CatalogApi.Lib.Stable
import CatalogApi.Strata.Fits

/-!
# The parts of a view

A plan and its release plane partition what they fold. The masters of the drawn credits are the
drawn masters, the buckets and the remainder (`plan_masters_perm`), and the release plane is the
concatenation of one part for each drawn master and lane, each part holding the releases of its
parent once (`plan_releases_parts`).
-/

namespace CatalogApi.Strata

open ByKey Slices

namespace Ladder

variable {ladder : Ladder} {budget : Budget} {focus : Option Focus}

/-! ## Masters -/

/-- The masters a focus pins or holds are distinct masters of a credit every level draws. -/
theorem pinned_masters_drawn (hladder : ladder.WellFormed)
    (hfocus : ladder.FocusSound budget focus) :
    ((pinnedMasters focus).1 ++ (pinnedMasters focus).2).Nodup ∧
      ∀ masterId ∈ (pinnedMasters focus).1 ++ (pinnedMasters focus).2,
        ladder.masterCredit masterId ∈ ladder.baseCredits focus ∧
          masterId ∈ ladder.mastersByCredit (ladder.masterCredit masterId) := by
  have hcredit : ∀ {credit : Credit} {masterId : String} {found : Focus},
      focus = some found → found.target.credit = some credit →
      masterId ∈ ladder.mastersByCredit credit →
      ladder.masterCredit masterId ∈ ladder.baseCredits focus ∧
        masterId ∈ ladder.mastersByCredit (ladder.masterCredit masterId) := by
    rintro credit masterId found rfl htarget hmem
    obtain ⟨hmaster, rfl⟩ := hladder.mem_masters.mp hmem
    refine ⟨?_, hmem⟩
    rw [base_credits_focused htarget, focusedCredits]
    split
    · rename_i hroot
      exact List.mem_singleton.mpr hroot
    · exact List.mem_cons_of_mem _ (List.mem_singleton.mpr rfl)
  cases focus with
  | none => exact ⟨List.nodup_nil, fun _ h => absurd h List.not_mem_nil⟩
  | some found =>
      have hsound := (hfocus found rfl).target
      rw [pinnedMasters]
      cases htarget : found.target with
      | others members => exact ⟨List.nodup_nil, fun _ h => absurd h List.not_mem_nil⟩
      | lane credit label members => exact ⟨List.nodup_nil, fun _ h => absurd h List.not_mem_nil⟩
      | pressings credit masterId members =>
          rw [htarget] at hsound
          refine ⟨List.nodup_singleton _, fun other h => ?_⟩
          obtain rfl := List.mem_singleton.mp h
          exact hcredit rfl (by rw [htarget]; rfl)
            (hladder.mem_masters.mpr ⟨hsound.1, hsound.2.1.symm⟩)
      | bucket credit label members =>
          rw [htarget] at hsound
          have hperm := slice_append_leftover members found.page found.pageSize
          have hmembers : members.Nodup := by
            rw [hsound.1]
            exact (hladder.masters_nodup credit).filter _
          refine ⟨hperm.symm.nodup hmembers, fun masterId h => ?_⟩
          have hmem := hperm.mem_iff.mp h
          rw [hsound.1] at hmem
          exact hcredit rfl (by rw [htarget]; rfl) (List.mem_of_mem_filter hmem)

theorem masters_of_credits_nodup (hladder : ladder.WellFormed) {credits : List Credit}
    (hcredits : credits.Nodup) : (credits.flatMap ladder.mastersByCredit).Nodup := by
  refine List.nodup_flatMap.mpr ⟨fun credit _ => hladder.masters_nodup credit, ?_⟩
  refine hcredits.imp fun {first second} hne => ?_
  intro masterId hfirst hsecond
  exact hne ((hladder.mem_masters.mp hfirst).2.symm.trans (hladder.mem_masters.mp hsecond).2)

/-- The folded masters are those of the buckets. -/
theorem bucketed_perm (bucket : String → Credit × String) (masters : List String) :
    ((bucketed bucket masters).flatMap (·.2)).Perm masters := by
  rw [bucketed, List.flatMap_map]
  exact flat_map_filter_perm bucket (nodup_erase_dups _) masters
    fun masterId h => List.mem_eraseDups.mpr (List.mem_map_of_mem h)

theorem level_shown_nodup (hladder : ladder.WellFormed) {level : List Credit × List Credit}
    (hlevel : ladder.LevelSound budget focus level) : level.1.Nodup :=
  (List.nodup_append.mp (hlevel.split.symm.nodup hladder.order_nodup)).1

/-- The masters of the drawn credits are drawn, in a bucket, or in the remainder, each once. -/
theorem plan_masters_perm (hladder : ladder.WellFormed) (hfocus : ladder.FocusSound budget focus)
    {level : List Credit × List Credit} (hlevel : ladder.LevelSound budget focus level)
    (mode : FoldMode) (keep : Nat) :
    ((ladder.planOf focus level.1 level.2 mode keep).masters ++
      (ladder.planOf focus level.1 level.2 mode keep).buckets.flatMap (·.2) ++
      (ladder.planOf focus level.1 level.2 mode keep).remainder).Perm
      (level.1.flatMap ladder.mastersByCredit) := by
  obtain ⟨hnodup, hdrawn⟩ := pinned_masters_drawn hladder hfocus
  have hall := masters_of_credits_nodup hladder (level_shown_nodup hladder hlevel)
  rw [planOf]
  dsimp only
  -- the kept candidates and the buckets are the candidates
  have hcandidates : ((ladder.candidates focus level.1).take keep ++
      (bucketed (ladder.bucket mode) ((ladder.candidates focus level.1).drop keep)).flatMap
        (·.2)).Perm (ladder.candidates focus level.1) := by
    refine ((bucketed_perm _ _).append_left _).trans (List.Perm.of_eq ?_)
    exact List.take_append_drop keep _
  -- with the pinned masters and the remainder they are all masters
  have hwhole : ((pinnedMasters focus).1 ++ (pinnedMasters focus).2 ++
      ladder.candidates focus level.1).Perm (level.1.flatMap ladder.mastersByCredit) := by
    refine ((sort_by_perm _ _).append_left _).trans ?_
    refine (List.perm_ext_iff_of_nodup ?_ hall).mpr fun masterId => ?_
    · refine List.nodup_append.mpr ⟨hnodup, hall.filter _, ?_⟩
      rintro masterId hpinned other hother rfl
      exact of_decide_eq_true (List.mem_filter.mp hother).2 hpinned
    · rw [List.mem_append, List.mem_filter, decide_eq_true_eq]
      constructor
      · rintro (h | h)
        · obtain ⟨hbase, hmem⟩ := hdrawn masterId h
          exact List.mem_flatMap.mpr ⟨_, hlevel.base _ hbase, hmem⟩
        · exact h.1
      · intro h
        by_cases hpinned : masterId ∈ (pinnedMasters focus).1 ++ (pinnedMasters focus).2
        · exact Or.inl hpinned
        · exact Or.inr ⟨h, hpinned⟩
  refine List.Perm.trans ?_ ((hcandidates.append_left _).trans hwhole)
  rw [List.append_assoc, List.append_assoc, List.append_assoc]
  refine List.Perm.append_left _ ?_
  rw [← List.append_assoc]
  exact List.perm_append_comm

/-! ## Releases -/

/-- The nodes and aggregates of one parent: everything in them names the parent, and they hold the
given items, each once. -/
structure Holds (part : List ReleaseNode × List ReleaseAgg) (parent : String)
    (items : List Item) : Prop where
  node_parent : ∀ node ∈ part.1, node.2 = parent
  agg_parent : ∀ agg ∈ part.2, agg.parent = parent
  perm : (part.1.map (·.1) ++ part.2.flatMap (·.items)).Perm items

/-- Two parts of one parent together. -/
def both (first second : List ReleaseNode × List ReleaseAgg) :
    List ReleaseNode × List ReleaseAgg :=
  (first.1 ++ second.1, first.2 ++ second.2)

theorem Holds.both {first second : List ReleaseNode × List ReleaseAgg} {parent : String}
    {items items' : List Item} (h : Holds first parent items) (h' : Holds second parent items') :
    Holds (both first second) parent (items ++ items') where
  node_parent := fun node hnode =>
    (List.mem_append.mp hnode).elim (h.node_parent node) (h'.node_parent node)
  agg_parent := fun agg hagg =>
    (List.mem_append.mp hagg).elim (h.agg_parent agg) (h'.agg_parent agg)
  perm := by
    rw [Ladder.both, List.map_append, List.flatMap_append]
    refine List.Perm.trans ?_ (h.perm.append h'.perm)
    rw [List.append_assoc, List.append_assoc]
    refine List.Perm.append_left _ ?_
    rw [← List.append_assoc, ← List.append_assoc]
    exact List.perm_append_comm.append_right _

theorem Holds.of_perm {part : List ReleaseNode × List ReleaseAgg} {parent : String}
    {items items' : List Item} (h : Holds part parent items) (hperm : items.Perm items') :
    Holds part parent items' :=
  ⟨h.node_parent, h.agg_parent, h.perm.trans hperm⟩

theorem holds_nil (parent : String) : Holds ([], []) parent [] :=
  ⟨fun _ h => absurd h List.not_mem_nil, fun _ h => absurd h List.not_mem_nil, List.Perm.refl _⟩

/-- Items that are all nodes. -/
theorem holds_nodes (items : List Item) (parent : String) :
    Holds (items.map (·, parent), []) parent items where
  node_parent := by simp
  agg_parent := fun _ h => absurd h List.not_mem_nil
  perm := by simp [Function.comp_def]

/-- Kept items as nodes and the rest in aggregates of the parent. -/
theorem holds_folded {kept rest : List Item} {parent : String} {aggs : List ReleaseAgg}
    (hparent : ∀ agg ∈ aggs, agg.parent = parent)
    (hrest : (aggs.flatMap (·.items)).Perm rest) :
    Holds (kept.map (·, parent), aggs) parent (kept ++ rest) where
  node_parent := by simp
  agg_parent := hparent
  perm := by simpa [Function.comp_def] using hrest.append_left kept

/-- One aggregate of the rest, when there is a rest. -/
theorem holds_one_agg (kept rest : List Item) (id parent : String) (label : Option String) :
    Holds (kept.map (·, parent),
      if rest = [] then [] else [{ id, parent, items := rest, decade := label }]) parent
      (kept ++ rest) := by
  refine holds_folded ?_ ?_
  · intro agg hagg
    by_cases hnil : rest = []
    · rw [if_pos hnil] at hagg
      cases hagg
    · rw [if_neg hnil, List.mem_singleton] at hagg
      rw [hagg]
  · by_cases hnil : rest = []
    · simp [hnil]
    · simp [hnil]

theorem filter_both_perm (p : Item → Bool) (items : List Item) :
    (items.filter p ++ items.filter fun item => ¬p item).Perm items := by
  have h := List.filter_append_perm p items
  have heq : (items.filter fun item => decide (¬p item = true)) =
      items.filter fun item => !p item := List.filter_congr fun item _ => by simp
  rw [heq]
  exact h

/-- A folded master holds its releases. -/
theorem fold_master_holds (strategy : Strategy) (masterId : String) :
    Holds (ladder.foldMaster strategy masterId) (masterNodeId masterId)
      (ladder.itemsByMaster masterId) :=
  (holds_one_agg _ _ ("ra:m:" ++ masterId) (masterNodeId masterId) none).of_perm
    (filter_both_perm _ _)

/-- A folded lane holds its releases. -/
theorem fold_lane_holds (strategy : Strategy) (lane : Credit) (items : List Item) :
    Holds (foldLane strategy lane items) (laneId lane) items := by
  have hsplit := filter_both_perm
    (fun item => decide (strategy.keepStateful = true ∧ item.stateful = true)) items
  have hrest : (items.filter fun item => decide (¬(decide
      (strategy.keepStateful = true ∧ item.stateful = true)) = true)) =
      items.filter fun item => ¬(strategy.keepStateful ∧ item.stateful) :=
    List.filter_congr fun item _ => by simp
  rw [hrest] at hsplit
  unfold foldLane
  dsimp only
  by_cases hdecade : strategy.byDecade
  · by_cases hnil : (items.filter fun item => ¬(strategy.keepStateful ∧ item.stateful)) = []
    · rw [if_pos hnil]
      rw [hnil] at hsplit
      have hnone : (([] : List ReleaseAgg).flatMap (·.items)).Perm [] := List.Perm.refl _
      exact (holds_folded (fun _ h => absurd h List.not_mem_nil) hnone).of_perm hsplit
    · rw [if_neg hnil, if_pos hdecade]
      refine (holds_folded ?_ ?_).of_perm hsplit
      · intro agg hagg
        obtain ⟨label, -, rfl⟩ := List.mem_map.mp hagg
        rfl
      · rw [List.flatMap_map]
        exact flat_map_filter_perm (fun item : Item => decade item.year) (nodup_erase_dups _) _
          fun item h => List.mem_eraseDups.mpr (List.mem_map_of_mem h)
  · rw [if_neg hdecade]
    exact (holds_one_agg _ _ ("ra:nm:" ++ creditId lane) (laneId lane) none).of_perm hsplit

/-- The focus on a master holds its releases. -/
theorem fixed_of_master_holds (hfocus : ladder.FocusSound budget focus) {masterId : String}
    (hon : onMaster focus masterId ≠ none) :
    Holds (fixedOfMaster focus masterId) (masterNodeId masterId)
      (ladder.itemsByMaster masterId) := by
  obtain ⟨⟨found, members⟩, hsome⟩ := Option.ne_none_iff_exists'.mp hon
  obtain ⟨rfl, credit, htarget⟩ := on_master_eq hsome
  have hsound := (hfocus found rfl).target
  rw [htarget] at hsound
  rw [fixedOfMaster, hsome, ← hsound.2.2]
  exact (holds_one_agg _ _ found.id (masterNodeId masterId) none).of_perm
    (slice_append_leftover members _ _)

/-- The focus on a lane and the releases off it hold the lane. -/
theorem fixed_of_lane_holds (hfocus : ladder.FocusSound budget focus) (lane : Credit) :
    ∃ members, Holds (fixedOfLane focus lane) (laneId lane) members ∧
      (members ++ ladder.openItems focus lane).Perm (ladder.masterless lane) := by
  unfold fixedOfLane openItems
  cases hon : onLane focus lane with
  | none => exact ⟨[], holds_nil _, List.Perm.refl _⟩
  | some found =>
      obtain ⟨found, label, members⟩ := found
      obtain ⟨rfl, htarget⟩ := on_lane_eq hon
      have hsound := (hfocus found rfl).target
      rw [htarget] at hsound
      refine ⟨members, (holds_one_agg _ _ found.id (laneId lane) label).of_perm
        (slice_append_leftover members _ _), ?_⟩
      -- the members are a filter of the lane, and the rest is its complement
      have hfilter : members = (ladder.masterless lane).filter fun item => item ∈ members := by
        rw [hsound.1]
        cases label with
        | none => exact (List.filter_eq_self.mpr fun item hitem => decide_eq_true hitem).symm
        | some label =>
            refine List.filter_congr fun item hitem => ?_
            simp [laneMembers, hitem]
      have hsplit := filter_both_perm (fun item => decide (item ∈ members)) (ladder.masterless lane)
      rw [← hfilter] at hsplit
      simpa using hsplit

/-! ## The release plane as parts -/

/-- How an open master is drawn: all of its releases as nodes, or folded by a strategy. -/
def openMaster (ladder : Ladder) (outcome : Option Strategy) (masterId : String) :
    List ReleaseNode × List ReleaseAgg :=
  match outcome with
  | none => ((ladder.itemsByMaster masterId).map (·, masterNodeId masterId), [])
  | some strategy => ladder.foldMaster strategy masterId

/-- How the open releases of a lane are drawn. -/
def openLane (outcome : Option Strategy) (lane : Credit) (items : List Item) :
    List ReleaseNode × List ReleaseAgg :=
  match outcome with
  | none => (items.map (·, laneId lane), [])
  | some strategy => foldLane strategy lane items

/-- What the release plane draws of a master. -/
def masterPart (ladder : Ladder) (focus : Option Focus) (outcome : Option Strategy)
    (masterId : String) : List ReleaseNode × List ReleaseAgg :=
  both (fixedOfMaster focus masterId)
    (if onMaster focus masterId = none then ladder.openMaster outcome masterId else ([], []))

/-- What the release plane draws of a lane. -/
def lanePart (ladder : Ladder) (focus : Option Focus) (outcome : Option Strategy)
    (lane : Credit) : List ReleaseNode × List ReleaseAgg :=
  both (fixedOfLane focus lane)
    (if ladder.openItems focus lane ≠ [] then openLane outcome lane (ladder.openItems focus lane)
    else ([], []))

theorem flat_map_filter {α β : Type} (p : α → Prop) [DecidablePred p] (f : α → List β)
    (l : List α) :
    (l.filter fun a => p a).flatMap f = l.flatMap fun a => if p a then f a else [] := by
  simpa using ByKey.flat_map_filter (fun a => decide (p a)) f l

/-- Two flat maps over masters and lanes merge into one. -/
theorem merge_flat_maps {α β γ : Type} (masters : List α) (lanes : List β) (f f' : α → List γ)
    (g g' : β → List γ) :
    (masters.flatMap f ++ lanes.flatMap g ++ (masters.flatMap f' ++ lanes.flatMap g')).Perm
      (masters.flatMap (fun m => f m ++ f' m) ++ lanes.flatMap fun lane => g lane ++ g' lane) := by
  refine List.Perm.trans ?_ ((List.flatMap_append_perm masters f f').append
    (List.flatMap_append_perm lanes g g'))
  rw [List.append_assoc, List.append_assoc]
  refine List.Perm.append_left _ ?_
  rw [← List.append_assoc, ← List.append_assoc]
  exact List.perm_append_comm.append_right _

/-- The open part of either component of the plane, over all masters and lanes. -/
theorem open_flat_maps {β : Type} (plan : MasterPlan) (f : String → List β)
    (g : Credit → List Item → List β) :
    (openMasters focus plan).flatMap f ++
        (ladder.openLanes focus plan).flatMap (fun lane => g lane.1 lane.2) =
      plan.masters.flatMap (fun m => if onMaster focus m = none then f m else []) ++
        plan.lanes.flatMap fun lane =>
          if ladder.openItems focus lane ≠ [] then g lane (ladder.openItems focus lane) else [] := by
  rw [openMasters, openLanes, flat_map_filter, List.filter_map, List.flatMap_map]
  exact congrArg _ (flat_map_filter (fun lane => ladder.openItems focus lane ≠ []) _ plan.lanes)

theorem both_ite (first second : List ReleaseNode × List ReleaseAgg) (p : Prop) [Decidable p] :
    both first (if p then second else ([], [])) =
      (first.1 ++ if p then second.1 else [], first.2 ++ if p then second.2 else []) := by
  by_cases h : p
  · simp [h, both]
  · simp [h, both]

theorem parts_perm (ladder : Ladder) (focus : Option Focus) (plan : MasterPlan)
    (outcome : Option Strategy) :
    (fixedNodes focus plan ++
        ((openMasters focus plan).flatMap (fun m => (ladder.openMaster outcome m).1) ++
          (ladder.openLanes focus plan).flatMap fun lane =>
            (openLane outcome lane.1 lane.2).1)).Perm
      (plan.masters.flatMap (fun m => (ladder.masterPart focus outcome m).1) ++
        plan.lanes.flatMap fun lane => (ladder.lanePart focus outcome lane).1) ∧
    (fixedAggs focus plan ++
        ((openMasters focus plan).flatMap (fun m => (ladder.openMaster outcome m).2) ++
          (ladder.openLanes focus plan).flatMap fun lane =>
            (openLane outcome lane.1 lane.2).2)).Perm
      (plan.masters.flatMap (fun m => (ladder.masterPart focus outcome m).2) ++
        plan.lanes.flatMap fun lane => (ladder.lanePart focus outcome lane).2) := by
  simp only [masterPart, lanePart, both_ite]
  constructor
  · rw [open_flat_maps plan (fun m => (ladder.openMaster outcome m).1)
      fun lane items => (openLane outcome lane items).1]
    exact merge_flat_maps _ _ _ _ _ _
  · rw [open_flat_maps plan (fun m => (ladder.openMaster outcome m).2)
      fun lane items => (openLane outcome lane items).2]
    exact merge_flat_maps _ _ _ _ _ _

/-- The strategy is taken: its fold fits the room, or it is the last. -/
def taken (room : Int) (fold : Strategy → List ReleaseNode × List ReleaseAgg)
    (strategy : Strategy) : Bool :=
  ((fold strategy).1.length + (fold strategy).2.length : Int) ≤ room ∨
    ¬(strategy.keepOriginal ∨ strategy.keepStateful ∨ strategy.byDecade)

/-- The strategy a plan folds its releases by: none when every open release is drawn. -/
def outcomeOf (ladder : Ladder) (budget : Budget) (focus : Option Focus) (plan : MasterPlan) :
    Option Strategy :=
  let room : Int := budget.releases - (fixedNodes focus plan).length - (fixedAggs focus plan).length
  let openMasters := openMasters focus plan
  let openLanes := ladder.openLanes focus plan
  if ((ladder.everything openMasters openLanes).length : Int) ≤ room then none
  else strategies.find? (taken room (ladder.foldReleases openMasters openLanes))

theorem first_fitting_find (room : Int) (fold : Strategy → List ReleaseNode × List ReleaseAgg)
    (tried : List Strategy) :
    firstFitting room fold tried =
      match tried.find? (taken room fold) with
      | some strategy => .ok (fold strategy)
      | none => .error (.assertion "unreachable: the last strategy always returns") := by
  induction tried with
  | nil => rfl
  | cons strategy rest ih =>
      rw [List.find?_cons]
      by_cases htaken : taken room fold strategy
      · rw [htaken]
        exact if_pos (of_decide_eq_true htaken)
      · rw [Bool.not_eq_true] at htaken
        rw [htaken, ← ih]
        exact if_neg (of_decide_eq_false htaken)

/-- The release plane of a plan is one part for each drawn master and lane, folded by the plan's
strategy. -/
theorem plan_releases_outcome {plan : MasterPlan}
    {releases : List ReleaseNode × List ReleaseAgg}
    (h : ladder.planReleases budget focus plan = .ok releases) :
    let outcome := ladder.outcomeOf budget focus plan
    releases.1.Perm (plan.masters.flatMap (fun m => (ladder.masterPart focus outcome m).1) ++
        plan.lanes.flatMap fun lane => (ladder.lanePart focus outcome lane).1) ∧
      releases.2.Perm (plan.masters.flatMap (fun m => (ladder.masterPart focus outcome m).2) ++
        plan.lanes.flatMap fun lane => (ladder.lanePart focus outcome lane).2) := by
  intro outcome
  unfold planReleases at h
  dsimp only at h
  split at h
  · rename_i hroom
    have hnone : outcome = none := if_pos hroom
    obtain rfl := Except.ok.inj h
    rw [hnone]
    obtain ⟨hnodes, haggs⟩ := ladder.parts_perm focus plan none
    refine ⟨hnodes, List.Perm.trans (List.Perm.of_eq ?_) haggs⟩
    simp [openMaster, openLane]
  · rename_i hroom
    rw [first_fitting_find] at h
    split at h
    · rename_i strategy hfind
      have hsome : outcome = some strategy := (if_neg hroom).trans hfind
      obtain rfl := Except.ok.inj h
      rw [hsome]
      exact ladder.parts_perm focus plan (some strategy)
    · cases h

theorem plan_releases_parts {plan : MasterPlan} {releases : List ReleaseNode × List ReleaseAgg}
    (h : ladder.planReleases budget focus plan = .ok releases) :
    ∃ outcome,
      releases.1.Perm (plan.masters.flatMap (fun m => (ladder.masterPart focus outcome m).1) ++
        plan.lanes.flatMap fun lane => (ladder.lanePart focus outcome lane).1) ∧
      releases.2.Perm (plan.masters.flatMap (fun m => (ladder.masterPart focus outcome m).2) ++
        plan.lanes.flatMap fun lane => (ladder.lanePart focus outcome lane).2) :=
  ⟨_, plan_releases_outcome h⟩

/-- The part of a drawn master holds its releases. -/
theorem master_part_holds (hfocus : ladder.FocusSound budget focus) (outcome : Option Strategy)
    (masterId : String) :
    Holds (ladder.masterPart focus outcome masterId) (masterNodeId masterId)
      (ladder.itemsByMaster masterId) := by
  unfold masterPart
  by_cases hon : onMaster focus masterId = none
  · rw [if_pos hon]
    have hfixed : Holds (fixedOfMaster focus masterId) (masterNodeId masterId) [] := by
      rw [fixedOfMaster, hon]
      exact holds_nil _
    have hopen : Holds (ladder.openMaster outcome masterId) (masterNodeId masterId)
        (ladder.itemsByMaster masterId) := by
      cases outcome with
      | none => exact holds_nodes _ _
      | some strategy => exact fold_master_holds strategy masterId
    exact hfixed.both hopen
  · rw [if_neg hon]
    have hholds := (fixed_of_master_holds hfocus hon).both (holds_nil (masterNodeId masterId))
    rw [List.append_nil] at hholds
    exact hholds

/-- The part of a drawn lane holds its releases. -/
theorem lane_part_holds (hfocus : ladder.FocusSound budget focus) (outcome : Option Strategy)
    (lane : Credit) :
    Holds (ladder.lanePart focus outcome lane) (laneId lane) (ladder.masterless lane) := by
  obtain ⟨members, hfixed, hsplit⟩ := fixed_of_lane_holds hfocus lane
  unfold lanePart
  by_cases hopen : ladder.openItems focus lane ≠ []
  · rw [if_pos hopen]
    have hholds : Holds (openLane outcome lane (ladder.openItems focus lane)) (laneId lane)
        (ladder.openItems focus lane) := by
      cases outcome with
      | none => exact holds_nodes _ _
      | some strategy => exact fold_lane_holds strategy lane _
    exact (hfixed.both hholds).of_perm hsplit
  · rw [if_neg hopen]
    rw [not_not.mp hopen] at hsplit
    exact (hfixed.both (holds_nil _)).of_perm hsplit

/-- The release plane holds the releases of the drawn masters and lanes, each once. -/
theorem plan_releases_perm {plan : MasterPlan}
    {releases : List ReleaseNode × List ReleaseAgg} (hfocus : ladder.FocusSound budget focus)
    (hreleases : ladder.planReleases budget focus plan = .ok releases) :
    (releases.1.map (·.1) ++ releases.2.flatMap (·.items)).Perm
      (plan.masters.flatMap ladder.itemsByMaster ++ plan.lanes.flatMap ladder.masterless) := by
  obtain ⟨outcome, hnodes, haggs⟩ := plan_releases_parts hreleases
  refine ((hnodes.map _).append (haggs.flatMap_right _)).trans ?_
  rw [List.map_append, List.map_flatMap, List.map_flatMap, List.flatMap_append, List.flatMap_assoc,
    List.flatMap_assoc]
  refine (merge_flat_maps _ _ _ _ _ _).trans ?_
  exact (List.Perm.flatMap_left _ fun masterId _ => (master_part_holds hfocus outcome masterId).perm
    ).append (List.Perm.flatMap_left _ fun lane _ => (lane_part_holds hfocus outcome lane).perm)

end Ladder

end CatalogApi.Strata
