import CatalogApi.Strata.Parts

/-!
# A plan conserves the ladder

Every credit, master and release of the ladder is drawn once or held by one aggregate of the plan
that folds it (`Conserves`, `plan_conserves`).
-/

namespace CatalogApi.Strata

open ByKey Slices Text

/-! ## What is conserved -/

/-- Every credit, master and release of the ladder is drawn once or held by one aggregate. -/
structure Conserves (ladder : Ladder) (plan : MasterPlan)
    (releases : List ReleaseNode × List ReleaseAgg) : Prop where
  /-- The credits are drawn or folded into `c:other`. -/
  credits : (plan.shownCredits ++ plan.foldedCredits).Perm ladder.creditOrder
  credits_nodup : ladder.creditOrder.Nodup
  /-- The masters of a drawn credit are drawn, in one of its buckets, or in the remainder. -/
  masters : ∀ credit ∈ plan.shownCredits,
    (plan.masters.filter (fun m => ladder.masterCredit m = credit) ++
      (plan.buckets.filter fun bucket => bucket.1.1 = credit).flatMap (·.2) ++
      plan.remainder.filter fun m => ladder.masterCredit m = credit).Perm
      (ladder.mastersByCredit credit)
  masters_nodup : ∀ credit, (ladder.mastersByCredit credit).Nodup
  /-- The releases without a master of a drawn credit are its one lane. -/
  lanes : plan.lanes = plan.shownCredits.filter fun credit => ladder.masterless credit ≠ []
  /-- The releases of the drawn masters and lanes are nodes or in aggregates. -/
  release_plane : (releases.1.map (·.1) ++ releases.2.flatMap (·.items)).Perm
    (plan.masters.flatMap ladder.itemsByMaster ++ plan.lanes.flatMap ladder.masterless)
  /-- The releases of a drawn master are nodes or in aggregates under it. -/
  master_releases : ∀ masterId ∈ plan.masters,
    ((releases.1.filter fun node => node.2 = masterNodeId masterId).map (·.1) ++
      (releases.2.filter fun agg => agg.parent = masterNodeId masterId).flatMap (·.items)).Perm
      (ladder.itemsByMaster masterId)
  /-- The releases of a drawn lane are nodes or in aggregates under it. -/
  lane_releases : ∀ lane ∈ plan.lanes,
    ((releases.1.filter fun node => node.2 = laneId lane).map (·.1) ++
      (releases.2.filter fun agg => agg.parent = laneId lane).flatMap (·.items)).Perm
      (ladder.masterless lane)

/-! ## Entries by parent -/

section Parents

variable {α β κ : Type} [DecidableEq κ] {l : List α} {f : α → List β} {label : β → κ}
  {name : α → κ}

/-- Of the parts of distinctly named parents, one parent's entries are its part. -/
theorem filter_flat_map_named [DecidableEq α] (hnodup : l.Nodup)
    (hlabel : ∀ a ∈ l, ∀ b ∈ f a, label b = name a)
    (hname : ∀ a ∈ l, ∀ a' ∈ l, name a = name a' → a = a') {a : α} (ha : a ∈ l) :
    (l.flatMap f).filter (fun b => label b = name a) = f a := by
  have hparts : ∀ a' ∈ l, (f a').filter (fun b => label b = name a) =
      if a' = a then f a else [] := by
    intro a' ha'
    by_cases heq : a' = a
    · rw [if_pos heq, heq]
      exact List.filter_eq_self.mpr fun b hb => decide_eq_true (hlabel a ha b hb)
    · rw [if_neg heq]
      refine List.filter_eq_nil_iff.mpr fun b hb => ?_
      rw [decide_eq_true_eq, hlabel a' ha' b hb]
      exact fun h => heq (hname a' ha' a ha h)
  rw [List.filter_flatMap, List.flatMap_congr hparts]
  clear hparts hlabel hname
  induction l with
  | nil => cases ha
  | cons b l ih =>
      rw [List.nodup_cons] at hnodup
      rw [List.flatMap_cons]
      rcases List.mem_cons.mp ha with rfl | hmem
      · rw [if_pos rfl]
        have hnone : (l.flatMap fun a' => if a' = a then f a else []) = [] := by
          refine List.flatMap_eq_nil_iff.mpr fun a' ha' => if_neg fun heq => ?_
          exact hnodup.1 (heq ▸ ha')
        rw [hnone, List.append_nil]
      · have hne : b ≠ a := fun heq => hnodup.1 (heq ▸ hmem)
        rw [if_neg hne, List.nil_append]
        exact ih hnodup.2 hmem

/-- Parts of other parents hold no entry of a parent. -/
theorem filter_flat_map_other {parent : κ}
    (hlabel : ∀ a ∈ l, ∀ b ∈ f a, label b = name a) (hother : ∀ a ∈ l, name a ≠ parent) :
    (l.flatMap f).filter (fun b => label b = parent) = [] := by
  refine List.filter_eq_nil_iff.mpr fun b hb => ?_
  obtain ⟨a, ha, hmem⟩ := List.mem_flatMap.mp hb
  rw [decide_eq_true_eq, hlabel a ha b hmem]
  exact hother a ha

end Parents

/-! ## Names of parents -/

theorem master_node_id_inj {masterId masterId' : String}
    (h : masterNodeId masterId = masterNodeId masterId') : masterId = masterId' :=
  (String.append_right_inj _).mp h

theorem lane_id_inj {lane lane' : Credit} (h : PlainCredit lane) (h' : PlainCredit lane')
    (heq : laneId lane = laneId lane') : lane = lane' :=
  credit_id_inj h h' ((String.append_right_inj _).mp heq)

theorem starts_ne {head head' : String} (h : ¬head.toList <+: head'.toList)
    (h' : ¬head'.toList <+: head.toList) (text text' : String) : head ++ text ≠ head' ++ text' := by
  intro heq
  have hnone := after_prefix_none h h' text'
  rw [← heq, after_prefix_append] at hnone
  cases hnone

theorem master_ne_lane (masterId : String) (lane : Credit) : masterNodeId masterId ≠ laneId lane :=
  starts_ne (by decide) (by decide) _ _

namespace Ladder

variable {ladder : Ladder} {budget : Budget} {focus : Option Focus}

/-! ## A plan conserves the ladder -/

/-- The masters of one credit among all masters of the drawn ones. -/
theorem masters_of_drawn (hladder : ladder.WellFormed) {credits : List Credit}
    (hnodup : credits.Nodup) {credit : Credit} (hcredit : credit ∈ credits) :
    (credits.flatMap ladder.mastersByCredit).filter (fun m => ladder.masterCredit m = credit) =
      ladder.mastersByCredit credit :=
  filter_flat_map_named hnodup (fun _ _ _ hm => (hladder.mem_masters.mp hm).2)
    (fun _ _ _ _ heq => heq) hcredit

/-- A bucket holds masters of its own credit. -/
theorem bucketed_credit {mode : FoldMode} {masters : List String}
    {bucket : (Credit × String) × List String}
    (hbucket : bucket ∈ bucketed (ladder.bucket mode) masters) {masterId : String}
    (hmem : masterId ∈ bucket.2) : ladder.masterCredit masterId = bucket.1.1 := by
  obtain ⟨key, -, rfl⟩ := List.mem_map.mp hbucket
  have hkey := of_decide_eq_true (List.mem_filter.mp hmem).2
  exact congrArg Prod.fst hkey

/-- The masters of the buckets of one credit. -/
theorem buckets_of_credit (mode : FoldMode) (masters : List String) (credit : Credit) :
    ((bucketed (ladder.bucket mode) masters).flatMap (·.2)).filter
        (fun m => ladder.masterCredit m = credit) =
      ((bucketed (ladder.bucket mode) masters).filter
        fun bucket => bucket.1.1 = credit).flatMap (·.2) := by
  rw [List.filter_flatMap, flat_map_filter]
  refine List.flatMap_congr fun bucket hbucket => ?_
  by_cases hcredit : bucket.1.1 = credit
  · rw [if_pos hcredit]
    refine List.filter_eq_self.mpr fun m hm => decide_eq_true ?_
    rw [bucketed_credit hbucket hm, hcredit]
  · rw [if_neg hcredit]
    refine List.filter_eq_nil_iff.mpr fun m hm => ?_
    rw [decide_eq_true_eq, bucketed_credit hbucket hm]
    exact hcredit

/-- The nodes and aggregates under a drawn master or lane are those of its part. -/
theorem releases_by_parent {plan : MasterPlan} (hfocus : ladder.FocusSound budget focus)
    (hmasters : plan.masters.Nodup) (hlanes : plan.lanes.Nodup)
    (hplain : ∀ lane ∈ plan.lanes, PlainCredit lane)
    {releases : List ReleaseNode × List ReleaseAgg}
    (hreleases : ladder.planReleases budget focus plan = .ok releases) :
    let outcome := ladder.outcomeOf budget focus plan
    (∀ masterId ∈ plan.masters,
      (releases.1.filter fun node => node.2 = masterNodeId masterId).Perm
          (ladder.masterPart focus outcome masterId).1 ∧
        (releases.2.filter fun agg => agg.parent = masterNodeId masterId).Perm
          (ladder.masterPart focus outcome masterId).2) ∧
    ∀ lane ∈ plan.lanes,
      (releases.1.filter fun node => node.2 = laneId lane).Perm
          (ladder.lanePart focus outcome lane).1 ∧
        (releases.2.filter fun agg => agg.parent = laneId lane).Perm
          (ladder.lanePart focus outcome lane).2 := by
  intro outcome
  obtain ⟨hnodes, haggs⟩ := plan_releases_outcome hreleases
  have hmasterHolds := @master_part_holds ladder budget focus hfocus outcome
  have hlaneHolds := @lane_part_holds ladder budget focus hfocus outcome
  constructor
  · intro masterId hmaster
    have hnode := hnodes.filter fun node => decide (node.2 = masterNodeId masterId)
    rw [List.filter_append,
      filter_flat_map_named hmasters (fun m _ => (hmasterHolds m).node_parent)
        (fun _ _ _ _ => master_node_id_inj) hmaster,
      filter_flat_map_other (fun lane _ => (hlaneHolds lane).node_parent)
        (fun lane _ => (master_ne_lane masterId lane).symm), List.append_nil] at hnode
    have hagg := haggs.filter fun agg => decide (agg.parent = masterNodeId masterId)
    rw [List.filter_append,
      filter_flat_map_named hmasters (fun m _ => (hmasterHolds m).agg_parent)
        (fun _ _ _ _ => master_node_id_inj) hmaster,
      filter_flat_map_other (fun lane _ => (hlaneHolds lane).agg_parent)
        (fun lane _ => (master_ne_lane masterId lane).symm), List.append_nil] at hagg
    exact ⟨hnode, hagg⟩
  · intro lane hlane
    have hinj : ∀ a ∈ plan.lanes, ∀ b ∈ plan.lanes, laneId a = laneId b → a = b :=
      fun a ha b hb => lane_id_inj (hplain a ha) (hplain b hb)
    have hnode := hnodes.filter fun node => decide (node.2 = laneId lane)
    rw [List.filter_append,
      filter_flat_map_other (fun m _ => (hmasterHolds m).node_parent)
        (fun m _ => master_ne_lane m lane),
      filter_flat_map_named hlanes (fun c _ => (hlaneHolds c).node_parent) hinj hlane,
      List.nil_append] at hnode
    have hagg := haggs.filter fun agg => decide (agg.parent = laneId lane)
    rw [List.filter_append,
      filter_flat_map_other (fun m _ => (hmasterHolds m).agg_parent)
        (fun m _ => master_ne_lane m lane),
      filter_flat_map_named hlanes (fun c _ => (hlaneHolds c).agg_parent) hinj hlane,
      List.nil_append] at hagg
    exact ⟨hnode, hagg⟩

/-- A plan of a sound level with its release plane conserves the ladder. -/
theorem plan_conserves (hladder : ladder.WellFormed) (hnamed : ladder.Named)
    (hfocus : ladder.FocusSound budget focus) {level : List Credit × List Credit}
    (hlevel : ladder.LevelSound budget focus level) {mode : FoldMode} {keep : Nat}
    {releases : List ReleaseNode × List ReleaseAgg}
    (hreleases : ladder.planReleases budget focus
      (ladder.planOf focus level.1 level.2 mode keep) = .ok releases) :
    Conserves ladder (ladder.planOf focus level.1 level.2 mode keep) releases := by
  have hshown := level_shown_nodup hladder hlevel
  have hmasters := plan_masters_perm hladder hfocus hlevel mode keep
  have hmasterNodup : (ladder.planOf focus level.1 level.2 mode keep).masters.Nodup := by
    have hall := hmasters.symm.nodup (masters_of_credits_nodup hladder hshown)
    exact (List.nodup_append.mp (List.nodup_append.mp hall).1).1
  have hlanesNodup : (ladder.planOf focus level.1 level.2 mode keep).lanes.Nodup :=
    hshown.filter _
  have hlanePlain : ∀ lane ∈ (ladder.planOf focus level.1 level.2 mode keep).lanes,
      PlainCredit lane := by
    intro lane hlane
    have hmem : lane ∈ level.1 := (List.mem_filter.mp hlane).1
    exact hnamed.credits lane (hlevel.split.mem_iff.mp (List.mem_append_left _ hmem))
  obtain ⟨hunder, hwithout⟩ :=
    releases_by_parent hfocus hmasterNodup hlanesNodup hlanePlain hreleases
  refine ⟨hlevel.split, hladder.order_nodup, ?_, hladder.masters_nodup, rfl,
    plan_releases_perm hfocus hreleases, ?_, ?_⟩
  · intro credit hcredit
    have hfilter := hmasters.filter fun m => decide (ladder.masterCredit m = credit)
    rw [masters_of_drawn hladder hshown hcredit, List.filter_append, List.filter_append,
      planOf, buckets_of_credit] at hfilter
    exact hfilter
  · intro masterId hmaster
    obtain ⟨hnode, hagg⟩ := hunder masterId hmaster
    exact ((hnode.map _).append (hagg.flatMap_right _)).trans
      (master_part_holds hfocus _ masterId).perm
  · intro lane hlane
    obtain ⟨hnode, hagg⟩ := hwithout lane hlane
    exact ((hnode.map _).append (hagg.flatMap_right _)).trans
      (lane_part_holds hfocus _ lane).perm

end Ladder

end CatalogApi.Strata
