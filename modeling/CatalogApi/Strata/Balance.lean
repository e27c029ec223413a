import CatalogApi.Strata.Conservation

/-!
# The counts of a response balance

The counts of the entries under a parent add up to the parent's, and every entry of the two lower
planes names a parent drawn on the plane above (`Payload.Balanced`, `payload_balanced`).
-/

namespace CatalogApi.Strata

open ByKey Slices Text

/-! ## Balance -/

namespace Payload

/-- The releases counted by the entries of the master plane under a parent. -/
def mastersUnder (payload : Payload) (parent : String) : Nat :=
  ((payload.masterNodes.filter fun node => node.parent = parent).map (·.counts.releases)).sum +
    ((payload.masterAggs.filter fun agg => agg.parent = parent).map (·.counts.releases)).sum

/-- The releases counted by the entries of the release plane under a parent. -/
def releasesUnder (payload : Payload) (parent : String) : Nat :=
  (payload.releaseNodes.filter fun node => node.parent = parent).length +
    ((payload.releaseAggs.filter fun agg => agg.parent = parent).map (·.counts.releases)).sum

/-- The id is that of a master node or a no-master lane. -/
def drawsParent (payload : Payload) (id : String) : Prop :=
  (∃ node ∈ payload.masterNodes, node.id = id) ∨
    ∃ agg ∈ payload.masterAggs, agg.kind = .noMaster ∧ agg.id = id

/-- The counts of the entries under a parent add up to the parent's, and every entry of the two
lower planes names a parent of the plane above. -/
structure Balanced (payload : Payload) : Prop where
  total : (payload.creditNodes.map (·.counts.releases)).sum +
    (payload.creditAggs.map (·.counts.releases)).sum = payload.totals.releases
  credits : ∀ node ∈ payload.creditNodes, payload.mastersUnder node.id = node.counts.releases
  masters : ∀ node ∈ payload.masterNodes, payload.releasesUnder node.id = node.counts.releases
  lanes : ∀ agg ∈ payload.masterAggs, agg.kind = .noMaster →
    payload.releasesUnder agg.id = agg.counts.releases
  master_parents : (∀ node ∈ payload.masterNodes, ∃ credit ∈ payload.creditNodes,
      credit.id = node.parent) ∧
    ∀ agg ∈ payload.masterAggs, ∃ credit ∈ payload.creditNodes, credit.id = agg.parent
  release_parents : (∀ node ∈ payload.releaseNodes, payload.drawsParent node.parent) ∧
    ∀ agg ∈ payload.releaseAggs, payload.drawsParent agg.parent

end Payload

namespace Ladder

variable {ladder : Ladder} {budget : Budget} {focus : Option Focus}

/-! ## Counts under a credit -/

/-- The entries of a map under a parent. -/
theorem filter_map_by {α β κ : Type} [DecidableEq κ] (l : List α) (f : α → β) (label : β → κ)
    {key : α → κ} {parent : κ} (q : α → Prop) [DecidablePred q] (hkey : ∀ a, label (f a) = key a)
    (hq : ∀ a ∈ l, key a = parent ↔ q a) :
    (l.map f).filter (fun b => label b = parent) = (l.filter fun a => q a).map f := by
  rw [List.filter_map]
  refine congrArg (List.map f) (List.filter_congr fun a ha => ?_)
  rw [Function.comp_apply, hkey, decide_eq_decide]
  exact hq a ha

/-- How many releases are under a master. -/
def weight (ladder : Ladder) (masterId : String) : Nat := (ladder.itemsByMaster masterId).length

theorem length_flat_weight (ladder : Ladder) (masters : List String) :
    (masters.flatMap ladder.itemsByMaster).length = (masters.map ladder.weight).sum := by
  rw [List.length_flatMap]
  rfl

section View

variable {plan : MasterPlan} {releases : List ReleaseNode × List ReleaseAgg}
  {payload : Payload}

/-- Where the drawn and folded masters of a plan belong: to drawn credits, whose ids are
distinct. -/
structure Drawn (ladder : Ladder) (focus : Option Focus) (plan : MasterPlan) : Prop where
  nodup : plan.shownCredits.Nodup
  plain : ∀ credit ∈ plan.shownCredits, PlainCredit credit
  masters : ∀ masterId ∈ plan.masters, ladder.masterCredit masterId ∈ plan.shownCredits
  buckets : ∀ bucket ∈ plan.buckets, bucket.1.1 ∈ plan.shownCredits
  remainder : ∀ credit label members found, focus = some found →
    found.target = .bucket credit label members → credit ∈ plan.shownCredits ∧
      ∀ masterId ∈ plan.remainder, ladder.masterCredit masterId = credit
  no_remainder : (∀ credit label members found, focus = some found →
    found.target ≠ .bucket credit label members) → plan.remainder = []

theorem remainder_aggs_nil (ladder : Ladder) (focus : Option Focus) :
    ladder.remainderAggs focus [] = [] := by
  unfold remainderAggs
  split
  · rfl
  · split
    · rfl
    · rfl

section

variable (hdrawn : ladder.Drawn focus plan)
include hdrawn

/-- The master nodes under a credit. -/
theorem master_nodes_under {credit : Credit} (hcredit : credit ∈ plan.shownCredits) :
    ((((sortBy ladder.masterNodeKey plan.masters).map ladder.masterNode).filter
      fun node => node.parent = creditId credit).map (·.counts.releases)).sum =
      ((plan.masters.filter fun m => ladder.masterCredit m = credit).map ladder.weight).sum := by
  rw [filter_map_by _ ladder.masterNode (·.parent) (fun m => ladder.masterCredit m = credit)
    (fun _ => rfl), List.map_map]
  · exact (((sort_by_perm _ _).filter _).map _).sum_nat
  · intro m hm
    have hplain := hdrawn.plain _ (hdrawn.masters m (mem_sort_by.mp hm))
    exact ⟨credit_id_inj hplain (hdrawn.plain credit hcredit), congrArg creditId⟩

/-- The lanes under a credit. -/
theorem lane_aggs_under
    (hlanes : plan.lanes = plan.shownCredits.filter fun c => ladder.masterless c ≠ [])
    {credit : Credit} (hcredit : credit ∈ plan.shownCredits) :
    (((plan.lanes.map ladder.laneAgg).filter fun agg => agg.parent = creditId credit).map
      (·.counts.releases)).sum = (ladder.masterless credit).length := by
  rw [filter_map_by _ ladder.laneAgg (·.parent) (fun c => c = credit) (fun _ => rfl), List.map_map]
  · have hone : plan.shownCredits.filter (fun c => c = credit) = [credit] := by
      rw [List.filter_eq, List.count_eq_one_of_mem hdrawn.nodup hcredit, List.replicate_one]
    rw [hlanes, List.filter_comm, hone]
    by_cases hnil : ladder.masterless credit = []
    · simp [hnil]
    · simp [hnil, laneAgg, counts]
  · intro lane hlane
    rw [hlanes] at hlane
    have hplain := hdrawn.plain lane (List.mem_of_mem_filter hlane)
    exact ⟨credit_id_inj hplain (hdrawn.plain credit hcredit), congrArg creditId⟩

/-- The buckets under a credit. -/
theorem bucket_aggs_under {credit : Credit} (hcredit : credit ∈ plan.shownCredits) :
    ((((sortBy ladder.bucketKey plan.buckets).map fun bucket =>
        ladder.bucketAgg bucket.1.1 bucket.1.2 bucket.2).filter
      fun agg => agg.parent = creditId credit).map (·.counts.releases)).sum =
      (((plan.buckets.filter fun bucket => bucket.1.1 = credit).flatMap (·.2)).map
        ladder.weight).sum := by
  rw [filter_map_by _ (fun bucket : (Credit × String) × List String =>
    ladder.bucketAgg bucket.1.1 bucket.1.2 bucket.2) (·.parent) (fun bucket => bucket.1.1 = credit)
    (fun _ => rfl), List.map_map]
  · rw [(((sort_by_perm _ _).filter _).map _).sum_nat, ← length_flat_weight, List.flatMap_assoc,
      List.length_flatMap]
    rfl
  · intro bucket hbucket
    have hplain := hdrawn.plain _ (hdrawn.buckets bucket (mem_sort_by.mp hbucket))
    exact ⟨credit_id_inj hplain (hdrawn.plain credit hcredit), congrArg creditId⟩

/-- The remainder under a credit. -/
theorem remainder_aggs_under {credit : Credit} (hcredit : credit ∈ plan.shownCredits) :
    (((ladder.remainderAggs focus plan.remainder).filter
      fun agg => agg.parent = creditId credit).map (·.counts.releases)).sum =
      ((plan.remainder.filter fun m => ladder.masterCredit m = credit).map ladder.weight).sum := by
  by_cases hbucket : ∃ found focused label members, focus = some found ∧
      found.target = .bucket focused label members
  · obtain ⟨found, focused, label, members, rfl, htarget⟩ := hbucket
    obtain ⟨hfocused, hmembers⟩ := hdrawn.remainder focused label members found rfl htarget
    rw [remainderAggs, htarget]
    dsimp only
    by_cases hnil : plan.remainder = []
    · rw [if_pos hnil, hnil]
      rfl
    · rw [if_neg hnil]
      by_cases heq : focused = credit
      · have hall : plan.remainder.filter (fun m => ladder.masterCredit m = credit) =
            plan.remainder := List.filter_eq_self.mpr fun m hm =>
          decide_eq_true ((hmembers m hm).trans heq)
        rw [hall, ← length_flat_weight, heq]
        simp [bucketAgg, counts]
      · have hnone : plan.remainder.filter (fun m => ladder.masterCredit m = credit) = [] :=
          List.filter_eq_nil_iff.mpr fun m hm => by
            rw [decide_eq_true_eq, hmembers m hm]
            exact heq
        have hother : creditId focused ≠ creditId credit := fun h =>
          heq (credit_id_inj (hdrawn.plain focused hfocused) (hdrawn.plain credit hcredit) h)
        rw [hnone, List.filter_eq_nil_iff.mpr]
        · rfl
        · intro agg hagg
          rw [List.mem_singleton.mp hagg, decide_eq_true_eq]
          exact hother
  · have hno : ∀ focused label members found, focus = some found →
        found.target ≠ .bucket focused label members := fun focused label members found hfound ht =>
      hbucket ⟨found, focused, label, members, hfound, ht⟩
    rw [hdrawn.no_remainder hno, ladder.remainder_aggs_nil]
    rfl

/-- The entries of the master plane under a credit count its releases. -/
theorem masters_under_credit (hconserves : Conserves ladder plan releases) {credit : Credit}
    (hcredit : credit ∈ plan.shownCredits) :
    (ladder.payload budget focus plan releases).mastersUnder (creditId credit) =
      (ladder.creditItems credit).length := by
  have hperm := ((hconserves.masters credit hcredit).map ladder.weight).sum_nat
  rw [List.map_append, List.map_append, List.sum_append, List.sum_append] at hperm
  have hnodes := master_nodes_under hdrawn hcredit
  have hlanes := lane_aggs_under hdrawn hconserves.lanes hcredit
  have hbuckets := bucket_aggs_under hdrawn hcredit
  have hremainder := remainder_aggs_under hdrawn hcredit
  unfold Payload.mastersUnder creditItems
  simp only [payload]
  rw [List.filter_append, List.filter_append, List.map_append, List.map_append, List.sum_append,
    List.sum_append, List.length_append, length_flat_weight]
  omega

end

/-! ## Counts under a master or a lane -/

/-- The entries of the release plane under a parent count the items it holds. -/
theorem releases_under_parent {parent : String} {items : List Item}
    (h : ((releases.1.filter fun node => node.2 = parent).map (·.1) ++
      (releases.2.filter fun agg => agg.parent = parent).flatMap (·.items)).Perm items) :
    (ladder.payload budget focus plan releases).releasesUnder parent = items.length := by
  have hlength := h.length_eq
  rw [List.length_append, List.length_map, List.length_flatMap] at hlength
  rw [← hlength, Payload.releasesUnder]
  simp only [payload]
  congr 1
  · rw [List.filter_map, List.length_map]
    rfl
  · rw [List.filter_map, List.map_map]
    rfl

/-! ## The total -/

/-- The entries of the credit plane count every release. -/
theorem credits_total (hladder : ladder.WellFormed)
    (hconserves : Conserves ladder plan releases) :
    ((ladder.payload budget focus plan releases).creditNodes.map (·.counts.releases)).sum +
      ((ladder.payload budget focus plan releases).creditAggs.map (·.counts.releases)).sum =
      (ladder.payload budget focus plan releases).totals.releases := by
  have hpartition := ((hconserves.credits.flatMap_right ladder.creditItems).trans
    hladder.partition).length_eq
  rw [List.flatMap_append, List.length_append, List.length_flatMap] at hpartition
  simp only [payload, totals, List.map_map]
  rw [← hpartition]
  congr 1
  by_cases hnil : plan.foldedCredits = []
  · rw [if_pos hnil, hnil]
    rfl
  · rw [if_neg hnil]
    exact Nat.add_zero _

end View

/-! ## The payload of a plan -/

/-- The masters of a sound plan belong to drawn credits. -/
theorem plan_drawn (hladder : ladder.WellFormed) (hnamed : ladder.Named)
    (hfocus : ladder.FocusSound budget focus) {level : List Credit × List Credit}
    (hlevel : ladder.LevelSound budget focus level) (mode : FoldMode) (keep : Nat) :
    ladder.Drawn focus (ladder.planOf focus level.1 level.2 mode keep) where
  nodup := level_shown_nodup hladder hlevel
  plain := fun credit hcredit =>
    hnamed.credits credit (hlevel.split.mem_iff.mp (List.mem_append_left _ hcredit))
  masters := by
    intro masterId hmaster
    have hmem := (plan_masters_perm hladder hfocus hlevel mode keep).mem_iff.mp
      (List.mem_append_left _ (List.mem_append_left _ hmaster))
    obtain ⟨credit, hcredit, hunder⟩ := List.mem_flatMap.mp hmem
    rw [(hladder.mem_masters.mp hunder).2]
    exact hcredit
  buckets := by
    intro bucket hbucket
    obtain ⟨key, hkey, rfl⟩ := List.mem_map.mp hbucket
    obtain ⟨masterId, hmem, rfl⟩ := List.mem_map.mp (List.mem_eraseDups.mp hkey)
    obtain ⟨credit, hcredit, hfoldable⟩ := mem_candidates.mp (List.mem_of_mem_drop hmem)
    have hunder := hladder.mem_masters.mp (List.mem_of_mem_filter hfoldable)
    show ladder.masterCredit masterId ∈ level.1
    rw [hunder.2]
    exact hcredit
  remainder := by
    rintro credit label members found rfl htarget
    refine ⟨hlevel.base credit ?_, fun masterId hmem => ?_⟩
    · have hcredit : found.target.credit = some credit := by rw [htarget]; rfl
      rw [base_credits_focused hcredit, focusedCredits]
      split
      · rename_i hroot
        exact List.mem_singleton.mpr hroot
      · exact List.mem_cons_of_mem _ (List.mem_singleton.mpr rfl)
    · have hsound := (hfocus found rfl).target
      rw [htarget] at hsound
      simp only [planOf, pinnedMasters, htarget] at hmem
      have hmember := (slice_append_leftover members found.page found.pageSize).mem_iff.mp
        (List.mem_append_right _ hmem)
      rw [hsound.1] at hmember
      exact (hladder.mem_masters.mp (List.mem_of_mem_filter hmember)).2
  no_remainder := by
    intro hno
    cases focus with
    | none => rfl
    | some found =>
        show (pinnedMasters (some found)).2 = []
        cases htarget : found.target with
        | bucket credit label members => exact absurd htarget (hno credit label members found rfl)
        | others members => simp only [pinnedMasters, htarget]
        | pressings credit masterId members => simp only [pinnedMasters, htarget]
        | lane credit label members => simp only [pinnedMasters, htarget]

/-- Every node and aggregate of the release plane is under a drawn master or lane. -/
theorem release_parents {plan : MasterPlan} {releases : List ReleaseNode × List ReleaseAgg}
    (hfocus : ladder.FocusSound budget focus)
    (hreleases : ladder.planReleases budget focus plan = .ok releases) :
    (∀ node ∈ releases.1, (∃ masterId ∈ plan.masters, masterNodeId masterId = node.2) ∨
      ∃ lane ∈ plan.lanes, laneId lane = node.2) ∧
    ∀ agg ∈ releases.2, (∃ masterId ∈ plan.masters, masterNodeId masterId = agg.parent) ∨
      ∃ lane ∈ plan.lanes, laneId lane = agg.parent := by
  obtain ⟨outcome, hnodes, haggs⟩ := plan_releases_parts hreleases
  constructor
  · intro node hnode
    rcases List.mem_append.mp (hnodes.mem_iff.mp hnode) with h | h
    · obtain ⟨masterId, hmaster, hmem⟩ := List.mem_flatMap.mp h
      exact Or.inl ⟨masterId, hmaster,
        ((master_part_holds hfocus outcome masterId).node_parent node hmem).symm⟩
    · obtain ⟨lane, hlane, hmem⟩ := List.mem_flatMap.mp h
      exact Or.inr ⟨lane, hlane,
        ((lane_part_holds hfocus outcome lane).node_parent node hmem).symm⟩
  · intro agg hagg
    rcases List.mem_append.mp (haggs.mem_iff.mp hagg) with h | h
    · obtain ⟨masterId, hmaster, hmem⟩ := List.mem_flatMap.mp h
      exact Or.inl ⟨masterId, hmaster,
        ((master_part_holds hfocus outcome masterId).agg_parent agg hmem).symm⟩
    · obtain ⟨lane, hlane, hmem⟩ := List.mem_flatMap.mp h
      exact Or.inr ⟨lane, hlane,
        ((lane_part_holds hfocus outcome lane).agg_parent agg hmem).symm⟩

/-- The aggregates of the master plane: a lane, a bucket, or the remainder of a bucket. -/
theorem mem_master_aggs {plan : MasterPlan} {releases : List ReleaseNode × List ReleaseAgg}
    {agg : MasterAggEntry} (h : agg ∈ (ladder.payload budget focus plan releases).masterAggs) :
    (∃ lane ∈ plan.lanes, agg = ladder.laneAgg lane) ∨
    (∃ bucket ∈ plan.buckets, agg = ladder.bucketAgg bucket.1.1 bucket.1.2 bucket.2) ∨
    ∃ found credit label members, focus = some found ∧
      found.target = .bucket credit label members ∧
      agg = ladder.bucketAgg credit label plan.remainder := by
  simp only [payload, List.mem_append] at h
  rcases h with (h | h) | h
  · obtain ⟨lane, hlane, rfl⟩ := List.mem_map.mp h
    exact Or.inl ⟨lane, hlane, rfl⟩
  · obtain ⟨bucket, hbucket, rfl⟩ := List.mem_map.mp h
    exact Or.inr (Or.inl ⟨bucket, mem_sort_by.mp hbucket, rfl⟩)
  · unfold remainderAggs at h
    split at h
    · cases h
    · rename_i found
      split at h
      · rename_i credit label members htarget
        split at h
        · cases h
        · exact Or.inr (Or.inr ⟨found, credit, label, members, rfl, htarget,
            List.mem_singleton.mp h⟩)
      · cases h

/-- The payload of a plan that conserves the ladder balances. -/
theorem payload_balanced {plan : MasterPlan} {releases : List ReleaseNode × List ReleaseAgg}
    (hladder : ladder.WellFormed) (hdrawn : ladder.Drawn focus plan)
    (hconserves : Conserves ladder plan releases) (hfocus : ladder.FocusSound budget focus)
    (hreleases : ladder.planReleases budget focus plan = .ok releases) :
    (ladder.payload budget focus plan releases).Balanced where
  total := credits_total hladder hconserves
  credits := by
    intro node hnode
    obtain ⟨credit, hcredit, rfl⟩ := List.mem_map.mp hnode
    exact masters_under_credit hdrawn hconserves hcredit
  masters := by
    intro node hnode
    obtain ⟨masterId, hmaster, rfl⟩ := List.mem_map.mp hnode
    exact releases_under_parent (hconserves.master_releases masterId (mem_sort_by.mp hmaster))
  lanes := by
    intro agg hagg hkind
    rcases mem_master_aggs hagg with ⟨lane, hlane, rfl⟩ | ⟨bucket, -, rfl⟩ | ⟨_, _, _, _, -, -, rfl⟩
    · exact releases_under_parent (hconserves.lane_releases lane hlane)
    · cases hkind
    · cases hkind
  master_parents := by
    have hshown : ∀ credit ∈ plan.shownCredits, ∃ node ∈
        (ladder.payload budget focus plan releases).creditNodes, node.id = creditId credit :=
      fun credit hcredit => ⟨ladder.creditNode credit, List.mem_map_of_mem hcredit, rfl⟩
    constructor
    · intro node hnode
      obtain ⟨masterId, hmaster, rfl⟩ := List.mem_map.mp hnode
      exact hshown _ (hdrawn.masters masterId (mem_sort_by.mp hmaster))
    · intro agg hagg
      rcases mem_master_aggs hagg with ⟨lane, hlane, rfl⟩ | ⟨bucket, hbucket, rfl⟩ |
        ⟨found, credit, label, members, hfound, htarget, rfl⟩
      · rw [hconserves.lanes] at hlane
        exact hshown lane (List.mem_of_mem_filter hlane)
      · exact hshown _ (hdrawn.buckets bucket hbucket)
      · exact hshown _ (hdrawn.remainder credit label members found hfound htarget).1
  release_parents := by
    have hparent : ∀ parent, ((∃ masterId ∈ plan.masters, masterNodeId masterId = parent) ∨
        ∃ lane ∈ plan.lanes, laneId lane = parent) →
        (ladder.payload budget focus plan releases).drawsParent parent := by
      rintro parent (⟨masterId, hmaster, rfl⟩ | ⟨lane, hlane, rfl⟩)
      · exact Or.inl ⟨ladder.masterNode masterId,
          List.mem_map_of_mem (mem_sort_by.mpr hmaster), rfl⟩
      · refine Or.inr ⟨ladder.laneAgg lane, ?_, rfl, rfl⟩
        exact List.mem_append_left _ (List.mem_append_left _ (List.mem_map_of_mem hlane))
    obtain ⟨hnodes, haggs⟩ := release_parents hfocus hreleases
    constructor
    · intro node hnode
      obtain ⟨drawn, hmem, rfl⟩ := List.mem_map.mp hnode
      exact hparent _ (hnodes drawn hmem)
    · intro agg hagg
      obtain ⟨drawn, hmem, rfl⟩ := List.mem_map.mp hagg
      exact hparent _ (haggs drawn hmem)

end Ladder

end CatalogApi.Strata
