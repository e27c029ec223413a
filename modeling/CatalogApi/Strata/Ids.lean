import CatalogApi.Strata.Balance

/-!
# The ids of one plane are distinct

Within one plane of a response the text before the first colon of an id tells the kind of the
entry, and the rest names its master, credit, label or release.
-/

namespace CatalogApi.Strata

open ByKey Slices Text

/-! ## Tags -/

/-- The text of an id before its first colon. -/
def tag (id : String) : String := String.ofList (id.toList.takeWhile (· ≠ ':'))

theorem tag_credit (credit : Credit) : tag (creditId credit) = "c" := by
  simp [tag, creditId]

theorem tag_master (masterId : String) : tag (masterNodeId masterId) = "m" := by
  simp [tag, masterNodeId]

theorem tag_lane (lane : Credit) : tag (laneId lane) = "nm" := by
  simp [tag, laneId]

theorem tag_bucket (text : String) : tag ("ma:" ++ text) = "ma" := by
  simp [tag]

theorem tag_node (item : Item) : tag item.nodeId = "r" ∨ tag item.nodeId = "mb" := by
  unfold Item.nodeId
  split
  · exact Or.inl (by simp [tag])
  · exact Or.inr (by simp [tag])

/-- Lists of distinct ids with different tags stay distinct together. -/
theorem nodup_append_tags {ids ids' : List String} (h : ids.Nodup) (h' : ids'.Nodup)
    (htags : ∀ id ∈ ids, ∀ id' ∈ ids', tag id ≠ tag id') : (ids ++ ids').Nodup :=
  List.nodup_append.mpr ⟨h, h', fun id hid id' hid' heq => htags id hid id' hid' (congrArg tag heq)⟩

namespace Ladder

variable {ladder : Ladder} {budget : Budget} {focus : Option Focus} {plan : MasterPlan}
  {releases : List ReleaseNode × List ReleaseAgg}

/-! ## The credit plane -/

theorem credit_ids_nodup (hdrawn : ladder.Drawn focus plan) :
    ((ladder.payload budget focus plan releases).creditNodes.map (·.id) ++
      (ladder.payload budget focus plan releases).creditAggs.map (·.id)).Nodup := by
  have hnodes : (plan.shownCredits.map creditId).Nodup :=
    List.Nodup.map_on (fun credit hcredit credit' hcredit' =>
      credit_id_inj (hdrawn.plain credit hcredit) (hdrawn.plain credit' hcredit')) hdrawn.nodup
  simp only [payload, List.map_map]
  refine List.nodup_append.mpr ⟨hnodes, ?_, ?_⟩
  · split
    · exact List.nodup_nil
    · exact List.nodup_singleton _
  · intro id hid id' hid'
    obtain ⟨credit, hcredit, rfl⟩ := List.mem_map.mp hid
    split at hid'
    · cases hid'
    · obtain rfl := List.mem_singleton.mp hid'
      exact credit_id_ne_other (hdrawn.plain credit hcredit)

/-! ## The master plane -/

/-- The id of a bucket of masters. -/
def bucketId (key : Credit × String) : String := "ma:" ++ creditId key.1 ++ ":" ++ key.2

theorem bucket_agg_id (ladder : Ladder) (credit : Credit) (label : String)
    (masters : List String) :
    (ladder.bucketAgg credit label masters).id = bucketId (credit, label) :=
  rfl

theorem tag_bucket_id (key : Credit × String) : tag (bucketId key) = "ma" := by
  rw [bucketId, String.append_assoc, String.append_assoc]
  exact tag_bucket _

theorem bucket_id_inj {key key' : Credit × String} (h : PlainCredit key.1)
    (h' : PlainCredit key'.1) (hlabel : Lacks ':' key.2) (hlabel' : Lacks ':' key'.2)
    (heq : bucketId key = bucketId key') : key = key' := by
  unfold bucketId at heq
  rw [String.append_assoc, String.append_assoc, String.append_assoc, String.append_assoc,
    String.append_right_inj, ← String.append_assoc, ← String.append_assoc] at heq
  obtain ⟨hcredit, hlabels⟩ := credit_label_inj h h' hlabel hlabel' heq
  exact Prod.ext hcredit hlabels

/-- The buckets of a plan have distinct keys, and the key of the focus is none of them. -/
structure Keyed (focus : Option Focus) (plan : MasterPlan) : Prop where
  masters : plan.masters.Nodup
  buckets : (plan.buckets.map (·.1)).Nodup
  labels : ∀ bucket ∈ plan.buckets, Lacks ':' bucket.1.2
  focused : ∀ credit label members found, focus = some found →
    found.target = .bucket credit label members →
      Lacks ':' label ∧ ∀ bucket ∈ plan.buckets, bucket.1 ≠ (credit, label)

theorem bucket_label_lacks (mode : FoldMode) (masterId : String) :
    Lacks ':' (ladder.bucket mode masterId).2 := by
  cases mode with
  | decade => exact decade_lacks_colon _
  | all => exact (by decide : Lacks ':' all)

/-- A label that names masters of a credit holds no colon. -/
theorem bucket_members_label {credit : Credit} {label : String}
    (h : ladder.bucketMembers credit label ≠ []) : Lacks ':' label := by
  obtain ⟨masterId, hmem⟩ := List.exists_mem_of_ne_nil _ h
  rcases of_decide_eq_true (List.mem_filter.mp hmem).2 with rfl | hlabel
  · decide
  · rw [← hlabel]
    exact bucket_label_lacks .decade masterId

/-- A master in the bucket of a label is a member of that label's cursor. -/
theorem bucket_member (hladder : ladder.WellFormed) {mode : FoldMode} {masterId : String}
    {credit : Credit} {label : String} (hmaster : masterId ∈ ladder.masterIds)
    (hkey : ladder.bucket mode masterId = (credit, label)) :
    masterId ∈ ladder.bucketMembers credit label := by
  obtain ⟨hcredit, hlabel⟩ := Prod.mk.inj hkey
  refine List.mem_filter.mpr ⟨hladder.mem_masters.mpr ⟨hmaster, hcredit⟩, decide_eq_true ?_⟩
  cases mode with
  | decade => exact Or.inr hlabel
  | all => exact Or.inl hlabel.symm

/-- The plan of a sound level names every node once. -/
theorem plan_keyed (hladder : ladder.WellFormed) (hfocus : ladder.FocusSound budget focus)
    {level : List Credit × List Credit} (hlevel : ladder.LevelSound budget focus level)
    (mode : FoldMode) (keep : Nat) :
    Keyed focus (ladder.planOf focus level.1 level.2 mode keep) where
  masters := by
    have hall := (plan_masters_perm hladder hfocus hlevel mode keep).symm.nodup
      (masters_of_credits_nodup hladder (level_shown_nodup hladder hlevel))
    exact (List.nodup_append.mp (List.nodup_append.mp hall).1).1
  buckets := by
    simp only [planOf, bucketed, List.map_map]
    rw [show (Prod.fst ∘ fun key => (key, _)) = id from rfl, List.map_id]
    exact nodup_erase_dups _
  labels := by
    intro bucket hbucket
    obtain ⟨key, hkey, rfl⟩ := List.mem_map.mp hbucket
    obtain ⟨masterId, -, rfl⟩ := List.mem_map.mp (List.mem_eraseDups.mp hkey)
    exact bucket_label_lacks mode masterId
  focused := by
    rintro credit label members found rfl htarget
    have hsound := (hfocus found rfl).target
    rw [htarget] at hsound
    refine ⟨bucket_members_label (hsound.1 ▸ hsound.2), fun bucket hbucket heq => ?_⟩
    obtain ⟨key, hkey, rfl⟩ := List.mem_map.mp hbucket
    obtain ⟨masterId, hmem, rfl⟩ := List.mem_map.mp (List.mem_eraseDups.mp hkey)
    -- a candidate of the bucket would be a member of the focus, and members are no candidates
    obtain ⟨other, -, hfoldable⟩ := mem_candidates.mp (List.mem_of_mem_drop hmem)
    obtain ⟨hunder, hfree⟩ := List.mem_filter.mp hfoldable
    have hmember := bucket_member hladder (hladder.mem_masters.mp hunder).1 heq
    rw [← hsound.1] at hmember
    refine of_decide_eq_true hfree ?_
    rw [pinnedMasters, htarget]
    exact (slice_append_leftover members found.page found.pageSize).mem_iff.mpr hmember

/-- The id of the remainder, when there is one. -/
theorem remainder_agg_ids (ladder : Ladder) (focus : Option Focus) (remainder : List String) :
    (ladder.remainderAggs focus remainder).map (·.id) = [] ∨
      ∃ found credit label members, focus = some found ∧
        found.target = .bucket credit label members ∧
        (ladder.remainderAggs focus remainder).map (·.id) = [bucketId (credit, label)] := by
  unfold remainderAggs
  split
  · exact Or.inl rfl
  · rename_i found
    split
    · rename_i credit label members htarget
      by_cases hnil : remainder = []
      · rw [if_pos hnil]
        exact Or.inl rfl
      · rw [if_neg hnil]
        exact Or.inr ⟨found, credit, label, members, rfl, htarget, rfl⟩
    · exact Or.inl rfl

/-- The ids of the aggregates of the master plane. -/
theorem master_agg_ids (ladder : Ladder) (budget : Budget) (focus : Option Focus)
    (plan : MasterPlan) (releases : List ReleaseNode × List ReleaseAgg) :
    (ladder.payload budget focus plan releases).masterAggs.map (·.id) =
      plan.lanes.map laneId ++ (((sortBy ladder.bucketKey plan.buckets).map (·.1)).map bucketId ++
        (ladder.remainderAggs focus plan.remainder).map (·.id)) := by
  simp only [payload, List.map_append, List.map_map, List.append_assoc]
  rfl

/-- The master plane draws each id once. -/
theorem master_ids_nodup (hdrawn : ladder.Drawn focus plan) (hkeyed : Keyed focus plan)
    (hlanes : plan.lanes = plan.shownCredits.filter fun c => ladder.masterless c ≠ []) :
    ((ladder.payload budget focus plan releases).masterNodes.map (·.id) ++
      (ladder.payload budget focus plan releases).masterAggs.map (·.id)).Nodup := by
  have hnodes : ((ladder.payload budget focus plan releases).masterNodes.map (·.id)).Nodup := by
    simp only [payload, List.map_map]
    exact (sort_by_nodup hkeyed.masters).map fun _ _ => master_node_id_inj
  have hlane : (plan.lanes.map laneId).Nodup := by
    rw [hlanes]
    refine List.Nodup.map_on (fun lane hl lane' hl' => ?_) (hdrawn.nodup.filter _)
    exact lane_id_inj (hdrawn.plain lane (List.mem_of_mem_filter hl))
      (hdrawn.plain lane' (List.mem_of_mem_filter hl'))
  have hbuckets : (((sortBy ladder.bucketKey plan.buckets).map (·.1)).map bucketId).Nodup := by
    refine List.Nodup.map_on (fun key hkey key' hkey' => ?_)
      (((sort_by_perm _ _).map _).symm.nodup hkeyed.buckets)
    obtain ⟨bucket, hbucket, rfl⟩ := List.mem_map.mp hkey
    obtain ⟨bucket', hbucket', rfl⟩ := List.mem_map.mp hkey'
    rw [mem_sort_by] at hbucket hbucket'
    exact bucket_id_inj (hdrawn.plain _ (hdrawn.buckets bucket hbucket))
      (hdrawn.plain _ (hdrawn.buckets bucket' hbucket')) (hkeyed.labels bucket hbucket)
      (hkeyed.labels bucket' hbucket')
  have hfolded : (((sortBy ladder.bucketKey plan.buckets).map (·.1)).map bucketId ++
      (ladder.remainderAggs focus plan.remainder).map (·.id)).Nodup := by
    rcases ladder.remainder_agg_ids focus plan.remainder with hnil |
      ⟨found, credit, label, members, hfound, htarget, hone⟩
    · rw [hnil, List.append_nil]
      exact hbuckets
    · obtain ⟨hlabel, hother⟩ := hkeyed.focused credit label members found hfound htarget
      have hcredit := (hdrawn.remainder credit label members found hfound htarget).1
      rw [hone]
      refine List.nodup_append.mpr ⟨hbuckets, List.nodup_singleton _, ?_⟩
      intro id hid id' hid' heq
      obtain ⟨key, hkey, rfl⟩ := List.mem_map.mp hid
      obtain ⟨bucket, hbucket, rfl⟩ := List.mem_map.mp hkey
      rw [mem_sort_by] at hbucket
      rw [List.mem_singleton.mp hid'] at heq
      exact hother bucket hbucket (bucket_id_inj (hdrawn.plain _ (hdrawn.buckets bucket hbucket))
        (hdrawn.plain credit hcredit) (hkeyed.labels bucket hbucket) hlabel heq)
  have hfoldedTag : ∀ id ∈ ((sortBy ladder.bucketKey plan.buckets).map (·.1)).map bucketId ++
      (ladder.remainderAggs focus plan.remainder).map (·.id), tag id = "ma" := by
    intro id hid
    rcases List.mem_append.mp hid with h | h
    · obtain ⟨key, -, rfl⟩ := List.mem_map.mp h
      exact tag_bucket_id key
    · rcases ladder.remainder_agg_ids focus plan.remainder with hnil | ⟨_, _, _, _, -, -, hone⟩
      · rw [hnil] at h
        cases h
      · rw [hone] at h
        rw [List.mem_singleton.mp h]
        exact tag_bucket_id _
  rw [master_agg_ids]
  refine nodup_append_tags hnodes (nodup_append_tags hlane hfolded ?_) ?_
  · intro id hid id' hid'
    obtain ⟨lane, -, rfl⟩ := List.mem_map.mp hid
    rw [tag_lane, hfoldedTag id' hid']
    decide
  · intro id hid id' hid'
    obtain ⟨node, hnode, rfl⟩ := List.mem_map.mp hid
    obtain ⟨masterId, -, rfl⟩ := List.mem_map.mp hnode
    show tag (masterNodeId masterId) ≠ tag id'
    rw [tag_master]
    rcases List.mem_append.mp hid' with h | h
    · obtain ⟨lane, -, rfl⟩ := List.mem_map.mp h
      rw [tag_lane]
      decide
    · rw [hfoldedTag id' h]
      decide

/-! ## The release plane -/

/-- The releases of the catalog have distinct node ids. -/
theorem placed_ids_nodup {catalog : Catalog} (hcatalog : catalog.Valid)
    (hmusicbrainz : ((catalog.releases.filter fun release =>
      release.provider = .musicbrainz).map (·.id)).Nodup) (marks : Option Marks) :
    ((placed catalog marks).map (·.nodeId)).Nodup := by
  have hdiscogs := List.pairwise_filter.mp (List.pairwise_map.mp hcatalog.distinct)
  have hpressings := List.pairwise_filter.mp (List.pairwise_map.mp hmusicbrainz)
  refine List.pairwise_map.mpr (List.pairwise_filterMap.mpr ?_)
  refine (hdiscogs.and hpressings).imp ?_
  rintro release release' ⟨hd, hm⟩ item hitem item' hitem' heq
  have hrelease := place_release hitem
  have hrelease' := place_release hitem'
  unfold Item.nodeId at heq
  rw [hrelease, hrelease'] at heq
  cases hp : release.provider with
  | discogs =>
      cases hp' : release'.provider with
      | discogs =>
          rw [hp, hp'] at heq
          exact hd (decide_eq_true hp) (decide_eq_true hp') ((String.append_right_inj _).mp heq)
      | musicbrainz =>
          rw [hp, hp'] at heq
          exact starts_ne (by decide) (by decide) _ _ heq
  | musicbrainz =>
      cases hp' : release'.provider with
      | discogs =>
          rw [hp, hp'] at heq
          exact starts_ne (by decide) (by decide) _ _ heq
      | musicbrainz =>
          rw [hp, hp'] at heq
          exact hm (decide_eq_true hp) (decide_eq_true hp') ((String.append_right_inj _).mp heq)

/-- The releases of distinct masters and lanes are distinct. -/
theorem drawn_items_nodup (hladder : ladder.WellFormed) (hmasters : plan.masters.Nodup)
    (hlanes : plan.lanes.Nodup) (hitems : ladder.items.Nodup) :
    (plan.masters.flatMap ladder.itemsByMaster ++
      plan.lanes.flatMap ladder.masterless).Nodup := by
  obtain ⟨hunder, hwithout⟩ := hladder.groups_nodup hitems
  refine List.nodup_append.mpr ⟨List.nodup_flatMap.mpr ⟨fun masterId _ => hunder masterId, ?_⟩,
    List.nodup_flatMap.mpr ⟨fun lane _ => hwithout lane, ?_⟩, ?_⟩
  · refine hmasters.imp fun {masterId other} hne item hitem hitem' => hne ?_
    have heq := (hladder.mem_items.mp hitem).2.symm.trans (hladder.mem_items.mp hitem').2
    exact Option.some.inj heq
  · refine hlanes.imp fun {lane other} hne item hitem hitem' => hne ?_
    exact (hladder.mem_lane.mp hitem).2.2.symm.trans (hladder.mem_lane.mp hitem').2.2
  · rintro item hitem item' hitem' rfl
    obtain ⟨masterId, -, hmem⟩ := List.mem_flatMap.mp hitem
    obtain ⟨lane, -, hmem'⟩ := List.mem_flatMap.mp hitem'
    have heq := (hladder.mem_items.mp hmem).2.symm.trans (hladder.mem_lane.mp hmem').2.1
    cases heq

theorem release_node_ids_nodup (hladder : ladder.WellFormed) (hkeyed : Keyed focus plan)
    (hlanes : plan.lanes.Nodup) (hids : (ladder.items.map (·.nodeId)).Nodup)
    (hfocus : ladder.FocusSound budget focus)
    (hreleases : ladder.planReleases budget focus plan = .ok releases) :
    ((ladder.payload budget focus plan releases).releaseNodes.map (·.id)).Nodup := by
  have hperm := plan_releases_perm hfocus hreleases
  have hdrawn : ∀ item ∈ releases.1.map (·.1), item ∈ ladder.items := by
    intro item hitem
    rcases List.mem_append.mp (hperm.mem_iff.mp (List.mem_append_left _ hitem)) with h | h
    · obtain ⟨masterId, -, hmem⟩ := List.mem_flatMap.mp h
      exact (hladder.mem_items.mp hmem).1
    · obtain ⟨lane, -, hmem⟩ := List.mem_flatMap.mp h
      exact (hladder.mem_lane.mp hmem).1
  have hnodup : (releases.1.map (·.1)).Nodup :=
    (List.nodup_append.mp (hperm.symm.nodup
      (drawn_items_nodup hladder hkeyed.masters hlanes hids.of_map))).1
  have heq : (ladder.payload budget focus plan releases).releaseNodes.map (·.id) =
      (releases.1.map (·.1)).map (·.nodeId) := by
    simp only [payload, List.map_map]
    rfl
  rw [heq]
  refine List.Nodup.map_on (fun item hitem item' hitem' hid => ?_) hnodup
  exact List.inj_on_of_nodup_map hids (hdrawn item hitem) (hdrawn item' hitem') hid

/-- The aggregates of a lane: each has the id of a label with members, and the labels differ. -/
structure LaneAggs (ladder : Ladder) (lane : Credit) (aggs : List ReleaseAgg) : Prop where
  id : ∀ agg ∈ aggs, agg.id = (Target.lane lane agg.decade []).canonical
  members : ∀ agg ∈ aggs, ladder.laneMembers lane agg.decade ≠ []
  nodup : (aggs.map (·.decade)).Nodup

theorem LaneAggs.nil (lane : Credit) : ladder.LaneAggs lane [] :=
  ⟨fun _ h => absurd h List.not_mem_nil, fun _ h => absurd h List.not_mem_nil, List.nodup_nil⟩

theorem LaneAggs.one {lane : Credit} {agg : ReleaseAgg}
    (hid : agg.id = (Target.lane lane agg.decade []).canonical)
    (hmembers : ladder.laneMembers lane agg.decade ≠ []) : ladder.LaneAggs lane [agg] where
  id := fun _ h => by rw [List.mem_singleton.mp h, hid]
  members := fun _ h => by
    rw [List.mem_singleton.mp h]
    exact hmembers
  nodup := List.nodup_singleton _

/-- A folded lane has aggregates of the lane. -/
theorem fold_lane_aggs (strategy : Strategy) {lane : Credit} {items : List Item}
    (hitems : ∀ item ∈ items, item ∈ ladder.masterless lane) :
    ladder.LaneAggs lane (foldLane strategy lane items).2 ∧
      ∀ agg ∈ (foldLane strategy lane items).2,
        agg.decade = none ∨ ∃ item ∈ items, agg.decade = some (decade item.year) := by
  unfold foldLane
  dsimp only
  by_cases hnil : (items.filter fun item => ¬(strategy.keepStateful ∧ item.stateful)) = []
  · rw [if_pos hnil]
    exact ⟨LaneAggs.nil lane, fun _ h => absurd h List.not_mem_nil⟩
  · rw [if_neg hnil]
    by_cases hdecade : strategy.byDecade
    · rw [if_pos hdecade]
      have hlabels : ∀ label ∈ ((items.filter fun item =>
          ¬(strategy.keepStateful ∧ item.stateful)).map fun item => decade item.year).eraseDups,
          ∃ item ∈ items, label = decade item.year := by
        intro label hlabel
        obtain ⟨item, hitem, rfl⟩ := List.mem_map.mp (List.mem_eraseDups.mp hlabel)
        exact ⟨item, List.mem_of_mem_filter hitem, rfl⟩
      refine ⟨⟨?_, ?_, ?_⟩, ?_⟩
      · intro agg hagg
        obtain ⟨label, -, rfl⟩ := List.mem_map.mp hagg
        rfl
      · intro agg hagg
        obtain ⟨label, hlabel, rfl⟩ := List.mem_map.mp hagg
        obtain ⟨item, hitem, rfl⟩ := hlabels label hlabel
        exact List.ne_nil_of_mem
          (List.mem_filter.mpr ⟨hitems item hitem, decide_eq_true rfl⟩)
      · rw [List.map_map]
        exact (nodup_erase_dups _).map (Option.some_injective _)
      · intro agg hagg
        obtain ⟨label, hlabel, rfl⟩ := List.mem_map.mp hagg
        obtain ⟨item, hitem, rfl⟩ := hlabels label hlabel
        exact Or.inr ⟨item, hitem, rfl⟩
    · rw [if_neg hdecade]
      obtain ⟨item, hitem⟩ := List.exists_mem_of_ne_nil _ hnil
      have hmem := hitems item (List.mem_of_mem_filter hitem)
      refine ⟨LaneAggs.one rfl (List.ne_nil_of_mem hmem), fun agg hagg => Or.inl ?_⟩
      rw [List.mem_singleton.mp hagg]

theorem LaneAggs.append {lane : Credit} {aggs aggs' : List ReleaseAgg}
    (h : ladder.LaneAggs lane aggs) (h' : ladder.LaneAggs lane aggs')
    (hdecades : ∀ agg ∈ aggs, ∀ agg' ∈ aggs', agg.decade ≠ agg'.decade) :
    ladder.LaneAggs lane (aggs ++ aggs') where
  id := fun agg hagg => (List.mem_append.mp hagg).elim (h.id agg) (h'.id agg)
  members := fun agg hagg => (List.mem_append.mp hagg).elim (h.members agg) (h'.members agg)
  nodup := by
    rw [List.map_append]
    refine List.nodup_append.mpr ⟨h.nodup, h'.nodup, ?_⟩
    rintro label hlabel label' hlabel' rfl
    obtain ⟨agg, hagg, rfl⟩ := List.mem_map.mp hlabel
    obtain ⟨agg', hagg', heq⟩ := List.mem_map.mp hlabel'
    exact hdecades agg hagg agg' hagg' heq.symm

/-- What a focus on a lane leaves open has aggregates of the lane. -/
theorem open_lane_aggs (outcome : Option Strategy) {lane : Credit} {items : List Item}
    (hitems : ∀ item ∈ items, item ∈ ladder.masterless lane) :
    ladder.LaneAggs lane (openLane outcome lane items).2 ∧
      ∀ agg ∈ (openLane outcome lane items).2,
        agg.decade = none ∨ ∃ item ∈ items, agg.decade = some (decade item.year) := by
  cases outcome with
  | none => exact ⟨LaneAggs.nil lane, fun _ h => absurd h List.not_mem_nil⟩
  | some strategy => exact fold_lane_aggs strategy hitems

/-- The aggregates the release plane draws of a lane. -/
theorem lane_part_aggs (hfocus : ladder.FocusSound budget focus) (outcome : Option Strategy)
    (lane : Credit) : ladder.LaneAggs lane (ladder.lanePart focus outcome lane).2 := by
  unfold lanePart fixedOfLane
  cases hon : onLane focus lane with
  | none =>
      have hopen : ladder.openItems focus lane = ladder.masterless lane := by
        rw [openItems, hon]
      rw [hopen]
      by_cases hnil : ladder.masterless lane = []
      · rw [if_neg (not_not.mpr hnil)]
        exact LaneAggs.nil lane
      · rw [if_pos hnil]
        exact (open_lane_aggs outcome fun item hitem => hitem).1
  | some found =>
      obtain ⟨found, label, members⟩ := found
      obtain ⟨rfl, htarget⟩ := on_lane_eq hon
      have hsound := hfocus found rfl
      have hmembers := hsound.target
      rw [htarget] at hmembers
      have hopen : ladder.openItems (some found) lane =
          (ladder.masterless lane).filter fun item => item ∉ members := by
        rw [openItems, hon]
      have hid : found.id = (Target.lane lane label []).canonical := by
        rw [hsound.id, htarget]
        cases label with
        | none => rfl
        | some label => rfl
      have hfixed : ladder.LaneAggs lane (if found.offPage members = [] then [] else
          [{ id := found.id, parent := laneId lane, items := found.offPage members,
             decade := label }]) := by
        split
        · exact LaneAggs.nil lane
        · exact LaneAggs.one hid (hmembers.1 ▸ hmembers.2)
      dsimp only [both]
      by_cases hnil : ladder.openItems (some found) lane = []
      · rw [if_neg (not_not.mpr hnil), List.append_nil]
        exact hfixed
      · rw [if_pos hnil]
        have hitems : ∀ item ∈ ladder.openItems (some found) lane,
            item ∈ ladder.masterless lane := by
          intro item hitem
          rw [hopen] at hitem
          exact List.mem_of_mem_filter hitem
        obtain ⟨haggs, hdecades⟩ := open_lane_aggs outcome hitems
        refine hfixed.append haggs fun agg hagg agg' hagg' heq => ?_
        have hlabel : agg.decade = label := by
          split at hagg
          · cases hagg
          · rw [List.mem_singleton.mp hagg]
        rw [hlabel] at heq
        cases label with
        | none =>
            -- the whole lane leaves nothing open
            refine hnil ?_
            rw [hopen, hmembers.1]
            refine List.filter_eq_nil_iff.mpr fun item hitem => ?_
            rw [decide_eq_true_eq, not_not]
            exact hitem
        | some label =>
            rcases hdecades agg' hagg' with hnone | ⟨item, hitem, hdecade⟩
            · rw [hnone] at heq
              cases heq
            · rw [hdecade] at heq
              rw [hopen] at hitem
              obtain ⟨hmem, hfree⟩ := List.mem_filter.mp hitem
              refine of_decide_eq_true hfree ?_
              rw [hmembers.1]
              exact List.mem_filter.mpr ⟨hmem, decide_eq_true (Option.some.inj heq).symm⟩

/-- The aggregate the release plane draws of a master, when it draws one. -/
theorem master_part_ids (hfocus : ladder.FocusSound budget focus) (outcome : Option Strategy)
    (masterId : String) :
    (ladder.masterPart focus outcome masterId).2.map (·.id) = [] ∨
      (ladder.masterPart focus outcome masterId).2.map (·.id) = ["ra:m:" ++ masterId] := by
  unfold masterPart fixedOfMaster
  cases hon : onMaster focus masterId with
  | none =>
      rw [if_pos rfl]
      cases outcome with
      | none => exact Or.inl rfl
      | some strategy =>
          simp only [both, List.nil_append, openMaster, foldMaster]
          split
          · exact Or.inl rfl
          · exact Or.inr rfl
  | some found =>
      obtain ⟨found, members⟩ := found
      obtain ⟨rfl, credit, htarget⟩ := on_master_eq hon
      have hid := (hfocus found rfl).id
      rw [htarget] at hid
      rw [if_neg (Option.some_ne_none _)]
      simp only [both, List.append_nil]
      split
      · exact Or.inl rfl
      · exact Or.inr (congrArg (fun id => [id]) hid)

/-- A label with members is a decade. -/
theorem lane_label_lacks {lane : Credit} {label : String}
    (h : ladder.laneMembers lane (some label) ≠ []) : Lacks ':' label := by
  obtain ⟨item, hitem⟩ := List.exists_mem_of_ne_nil _ h
  rw [← of_decide_eq_true (List.mem_filter.mp hitem).2]
  exact decade_lacks_colon item.year

/-- The cursors of lanes tell the lanes and their labels apart. -/
theorem lane_canonical_inj {lane lane' : Credit} {label label' : Option String}
    (h : PlainCredit lane) (h' : PlainCredit lane')
    (hlabel : ladder.laneMembers lane label ≠ []) (hlabel' : ladder.laneMembers lane' label' ≠ [])
    (heq : (Target.lane lane label []).canonical = (Target.lane lane' label' []).canonical) :
    lane = lane' ∧ label = label' := by
  cases label with
  | none =>
      cases label' with
      | none => exact ⟨credit_id_inj h h' ((String.append_right_inj _).mp heq), rfl⟩
      | some label' =>
          simp only [Target.canonical, String.append_assoc, String.append_right_inj] at heq
          rw [← String.append_assoc] at heq
          exact absurd heq (credit_ne_label h h' (lane_label_lacks hlabel'))
  | some label =>
      cases label' with
      | none =>
          simp only [Target.canonical, String.append_assoc, String.append_right_inj] at heq
          rw [← String.append_assoc] at heq
          exact absurd heq.symm (credit_ne_label h' h (lane_label_lacks hlabel))
      | some label' =>
          simp only [Target.canonical, String.append_assoc, String.append_right_inj] at heq
          rw [← String.append_assoc, ← String.append_assoc] at heq
          obtain ⟨rfl, rfl⟩ := credit_label_inj h h' (lane_label_lacks hlabel)
            (lane_label_lacks hlabel') heq
          exact ⟨rfl, rfl⟩

/-- The aggregates of the release plane have distinct ids. -/
theorem release_agg_ids_nodup (hkeyed : Keyed focus plan) (hlanes : plan.lanes.Nodup)
    (hplain : ∀ lane ∈ plan.lanes, PlainCredit lane)
    (hfocus : ladder.FocusSound budget focus)
    (hreleases : ladder.planReleases budget focus plan = .ok releases) :
    ((ladder.payload budget focus plan releases).releaseAggs.map (·.id)).Nodup := by
  obtain ⟨outcome, -, haggs⟩ := plan_releases_parts hreleases
  have heq : (ladder.payload budget focus plan releases).releaseAggs.map (·.id) =
      releases.2.map (·.id) := by
    simp only [payload, List.map_map]
    rfl
  rw [heq]
  refine (haggs.map _).symm.nodup ?_
  have hmasterId : ∀ masterId, ∀ id ∈ (ladder.masterPart focus outcome masterId).2.map (·.id),
      id = "ra:m:" ++ masterId := by
    intro masterId id hid
    rcases master_part_ids hfocus outcome masterId with hnil | hone
    · rw [hnil] at hid
      cases hid
    · rw [hone] at hid
      exact List.mem_singleton.mp hid
  rw [List.map_append, List.map_flatMap, List.map_flatMap]
  refine List.nodup_append.mpr ⟨List.nodup_flatMap.mpr ⟨?_, ?_⟩,
    List.nodup_flatMap.mpr ⟨?_, ?_⟩, ?_⟩
  · intro masterId _
    rcases master_part_ids hfocus outcome masterId with hnil | hone
    · rw [hnil]
      exact List.nodup_nil
    · rw [hone]
      exact List.nodup_singleton _
  · refine hkeyed.masters.imp fun {masterId other} hne id hid hid' => hne ?_
    exact (String.append_right_inj _).mp ((hmasterId masterId id hid).symm.trans (hmasterId other id hid'))
  · intro lane hlane
    have hpart := lane_part_aggs hfocus outcome lane
    refine List.pairwise_map.mpr ((List.pairwise_map.mp hpart.nodup).imp_of_mem ?_)
    intro agg agg' hagg hagg' hne hid
    rw [hpart.id agg hagg, hpart.id agg' hagg'] at hid
    exact hne (lane_canonical_inj (hplain lane hlane) (hplain lane hlane)
      (hpart.members agg hagg) (hpart.members agg' hagg') hid).2
  · refine hlanes.imp_of_mem fun {lane other} hlane hother hne id hid hid' => hne ?_
    obtain ⟨agg, hagg, rfl⟩ := List.mem_map.mp hid
    obtain ⟨agg', hagg', heq⟩ := List.mem_map.mp hid'
    have hpart := lane_part_aggs hfocus outcome lane
    have hpart' := lane_part_aggs hfocus outcome other
    rw [hpart.id agg hagg, hpart'.id agg' hagg'] at heq
    exact (lane_canonical_inj (hplain other hother) (hplain lane hlane)
      (hpart'.members agg' hagg') (hpart.members agg hagg) heq).1.symm
  · intro id hid id' hid' heq
    obtain ⟨masterId, -, hmem⟩ := List.mem_flatMap.mp hid
    obtain ⟨lane, -, hmem'⟩ := List.mem_flatMap.mp hid'
    obtain ⟨agg, hagg, rfl⟩ := List.mem_map.mp hmem'
    rw [hmasterId masterId id hmem, (lane_part_aggs hfocus outcome lane).id agg hagg] at heq
    cases hlabel : agg.decade with
    | none =>
        rw [hlabel] at heq
        exact starts_ne (by decide) (by decide) _ _ heq
    | some label =>
        rw [hlabel] at heq
        simp only [Target.canonical, String.append_assoc] at heq
        exact starts_ne (by decide) (by decide) _ _ heq

/-- An aggregate of the release plane has the cursor of a drawn master, or of a drawn lane and one
of its labels. -/
theorem release_agg_id (hfocus : ladder.FocusSound budget focus)
    (hreleases : ladder.planReleases budget focus plan = .ok releases) {agg : ReleaseAgg}
    (hagg : agg ∈ releases.2) :
    (∃ masterId ∈ plan.masters, agg.id = "ra:m:" ++ masterId) ∨
      ∃ lane ∈ plan.lanes, ladder.laneMembers lane agg.decade ≠ [] ∧
        agg.id = (Target.lane lane agg.decade []).canonical := by
  obtain ⟨outcome, -, haggs⟩ := plan_releases_parts hreleases
  rcases List.mem_append.mp (haggs.mem_iff.mp hagg) with h | h
  · obtain ⟨masterId, hmaster, hmem⟩ := List.mem_flatMap.mp h
    refine Or.inl ⟨masterId, hmaster, ?_⟩
    have hid : agg.id ∈ (ladder.masterPart focus outcome masterId).2.map (·.id) :=
      List.mem_map_of_mem hmem
    rcases master_part_ids hfocus outcome masterId with hnil | hone
    · rw [hnil] at hid
      cases hid
    · rw [hone] at hid
      exact List.mem_singleton.mp hid
  · obtain ⟨lane, hlane, hmem⟩ := List.mem_flatMap.mp h
    have hpart := lane_part_aggs hfocus outcome lane
    exact Or.inr ⟨lane, hlane, hpart.members agg hmem, hpart.id agg hmem⟩

end Ladder

end CatalogApi.Strata
