import CatalogApi.Strata.FocusPages

/-!
# Counts and undrawn members

An aggregate counts the members of the set its id names that the response does not draw, unless it
is drawn beside the rest of a narrower focus of the same credit (`CoarseBeside`). `counts_iff`
states it for requests.
-/

namespace CatalogApi.Strata

open ByKey Slices Text

/-- How many members of a target a response does not draw as nodes. -/
def Payload.undrawn (payload : Payload) (target : Target) : Nat :=
  (target.memberIds.diff (payload.nodesOf target)).length

/-- The count is that of the undrawn members of the set the id names. -/
def CountsUndrawn (ladder : Ladder) (budget : Budget) (payload : Payload) (id : String)
    (count : Nat) : Prop :=
  ∃ found, ladder.resolveFocus id 0 budget = .ok found ∧ count = payload.undrawn found.target

/-- Every `c:other`, `ma:` and `ra:` aggregate of a response counts the undrawn members of the set
its id names. -/
structure Payload.AllCountUndrawn (ladder : Ladder) (budget : Budget) (payload : Payload) :
    Prop where
  others : ∀ agg ∈ payload.creditAggs, CountsUndrawn ladder budget payload agg.id agg.credits
  buckets : ∀ agg ∈ payload.masterAggs, agg.kind = .masters →
    CountsUndrawn ladder budget payload agg.id agg.masters
  releases : ∀ agg ∈ payload.releaseAggs,
    CountsUndrawn ladder budget payload agg.id agg.counts.releases

/-- A coarse aggregate stands beside the rest of a narrower focus: all other masters of the
focused credit are folded together, or the releases of the focused lane off the focused decade are
folded whole, while the focus has members off its page. -/
def CoarseBeside (ladder : Ladder) (budget : Budget) (focus : Option Focus)
    (plan : MasterPlan) : Prop :=
  (∃ found credit label members, focus = some found ∧
    found.target = .bucket credit label members ∧ found.offPage members ≠ [] ∧
    (credit, all) ∈ plan.buckets.map (·.1)) ∨
  ∃ found lane label members strategy, focus = some found ∧
    found.target = .lane lane (some label) members ∧ found.offPage members ≠ [] ∧
    ladder.outcomeOf budget focus plan = some strategy ∧ strategy.byDecade = false ∧
    ∃ item ∈ ladder.openItems focus lane, ¬(strategy.keepStateful ∧ item.stateful)

namespace Ladder

variable {ladder : Ladder} {budget : Budget} {focus : Option Focus} {plan : MasterPlan}
  {releases : List ReleaseNode × List ReleaseAgg} {payload : Payload}

theorem counts_undrawn_iff (hladder : ladder.WellFormed) (hnamed : ladder.Named)
    {target : Target} (htarget : target.Sound ladder) {id : String} (h : target.NamedBy id)
    (count : Nat) :
    CountsUndrawn ladder budget payload id count ↔ count = payload.undrawn target := by
  have hresolve := resolve_named hladder hnamed htarget h 0 budget
  constructor
  · rintro ⟨found, hfound, hcount⟩
    rw [hresolve] at hfound
    rw [← Except.ok.inj hfound] at hcount
    exact hcount
  · exact fun hcount => ⟨_, hresolve, hcount⟩

/-! ## Credits -/

/-- The credits not drawn are the folded ones. -/
theorem undrawn_others (hladder : ladder.WellFormed) (hnamed : ladder.Named)
    (hsplit : (plan.shownCredits ++ plan.foldedCredits).Perm ladder.creditOrder)
    (hroot : ladder.root ∈ plan.shownCredits) :
    (ladder.payload budget focus plan releases).undrawn (.others (ladder.creditOrder.drop 1)) =
      plan.foldedCredits.length := by
  have hnodup := hladder.order_nodup
  rw [hladder.order_root, List.nodup_cons] at hnodup
  -- the drawn credits are the root and the drawn ones of the others
  have hshown : plan.shownCredits.Perm (ladder.root :: plan.shownCredits.erase ladder.root) :=
    List.perm_cons_erase hroot
  have hothers : (ladder.creditOrder.drop 1).Perm
      (plan.shownCredits.erase ladder.root ++ plan.foldedCredits) := by
    have hcons : (ladder.root :: ladder.creditOrder.drop 1).Perm
        (ladder.root :: (plan.shownCredits.erase ladder.root ++ plan.foldedCredits)) := by
      rw [← hladder.order_root]
      exact hsplit.symm.trans (hshown.append_right _)
    exact hcons.cons_inv
  have hplain := hnamed.credits
  have hnodes : (plan.shownCredits.map creditId).Perm
      ((plan.shownCredits.erase ladder.root).map creditId ++ [creditId ladder.root]) :=
    ((hshown.map creditId).trans (List.perm_append_singleton _ _).symm)
  rw [Payload.undrawn, nodes_of_others, Target.memberIds]
  rw [length_diff_of_perm ((hothers.map creditId).trans (List.Perm.of_eq List.map_append)) hnodes,
    List.length_map]
  intro id hid hmem
  rw [List.mem_singleton.mp hid] at hmem
  obtain ⟨credit, hcredit, heq⟩ := List.mem_map.mp hmem
  have hsame := credit_id_inj (hplain credit (List.mem_of_mem_drop hcredit))
    (hplain _ (root_ordered hladder)) heq
  exact hnodup.1 (hsame ▸ hcredit)

/-! ## Masters -/

/-- The undrawn members of a bucket are those that are no drawn masters. -/
theorem undrawn_bucket (hladder : ladder.WellFormed) (credit : Credit) (label : String) :
    (ladder.payload budget focus plan releases).undrawn
        (.bucket credit label (ladder.bucketMembers credit label)) =
      ((ladder.bucketMembers credit label).filter fun m => m ∉ plan.masters).length := by
  have hinj : Function.Injective masterNodeId := fun _ _ => master_node_id_inj
  have hmembers : (ladder.bucketMembers credit label).Nodup :=
    (hladder.masters_nodup credit).filter _
  rw [Payload.undrawn, ((List.Perm.refl _).diff (nodes_of_bucket credit label _)).length_eq,
    Target.memberIds, ← List.map_diff hinj, List.length_map, hmembers.sdiff_eq_filter]

/-- The members of a bucket key are the masters the mode puts in it. -/
theorem mem_bucket_members (hladder : ladder.WellFormed) {mode : FoldMode} {first masterId : String}
    (hmaster : masterId ∈ ladder.masterIds) :
    masterId ∈ ladder.bucketMembers (ladder.bucket mode first).1 (ladder.bucket mode first).2 ↔
      ladder.bucket mode masterId = ladder.bucket mode first := by
  constructor
  · intro hmem
    obtain ⟨hunder, hlabel⟩ := List.mem_filter.mp hmem
    refine Prod.ext (hladder.mem_masters.mp hunder).2 ?_
    cases mode with
    | decade =>
        rcases of_decide_eq_true hlabel with hall | hdecade
        · exact absurd hall (decade_ne_all _)
        · exact hdecade
    | all => rfl
  · exact fun hkey => bucket_member hladder hmaster hkey

section Buckets

variable (hladder : ladder.WellFormed) (hfocus : ladder.FocusSound budget focus)
  {level : List Credit × List Credit} (hlevel : ladder.LevelSound budget focus level)
  {mode : FoldMode} {keep : Nat}
include hladder hfocus hlevel

/-- The undrawn members of a plan's bucket are its own and those of the remainder. -/
theorem undrawn_plan_bucket {bucket : (Credit × String) × List String}
    (hbucket : bucket ∈ (ladder.planOf focus level.1 level.2 mode keep).buckets) :
    (ladder.payload budget focus (ladder.planOf focus level.1 level.2 mode keep)
        releases).undrawn
        (.bucket bucket.1.1 bucket.1.2 (ladder.bucketMembers bucket.1.1 bucket.1.2)) =
      bucket.2.length + ((pinnedMasters focus).2.filter fun m =>
        m ∈ ladder.bucketMembers bucket.1.1 bucket.1.2).length := by
  have hperm := plan_masters_perm hladder hfocus hlevel mode keep
  have hnodup := hperm.symm.nodup
    (masters_of_credits_nodup hladder (level_shown_nodup hladder hlevel))
  have hfolded : ∀ {m : String}, m ∈ (ladder.planOf focus level.1 level.2 mode keep).buckets.flatMap
      (·.2) ↔ m ∈ (ladder.candidates focus level.1).drop keep :=
    (bucketed_perm _ _).mem_iff
  obtain ⟨hdrawn, hremainder, hapart⟩ := List.nodup_append.mp hnodup
  obtain ⟨-, -, happart⟩ := List.nodup_append.mp hdrawn
  have hown := (List.nodup_flatMap.mp (List.nodup_append.mp hdrawn).2.1).1 bucket hbucket
  obtain ⟨key, hkey, rfl⟩ := List.mem_map.mp hbucket
  obtain ⟨first, hfirst, rfl⟩ := List.mem_map.mp (List.mem_eraseDups.mp hkey)
  obtain ⟨credit, hshown, hfoldable⟩ := mem_candidates.mp (List.mem_of_mem_drop hfirst)
  have hcredit := (hladder.mem_masters.mp (List.mem_of_mem_filter hfoldable)).2
  dsimp only at hown ⊢
  rw [undrawn_bucket hladder, ← List.length_append]
  refine List.Perm.length_eq ((List.perm_ext_iff_of_nodup
    (((hladder.masters_nodup _).filter _).filter _) ?_).mpr fun m => ?_)
  · refine List.nodup_append.mpr ⟨hown, hremainder.filter _, ?_⟩
    intro m hm other hother
    refine hapart m (List.mem_append_right _ ?_) other (List.mem_of_mem_filter hother)
    exact hfolded.mpr (List.mem_of_mem_filter hm)
  · rw [List.mem_append]
    constructor
    · intro h
      obtain ⟨hmem, hundrawn⟩ := List.mem_filter.mp h
      have hunder := hladder.mem_masters.mp (List.mem_of_mem_filter hmem)
      have hall := hperm.mem_iff.mpr (List.mem_flatMap.mpr ⟨credit, hshown,
        hladder.mem_masters.mpr ⟨hunder.1, hunder.2.trans hcredit⟩⟩)
      rcases List.mem_append.mp hall with h | h
      · rcases List.mem_append.mp h with h | h
        · exact absurd h (of_decide_eq_true hundrawn)
        · exact Or.inl (List.mem_filter.mpr ⟨hfolded.mp h,
            decide_eq_true ((mem_bucket_members hladder hunder.1).mp hmem)⟩)
      · exact Or.inr (List.mem_filter.mpr ⟨h, decide_eq_true hmem⟩)
    · rintro (h | h)
      · obtain ⟨hmem, hsame⟩ := List.mem_filter.mp h
        obtain ⟨_, -, hother⟩ := mem_candidates.mp (List.mem_of_mem_drop hmem)
        have hmaster := (hladder.mem_masters.mp (List.mem_of_mem_filter hother)).1
        refine List.mem_filter.mpr ⟨bucket_member hladder hmaster (of_decide_eq_true hsame),
          decide_eq_true fun hmasters => ?_⟩
        exact happart m hmasters m (hfolded.mpr hmem) rfl
      · obtain ⟨hrest, hmem⟩ := List.mem_filter.mp h
        refine List.mem_filter.mpr ⟨of_decide_eq_true hmem, decide_eq_true fun hmasters => ?_⟩
        exact hapart m (List.mem_append_left _ hmasters) m hrest rfl

/-- The remainder holds members of a plan's bucket just when a coarse bucket stands beside it. -/
theorem remainder_in_bucket {bucket : (Credit × String) × List String}
    (hbucket : bucket ∈ (ladder.planOf focus level.1 level.2 mode keep).buckets) :
    ((pinnedMasters focus).2.filter fun m =>
        m ∈ ladder.bucketMembers bucket.1.1 bucket.1.2) ≠ [] ↔
      ∃ found credit label members, focus = some found ∧
        found.target = .bucket credit label members ∧ found.offPage members ≠ [] ∧
        bucket.1 = (credit, all) := by
  obtain ⟨key, hkey, heq⟩ := List.mem_map.mp hbucket
  obtain ⟨first, hfirst, rfl⟩ := List.mem_map.mp (List.mem_eraseDups.mp hkey)
  have hkeyEq : bucket.1 = ladder.bucket mode first := by rw [← heq]
  constructor
  · intro hne
    obtain ⟨m, hm⟩ := List.exists_mem_of_ne_nil _ hne
    obtain ⟨hoff, hmem⟩ := List.mem_filter.mp hm
    rw [decide_eq_true_eq] at hmem
    unfold pinnedMasters at hoff
    split at hoff
    · cases hoff
    · rename_i found
      split at hoff
      · rename_i credit label members htarget
        have hsound := (hfocus found rfl).target
        rw [htarget] at hsound
        have hmember : m ∈ ladder.bucketMembers credit label := by
          rw [← hsound.1]
          exact (slice_append_leftover members found.page found.pageSize).mem_iff.mp
            (List.mem_append_right _ hoff)
        refine ⟨found, credit, label, members, rfl, htarget, List.ne_nil_of_mem hoff, ?_⟩
        obtain ⟨hunder, hlabel⟩ := List.mem_filter.mp hmember
        obtain ⟨hunder', hlabel'⟩ := List.mem_filter.mp hmem
        have hcredit : bucket.1.1 = credit :=
          (hladder.mem_masters.mp hunder').2.symm.trans (hladder.mem_masters.mp hunder).2
        cases mode with
        | all => rw [hkeyEq] at hcredit ⊢; exact Prod.ext hcredit rfl
        | decade =>
            -- a decade beside the focus is another decade of the credit
            rw [hkeyEq] at hcredit hlabel'
            exfalso
            rcases of_decide_eq_true hlabel' with hdecade | hdecade
            · exact decade_ne_all _ hdecade
            · obtain ⟨_, -, hfoldable⟩ := mem_candidates.mp (List.mem_of_mem_drop hfirst)
              obtain ⟨hfirstUnder, hfree⟩ := List.mem_filter.mp hfoldable
              have hmaster := (hladder.mem_masters.mp hfirstUnder).1
              refine of_decide_eq_true hfree ?_
              rw [pinnedMasters, htarget]
              refine (slice_append_leftover members found.page found.pageSize).mem_iff.mpr ?_
              rw [hsound.1]
              refine List.mem_filter.mpr ⟨hladder.mem_masters.mpr ⟨hmaster, hcredit⟩,
                decide_eq_true ?_⟩
              rcases of_decide_eq_true hlabel with hwhole | hlabel
              · exact Or.inl hwhole
              · exact Or.inr (hdecade.symm.trans hlabel)
      · cases hoff
      · cases hoff
  · rintro ⟨found, credit, label, members, rfl, htarget, hoff, hall⟩
    obtain ⟨m, hm⟩ := List.exists_mem_of_ne_nil _ hoff
    have hsound := (hfocus found rfl).target
    rw [htarget] at hsound
    have hmember : m ∈ ladder.bucketMembers credit label := by
      rw [← hsound.1]
      exact (slice_append_leftover members found.page found.pageSize).mem_iff.mp
        (List.mem_append_right _ hm)
    have hpinned : (pinnedMasters (some found)).2 = found.offPage members := by
      rw [pinnedMasters, htarget]
    rw [hpinned, hall]
    refine List.ne_nil_of_mem (List.mem_filter.mpr ⟨hm, decide_eq_true ?_⟩)
    exact List.mem_filter.mpr ⟨List.mem_of_mem_filter hmember, decide_eq_true (Or.inl rfl)⟩

/-- The undrawn members of a focused bucket are the remainder. -/
theorem undrawn_remainder {found : Focus} (hfound : focus = some found) {credit : Credit}
    {label : String} {members : List String} (htarget : found.target = .bucket credit label members) :
    (ladder.payload budget focus (ladder.planOf focus level.1 level.2 mode keep)
        releases).undrawn found.target = (pinnedMasters focus).2.length := by
  have hnodup := (plan_masters_perm hladder hfocus hlevel mode keep).symm.nodup
    (masters_of_credits_nodup hladder (level_shown_nodup hladder hlevel))
  obtain ⟨-, hremainder, hapart⟩ := List.nodup_append.mp hnodup
  have hsound := (hfocus found hfound).target
  rw [htarget] at hsound ⊢
  have hpinned : pinnedMasters focus = (found.onPage members, found.offPage members) := by
    rw [hfound, pinnedMasters, htarget]
  have hwhole := slice_append_leftover members found.page found.pageSize
  rw [hsound.1, undrawn_bucket hladder]
  refine List.Perm.length_eq ((List.perm_ext_iff_of_nodup
    (((hladder.masters_nodup _).filter _).filter _) hremainder).mpr fun m => ?_)
  constructor
  · intro h
    obtain ⟨hmem, hundrawn⟩ := List.mem_filter.mp h
    rw [← bucketMembers, ← hsound.1] at hmem
    rcases List.mem_append.mp (hwhole.mem_iff.mpr hmem) with hon | hoff
    · refine absurd (List.mem_append_left _ ?_) (of_decide_eq_true hundrawn)
      rw [hpinned]
      exact hon
    · show m ∈ (pinnedMasters focus).2
      rw [hpinned]
      exact hoff
  · intro h
    have hoff : m ∈ found.offPage members := by
      have hmem : m ∈ (pinnedMasters focus).2 := h
      rw [hpinned] at hmem
      exact hmem
    have hmember := hwhole.mem_iff.mp (List.mem_append_right _ hoff)
    rw [hsound.1] at hmember
    exact List.mem_filter.mpr ⟨hmember, decide_eq_true fun hmasters =>
      hapart m (List.mem_append_left _ hmasters) m h rfl⟩

end Buckets

/-! ## Releases -/

/-- The undrawn pressings of a drawn master are the items of its aggregate. -/
theorem undrawn_pressings (hfocus : ladder.FocusSound budget focus)
    (hmasters : plan.masters.Nodup) (hlanes : plan.lanes.Nodup)
    (hplain : ∀ lane ∈ plan.lanes, PlainCredit lane)
    (hreleases : ladder.planReleases budget focus plan = .ok releases) {masterId : String}
    (hmaster : masterId ∈ plan.masters) {agg : ReleaseAgg}
    (hagg : agg ∈ (ladder.masterPart focus (ladder.outcomeOf budget focus plan) masterId).2)
    (credit : Credit) :
    (ladder.payload budget focus plan releases).undrawn
        (.pressings credit masterId (ladder.itemsByMaster masterId)) = agg.items.length := by
  have hholds := (master_part_holds hfocus (ladder.outcomeOf budget focus plan) masterId).perm
  have hone : (ladder.masterPart focus (ladder.outcomeOf budget focus plan) masterId).2 =
      [agg] := by
    obtain ⟨rest, hsplit⟩ : ∃ other,
        (ladder.masterPart focus (ladder.outcomeOf budget focus plan) masterId).2 = [other] := by
      rcases master_part_ids hfocus (ladder.outcomeOf budget focus plan) masterId with hnil | hone
      · rw [List.map_eq_nil_iff.mp hnil] at hagg
        cases hagg
      · obtain ⟨other, hother, -⟩ := List.map_eq_singleton_iff.mp hone
        exact ⟨other, hother⟩
    rw [hsplit, List.mem_singleton] at hagg
    rw [hsplit, hagg]
  rw [hone, List.flatMap_singleton] at hholds
  have hnodes := nodes_of_pressings hfocus hmasters hlanes hplain hreleases hmaster credit
    (ladder.itemsByMaster masterId)
  rw [← List.append_nil (List.map _ _)] at hnodes
  have hmembers := (hholds.symm.map (·.nodeId)).trans (List.Perm.of_eq List.map_append)
  rw [List.map_map] at hmembers
  rw [Payload.undrawn, Target.memberIds,
    length_diff_of_perm hmembers hnodes fun _ h => absurd h List.not_mem_nil, List.length_map]

/-- The item is in the decade of the label, when there is one. -/
def inDecade (label : Option String) (item : Item) : Bool :=
  label.elim true fun label => decade item.year = label

theorem lane_members_filter (lane : Credit) (label : Option String) :
    ladder.laneMembers lane label = (ladder.masterless lane).filter (inDecade label) := by
  cases label with
  | none => exact (List.filter_eq_self.mpr fun _ _ => rfl).symm
  | some label => rfl

/-- The undrawn releases of a drawn lane's cursor are the folded ones of its decade. -/
theorem undrawn_lane (hids : ladder.LaneIds) (hfocus : ladder.FocusSound budget focus)
    (hmasters : plan.masters.Nodup) (hlanes : plan.lanes.Nodup)
    (hplain : ∀ lane ∈ plan.lanes, PlainCredit lane)
    (hreleases : ladder.planReleases budget focus plan = .ok releases) {lane : Credit}
    (hlane : lane ∈ plan.lanes) (label : Option String) :
    (ladder.payload budget focus plan releases).undrawn
        (.lane lane label (ladder.laneMembers lane label)) =
      (((ladder.lanePart focus (ladder.outcomeOf budget focus plan) lane).2.flatMap
        (·.items)).filter (inDecade label)).length := by
  have hholds := (lane_part_holds hfocus (ladder.outcomeOf budget focus plan) lane).perm
  have hnodes := nodes_of_lane hfocus hmasters hlanes hplain hreleases hlane label
    (ladder.laneMembers lane label)
  rw [lane_members_filter] at hnodes ⊢
  generalize ladder.lanePart focus (ladder.outcomeOf budget focus plan) lane = part at *
  -- the drawn items of the lane are those of the decade and those of the others
  have hsplit := (List.filter_append_perm (inDecade label) (part.1.map (·.1))).map (·.nodeId)
  rw [List.map_map] at hsplit
  have hmembers := ((hholds.filter (inDecade label)).symm.map (·.nodeId)).trans
    (List.Perm.of_eq (by rw [List.filter_append, List.map_append]))
  rw [Payload.undrawn, Target.memberIds,
    length_diff_of_perm hmembers (hnodes.trans (hsplit.symm.trans
      (List.Perm.of_eq List.map_append))), List.length_map]
  intro id hid hmem
  obtain ⟨item, hitem, rfl⟩ := List.mem_map.mp hid
  obtain ⟨member, hmember, heq⟩ := List.mem_map.mp hmem
  obtain ⟨hdrawn, hother⟩ := List.mem_filter.mp hitem
  obtain ⟨hunder, hdecade⟩ := List.mem_filter.mp hmember
  have hsame := hids lane member hunder item
    (hholds.mem_iff.mp (List.mem_append_left _ hdrawn)) heq
  rw [← hsame, hdecade] at hother
  cases hother

/-- An aggregate of the open releases of a lane holds all folded ones of its decade. -/
theorem open_lane_decade (outcome : Option Strategy) (lane : Credit) (items : List Item)
    {agg : ReleaseAgg} (hagg : agg ∈ (openLane outcome lane items).2) :
    (((openLane outcome lane items).2.flatMap (·.items)).filter (inDecade agg.decade)).Perm
      agg.items ∧ ∀ item ∈ agg.items, item ∈ items ∧ inDecade agg.decade item := by
  cases outcome with
  | none => cases hagg
  | some strategy =>
      simp only [openLane, foldLane] at hagg ⊢
      by_cases hnil : (items.filter fun item => ¬(strategy.keepStateful ∧ item.stateful)) = []
      · rw [if_pos hnil] at hagg
        cases hagg
      · rw [if_neg hnil] at hagg ⊢
        by_cases hdecade : strategy.byDecade
        · rw [if_pos hdecade] at hagg ⊢
          obtain ⟨label, hlabel, rfl⟩ := List.mem_map.mp hagg
          dsimp only
          refine ⟨?_, fun item hitem => ?_⟩
          · rw [List.flatMap_map]
            exact (flat_map_filter_perm (fun item : Item => decade item.year) (nodup_erase_dups _) _
              fun item h => List.mem_eraseDups.mpr (List.mem_map.mpr ⟨item, h, rfl⟩)).filter _
          · obtain ⟨hmem, hsame⟩ := List.mem_filter.mp hitem
            exact ⟨List.mem_of_mem_filter hmem, hsame⟩
        · rw [if_neg hdecade] at hagg ⊢
          obtain rfl := List.mem_singleton.mp hagg
          refine ⟨?_, fun item hitem => ⟨List.mem_of_mem_filter hitem, rfl⟩⟩
          rw [List.flatMap_singleton]
          exact List.Perm.of_eq (List.filter_eq_self.mpr fun _ _ => rfl)

/-- A lane that is folded whole has one aggregate, of every decade. -/
theorem open_lane_whole (outcome : Option Strategy) (lane : Credit) (items : List Item) :
    (∃ agg ∈ (openLane outcome lane items).2, agg.decade = none) ↔
      ∃ strategy, outcome = some strategy ∧ strategy.byDecade = false ∧
        ∃ item ∈ items, ¬(strategy.keepStateful ∧ item.stateful) := by
  cases outcome with
  | none => simp [openLane]
  | some strategy =>
      simp only [openLane, foldLane]
      by_cases hnil : (items.filter fun item => ¬(strategy.keepStateful ∧ item.stateful)) = []
      · rw [if_pos hnil]
        constructor
        · rintro ⟨agg, hagg, -⟩
          cases hagg
        · rintro ⟨other, hsome, -, item, hitem, hrest⟩
          obtain rfl := Option.some.inj hsome
          exact absurd (decide_eq_true hrest) (List.filter_eq_nil_iff.mp hnil item hitem)
      · rw [if_neg hnil]
        obtain ⟨item, hitem⟩ := List.exists_mem_of_ne_nil _ hnil
        obtain ⟨hmem, hrest⟩ := List.mem_filter.mp hitem
        by_cases hdecade : strategy.byDecade
        · rw [if_pos hdecade]
          constructor
          · rintro ⟨agg, hagg, hnone⟩
            obtain ⟨label, -, rfl⟩ := List.mem_map.mp hagg
            cases hnone
          · rintro ⟨other, hsome, hwhole, -⟩
            obtain rfl := Option.some.inj hsome
            rw [hwhole] at hdecade
            cases hdecade
        · rw [if_neg hdecade]
          rw [Bool.not_eq_true] at hdecade
          constructor
          · exact fun _ => ⟨strategy, rfl, hdecade, item, hmem, of_decide_eq_true hrest⟩
          · exact fun _ => ⟨_, List.mem_singleton.mpr rfl, rfl⟩

theorem lane_part_aggs_eq (focus : Option Focus) (outcome : Option Strategy) (lane : Credit) :
    (ladder.lanePart focus outcome lane).2 =
      (fixedOfLane focus lane).2 ++ (openLane outcome lane (ladder.openItems focus lane)).2 := by
  unfold lanePart
  by_cases hopen : ladder.openItems focus lane = []
  · rw [if_neg (not_not.mpr hopen), hopen]
    cases outcome with
    | none => rfl
    | some strategy => rfl
  · rw [if_pos hopen]
    rfl

/-- The rest of a decade of the lane that is drawn beside its other releases. -/
def restBeside (focus : Option Focus) (lane : Credit) : List Item :=
  match onLane focus lane with
  | some (found, some _, members) => found.offPage members
  | _ => []

/-- The folded releases of the decade of an aggregate of a lane: its own, and the rest of a
narrower focus beside an aggregate of the whole lane. -/
theorem lane_part_decade (hfocus : ladder.FocusSound budget focus) (outcome : Option Strategy)
    (lane : Credit) {agg : ReleaseAgg} (hagg : agg ∈ (ladder.lanePart focus outcome lane).2) :
    (((ladder.lanePart focus outcome lane).2.flatMap (·.items)).filter
        (inDecade agg.decade)).length =
      agg.items.length + if agg.decade = none then (restBeside focus lane).length else 0 := by
  have hlabels := (lane_part_aggs hfocus outcome lane).nodup
  rw [lane_part_aggs_eq] at hagg hlabels ⊢
  rw [List.flatMap_append, List.filter_append, List.length_append]
  cases hon : onLane focus lane with
  | none =>
      have hrest : restBeside focus lane = [] := by rw [restBeside, hon]
      have hfixed : fixedOfLane focus lane = ([], []) := by rw [fixedOfLane, hon]
      rw [hfixed, List.nil_append] at hagg
      rw [hfixed, hrest, (open_lane_decade outcome lane _ hagg).1.length_eq]
      simp
  | some found =>
      obtain ⟨found, label, members⟩ := found
      obtain ⟨rfl, htarget⟩ := on_lane_eq hon
      have hmembers := (hfocus found rfl).target
      rw [htarget] at hmembers
      replace hmembers := hmembers.1.trans (lane_members_filter lane label)
      have hfixed : (fixedOfLane (some found) lane).2 = if found.offPage members = [] then [] else
          [{ id := found.id, parent := laneId lane, items := found.offPage members,
             decade := label }] := by
        rw [fixedOfLane, hon]
      have hopen : ladder.openItems (some found) lane =
          (ladder.masterless lane).filter fun item => item ∉ members := by
        rw [openItems, hon]
      -- the focused page owns its decade: the other decades of the lane hold none of it
      have hoff : ∀ item ∈ found.offPage members, inDecade label item := by
        intro item hitem
        have hmem := (slice_append_leftover members found.page found.pageSize).mem_iff.mp
          (List.mem_append_right _ hitem)
        rw [hmembers] at hmem
        exact (List.mem_filter.mp hmem).2
      have hout : ∀ item ∈ ladder.openItems (some found) lane, ¬inDecade label item := by
        intro item hitem hdecade
        rw [hopen] at hitem
        obtain ⟨hmem, hfree⟩ := List.mem_filter.mp hitem
        refine of_decide_eq_true hfree ?_
        rw [hmembers]
        exact List.mem_filter.mpr ⟨hmem, hdecade⟩
      rcases List.mem_append.mp hagg with h | h
      · -- the rest of the focus: nothing open is in its decade
        rw [hfixed] at h ⊢
        split at h
        · cases h
        · rename_i hne
          rw [if_neg hne, List.mem_singleton.mp h, List.flatMap_singleton,
            List.filter_eq_self.mpr hoff, List.filter_eq_nil_iff.mpr]
          · dsimp only
            cases label with
            | none =>
                have hrest : restBeside (some found) lane = [] := by rw [restBeside, hon]
                rw [if_pos rfl, hrest]
            | some label => rfl
          · intro item hitem
            obtain ⟨other, hother, hmem⟩ := List.mem_flatMap.mp hitem
            exact hout item ((open_lane_decade outcome lane _ hother).2 item hmem).1
      · rw [(open_lane_decade outcome lane _ h).1.length_eq, Nat.add_comm]
        congr 1
        by_cases hnil : found.offPage members = []
        · have hrest : restBeside (some found) lane = [] := by
            rw [restBeside, hon]
            cases label with
            | none => rfl
            | some label => exact hnil
          rw [hfixed, if_pos hnil, hrest]
          simp
        · rw [hfixed, if_neg hnil] at hlabels ⊢
          rw [List.flatMap_singleton]
          cases label with
          | none =>
              -- the whole lane leaves nothing open
              exfalso
              have hempty : ladder.openItems (some found) lane = [] :=
                List.eq_nil_iff_forall_not_mem.mpr fun item hitem => hout item hitem rfl
              rw [hempty] at h
              cases outcome with
              | none => cases h
              | some strategy => cases h
          | some label =>
              have hrest : restBeside (some found) lane = found.offPage members := by
                rw [restBeside, hon]
              cases hdecade : agg.decade with
              | none =>
                  rw [if_pos rfl, hrest]
                  exact congrArg List.length (List.filter_eq_self.mpr fun _ _ => rfl)
              | some other =>
                  rw [if_neg (Option.some_ne_none _), List.length_eq_zero_iff,
                    List.filter_eq_nil_iff]
                  intro item hitem hother
                  have hsame : some label = agg.decade := by
                    rw [hdecade, ← of_decide_eq_true (hoff item hitem),
                      ← of_decide_eq_true hother]
                  rw [List.map_append, List.map_singleton, List.singleton_append,
                    List.nodup_cons] at hlabels
                  exact hlabels.1 (List.mem_map.mpr ⟨agg, h, hsame.symm⟩)

/-! ## Responses -/

/-- The lane of a focus is drawn. -/
theorem focused_lane_drawn (hfocus : ladder.FocusSound budget focus)
    {level : List Credit × List Credit} (hlevel : ladder.LevelSound budget focus level)
    {mode : FoldMode} {keep : Nat} {found : Focus} (hfound : focus = some found) {lane : Credit}
    {label : Option String} {members : List Item}
    (htarget : found.target = .lane lane label members) :
    lane ∈ (ladder.planOf focus level.1 level.2 mode keep).lanes := by
  subst hfound
  have hsound := (hfocus found rfl).target
  rw [htarget] at hsound
  obtain ⟨item, hitem⟩ := List.exists_mem_of_ne_nil _ hsound.2
  rw [hsound.1, lane_members_filter] at hitem
  have hcredit : found.target.credit = some lane := by
    rw [htarget]
    rfl
  refine List.mem_filter.mpr ⟨hlevel.base lane ?_,
    decide_eq_true (List.ne_nil_of_mem (List.mem_of_mem_filter hitem))⟩
  rw [base_credits_focused hcredit, focusedCredits]
  split
  · rename_i hroot
    exact List.mem_singleton.mpr hroot
  · exact List.mem_cons_of_mem _ (List.mem_singleton.mpr rfl)

section Counts

variable (hladder : ladder.WellFormed) (hnamed : ladder.Named) (hids : ladder.LaneIds)
  (hfocus : ladder.FocusSound budget focus) {level : List Credit × List Credit}
  (hlevel : ladder.LevelSound budget focus level) {mode : FoldMode} {keep : Nat}
include hladder hnamed hfocus hlevel

theorem count_others {agg : OtherCredits}
    (hagg : agg ∈ (ladder.payload budget focus (ladder.planOf focus level.1 level.2 mode keep)
      releases).creditAggs) :
    CountsUndrawn ladder budget
      (ladder.payload budget focus (ladder.planOf focus level.1 level.2 mode keep) releases)
      agg.id agg.credits := by
  have hdrafted := plan_drafted hladder hfocus hlevel mode keep
  simp only [payload] at hagg
  by_cases hnil : (ladder.planOf focus level.1 level.2 mode keep).foldedCredits = []
  · rw [if_pos hnil] at hagg
    cases hagg
  · rw [if_neg hnil] at hagg
    rw [List.mem_singleton.mp hagg]
    obtain ⟨credit, hcredit⟩ := List.exists_mem_of_ne_nil _ hnil
    have hsound : (Target.others (ladder.creditOrder.drop 1)).Sound ladder :=
      ⟨rfl, List.ne_nil_of_mem (hdrafted.folded credit hcredit)⟩
    exact (counts_undrawn_iff hladder hnamed hsound (Or.inl rfl) _).mpr
      (undrawn_others hladder hnamed hlevel.split
        (hlevel.base _ (base_credits_ordered hladder hfocus).2.2.2)).symm

/-- A bucket of the plan counts its undrawn members unless a narrower focus of its credit has a
remainder beside it. -/
theorem count_bucket {bucket : (Credit × String) × List String}
    (hbucket : bucket ∈ (ladder.planOf focus level.1 level.2 mode keep).buckets) :
    CountsUndrawn ladder budget
      (ladder.payload budget focus (ladder.planOf focus level.1 level.2 mode keep) releases)
      (ladder.bucketAgg bucket.1.1 bucket.1.2 bucket.2).id bucket.2.length ↔
    ¬∃ found credit label members, focus = some found ∧
      found.target = .bucket credit label members ∧ found.offPage members ≠ [] ∧
      bucket.1 = (credit, all) := by
  obtain ⟨masterId, -, hmem⟩ := (plan_drafted hladder hfocus hlevel mode keep).buckets bucket
    hbucket
  have hsound : (Target.bucket bucket.1.1 bucket.1.2
      (ladder.bucketMembers bucket.1.1 bucket.1.2)).Sound ladder :=
    ⟨rfl, List.ne_nil_of_mem hmem⟩
  refine (counts_undrawn_iff hladder hnamed hsound (Or.inl rfl) _).trans ?_
  rw [undrawn_plan_bucket hladder hfocus hlevel hbucket,
    ← remainder_in_bucket hladder hfocus hlevel hbucket, not_not, ← List.length_eq_zero_iff]
  omega

theorem count_remainder {found : Focus} (hfound : focus = some found) {credit : Credit}
    {label : String} {members : List String}
    (htarget : found.target = .bucket credit label members) :
    CountsUndrawn ladder budget
      (ladder.payload budget focus (ladder.planOf focus level.1 level.2 mode keep) releases)
      (ladder.bucketAgg credit label (pinnedMasters focus).2).id
      (pinnedMasters focus).2.length := by
  have hsound := (hfocus found hfound).target
  refine (counts_undrawn_iff hladder hnamed hsound (Or.inl ?_) _).mpr
    (undrawn_remainder hladder hfocus hlevel hfound htarget).symm
  rw [htarget]
  rfl

variable (hreleases : ladder.planReleases budget focus
  (ladder.planOf focus level.1 level.2 mode keep) = .ok releases)
include hreleases

theorem count_pressings {masterId : String}
    (hmaster : masterId ∈ (ladder.planOf focus level.1 level.2 mode keep).masters)
    {agg : ReleaseAgg} (hagg : agg ∈ (ladder.masterPart focus (ladder.outcomeOf budget focus
      (ladder.planOf focus level.1 level.2 mode keep)) masterId).2) :
    CountsUndrawn ladder budget
      (ladder.payload budget focus (ladder.planOf focus level.1 level.2 mode keep) releases)
      agg.id agg.items.length := by
  have hkeyed := plan_keyed hladder hfocus hlevel mode keep
  have hdrawn := plan_drawn hladder hnamed hfocus hlevel mode keep
  have hdrafted := plan_drafted hladder hfocus hlevel mode keep
  have hid : agg.id ∈ (ladder.masterPart focus (ladder.outcomeOf budget focus
      (ladder.planOf focus level.1 level.2 mode keep)) masterId).2.map (·.id) :=
    List.mem_map_of_mem hagg
  rcases master_part_ids hfocus _ masterId with hnil | hone
  · rw [hnil] at hid
    cases hid
  · rw [hone, List.mem_singleton] at hid
    have hsound : (Target.pressings (ladder.masterCredit masterId) masterId
        (ladder.itemsByMaster masterId)).Sound ladder :=
      ⟨hdrafted.masters masterId hmaster, rfl, rfl⟩
    refine (counts_undrawn_iff hladder hnamed hsound (Or.inl hid) _).mpr ?_
    exact (undrawn_pressings hfocus hkeyed.masters (hdrawn.nodup.filter _)
      (fun lane hlane => hdrawn.plain lane (List.mem_of_mem_filter hlane)) hreleases hmaster hagg
      _).symm

include hids

/-- An aggregate of a lane counts its undrawn members unless it is of the whole lane and stands
beside the rest of a decade. -/
theorem count_lane {lane : Credit}
    (hlane : lane ∈ (ladder.planOf focus level.1 level.2 mode keep).lanes)
    {agg : ReleaseAgg} (hagg : agg ∈ (ladder.lanePart focus (ladder.outcomeOf budget focus
      (ladder.planOf focus level.1 level.2 mode keep)) lane).2) :
    CountsUndrawn ladder budget
      (ladder.payload budget focus (ladder.planOf focus level.1 level.2 mode keep) releases)
      agg.id agg.items.length ↔ ¬(agg.decade = none ∧ restBeside focus lane ≠ []) := by
  have hkeyed := plan_keyed hladder hfocus hlevel mode keep
  have hdrawn := plan_drawn hladder hnamed hfocus hlevel mode keep
  have hpart := lane_part_aggs hfocus (ladder.outcomeOf budget focus
    (ladder.planOf focus level.1 level.2 mode keep)) lane
  have hname : (Target.lane lane agg.decade (ladder.laneMembers lane agg.decade)).NamedBy
      agg.id := by
    refine Or.inl ((hpart.id agg hagg).trans ?_)
    cases agg.decade with
    | none => rfl
    | some label => rfl
  have hsound : (Target.lane lane agg.decade (ladder.laneMembers lane agg.decade)).Sound ladder :=
    ⟨rfl, hpart.members agg hagg⟩
  rw [counts_undrawn_iff hladder hnamed hsound hname,
    undrawn_lane hids hfocus hkeyed.masters (hdrawn.nodup.filter _)
      (fun lane hlane => hdrawn.plain lane (List.mem_of_mem_filter hlane)) hreleases hlane,
    lane_part_decade hfocus _ lane hagg]
  by_cases hdecade : agg.decade = none
  · rw [if_pos hdecade, ← List.length_pos_iff]
    simp only [hdecade, true_and]
    omega
  · rw [if_neg hdecade]
    simp [hdecade]

/-- The counts of a view are those of the undrawn members just when no coarse aggregate stands
beside the rest of a narrower focus. -/
theorem all_count_undrawn :
    (ladder.payload budget focus (ladder.planOf focus level.1 level.2 mode keep)
        releases).AllCountUndrawn ladder budget ↔
      ¬CoarseBeside ladder budget focus (ladder.planOf focus level.1 level.2 mode keep) := by
  have hbucket := @count_bucket ladder budget focus releases hladder hnamed hfocus level hlevel
    mode keep
  have hlane := @count_lane ladder budget focus releases hladder hnamed hids hfocus level hlevel
    mode keep hreleases
  have haggs := (plan_releases_outcome hreleases).2
  constructor
  · rintro ⟨-, hbuckets, hreleaseAggs⟩
    rintro (⟨found, credit, label, members, hfound, htarget, hoff, hall⟩ |
      ⟨found, lane, label, members, strategy, hfound, htarget, hoff, houtcome, hwhole, hopen⟩)
    · obtain ⟨bucket, hmem, hkey⟩ := List.mem_map.mp hall
      refine (hbucket hmem).mp (hbuckets _ ?_ rfl)
        ⟨found, credit, label, members, hfound, htarget, hoff, hkey⟩
      simp only [payload, List.mem_append]
      exact Or.inl (Or.inr (List.mem_map.mpr ⟨bucket, mem_sort_by.mpr hmem, rfl⟩))
    · have hrest : restBeside focus lane = found.offPage members := by
        rw [restBeside, hfound, onLane, htarget]
        dsimp only
        rw [if_pos rfl]
      have hlaneMem : lane ∈ (ladder.planOf focus level.1 level.2 mode keep).lanes :=
        focused_lane_drawn hfocus hlevel hfound htarget
      obtain ⟨agg, hagg, hnone⟩ := (open_lane_whole _ lane (ladder.openItems focus lane)).mpr
        ⟨strategy, houtcome, hwhole, hopen⟩
      have hpart : agg ∈ (ladder.lanePart focus (ladder.outcomeOf budget focus
          (ladder.planOf focus level.1 level.2 mode keep)) lane).2 := by
        rw [lane_part_aggs_eq]
        exact List.mem_append_right _ hagg
      refine (hlane hlaneMem hpart).mp (hreleaseAggs (ladder.releaseAgg agg) ?_)
        ⟨hnone, hrest ▸ hoff⟩
      exact List.mem_map_of_mem (haggs.mem_iff.mpr
        (List.mem_append_right _ (List.mem_flatMap.mpr ⟨lane, hlaneMem, hpart⟩)))
  · intro hcoarse
    refine ⟨fun agg hagg => count_others hladder hnamed hfocus hlevel hagg,
      fun agg hagg hkind => ?_, fun agg hagg => ?_⟩
    · rcases mem_master_aggs hagg with ⟨lane, -, rfl⟩ | ⟨bucket, hmem, rfl⟩ |
        ⟨found, credit, label, members, hfound, htarget, rfl⟩
      · cases hkind
      · refine (hbucket hmem).mpr ?_
        rintro ⟨found, credit, label, members, hfound, htarget, hoff, hkey⟩
        exact hcoarse (Or.inl ⟨found, credit, label, members, hfound, htarget, hoff,
          List.mem_map.mpr ⟨bucket, hmem, hkey⟩⟩)
      · exact count_remainder hladder hnamed hfocus hlevel hfound htarget
    · obtain ⟨drawn, hdrawn, rfl⟩ := List.mem_map.mp hagg
      rcases List.mem_append.mp (haggs.mem_iff.mp hdrawn) with h | h
      · obtain ⟨masterId, hmaster, hmem⟩ := List.mem_flatMap.mp h
        exact count_pressings hladder hnamed hfocus hlevel hreleases hmaster hmem
      · obtain ⟨lane, hlaneMem, hmem⟩ := List.mem_flatMap.mp h
        refine (hlane hlaneMem hmem).mpr ?_
        rintro ⟨hnone, hrest⟩
        unfold restBeside at hrest
        split at hrest
        · rename_i found label members hon
          obtain ⟨hfound, htarget⟩ := on_lane_eq hon
          rw [lane_part_aggs_eq] at hmem
          rcases List.mem_append.mp hmem with hfixed | hopen
          · rw [fixedOfLane, hon] at hfixed
            dsimp only at hfixed
            rw [if_neg hrest, List.mem_singleton] at hfixed
            rw [hfixed] at hnone
            cases hnone
          · obtain ⟨strategy, houtcome, hwhole, hitems⟩ :=
              (open_lane_whole _ _ _).mp ⟨drawn, hopen, hnone⟩
            exact hcoarse (Or.inr ⟨found, lane, label, members, strategy, hfound, htarget, hrest,
              houtcome, hwhole, hitems⟩)
        · exact hrest rfl

end Counts

end Ladder

theorem Resolves.unique {ladder : Ladder} {budget : Budget} {page : Nat} {focus : Option String}
    {found found' : Option Focus} (h : Resolves ladder budget page focus found)
    (h' : Resolves ladder budget page focus found') : found = found' := by
  cases h with
  | none =>
      cases h'
      rfl
  | empty =>
      cases h' with
      | empty => rfl
      | some hne hresolve => exact absurd rfl hne
  | some hne hresolve =>
      cases h' with
      | empty => exact absurd rfl hne
      | some hne' hresolve' => rw [Except.ok.inj (hresolve.symm.trans hresolve')]

/-- The counts of a response are decided by the plan of its focus. -/
theorem counts_of_plan {catalog : Catalog} {marks : Option Marks} {budget : Budget}
    {focus : Option String} {page : Nat} {payload : Payload} {found : Option Focus}
    (hcatalog : catalog.Valid) (hbudget : budget.validate = .ok ())
    (hresolves : Resolves (Ladder.build catalog marks) budget page focus found)
    (hbuild : buildStrata catalog budget focus page marks = .ok payload) :
    ∃ plan, (Ladder.build catalog marks).fit budget found = .ok plan ∧
      (payload.AllCountUndrawn (Ladder.build catalog marks) budget ↔
        ¬CoarseBeside (Ladder.build catalog marks) budget found plan) := by
  have hladder := build_well_formed catalog marks
  have hnamed := build_named hcatalog marks
  have hfloors := Budget.floors_of_validate hbudget
  obtain ⟨found', hresolves', hrender⟩ := build_strata_form hbuild
  obtain rfl := hresolves'.unique hresolves
  have hfocus := hresolves.sound hladder
  obtain ⟨level, mode, keep, releases, hlevel, hfit, hreleases, rfl⟩ :=
    Ladder.render_form hladder hfloors hfocus hrender
  exact ⟨_, hfit, Ladder.all_count_undrawn hladder hnamed (Ladder.build_lane_ids hcatalog marks)
    hfocus hlevel hreleases⟩

/-- The counts of a response are those of the undrawn members of the sets its aggregates name,
just when no coarse aggregate stands beside the rest of a narrower focus. -/
theorem counts_iff (catalog : Catalog) (marks : Option Marks) (budget : Budget)
    (focus : Option String) (page : Nat) (payload : Payload) (hcatalog : catalog.Valid)
    (hbudget : budget.validate = .ok ())
    (hbuild : buildStrata catalog budget focus page marks = .ok payload) :
    payload.AllCountUndrawn (Ladder.build catalog marks) budget ↔
      ∀ found plan, Resolves (Ladder.build catalog marks) budget page focus found →
        (Ladder.build catalog marks).fit budget found = .ok plan →
        ¬CoarseBeside (Ladder.build catalog marks) budget found plan := by
  obtain ⟨found, hresolves, -⟩ := build_strata_form hbuild
  obtain ⟨plan, hfit, hcounts⟩ := counts_of_plan hcatalog hbudget hresolves hbuild
  rw [hcounts]
  constructor
  · intro hcoarse found' plan' hresolves' hfit'
    rw [hresolves'.unique hresolves] at hfit' ⊢
    rw [hfit] at hfit'
    rw [← Except.ok.inj hfit']
    exact hcoarse
  · exact fun h => h found plan hresolves hfit

/-- Folded credits, folded masters and undrawn pressings are counted beside a page of a master. -/
theorem career_counts : ∃ payload,
    buildStrata longCareer tightest (some "m:110") 1 none = .ok payload ∧
    payload.creditAggs.map (·.id) = [otherCredits] ∧
    payload.masterAggs.map (·.id) = ["ma:c:1:1970s", "ma:c:1:1980s", "ma:c:1:1990s"] ∧
    payload.releaseAggs.map (·.id) = ["ra:m:110"] ∧
    payload.AllCountUndrawn (Ladder.build longCareer none) tightest := by
  refine ⟨_, rfl, rfl, rfl, rfl,
    (counts_iff longCareer none tightest (some "m:110") 1 _ long_career_valid rfl rfl).mpr ?_⟩
  intro found plan hresolves hfit hcoarse
  rw [hresolves.unique (.some (by decide) rfl)] at hcoarse
  -- the focus is a master's pressings, neither a bucket nor a lane
  rcases hcoarse with ⟨found, _, _, _, hfound, htarget, -⟩ |
    ⟨found, _, _, _, _, hfound, htarget, -⟩
  · obtain rfl := Option.some.inj hfound
    cases htarget
  · obtain rfl := Option.some.inj hfound
    cases htarget

/-- Seven masters of one release each, over three decades. -/
def threeDecades : Catalog :=
  { rootId := "1", rootName := none
    releases := [("11", 1970), ("12", 1980), ("13", 1990), ("14", 1991), ("15", 1992),
      ("16", 1993), ("17", 1994)].map fun (id, year) =>
        ⟨id, some id, some year, ["1"], .discogs, none⟩
    masterYears := ⟨[], List.nodup_nil⟩ }

/-- The bucket of all masters stands beside the rest of the 1990s, and leaves it out. -/
theorem coarse_bucket_miscounts : threeDecades.Valid ∧ tightest.validate = .ok () ∧
    ∃ payload, buildStrata threeDecades tightest (some "ma:c:1:1990s") 0 none = .ok payload ∧
      (∃ agg ∈ payload.masterAggs, agg.id = "ma:c:1:all" ∧ agg.masters = 2) ∧
      ¬payload.AllCountUndrawn (Ladder.build threeDecades none) tightest := by
  refine ⟨⟨by decide, by decide, by decide, by decide, by decide⟩, rfl, _, rfl,
    ⟨_, List.mem_cons_self, rfl, rfl⟩, ?_⟩
  rintro ⟨-, hbuckets, -⟩
  obtain ⟨found, hfound, hcount⟩ := hbuckets _ List.mem_cons_self rfl
  obtain rfl := Except.ok.inj hfound
  revert hcount
  decide

end CatalogApi.Strata
