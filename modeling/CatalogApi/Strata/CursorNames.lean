import CatalogApi.Strata.Discography

/-!
# The cursors a response offers

The canonical cursor of every member set of the ladder parses to that set (`parse_canonical`), and
the id of every aggregate and of every master node of a response is such a cursor, or its `m:` or
`nm:` form (`offered_named`).
-/

namespace CatalogApi.Strata

open ByKey Slices Text

namespace Ladder

variable {ladder : Ladder} {budget : Budget}

/-! ## Canonical cursors -/

/-- The credit of a sound target is made of digits. -/
theorem target_credit_plain (hladder : ladder.WellFormed) (hnamed : ladder.Named)
    {target : Target} (htarget : target.Sound ladder) {credit : Credit}
    (h : target.credit = some credit) : PlainCredit credit :=
  hnamed.credits credit (target_credit_ordered hladder htarget h)

theorem ne_other {head : String} (h : ¬head.toList <+: "c:".toList)
    (h' : ¬"c:".toList <+: head.toList) (text : String) : head ++ text ≠ otherCredits := by
  have hother : otherCredits = "c:" ++ "other" := by decide
  rw [hother]
  exact starts_ne h h' text "other"

theorem parse_master (masterId : String) :
    ladder.parseFocus ("ra:m:" ++ masterId) = ladder.masterCursor masterId ∧
      ladder.parseFocus ("m:" ++ masterId) = ladder.masterCursor masterId := by
  constructor
  · have hother : "ra:m:" ++ masterId ≠ otherCredits := ne_other (by decide) (by decide) masterId
    rw [parseFocus, if_neg hother, after_prefix_append]
  · have hother : "m:" ++ masterId ≠ otherCredits := ne_other (by decide) (by decide) masterId
    rw [parseFocus, if_neg hother, after_prefix_none (by decide) (by decide), after_prefix_append]

theorem parse_lane (text : String) :
    ladder.parseFocus ("ra:nm:" ++ text) = ladder.laneCursor text ∧
      ladder.parseFocus ("nm:" ++ text) = ladder.laneCursor text := by
  constructor
  · have hother : "ra:nm:" ++ text ≠ otherCredits := ne_other (by decide) (by decide) text
    rw [parseFocus, if_neg hother, after_prefix_none (by decide) (by decide),
      after_prefix_none (by decide) (by decide), after_prefix_append]
  · have hother : "nm:" ++ text ≠ otherCredits := ne_other (by decide) (by decide) text
    rw [parseFocus, if_neg hother, after_prefix_none (by decide) (by decide),
      after_prefix_none (by decide) (by decide), after_prefix_none (by decide) (by decide),
      after_prefix_append]

theorem parse_bucket (text : String) :
    ladder.parseFocus ("ma:" ++ text) = ladder.bucketCursor text := by
  have hother : "ma:" ++ text ≠ otherCredits := ne_other (by decide) (by decide) text
  rw [parseFocus, if_neg hother, after_prefix_none (by decide) (by decide),
    after_prefix_none (by decide) (by decide), after_prefix_none (by decide) (by decide),
    after_prefix_none (by decide) (by decide), after_prefix_append]

theorem parse_lane_target (hladder : ladder.WellFormed) (hnamed : ladder.Named) {lane : Credit}
    {label : Option String} {members : List Item}
    (h : (Target.lane lane label members).Sound ladder) :
    ladder.laneCursor (creditId lane ++ label.elim "" (":" ++ ·)) =
      some ⟨(Target.lane lane label members).canonical, .lane lane label members⟩ := by
  have hplain : PlainCredit lane := target_credit_plain hladder hnamed h rfl
  obtain ⟨rfl, hmembers⟩ := h
  cases label with
  | none =>
      rw [laneMembers] at hmembers
      simp only [laneCursor, Option.elim_none, String.append_empty, parse_credit_id hplain,
        if_neg hmembers, Target.canonical, laneMembers]
  | some label =>
      have hlacks := lane_label_lacks hmembers
      have hempty : label ≠ "" := by
        rintro rfl
        obtain ⟨item, hitem⟩ := List.exists_mem_of_ne_nil _ hmembers
        exact decade_ne_empty item.year (of_decide_eq_true (List.mem_filter.mp hitem).2)
      rw [laneMembers] at hmembers
      rw [Option.elim_some, ← String.append_assoc, laneCursor, parse_credit_label hplain hlacks]
      simp only [if_neg hmembers, if_neg hempty, Target.canonical, laneMembers,
        String.append_assoc]

/-- The canonical cursor of a member set of the ladder names that set. -/
theorem parse_canonical (hladder : ladder.WellFormed) (hnamed : ladder.Named) {target : Target}
    (htarget : target.Sound ladder) :
    ladder.parseFocus target.canonical = some ⟨target.canonical, target⟩ := by
  cases target with
  | others members =>
      obtain ⟨rfl, hmembers⟩ := htarget
      simp only [Target.canonical, parseFocus, if_true, othersCursor, if_neg hmembers]
  | bucket credit label members =>
      have hplain : PlainCredit credit := target_credit_plain hladder hnamed htarget rfl
      obtain ⟨rfl, hmembers⟩ := htarget
      have hlacks := bucket_members_label hmembers
      rw [bucketMembers] at hmembers
      rw [Target.canonical, String.append_assoc, String.append_assoc, parse_bucket,
        ← String.append_assoc, bucketCursor, parse_credit_label hplain hlacks]
      simp only [if_neg hmembers, bucketMembers, String.append_assoc]
  | pressings credit masterId members =>
      obtain ⟨hmaster, rfl, rfl⟩ := htarget
      rw [Target.canonical, (parse_master masterId).1, masterCursor, if_pos hmaster]
  | lane lane label members =>
      have hcursor := parse_lane_target hladder hnamed htarget
      have hname : (Target.lane lane label members).canonical =
          "ra:nm:" ++ (creditId lane ++ label.elim "" (":" ++ ·)) := by
        cases label with
        | none => simp [Target.canonical]
        | some label => simp [Target.canonical, String.append_assoc]
      rw [hname] at hcursor ⊢
      rw [(parse_lane _).1, hcursor]

/-! ## Cursors are no pressings -/

theorem pressing_none {focusId : String} (hmusicbrainz : afterPrefix "mb:" focusId = none)
    (hdiscogs : afterPrefix "r:" focusId = none) : ladder.pressing focusId = none := by
  simp [pressing, hmusicbrainz, hdiscogs]

theorem canonical_no_pressing (target : Target) : ladder.pressing target.canonical = none := by
  cases target with
  | others members =>
      rw [Target.canonical]
      exact pressing_none (by decide) (by decide)
  | bucket credit label members =>
      rw [Target.canonical, String.append_assoc, String.append_assoc]
      exact pressing_none (after_prefix_none (by decide) (by decide) _)
        (after_prefix_none (by decide) (by decide) _)
  | pressings credit masterId members =>
      exact pressing_none (after_prefix_none (by decide) (by decide) _)
        (after_prefix_none (by decide) (by decide) _)
  | lane lane label members =>
      cases label with
      | none =>
          exact pressing_none (after_prefix_none (by decide) (by decide) _)
            (after_prefix_none (by decide) (by decide) _)
      | some label =>
          rw [Target.canonical, String.append_assoc, String.append_assoc]
          exact pressing_none (after_prefix_none (by decide) (by decide) _)
            (after_prefix_none (by decide) (by decide) _)

end Ladder

/-! ## Cursors of a response -/

/-- The id names the member set: its canonical cursor, or the `m:` or `nm:` id of its parent. -/
def Target.NamedBy (target : Target) (id : String) : Prop :=
  id = target.canonical ∨
    (∃ credit masterId members, target = .pressings credit masterId members ∧
      id = masterNodeId masterId) ∨
    ∃ lane members, target = .lane lane none members ∧ id = laneId lane

/-- The ids of the aggregates and of the master nodes of a response. -/
def Payload.cursors (payload : Payload) : List String :=
  payload.creditAggs.map (·.id) ++ (payload.masterNodes.map (·.id) ++
    payload.masterAggs.map (·.id)) ++ payload.releaseAggs.map (·.id)

namespace Ladder

variable {ladder : Ladder} {budget : Budget} {focus : Option Focus} {plan : MasterPlan}
  {releases : List ReleaseNode × List ReleaseAgg}

/-- A name of a member set parses to the set, and is no pressing. -/
theorem parse_named (hladder : ladder.WellFormed) (hnamed : ladder.Named) {target : Target}
    (htarget : target.Sound ladder) {id : String} (h : target.NamedBy id) :
    ladder.parseFocus id = some ⟨target.canonical, target⟩ ∧ ladder.pressing id = none := by
  rcases h with rfl | ⟨credit, masterId, members, rfl, rfl⟩ | ⟨lane, members, rfl, rfl⟩
  · exact ⟨parse_canonical hladder hnamed htarget, canonical_no_pressing target⟩
  · constructor
    · have hcanonical := parse_canonical hladder hnamed htarget
      rw [Target.canonical, (parse_master masterId).1] at hcanonical
      rw [masterNodeId, (parse_master masterId).2, hcanonical]
      rfl
    · exact pressing_none (after_prefix_none (by decide) (by decide) _)
        (after_prefix_none (by decide) (by decide) _)
  · constructor
    · have hcanonical := parse_canonical hladder hnamed htarget
      rw [Target.canonical, (parse_lane _).1] at hcanonical
      rw [laneId, (parse_lane _).2, hcanonical]
      rfl
    · exact pressing_none (after_prefix_none (by decide) (by decide) _)
        (after_prefix_none (by decide) (by decide) _)

/-- A name of a member set is a focus on that set under every budget, at every page. -/
theorem resolve_named (hladder : ladder.WellFormed) (hnamed : ladder.Named) {target : Target}
    (htarget : target.Sound ladder) {id : String} (h : target.NamedBy id) (page : Nat)
    (budget : Budget) :
    ladder.resolveFocus id page budget = .ok
      { id := target.canonical, target,
        page := page % pageCount target.size (ladder.targetPageSize target budget),
        pageSize := ladder.targetPageSize target budget } := by
  obtain ⟨hparse, hpressing⟩ := parse_named hladder hnamed htarget h
  unfold resolveFocus
  rw [hpressing]
  dsimp only [Option.elim_none]
  rw [hparse]
  rfl

/-- The plan draws distinct masters of the ladder, and its buckets are not empty. -/
structure Drafted (ladder : Ladder) (plan : MasterPlan) : Prop where
  masters : ∀ masterId ∈ plan.masters, masterId ∈ ladder.masterIds
  buckets : ∀ bucket ∈ plan.buckets, ∃ masterId ∈ bucket.2,
    masterId ∈ ladder.bucketMembers bucket.1.1 bucket.1.2
  folded : ∀ credit ∈ plan.foldedCredits, credit ∈ ladder.creditOrder.drop 1

theorem plan_drafted (hladder : ladder.WellFormed) (hfocus : ladder.FocusSound budget focus)
    {level : List Credit × List Credit} (hlevel : ladder.LevelSound budget focus level)
    (mode : FoldMode) (keep : Nat) :
    ladder.Drafted (ladder.planOf focus level.1 level.2 mode keep) where
  masters := by
    intro masterId hmaster
    have hmem := (plan_masters_perm hladder hfocus hlevel mode keep).mem_iff.mp
      (List.mem_append_left _ (List.mem_append_left _ hmaster))
    obtain ⟨credit, -, hunder⟩ := List.mem_flatMap.mp hmem
    exact (hladder.mem_masters.mp hunder).1
  buckets := by
    intro bucket hbucket
    obtain ⟨key, hkey, rfl⟩ := List.mem_map.mp hbucket
    obtain ⟨masterId, hmem, rfl⟩ := List.mem_map.mp (List.mem_eraseDups.mp hkey)
    obtain ⟨credit, -, hfoldable⟩ := mem_candidates.mp (List.mem_of_mem_drop hmem)
    have hunder := hladder.mem_masters.mp (List.mem_of_mem_filter hfoldable)
    exact ⟨masterId, List.mem_filter.mpr ⟨hmem, decide_eq_true rfl⟩,
      bucket_member hladder hunder.1 rfl⟩
  folded := by
    intro credit hcredit
    have hmem := hlevel.split.mem_iff.mp (List.mem_append_right _ hcredit)
    rw [hladder.order_root, List.mem_cons] at hmem
    refine hmem.resolve_left fun hroot => ?_
    have hnodup := hlevel.split.symm.nodup hladder.order_nodup
    have hshown := hlevel.base _ (base_credits_ordered hladder hfocus).2.2.2
    exact (List.nodup_append.mp hnodup).2.2 _ hshown credit hcredit hroot.symm

/-- Every aggregate and master node of a response is a name of a member set of the ladder. -/
theorem offered_named (hfocus : ladder.FocusSound budget focus)
    (hdrafted : ladder.Drafted plan)
    (hlanes : plan.lanes = plan.shownCredits.filter fun c => ladder.masterless c ≠ [])
    (hreleases : ladder.planReleases budget focus plan = .ok releases) {id : String}
    (h : id ∈ (ladder.payload budget focus plan releases).cursors) :
    ∃ target : Target, target.Sound ladder ∧ target.NamedBy id := by
  have hmaster : ∀ masterId ∈ plan.masters,
      (Target.pressings (ladder.masterCredit masterId) masterId
        (ladder.itemsByMaster masterId)).Sound ladder := fun masterId hmem =>
    ⟨hdrafted.masters masterId hmem, rfl, rfl⟩
  have hlane : ∀ lane ∈ plan.lanes,
      (Target.lane lane none (ladder.laneMembers lane none)).Sound ladder := by
    intro lane hmem
    rw [hlanes] at hmem
    exact ⟨rfl, of_decide_eq_true (List.mem_filter.mp hmem).2⟩
  simp only [Payload.cursors, List.mem_append, or_assoc] at h
  rcases h with h | h | h | h
  · obtain ⟨agg, hagg, rfl⟩ := List.mem_map.mp h
    simp only [payload] at hagg
    by_cases hnil : plan.foldedCredits = []
    · rw [if_pos hnil] at hagg
      cases hagg
    · rw [if_neg hnil] at hagg
      rw [List.mem_singleton.mp hagg]
      obtain ⟨credit, hcredit⟩ := List.exists_mem_of_ne_nil _ hnil
      exact ⟨.others (ladder.creditOrder.drop 1),
        ⟨rfl, List.ne_nil_of_mem (hdrafted.folded credit hcredit)⟩, Or.inl rfl⟩
  · obtain ⟨node, hnode, rfl⟩ := List.mem_map.mp h
    obtain ⟨masterId, hmem, rfl⟩ := List.mem_map.mp hnode
    exact ⟨_, hmaster masterId (mem_sort_by.mp hmem), Or.inr (Or.inl ⟨_, _, _, rfl, rfl⟩)⟩
  · obtain ⟨agg, hagg, rfl⟩ := List.mem_map.mp h
    rcases mem_master_aggs hagg with ⟨lane, hmem, rfl⟩ | ⟨bucket, hbucket, rfl⟩ |
      ⟨found, credit, label, members, rfl, htarget, rfl⟩
    · exact ⟨_, hlane lane hmem, Or.inr (Or.inr ⟨_, _, rfl, rfl⟩)⟩
    · obtain ⟨masterId, -, hmem⟩ := hdrafted.buckets bucket hbucket
      exact ⟨.bucket bucket.1.1 bucket.1.2 (ladder.bucketMembers bucket.1.1 bucket.1.2),
        ⟨rfl, List.ne_nil_of_mem hmem⟩, Or.inl rfl⟩
    · have hsound := (hfocus found rfl).target
      rw [htarget] at hsound
      exact ⟨_, hsound, Or.inl rfl⟩
  · obtain ⟨agg, hagg, rfl⟩ := List.mem_map.mp h
    obtain ⟨drawn, hmem, rfl⟩ := List.mem_map.mp hagg
    rcases release_agg_id hfocus hreleases hmem with ⟨masterId, hm, hid⟩ |
      ⟨lane, -, hmembers, hid⟩
    · exact ⟨_, hmaster masterId hm, Or.inl hid⟩
    · refine ⟨.lane lane drawn.decade (ladder.laneMembers lane drawn.decade), ⟨rfl, hmembers⟩,
        Or.inl ?_⟩
      show drawn.id = _
      rw [hid]
      cases drawn.decade with
      | none => rfl
      | some label => rfl

end Ladder

end CatalogApi.Strata
