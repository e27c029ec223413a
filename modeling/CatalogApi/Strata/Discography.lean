import CatalogApi.Strata.Ids

/-!
# Strata conserves the discography

The ids of a response are distinct over all planes (`payload_ids_nodup`). With the partition of the
ladder and the balance of the counts this is `strata_conserves`.
-/

namespace CatalogApi.Strata

open ByKey Slices Text

/-- The ids of all nodes and aggregates. -/
def Payload.ids (payload : Payload) : List String :=
  payload.creditNodes.map (·.id) ++ payload.creditAggs.map (·.id) ++
    (payload.masterNodes.map (·.id) ++ payload.masterAggs.map (·.id)) ++
    (payload.releaseNodes.map (·.id) ++ payload.releaseAggs.map (·.id))

namespace Ladder

variable {ladder : Ladder} {budget : Budget} {focus : Option Focus} {plan : MasterPlan}
  {releases : List ReleaseNode × List ReleaseAgg}

/-! ## Ids -/

theorem tag_other : tag otherCredits = "c" := by
  decide

theorem tag_release_agg (hfocus : ladder.FocusSound budget focus)
    (hreleases : ladder.planReleases budget focus plan = .ok releases) {agg : ReleaseAgg}
    (hagg : agg ∈ releases.2) : tag agg.id = "ra" := by
  rcases release_agg_id hfocus hreleases hagg with ⟨masterId, -, hid⟩ | ⟨lane, -, -, hid⟩
  · rw [hid]
    simp [tag]
  · rw [hid]
    cases agg.decade with
    | none => simp [tag, Target.canonical]
    | some label => simp [tag, Target.canonical]

/-- The ids of the payload of a plan are distinct. -/
theorem payload_ids_nodup (hladder : ladder.WellFormed) (hdrawn : ladder.Drawn focus plan)
    (hkeyed : Keyed focus plan) (hconserves : Conserves ladder plan releases)
    (hids : (ladder.items.map (·.nodeId)).Nodup) (hfocus : ladder.FocusSound budget focus)
    (hreleases : ladder.planReleases budget focus plan = .ok releases) :
    (ladder.payload budget focus plan releases).ids.Nodup := by
  have hlanes : plan.lanes.Nodup := by
    rw [hconserves.lanes]
    exact hdrawn.nodup.filter _
  have hplain : ∀ lane ∈ plan.lanes, PlainCredit lane := by
    intro lane hlane
    rw [hconserves.lanes] at hlane
    exact hdrawn.plain lane (List.mem_of_mem_filter hlane)
  -- the tag before the first colon keeps the three planes apart
  have hcreditTag : ∀ id ∈ (ladder.payload budget focus plan releases).creditNodes.map (·.id) ++
      (ladder.payload budget focus plan releases).creditAggs.map (·.id), tag id = "c" := by
    intro id hid
    rcases List.mem_append.mp hid with h | h
    · obtain ⟨node, hnode, rfl⟩ := List.mem_map.mp h
      obtain ⟨credit, -, rfl⟩ := List.mem_map.mp hnode
      exact tag_credit credit
    · obtain ⟨agg, hagg, rfl⟩ := List.mem_map.mp h
      simp only [payload] at hagg
      split at hagg
      · cases hagg
      · rw [List.mem_singleton.mp hagg]
        exact tag_other
  have hmasterTag : ∀ id ∈ (ladder.payload budget focus plan releases).masterNodes.map (·.id) ++
      (ladder.payload budget focus plan releases).masterAggs.map (·.id),
      tag id = "m" ∨ tag id = "nm" ∨ tag id = "ma" := by
    intro id hid
    rcases List.mem_append.mp hid with h | h
    · obtain ⟨node, hnode, rfl⟩ := List.mem_map.mp h
      obtain ⟨masterId, -, rfl⟩ := List.mem_map.mp hnode
      exact Or.inl (tag_master masterId)
    · obtain ⟨agg, hagg, rfl⟩ := List.mem_map.mp h
      rcases mem_master_aggs hagg with ⟨lane, -, rfl⟩ | ⟨bucket, -, rfl⟩ | ⟨_, _, _, _, -, -, rfl⟩
      · exact Or.inr (Or.inl (tag_lane lane))
      · rw [bucket_agg_id]
        exact Or.inr (Or.inr (tag_bucket_id _))
      · rw [bucket_agg_id]
        exact Or.inr (Or.inr (tag_bucket_id _))
  have hnodeTag : ∀ id ∈ (ladder.payload budget focus plan releases).releaseNodes.map (·.id),
      tag id = "r" ∨ tag id = "mb" := by
    intro id hid
    obtain ⟨node, hnode, rfl⟩ := List.mem_map.mp hid
    obtain ⟨drawn, -, rfl⟩ := List.mem_map.mp hnode
    exact tag_node drawn.1
  have haggTag : ∀ id ∈ (ladder.payload budget focus plan releases).releaseAggs.map (·.id),
      tag id = "ra" := by
    intro id hid
    obtain ⟨agg, hagg, rfl⟩ := List.mem_map.mp hid
    obtain ⟨drawn, hmem, rfl⟩ := List.mem_map.mp hagg
    exact tag_release_agg hfocus hreleases hmem
  refine nodup_append_tags (nodup_append_tags (credit_ids_nodup hdrawn)
    (master_ids_nodup hdrawn hkeyed hconserves.lanes) ?_)
    (nodup_append_tags (release_node_ids_nodup hladder hkeyed hlanes hids hfocus hreleases)
      (release_agg_ids_nodup hkeyed hlanes hplain hfocus hreleases) ?_) ?_
  · intro id hid id' hid'
    rw [hcreditTag id hid]
    rcases hmasterTag id' hid' with h | h | h
    · simp [h]
    · simp [h]
    · simp [h]
  · intro id hid id' hid'
    rw [haggTag id' hid']
    rcases hnodeTag id hid with h | h
    · simp [h]
    · simp [h]
  · intro id hid id' hid'
    have hplane : tag id = "c" ∨ tag id = "m" ∨ tag id = "nm" ∨ tag id = "ma" := by
      rcases List.mem_append.mp hid with h | h
      · exact Or.inl (hcreditTag id h)
      · exact Or.inr (hmasterTag id h)
    have hplane' : tag id' = "ra" ∨ tag id' = "r" ∨ tag id' = "mb" := by
      rcases List.mem_append.mp hid' with h | h
      · exact Or.inr (hnodeTag id' h)
      · exact Or.inl (haggTag id' h)
    rcases hplane with h | h | h | h
    all_goals rcases hplane' with h' | h' | h'
    all_goals simp [h, h']

/-! ## Requests -/

/-- A rendered view is the payload of the plan that fits and of its release plane. -/
theorem render_payload {payload : Payload} (h : ladder.render budget focus = .ok payload) :
    ∃ plan releases, ladder.fit budget focus = .ok plan ∧
      ladder.planReleases budget focus plan = .ok releases ∧
      payload = ladder.payload budget focus plan releases := by
  unfold render at h
  cases hfit : ladder.fit budget focus with
  | error error => simp [hfit, bind, Except.bind] at h
  | ok plan =>
      cases hreleases : ladder.planReleases budget focus plan with
      | error error => simp [hfit, hreleases, bind, Except.bind] at h
      | ok releases =>
          simp only [hfit, hreleases, bind, Except.bind, pure, Except.pure, Except.ok.injEq] at h
          exact ⟨plan, releases, rfl, hreleases, h.symm⟩

/-- A rendered view is the payload of a plan of a sound level and of its release plane. -/
theorem render_form (hladder : ladder.WellFormed) (hbudget : budget.Floors)
    (hfocus : ladder.FocusSound budget focus) {payload : Payload}
    (h : ladder.render budget focus = .ok payload) :
    ∃ level mode keep releases, ladder.LevelSound budget focus level ∧
      ladder.fit budget focus = .ok (ladder.planOf focus level.1 level.2 mode keep) ∧
      ladder.planReleases budget focus (ladder.planOf focus level.1 level.2 mode keep) =
        .ok releases ∧
      payload = ladder.payload budget focus (ladder.planOf focus level.1 level.2 mode keep)
        releases := by
  obtain ⟨plan, releases, hfit, hreleases, rfl⟩ := render_payload h
  obtain ⟨level, hlevel, mode, keep, rfl⟩ := fit_plan hfit
  exact ⟨level, mode, keep, releases, credit_level_sound hladder hbudget hfocus hlevel, hfit,
    hreleases, rfl⟩

end Ladder

/-- The focus of a request: none without a cursor, else the one its cursor resolves to. -/
inductive Resolves (ladder : Ladder) (budget : Budget) (page : Nat) :
    Option String → Option Focus → Prop where
  | none : Resolves ladder budget page none none
  | empty : Resolves ladder budget page (some "") none
  | some {focusId : String} {found : Focus} (hne : focusId ≠ "")
      (hresolve : ladder.resolveFocus focusId page budget = .ok found) :
      Resolves ladder budget page (some focusId) (some found)

/-- A response is the rendered view of the resolved focus. -/
theorem build_strata_form {catalog : Catalog} {budget : Budget} {focus : Option String}
    {page : Nat} {marks : Option Marks} {payload : Payload}
    (h : buildStrata catalog budget focus page marks = .ok payload) :
    ∃ found, Resolves (Ladder.build catalog marks) budget page focus found ∧
      (Ladder.build catalog marks).render budget found = .ok payload := by
  cases focus with
  | none =>
      rw [build_strata_none] at h
      exact ⟨none, .none, h⟩
  | some focusId =>
      by_cases hne : focusId = ""
      · subst hne
        rw [build_strata_empty] at h
        exact ⟨none, .empty, h⟩
      · rw [build_strata_some catalog budget page marks hne] at h
        cases hresolve : (Ladder.build catalog marks).resolveFocus focusId page budget with
        | error error =>
            rw [hresolve] at h
            cases h
        | ok found =>
            rw [hresolve] at h
            exact ⟨some found, .some hne hresolve, h⟩

theorem Resolves.sound {ladder : Ladder} {budget : Budget} {page : Nat} {focus : Option String}
    {found : Option Focus} (hladder : ladder.WellFormed)
    (h : Resolves ladder budget page focus found) : ladder.FocusSound budget found := by
  cases h with
  | none => exact Ladder.focus_sound_none
  | empty => exact Ladder.focus_sound_none
  | some hne hresolve => exact Ladder.focus_sound_some (Ladder.resolve_focus_ok hladder hresolve)

/-- Every response conserves the discography: it is the payload of a plan and a release plane that
hold every credit, master and release once, its counts balance, and its ids are distinct when
those of the MusicBrainz releases are. -/
theorem strata_conserves (catalog : Catalog) (budget : Budget) (focus : Option String)
    (page : Nat) (marks : Option Marks) (payload : Payload) (hcatalog : catalog.Valid)
    (hbudget : budget.validate = .ok ())
    (hbuild : buildStrata catalog budget focus page marks = .ok payload) :
    (∃ found plan releases,
      Resolves (Ladder.build catalog marks) budget page focus found ∧
      (Ladder.build catalog marks).fit budget found = .ok plan ∧
      (Ladder.build catalog marks).planReleases budget found plan = .ok releases ∧
      payload = (Ladder.build catalog marks).payload budget found plan releases ∧
      Conserves (Ladder.build catalog marks) plan releases) ∧
    payload.Balanced ∧
    (((catalog.releases.filter fun release => release.provider = .musicbrainz).map (·.id)).Nodup →
      payload.ids.Nodup) := by
  have hladder := build_well_formed catalog marks
  have hnamed := build_named hcatalog marks
  have hfloors := Budget.floors_of_validate hbudget
  obtain ⟨found, hresolves, hrender⟩ := build_strata_form hbuild
  have hfocus := hresolves.sound hladder
  obtain ⟨level, mode, keep, releases, hlevel, hfit, hreleases, rfl⟩ :=
    Ladder.render_form hladder hfloors hfocus hrender
  have hdrawn := Ladder.plan_drawn hladder hnamed hfocus hlevel mode keep
  have hconserves := Ladder.plan_conserves hladder hnamed hfocus hlevel hreleases
  refine ⟨⟨found, _, releases, hresolves, hfit, hreleases, rfl, hconserves⟩,
    Ladder.payload_balanced hladder hdrawn hconserves hfocus hreleases, fun hpressings => ?_⟩
  exact Ladder.payload_ids_nodup hladder hdrawn
    (Ladder.plan_keyed hladder hfocus hlevel mode keep) hconserves
    (Ladder.placed_ids_nodup hcatalog hpressings marks) hfocus hreleases

theorem duo_valid : duo.Valid where
  root := by decide
  ids := by decide
  masters := by decide
  credits := by decide
  distinct := by decide

theorem long_career_valid : longCareer.Valid where
  root := by decide
  ids := by decide
  masters := by decide
  credits := by decide
  distinct := by decide

theorem duo_conserved : ∃ payload, buildStrata duo tightest (some "r:11") 3 none = .ok payload ∧
    payload.Balanced ∧ payload.ids.Nodup :=
  ⟨_, rfl, (strata_conserves duo tightest (some "r:11") 3 none _ duo_valid rfl rfl).2.1,
    (strata_conserves duo tightest (some "r:11") 3 none _ duo_valid rfl rfl).2.2 (by decide)⟩

/-- Two MusicBrainz releases of one id, beside the original of their master. -/
def twins : Catalog :=
  { rootId := "1", rootName := none
    releases :=
      [⟨"10", some "5", some 1990, ["1"], .discogs, none⟩,
       ⟨"ab", some "5", some 1991, [], .musicbrainz, some "First"⟩,
       ⟨"ab", some "5", some 1992, [], .musicbrainz, some "Second"⟩]
    masterYears := ⟨[], List.nodup_nil⟩ }

/-- The two pressings are drawn under one id. -/
theorem twins_share_id : twins.Valid ∧ tightest.validate = .ok () ∧
    ∃ payload, buildStrata twins tightest none 0 none = .ok payload ∧ ¬payload.ids.Nodup := by
  refine ⟨⟨by decide, by decide, by decide, by decide, by decide⟩, rfl, _, rfl, ?_⟩
  decide

end CatalogApi.Strata
