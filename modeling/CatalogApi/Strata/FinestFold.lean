import CatalogApi.Strata.Discography
import Mathlib.Data.Finset.Card

/-!
# The fold is as fine as the budget allows

`fit` walks the views of the masters from the finest to the coarsest, and in each view the loop of
`_plan_masters` gives up one candidate at a time. A candidate given up opens at most one bucket, so
the cost of a view never grows (`prefix_fits_of_le`) and the first prefix the loop accepts is the
longest within the budget (`plan_masters_longest`). `finest_fold` is the result for a request.
-/

namespace CatalogApi.Strata

open ByKey

namespace Ladder

variable {ladder : Ladder} {budget : Budget} {focus : Option Focus}

/-! ## The cost of a prefix -/

/-- The drawn and the folded credits of a view of the masters, and how its masters fold. -/
abbrev View := (List Credit × List Credit) × FoldMode

/-- The views in the order of `fit`. -/
def views (ladder : Ladder) (budget : Budget) (focus : Option Focus) : List View :=
  (ladder.creditLevels budget focus).flatMap fun level => [(level, .decade), (level, .all)]

/-- The distinct buckets of the candidates after the first `keep`. -/
def restBuckets (ladder : Ladder) (focus : Option Focus) (shown : List Credit) (mode : FoldMode)
    (keep : Nat) : Finset (Credit × String) :=
  (((ladder.candidates focus shown).drop keep).map (ladder.bucket mode)).toFinset

/-- Keeping the first `keep` candidates of a view is within the budget. -/
def PrefixFits (ladder : Ladder) (budget : Budget) (focus : Option Focus) (view : View)
    (keep : Nat) : Prop :=
  (pinnedMasters focus).1.length + present (pinnedMasters focus).2 +
      (ladder.lanesOf view.1.1).length + keep +
      (ladder.restBuckets focus view.1.1 view.2 keep).card ≤ budget.masters ∧
    ladder.releaseFloor focus (pinnedMasters focus).1 (ladder.lanesOf view.1.1) + keep ≤
      budget.releases

/-- Some number of kept candidates is within the budget. -/
def Admits (ladder : Ladder) (budget : Budget) (focus : Option Focus) (view : View) : Prop :=
  ∃ keep ≤ (ladder.candidates focus view.1.1).length, ladder.PrefixFits budget focus view keep

theorem length_erase_dups {κ : Type} [BEq κ] [LawfulBEq κ] [DecidableEq κ] (keys : List κ) :
    keys.eraseDups.length = keys.toFinset.card := by
  have hset : keys.eraseDups.toFinset = keys.toFinset := by
    ext key
    rw [List.mem_toFinset, List.mem_toFinset, List.mem_eraseDups]
  rw [← hset, List.toFinset_card_of_nodup (nodup_erase_dups keys)]

/-- The plan that keeps a prefix has a bucket for each distinct bucket of the rest. -/
theorem fits_at_iff (view : View) (keep : Nat) :
    ladder.FitsAt budget focus view.1.1 view.1.2 view.2 keep ↔
      ladder.PrefixFits budget focus view keep := by
  have hbuckets : (ladder.planOf focus view.1.1 view.1.2 view.2 keep).buckets.length =
      (ladder.restBuckets focus view.1.1 view.2 keep).card := by
    rw [planOf, length_bucketed, length_erase_dups, restBuckets]
  rw [FitsAt, hbuckets]
  rfl

/-- A candidate given up opens at most one bucket. -/
theorem rest_buckets_succ (shown : List Credit) (mode : FoldMode) {keep : Nat}
    (hkeep : keep < (ladder.candidates focus shown).length) :
    (ladder.restBuckets focus shown mode keep).card ≤
      (ladder.restBuckets focus shown mode (keep + 1)).card + 1 := by
  rw [restBuckets, restBuckets, List.drop_eq_getElem_cons hkeep, List.map_cons,
    List.toFinset_cons]
  exact Finset.card_insert_le _ _

/-- Every shorter prefix of one within the budget is within it as well. -/
theorem prefix_fits_of_le {view : View} {keep fewer : Nat}
    (hkeep : keep ≤ (ladder.candidates focus view.1.1).length)
    (hfits : ladder.PrefixFits budget focus view keep) (hfewer : fewer ≤ keep) :
    ladder.PrefixFits budget focus view fewer := by
  induction keep, hfewer using Nat.le_induction with
  | base => exact hfits
  | succ keep _ ih =>
      have hgrows : (ladder.restBuckets focus view.1.1 view.2 keep).card ≤
          (ladder.restBuckets focus view.1.1 view.2 (keep + 1)).card + 1 :=
        ladder.rest_buckets_succ view.1.1 view.2 hkeep
      obtain ⟨hmasters, hreleases⟩ := hfits
      refine ih (Nat.le_of_succ_le hkeep) ⟨?_, ?_⟩
      · omega
      · omega

/-! ## The loop stops at the longest prefix -/

/-- What the loop gave up last was over the budget with it. -/
theorem fold_masters_over {fixedM fixedR : Nat} {bucket : String → Credit × String}
    {kept kept' folded : List String} {buckets : List (Credit × String)} {masterId : String}
    (h : (foldMasters budget fixedM fixedR bucket kept buckets).1 = kept')
    (hkept : kept = folded ++ masterId :: kept') :
    overBudget budget fixedM fixedR (kept'.length + 1)
      (countInto bucket buckets folded).length := by
  induction folded generalizing kept buckets with
  | nil =>
      subst hkept
      rw [List.nil_append, foldMasters] at h
      by_cases hover : overBudget budget fixedM fixedR (kept'.length + 1) buckets.length
      · exact hover
      · rw [if_neg hover] at h
        exact absurd (congrArg List.length h) (Nat.succ_ne_self _)
  | cons other folded ih =>
      subst hkept
      rw [List.cons_append, foldMasters] at h
      split at h
      · exact ih h rfl
      · have hlength := congrArg List.length h
        simp only [List.length_cons, List.length_append] at hlength
        omega

/-- A plan that gives up a candidate would be over the budget with it. -/
theorem plan_masters_stops {shown folded : List Credit} {mode : FoldMode} {keep : Nat}
    (h : ladder.planMasters budget focus shown folded mode =
      some (ladder.planOf focus shown folded mode keep))
    (hkeep : keep < (ladder.candidates focus shown).length) :
    ¬ladder.FitsAt budget focus shown folded mode (keep + 1) := by
  rw [plan_masters_eq] at h
  cases hfold : foldMasters budget (ladder.fixedMasters focus shown)
    (ladder.fixedReleases focus shown) (ladder.bucket mode)
    (ladder.candidates focus shown).reverse [] with
  | mk kept buckets =>
      rw [hfold] at h
      dsimp only at h
      split at h
      · cases h
      · have hmasters := congrArg MasterPlan.masters (Option.some.inj h)
        have htake : kept.reverse = (ladder.candidates focus shown).take keep :=
          List.append_cancel_left hmasters
        have hlength : kept.length = keep := by
          rw [← List.length_reverse, htake, List.length_take, Nat.min_eq_left hkeep.le]
        obtain ⟨out, hsplit, -, -⟩ := fold_masters_keeps hfold
        have hout : out ≠ [] := by
          rintro rfl
          have hall := congrArg List.length hsplit
          rw [List.nil_append, List.length_reverse, hlength] at hall
          exact absurd hall hkeep.ne'
        obtain ⟨others, masterId, rfl⟩ := (List.eq_nil_or_concat' out).resolve_left hout
        rw [List.append_assoc, List.singleton_append] at hsplit
        have hover := fold_masters_over (congrArg Prod.fst hfold) hsplit
        -- the candidates are the kept ones, the one given up last and the others
        have horder : ladder.candidates focus shown =
            (kept.reverse ++ [masterId]) ++ others.reverse := by
          rw [← List.reverse_cons, ← List.reverse_append, ← hsplit, List.reverse_reverse]
        have hdrop : (ladder.candidates focus shown).drop (keep + 1) = others.reverse := by
          rw [horder, ← hlength, ← List.length_reverse, ← List.length_singleton,
            ← List.length_append, List.drop_left]
        have hcount : (countInto (ladder.bucket mode) [] others).length =
            (ladder.planOf focus shown folded mode (keep + 1)).buckets.length := by
          rw [planOf, hdrop, length_bucketed]
          exact length_count_into _ (List.reverse_perm others).symm
        rw [hlength, hcount] at hover
        rintro ⟨hm, hr⟩
        rcases hover with hover | hover
        · exact absurd hm (Nat.not_le.mpr hover)
        · exact absurd hr (Nat.not_le.mpr hover)

/-- The plan of a view keeps the longest prefix of its candidates within the budget. -/
theorem plan_masters_longest {view : View} {plan : MasterPlan}
    (h : ladder.planMasters budget focus view.1.1 view.1.2 view.2 = some plan) :
    ∃ keep ≤ (ladder.candidates focus view.1.1).length,
      plan = ladder.planOf focus view.1.1 view.1.2 view.2 keep ∧
      ∀ other ≤ (ladder.candidates focus view.1.1).length,
        (ladder.PrefixFits budget focus view other ↔ other ≤ keep) := by
  rcases ladder.plan_masters_form budget focus view.1.1 view.1.2 view.2 with
    ⟨keep, hkeep, hform, hfits⟩ | ⟨hnone, -⟩
  · rw [hform] at h
    rw [fits_at_iff] at hfits
    refine ⟨keep, hkeep, (Option.some.inj h).symm, fun other hother => ⟨fun hwithin => ?_,
      prefix_fits_of_le hkeep hfits⟩⟩
    by_contra hmore
    rw [Nat.not_le] at hmore
    have hnext := prefix_fits_of_le hother hwithin hmore
    exact plan_masters_stops hform (hmore.trans_le hother) ((fits_at_iff view _).mpr hnext)
  · rw [hnone] at h
    cases h

/-- A view without a plan admits no number of kept candidates. -/
theorem plan_masters_none {view : View}
    (h : ladder.planMasters budget focus view.1.1 view.1.2 view.2 = none) :
    ¬ladder.Admits budget focus view := by
  rintro ⟨keep, hkeep, hfits⟩
  rcases ladder.plan_masters_form budget focus view.1.1 view.1.2 view.2 with
    ⟨_, -, hform, -⟩ | ⟨-, hover⟩
  · rw [hform] at h
    cases h
  · exact hover ((fits_at_iff view 0).mpr (prefix_fits_of_le hkeep hfits (Nat.zero_le keep)))

/-! ## The order of the views -/

/-- A coarser level draws credits of the finer ones only, and folds what they fold. -/
theorem credit_levels_coarsen (ladder : Ladder) (budget : Budget) (focus : Option Focus) :
    (ladder.creditLevels budget focus).Pairwise fun finer coarser =>
      coarser.1.Sublist finer.1 ∧ finer.2 <:+ coarser.2 := by
  cases hothers : onOthers focus with
  | some found =>
      rw [credit_levels_others hothers]
      exact List.pairwise_singleton _ _
  | none =>
      rw [credit_levels_eq hothers]
      refine List.pairwise_map.mpr (List.pairwise_reverse.mpr ?_)
      refine List.pairwise_lt_range.imp fun {fewer extra} hless => ⟨?_, ?_⟩
      · refine List.monotone_filter_right _ fun credit hcredit => ?_
        rw [decide_eq_true_eq] at hcredit ⊢
        exact hcredit.imp_right fun hmem => (List.take_subset_take_left _ hless.le) hmem
      · exact List.drop_suffix_drop_left _ hless.le

/-- The plan of `fit` is that of the first view that admits any. -/
theorem fit_first {plan : MasterPlan} (h : ladder.fit budget focus = .ok plan) :
    ∃ before view after, ladder.views budget focus = before ++ view :: after ∧
      ladder.planMasters budget focus view.1.1 view.1.2 view.2 = some plan ∧
      ∀ finer ∈ before, ¬ladder.Admits budget focus finer := by
  unfold fit at h
  dsimp only at h
  split at h
  · rename_i hfound
    obtain rfl := Except.ok.inj h
    obtain ⟨before, view, after, hviews, hplan, hbefore⟩ := List.findSome?_eq_some_iff.mp hfound
    exact ⟨before, view, after, hviews, hplan, fun finer hfiner =>
      plan_masters_none (hbefore finer hfiner)⟩
  · cases h

/-! ## The masters of a plan -/

/-- The candidates of a view are the masters of its drawn credits that the focus does not hold. -/
theorem mem_candidates_iff (hladder : ladder.WellFormed) {shown : List Credit}
    {masterId : String} :
    masterId ∈ ladder.candidates focus shown ↔
      masterId ∈ ladder.masterIds ∧ ladder.masterCredit masterId ∈ shown ∧
        masterId ∉ (pinnedMasters focus).1 ++ (pinnedMasters focus).2 := by
  rw [mem_candidates]
  simp only [foldable, List.mem_filter, decide_eq_true_eq, hladder.mem_masters]
  constructor
  · rintro ⟨credit, hshown, ⟨hmaster, rfl⟩, hfree⟩
    exact ⟨hmaster, hshown, hfree⟩
  · rintro ⟨hmaster, hshown, hfree⟩
    exact ⟨_, hshown, ⟨hmaster, rfl⟩, hfree⟩

theorem candidates_sorted (ladder : Ladder) (focus : Option Focus) (shown : List Credit) :
    (ladder.candidates focus shown).Pairwise fun a b =>
      ladder.masterPriority a ≤ ladder.masterPriority b :=
  sort_by_sorted _ _

/-- A master of a smaller priority is stateful when one after it is. -/
theorem stateful_of_priority {first second : String}
    (h : ladder.masterPriority first ≤ ladder.masterPriority second)
    (hstateful : ladder.statefulMasters second = true) :
    ladder.statefulMasters first = true := by
  rw [masterPriority, masterPriority, Prod.Lex.le_iff] at h
  by_contra hfirst
  rw [Bool.not_eq_true] at hfirst
  simp only [ofLex_toLex, hfirst, hstateful, Bool.not_false, Bool.not_true] at h
  rcases h with h | ⟨h, -⟩
  · exact absurd h (by decide)
  · exact absurd h (by decide)

/-- No candidate of state folds beside a stateless one that is kept. -/
theorem stateful_fold_last {shown folded : List Credit} {mode : FoldMode} {keep : Nat}
    {bucket : (Credit × String) × List String}
    (hbucket : bucket ∈ (ladder.planOf focus shown folded mode keep).buckets)
    {gone node : String} (hgone : gone ∈ bucket.2)
    (hstateful : ladder.statefulMasters gone = true)
    (hnode : node ∈ (ladder.planOf focus shown folded mode keep).masters)
    (hfree : node ∉ (pinnedMasters focus).1) : ladder.statefulMasters node = true := by
  obtain ⟨key, -, rfl⟩ := List.mem_map.mp hbucket
  have hrest := List.mem_of_mem_filter hgone
  have hkept := (List.mem_append.mp hnode).resolve_left hfree
  have hsorted := candidates_sorted ladder focus shown
  rw [← List.take_append_drop keep (ladder.candidates focus shown)] at hsorted
  exact stateful_of_priority ((List.pairwise_append.mp hsorted).2.2 node hkept gone hrest)
    hstateful

end Ladder

/-! ## Requests -/

/-- The plan of a ladder under a focus is the finest that the budget admits: the first view that
admits any, the longest prefix of its candidates, and masters of state fold last. -/
structure FinestFold (ladder : Ladder) (budget : Budget) (focus : Option Focus)
    (plan : MasterPlan) (view : Ladder.View) (keep : Nat) : Prop where
  form : plan = ladder.planOf focus view.1.1 view.1.2 view.2 keep
  first : ∃ before after, ladder.views budget focus = before ++ view :: after ∧
    ∀ finer ∈ before, ¬ladder.Admits budget focus finer
  /-- The levels go from the finest to the coarsest. -/
  levels : (ladder.creditLevels budget focus).Pairwise fun finer coarser =>
    coarser.1.Sublist finer.1 ∧ finer.2 <:+ coarser.2
  /-- The candidates are the unfocused masters of the drawn credits, in their priority. -/
  candidates : ∀ masterId, masterId ∈ ladder.candidates focus view.1.1 ↔
    masterId ∈ ladder.masterIds ∧ ladder.masterCredit masterId ∈ view.1.1 ∧
      masterId ∉ (pinnedMasters focus).1 ++ (pinnedMasters focus).2
  priority : (ladder.candidates focus view.1.1).Pairwise fun a b =>
    ladder.masterPriority a ≤ ladder.masterPriority b
  within : keep ≤ (ladder.candidates focus view.1.1).length
  longest : ∀ other ≤ (ladder.candidates focus view.1.1).length,
    (ladder.PrefixFits budget focus view other ↔ other ≤ keep)
  stateful : ∀ bucket ∈ plan.buckets, ∀ gone ∈ bucket.2, ladder.statefulMasters gone = true →
    ∀ node ∈ plan.masters, node ∉ (pinnedMasters focus).1 → ladder.statefulMasters node = true

/-- The plan that `fit` returns is the finest that the budget admits. -/
theorem fit_finest {ladder : Ladder} {budget : Budget} {focus : Option Focus} {plan : MasterPlan}
    (hladder : ladder.WellFormed) (hfit : ladder.fit budget focus = .ok plan) :
    ∃ view keep, FinestFold ladder budget focus plan view keep := by
  obtain ⟨before, view, after, hviews, hplan, hbefore⟩ := Ladder.fit_first hfit
  obtain ⟨keep, hkeep, hform, hlongest⟩ := Ladder.plan_masters_longest hplan
  refine ⟨view, keep, ?_⟩
  exact
    { form := hform
      first := ⟨before, after, hviews, hbefore⟩
      levels := Ladder.credit_levels_coarsen _ _ _
      candidates := fun _ => Ladder.mem_candidates_iff hladder
      priority := Ladder.candidates_sorted _ _ _
      within := hkeep
      longest := hlongest
      stateful := by
        subst hform
        intro bucket hbucket gone hgone hstateful node hnode hfree
        exact Ladder.stateful_fold_last hbucket hgone hstateful hnode hfree }

/-- Under a validated budget and for every resolved focus, `fit` returns the plan of the finest
view that admits any, and the plan keeps the longest prefix of the candidates of that view. -/
theorem finest_fold (catalog : Catalog) (marks : Option Marks) (budget : Budget) (page : Nat)
    (focus : Option String) (found : Option Focus) (hbudget : budget.validate = .ok ())
    (hresolves : Resolves (Ladder.build catalog marks) budget page focus found) :
    ∃ plan view keep, (Ladder.build catalog marks).fit budget found = .ok plan ∧
      FinestFold (Ladder.build catalog marks) budget found plan view keep := by
  have hladder := build_well_formed catalog marks
  have hfocus := hresolves.sound hladder
  obtain ⟨level, hlevel, hcoarsest⟩ :=
    Ladder.coarsest_fits hladder (Budget.floors_of_validate hbudget) hfocus
  obtain ⟨plan, hfit⟩ := Ladder.fit_succeeds hlevel hcoarsest
  obtain ⟨view, keep, hfinest⟩ := fit_finest hladder hfit
  exact ⟨plan, view, keep, hfit, hfinest⟩

/-- At the least budget a long career keeps three of its masters and folds the others. -/
theorem career_folds_finest : ∃ plan view keep,
    (Ladder.build longCareer none).fit tightest none = .ok plan ∧
    FinestFold (Ladder.build longCareer none) tightest none plan view keep ∧
    plan.masters.length = 3 ∧ plan.buckets.map (fun bucket => bucket.2.length) = [5] := by
  obtain ⟨plan, view, keep, hfit, hfinest⟩ :=
    finest_fold longCareer none tightest 0 none none rfl .none
  obtain ⟨found, hfound, hmasters, hbuckets⟩ : ∃ plan,
      (Ladder.build longCareer none).fit tightest none = .ok plan ∧ plan.masters.length = 3 ∧
        plan.buckets.map (fun bucket => bucket.2.length) = [5] := ⟨_, rfl, rfl, rfl⟩
  obtain rfl : found = plan := Except.ok.inj (hfound.symm.trans hfit)
  exact ⟨found, view, keep, hfit, hfinest, hmasters, hbuckets⟩

end CatalogApi.Strata
