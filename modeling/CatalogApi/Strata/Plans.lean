import CatalogApi.Strata.Cursors
import CatalogApi.Strata.Fold

/-!
# What the fold plans

The greedy loop of `_plan_masters` keeps a prefix of its candidates, and the counter it carries
holds the buckets of the others (`fold_masters_keeps`). From it follows the form of every plan
(`plan_masters_form`) and of the plan `fit` returns (`fit_form`).
-/

namespace CatalogApi.Strata

open ByKey

/-! ## The counter of buckets -/

section Buckets

variable {α κ : Type} [BEq κ] [LawfulBEq κ] (bucket : α → κ)

/-- The keys of a counter after the elements are counted into it. -/
def countInto (keys : List κ) (elements : List α) : List κ :=
  elements.foldl (fun keys element => keys.insert (bucket element)) keys

theorem count_into_nodup {keys : List κ} (hkeys : keys.Nodup) (elements : List α) :
    (countInto bucket keys elements).Nodup := by
  induction elements generalizing keys with
  | nil => exact hkeys
  | cons element elements ih => exact ih hkeys.insert

theorem mem_count_into {keys : List κ} {elements : List α} {key : κ} :
    key ∈ countInto bucket keys elements ↔ key ∈ keys ∨ key ∈ elements.map bucket := by
  induction elements generalizing keys with
  | nil => simp [countInto]
  | cons element elements ih =>
      have hstep : countInto bucket keys (element :: elements) =
          countInto bucket (keys.insert (bucket element)) elements := rfl
      rw [hstep, ih, List.mem_insert_iff, List.map_cons, List.mem_cons]
      constructor
      · rintro ((h | h) | h)
        · exact Or.inr (Or.inl h)
        · exact Or.inl h
        · exact Or.inr (Or.inr h)
      · rintro (h | h | h)
        · exact Or.inl (Or.inr h)
        · exact Or.inl (Or.inl h)
        · exact Or.inr h

/-- A counter has one key for each bucket of its elements, in whatever order they came. -/
theorem length_count_into {elements elements' : List α} (h : elements.Perm elements') :
    (countInto bucket [] elements).length = (elements'.map bucket).eraseDups.length := by
  refine List.Perm.length_eq ((List.perm_ext_iff_of_nodup
    (count_into_nodup bucket List.nodup_nil _) (nodup_erase_dups _)).mpr fun key => ?_)
  rw [mem_count_into, List.mem_eraseDups, (h.map bucket).mem_iff]
  simp

end Buckets

namespace Ladder

variable {ladder : Ladder} {budget : Budget} {focus : Option Focus}

/-- The loop stops at a prefix of the candidates, empty or within the budget. -/
theorem fold_masters_keeps {fixedM fixedR : Nat} {bucket : String → Credit × String}
    {kept kept' : List String} {buckets buckets' : List (Credit × String)}
    (h : foldMasters budget fixedM fixedR bucket kept buckets = (kept', buckets')) :
    ∃ folded, kept = folded ++ kept' ∧ buckets' = countInto bucket buckets folded ∧
      (kept' = [] ∨ ¬overBudget budget fixedM fixedR kept'.length buckets'.length) := by
  induction kept generalizing buckets with
  | nil =>
      obtain ⟨rfl, rfl⟩ := Prod.mk.inj h
      exact ⟨[], rfl, rfl, Or.inl rfl⟩
  | cons masterId kept ih =>
      rw [foldMasters] at h
      by_cases hover : overBudget budget fixedM fixedR (kept.length + 1) buckets.length
      · rw [if_pos hover] at h
        obtain ⟨folded, hkept, hbuckets, hstop⟩ := ih h
        refine ⟨masterId :: folded, ?_, hbuckets, hstop⟩
        rw [List.cons_append, ← hkept]
      · rw [if_neg hover] at h
        obtain ⟨rfl, rfl⟩ := Prod.mk.inj h
        exact ⟨[], rfl, rfl, Or.inr hover⟩

/-! ## The form of a plan -/

/-- The lanes of the drawn credits. -/
def lanesOf (ladder : Ladder) (shown : List Credit) : List Credit :=
  shown.filter fun credit => ladder.masterless credit ≠ []

/-- The entries of the master plane that do not fold. -/
def fixedMasters (ladder : Ladder) (focus : Option Focus) (shown : List Credit) : Nat :=
  (pinnedMasters focus).1.length + present (pinnedMasters focus).2 +
    (ladder.lanesOf shown).length

/-- The fewest release-plane entries besides those of the kept masters. -/
def fixedReleases (ladder : Ladder) (focus : Option Focus) (shown : List Credit) : Nat :=
  ladder.releaseFloor focus (pinnedMasters focus).1 (ladder.lanesOf shown)

/-- The plan that keeps the first `keep` candidates. -/
def planOf (ladder : Ladder) (focus : Option Focus) (shown folded : List Credit) (mode : FoldMode)
    (keep : Nat) : MasterPlan :=
  { shownCredits := shown
    foldedCredits := folded
    masters := (pinnedMasters focus).1 ++ (ladder.candidates focus shown).take keep
    buckets := bucketed (ladder.bucket mode) ((ladder.candidates focus shown).drop keep)
    remainder := (pinnedMasters focus).2
    lanes := ladder.lanesOf shown }

/-- The plan that keeps `keep` candidates is within the budget. -/
def FitsAt (ladder : Ladder) (budget : Budget) (focus : Option Focus) (shown folded : List Credit)
    (mode : FoldMode) (keep : Nat) : Prop :=
  ladder.fixedMasters focus shown + keep + (ladder.planOf focus shown folded mode keep).buckets.length
      ≤ budget.masters ∧
    ladder.fixedReleases focus shown + keep ≤ budget.releases

theorem length_bucketed (bucket : String → Credit × String) (masters : List String) :
    (bucketed bucket masters).length = (masters.map bucket).eraseDups.length := by
  rw [bucketed, List.length_map]

/-- `_plan_masters` over its named parts. -/
theorem plan_masters_eq (ladder : Ladder) (budget : Budget) (focus : Option Focus)
    (shown folded : List Credit) (mode : FoldMode) :
    ladder.planMasters budget focus shown folded mode =
      let result := foldMasters budget (ladder.fixedMasters focus shown)
        (ladder.fixedReleases focus shown) (ladder.bucket mode)
        (ladder.candidates focus shown).reverse []
      if overBudget budget (ladder.fixedMasters focus shown) (ladder.fixedReleases focus shown)
          result.1.length result.2.length then none
      else some
        { shownCredits := shown, foldedCredits := folded,
          masters := (pinnedMasters focus).1 ++ result.1.reverse,
          buckets := bucketed (ladder.bucket mode)
            ((ladder.candidates focus shown).drop result.1.length),
          remainder := (pinnedMasters focus).2, lanes := ladder.lanesOf shown } :=
  rfl

/-- `_plan_masters` keeps a prefix of the candidates within the budget, and it fails only when
keeping none of them is over the budget. -/
theorem plan_masters_form (ladder : Ladder) (budget : Budget) (focus : Option Focus)
    (shown folded : List Credit) (mode : FoldMode) :
    (∃ keep ≤ (ladder.candidates focus shown).length,
      ladder.planMasters budget focus shown folded mode =
        some (ladder.planOf focus shown folded mode keep) ∧
      ladder.FitsAt budget focus shown folded mode keep) ∨
    (ladder.planMasters budget focus shown folded mode = none ∧
      ¬ladder.FitsAt budget focus shown folded mode 0) := by
  rw [plan_masters_eq]
  cases hfold : foldMasters budget (ladder.fixedMasters focus shown)
    (ladder.fixedReleases focus shown) (ladder.bucket mode)
    (ladder.candidates focus shown).reverse [] with
  | mk kept buckets =>
      obtain ⟨out, hsplit, hbuckets, hstop⟩ := fold_masters_keeps hfold
      -- the candidates are the kept ones followed by those folded, in their order
      have horder : ladder.candidates focus shown = kept.reverse ++ out.reverse := by
        rw [← List.reverse_append, ← hsplit, List.reverse_reverse]
      have htake : (ladder.candidates focus shown).take kept.length = kept.reverse := by
        rw [horder, ← List.length_reverse, List.take_left]
      have hdrop : (ladder.candidates focus shown).drop kept.length = out.reverse := by
        rw [horder, ← List.length_reverse, List.drop_left]
      have hcount : buckets.length =
          (ladder.planOf focus shown folded mode kept.length).buckets.length := by
        rw [hbuckets, planOf, hdrop, length_bucketed]
        exact length_count_into _ (List.reverse_perm out).symm
      dsimp only
      by_cases hover : overBudget budget (ladder.fixedMasters focus shown)
        (ladder.fixedReleases focus shown) kept.length buckets.length
      · rw [if_pos hover]
        refine Or.inr ⟨rfl, fun hfits => ?_⟩
        have hnil : kept = [] := hstop.resolve_right (not_not.mpr hover)
        rw [hnil, List.length_nil] at hcount
        rw [hnil, List.length_nil, hcount] at hover
        rcases hover with hover | hover
        · exact absurd hfits.1 (Nat.not_le.mpr hover)
        · exact absurd hfits.2 (Nat.not_le.mpr hover)
      · rw [if_neg hover]
        refine Or.inl ⟨kept.length, ?_, ?_, ?_⟩
        · rw [horder, List.length_append, List.length_reverse]
          exact Nat.le_add_right _ _
        · rw [planOf, htake]
        · rw [overBudget, not_or, Nat.not_lt, Nat.not_lt, hcount] at hover
          exact hover

/-! ## The credit levels -/

/-- A focus of the view, when there is one, is sound. -/
def FocusSound (ladder : Ladder) (budget : Budget) (focus : Option Focus) : Prop :=
  ∀ found, focus = some found → found.Sound ladder budget

theorem focus_sound_none : ladder.FocusSound budget none :=
  fun _ h => by cases h

theorem focus_sound_some {found : Focus} (h : found.Sound ladder budget) :
    ladder.FocusSound budget (some found) :=
  fun _ heq => Option.some.inj heq ▸ h

theorem target_credit_ordered (hladder : ladder.WellFormed) {target : Target}
    (htarget : target.Sound ladder) {credit : Credit} (h : target.credit = some credit) :
    credit ∈ ladder.creditOrder := by
  cases target with
  | others members => cases h
  | bucket focused label members =>
      obtain rfl := Option.some.inj h
      obtain ⟨rfl, hmembers⟩ := htarget
      obtain ⟨masterId, hmem⟩ := List.exists_mem_of_ne_nil _ hmembers
      exact hladder.masters_ordered (List.mem_of_mem_filter hmem)
  | pressings focused masterId members =>
      obtain rfl := Option.some.inj h
      exact hladder.masters_ordered (hladder.mem_masters.mpr ⟨htarget.1, htarget.2.1.symm⟩)
  | lane focused label members =>
      obtain rfl := Option.some.inj h
      obtain ⟨rfl, hmembers⟩ := htarget
      obtain ⟨item, hmem⟩ := List.exists_mem_of_ne_nil _ hmembers
      cases label with
      | none => exact hladder.lane_ordered hmem
      | some label => exact hladder.lane_ordered (List.mem_of_mem_filter hmem)

theorem root_ordered (hladder : ladder.WellFormed) : ladder.root ∈ ladder.creditOrder := by
  rw [hladder.order_root]
  exact List.mem_cons_self

/-- The credits every level draws are credits of the order, one or two of them. -/
theorem base_credits_ordered (hladder : ladder.WellFormed)
    (hfocus : ladder.FocusSound budget focus) :
    (∀ credit ∈ ladder.baseCredits focus, credit ∈ ladder.creditOrder) ∧
      (ladder.baseCredits focus).Nodup ∧ (ladder.baseCredits focus).length ≤ 2 ∧
      ladder.root ∈ ladder.baseCredits focus := by
  have hroot := root_ordered hladder
  unfold baseCredits
  cases hcredit : focus.bind (·.target.credit) with
  | none => simp [hroot]
  | some credit =>
      obtain ⟨found, rfl, htarget⟩ := Option.bind_eq_some_iff.mp hcredit
      have hordered := target_credit_ordered hladder (hfocus found rfl).target htarget
      dsimp only
      by_cases heq : credit = ladder.root
      · rw [if_pos heq]
        simp [hroot]
      · rw [if_neg heq]
        simp [hroot, hordered, Ne.symm heq]

/-- What a level of the credit plane keeps: the credits fall apart into the drawn and the folded
ones, the root and the focused credit are drawn, and the plane is within the budget. -/
structure LevelSound (ladder : Ladder) (budget : Budget) (focus : Option Focus)
    (level : List Credit × List Credit) : Prop where
  split : (level.1 ++ level.2).Perm ladder.creditOrder
  base : ∀ credit ∈ ladder.baseCredits focus, credit ∈ level.1
  fits : level.1.length + present level.2 ≤ budget.credits

/-- The credits of a level besides the folded ones are the base and the first of the rest. -/
theorem level_of_shown (hladder : ladder.WellFormed) (hfocus : ladder.FocusSound budget focus)
    (extra : Nat) :
    (ladder.levelOf focus extra).1.Perm (ladder.baseCredits focus ++
      (ladder.creditOrder.filter fun credit => credit ∉ ladder.baseCredits focus).take extra) := by
  obtain ⟨hordered, hnodup, -, -⟩ := base_credits_ordered hladder hfocus
  have hrest : (ladder.creditOrder.filter fun credit =>
      credit ∉ ladder.baseCredits focus).Nodup := hladder.order_nodup.filter _
  refine (List.perm_ext_iff_of_nodup (hladder.order_nodup.filter _) ?_).mpr fun credit => ?_
  · refine List.nodup_append.mpr ⟨hnodup, hrest.sublist (List.take_sublist _ _), ?_⟩
    rintro credit hbase other hother rfl
    have hmem := List.mem_of_mem_take hother
    simp only [List.mem_filter, decide_eq_true_eq] at hmem
    exact hmem.2 hbase
  · simp only [List.mem_filter, decide_eq_true_eq, List.mem_append]
    constructor
    · exact fun h => h.2
    · rintro (h | h)
      · exact ⟨hordered credit h, Or.inl h⟩
      · exact ⟨(List.mem_filter.mp (List.mem_of_mem_take h)).1, Or.inr h⟩

theorem level_of_split (hladder : ladder.WellFormed) (hfocus : ladder.FocusSound budget focus)
    (extra : Nat) :
    ((ladder.levelOf focus extra).1 ++ (ladder.levelOf focus extra).2).Perm
      ladder.creditOrder := by
  obtain ⟨hordered, hnodup, -, -⟩ := base_credits_ordered hladder hfocus
  refine ((level_of_shown hladder hfocus extra).append_right _).trans ?_
  rw [levelOf, List.append_assoc, List.take_append_drop]
  refine (List.perm_ext_iff_of_nodup ?_ hladder.order_nodup).mpr fun credit => ?_
  · refine List.nodup_append.mpr ⟨hnodup, hladder.order_nodup.filter _, ?_⟩
    rintro credit hbase other hother rfl
    simp only [List.mem_filter, decide_eq_true_eq] at hother
    exact hother.2 hbase
  · simp only [List.mem_append, List.mem_filter, decide_eq_true_eq]
    constructor
    · rintro (h | h)
      · exact hordered credit h
      · exact h.1
    · intro h
      by_cases hbase : credit ∈ ladder.baseCredits focus
      · exact Or.inl hbase
      · exact Or.inr ⟨h, hbase⟩

/-- The levels of a view that is not on the credits beyond the root. -/
theorem credit_levels_eq (h : onOthers focus = none) :
    ladder.creditLevels budget focus =
      let base := ladder.baseCredits focus
      let rest := ladder.creditOrder.filter fun credit => credit ∉ base
      let most : Int :=
        if base.length + rest.length ≤ budget.credits then rest.length
        else budget.credits - base.length - 1
      (List.range (most + 1).toNat).reverse.map (ladder.levelOf focus) := by
  unfold creditLevels
  rw [h]
  rfl

/-- The one level of a view on the credits beyond the root. -/
theorem credit_levels_others {found : Focus} {members : List Credit}
    (h : onOthers focus = some (found, members)) :
    ladder.creditLevels budget focus =
      [(ladder.root :: found.onPage members, found.offPage members)] := by
  unfold creditLevels
  rw [h]

theorem on_others_eq {found : Focus} {members : List Credit}
    (h : onOthers focus = some (found, members)) :
    focus = some found ∧ found.target = .others members := by
  unfold onOthers at h
  split at h
  · cases h
  · split at h
    · rename_i htarget
      obtain ⟨rfl, rfl⟩ := Prod.mk.inj (Option.some.inj h)
      exact ⟨rfl, htarget⟩
    · cases h

theorem present_le {α : Type} (items : List α) : present items ≤ 1 := by
  unfold present
  split
  · exact Nat.zero_le 1
  · exact Nat.le_refl 1

/-- A page within its set fits the room with its rest, or fits the room without one alone. -/
theorem page_entries {α : Type} {members : List α} {page : Nat} {withoutRest withRest : Int}
    (hroom : 1 ≤ withRest)
    (hpage : page < Slices.pageCount members.length
      (pageSizeFor members.length withoutRest withRest)) :
    let size := pageSizeFor members.length withoutRest withRest
    (Slices.leftover members page size = [] ∧
        ((Slices.slice members page size).length : Int) ≤ withoutRest) ∨
      ((Slices.slice members page size).length : Int) ≤ withRest := by
  intro size
  have hlength := Slices.length_slice_le members page size
  by_cases hwhole : (members.length : Int) ≤ min (pageSize : Int) withoutRest
  · have hsize : size = members.length := if_pos hwhole
    refine Or.inl ⟨Slices.leftover_eq_nil (Nat.le_of_eq hsize.symm) hpage, ?_⟩
    have hle : (members.length : Int) ≤ withoutRest := le_trans hwhole (min_le_right _ _)
    omega
  · have hsize : size = (max 1 (min (pageSize : Int) withRest)).toNat := if_neg hwhole
    right
    have hle : max 1 (min (pageSize : Int) withRest) ≤ withRest :=
      max_le hroom (min_le_right _ _)
    omega

/-- Every level of a view is sound. -/
theorem credit_level_sound (hladder : ladder.WellFormed) (hbudget : budget.Floors)
    (hfocus : ladder.FocusSound budget focus) {level : List Credit × List Credit}
    (hlevel : level ∈ ladder.creditLevels budget focus) :
    ladder.LevelSound budget focus level := by
  have hcredits := hbudget.credits
  cases hothers : onOthers focus with
  | some found =>
      obtain ⟨found, members⟩ := found
      rw [credit_levels_others hothers, List.mem_singleton] at hlevel
      subst hlevel
      obtain ⟨rfl, htarget⟩ := on_others_eq hothers
      have hsound := hfocus found rfl
      have hmembers := hsound.target
      rw [htarget] at hmembers
      have hsize := hsound.size
      rw [htarget] at hsize
      have hpage := hsound.page
      rw [Focus.pages, htarget, hsize] at hpage
      refine ⟨?_, ?_, ?_⟩
      · rw [List.cons_append, hladder.order_root, ← hmembers.1]
        exact (Slices.slice_append_leftover members _ _).cons _
      · intro credit hcredit
        simp only [baseCredits, Option.bind_some, htarget, Target.credit,
          List.mem_singleton] at hcredit
        rw [hcredit]
        exact List.mem_cons_self
      · have hentries := page_entries (by omega) hpage
        have hrest := present_le (found.offPage members)
        rw [List.length_cons, Focus.onPage, Focus.offPage, hsize]
        rw [Focus.offPage, hsize] at hrest
        rcases hentries with ⟨hnil, hle⟩ | hle
        · have hnone : present (Slices.leftover members found.page
              (ladder.targetPageSize (.others members) budget)) = 0 := if_pos hnil
          simp only [targetPageSize] at hnone hle ⊢
          omega
        · simp only [targetPageSize] at hle hrest ⊢
          omega
  | none =>
      rw [credit_levels_eq hothers] at hlevel
      dsimp only at hlevel
      obtain ⟨extra, hextra, rfl⟩ := List.mem_map.mp hlevel
      rw [List.mem_reverse, List.mem_range] at hextra
      obtain ⟨hordered, hnodup, hlength, -⟩ := base_credits_ordered hladder hfocus
      refine ⟨level_of_split hladder hfocus extra, ?_, ?_⟩
      · intro credit hcredit
        rw [levelOf, List.mem_filter, decide_eq_true_eq]
        exact ⟨hordered credit hcredit, Or.inl hcredit⟩
      · rw [(level_of_shown hladder hfocus extra).length_eq, List.length_append, List.length_take]
        have hrest := present_le (ladder.levelOf focus extra).2
        by_cases hall : (ladder.baseCredits focus).length + (ladder.creditOrder.filter
            fun credit => credit ∉ ladder.baseCredits focus).length ≤ budget.credits
        · rw [if_pos hall] at hextra
          by_cases hfull : extra = (ladder.creditOrder.filter
            fun credit => credit ∉ ladder.baseCredits focus).length
          · have hnil : present (ladder.levelOf focus extra).2 = 0 :=
              if_pos (List.drop_eq_nil_of_le (Nat.le_of_eq hfull.symm))
            omega
          · omega
        · rw [if_neg hall] at hextra
          omega

/-- The coarsest level of a view that is not on the credits beyond the root. -/
theorem coarsest_level (hladder : ladder.WellFormed) (hbudget : budget.Floors)
    (hfocus : ladder.FocusSound budget focus) (hothers : onOthers focus = none) :
    ladder.levelOf focus 0 ∈ ladder.creditLevels budget focus ∧
      (ladder.levelOf focus 0).1.Perm (ladder.baseCredits focus) := by
  obtain ⟨-, -, hlength, -⟩ := base_credits_ordered hladder hfocus
  have hcredits := hbudget.credits
  constructor
  · rw [credit_levels_eq hothers]
    refine List.mem_map_of_mem ?_
    rw [List.mem_reverse, List.mem_range]
    split
    · omega
    · omega
  · have hshown := level_of_shown hladder hfocus 0
    rw [List.take_zero, List.append_nil] at hshown
    exact hshown

/-! ## The form of a view -/

/-- `fit` returns a plan of one of its levels, or fails when none of its levels has one. -/
theorem fit_form {plan : MasterPlan} (h : ladder.fit budget focus = .ok plan) :
    ∃ level ∈ ladder.creditLevels budget focus, ∃ mode,
      ladder.planMasters budget focus level.1 level.2 mode = some plan := by
  unfold fit at h
  dsimp only at h
  split at h
  · rename_i found hfound
    obtain rfl := Except.ok.inj h
    obtain ⟨view, hview, hplan⟩ := List.exists_of_findSome?_eq_some hfound
    obtain ⟨level, hlevel, hmodes⟩ := List.mem_flatMap.mp hview
    simp only [List.mem_cons, List.not_mem_nil, or_false] at hmodes
    rcases hmodes with rfl | rfl
    · exact ⟨level, hlevel, _, hplan⟩
    · exact ⟨level, hlevel, _, hplan⟩
  · cases h

/-- `fit` returns the plan that keeps the first candidates of one of its levels. -/
theorem fit_plan {plan : MasterPlan} (h : ladder.fit budget focus = .ok plan) :
    ∃ level ∈ ladder.creditLevels budget focus, ∃ mode keep,
      plan = ladder.planOf focus level.1 level.2 mode keep := by
  obtain ⟨level, hlevel, mode, hplan⟩ := fit_form h
  rcases ladder.plan_masters_form budget focus level.1 level.2 mode with
    ⟨keep, -, hform, -⟩ | ⟨hnone, -⟩
  · rw [hform, Option.some.injEq] at hplan
    exact ⟨level, hlevel, mode, keep, hplan.symm⟩
  · rw [hnone] at hplan
    cases hplan

/-- A level that can fold every candidate lets `fit` succeed. -/
theorem fit_succeeds {level : List Credit × List Credit}
    (hlevel : level ∈ ladder.creditLevels budget focus)
    (hfits : ladder.FitsAt budget focus level.1 level.2 .all 0) :
    ∃ plan, ladder.fit budget focus = .ok plan := by
  unfold fit
  dsimp only
  split
  · exact ⟨_, rfl⟩
  · rename_i hnone
    rw [List.findSome?_eq_none_iff] at hnone
    have hview : (level, FoldMode.all) ∈ (ladder.creditLevels budget focus).flatMap
        fun level => [(level, FoldMode.decade), (level, FoldMode.all)] :=
      List.mem_flatMap.mpr ⟨level, hlevel, List.mem_cons_of_mem _ (List.mem_singleton.mpr rfl)⟩
    have hplan := hnone _ hview
    rcases ladder.plan_masters_form budget focus level.1 level.2 .all with
      ⟨keep, -, hsome, -⟩ | ⟨-, hover⟩
    · rw [hsome] at hplan
      cases hplan
    · exact absurd hfits hover

end Ladder

end CatalogApi.Strata
