import CatalogApi.Strata.FinestFold
import CatalogApi.Strata.Undrawn

/-!
# When a coarse aggregate stands beside a focus

`counts_iff` says which aggregates miscount by the plan and the strategy of the response. Both are
the first that fit, so the condition can be read off what the views and the strategies cost:
`coarse_masters_iff` and `coarse_releases_iff` do so for the two planes, and `counts_by_costs` for
a request.
-/

namespace CatalogApi.Strata

namespace Ladder

variable {ladder : Ladder} {budget : Budget} {focus : Option Focus} {plan : MasterPlan}

/-! ## The master plane -/

/-- The masters of a credit fold into one bucket: each finer view, the decades of the same credits
among them, is over the budget whatever it keeps, and with a master of the credit kept this view is
over the budget too. -/
def CoarseMasters (ladder : Ladder) (budget : Budget) (focus : Option Focus) (credit : Credit) :
    Prop :=
  ∃ before level after, ladder.views budget focus = before ++ (level, .all) :: after ∧
    (∀ finer ∈ before, ¬ladder.Admits budget focus finer) ∧
    ladder.Admits budget focus (level, .all) ∧
    ∃ place masterId, (ladder.candidates focus level.1)[place]? = some masterId ∧
      ladder.masterCredit masterId = credit ∧
      ¬ladder.PrefixFits budget focus (level, .all) (place + 1)

/-- The first place of a list with a property is one place. -/
theorem first_place_unique {α : Type} {p : α → Prop} {before before' after after' : List α}
    {a a' : α} (h : before ++ a :: after = before' ++ a' :: after') (hbefore : ∀ x ∈ before, ¬p x)
    (hbefore' : ∀ x ∈ before', ¬p x) (ha : p a) (ha' : p a') : a = a' := by
  induction before generalizing before' with
  | nil =>
      cases before' with
      | nil => exact (List.cons.inj h).1
      | cons x before' =>
          obtain ⟨rfl, -⟩ := List.cons.inj h
          exact absurd ha (hbefore' a List.mem_cons_self)
  | cons x before ih =>
      cases before' with
      | nil =>
          obtain ⟨rfl, -⟩ := List.cons.inj h
          exact absurd ha' (hbefore x List.mem_cons_self)
      | cons x' before' =>
          exact ih (List.cons.inj h).2 (fun y hy => hbefore y (List.mem_cons_of_mem _ hy))
            fun y hy => hbefore' y (List.mem_cons_of_mem _ hy)

theorem bucket_all_iff {mode : FoldMode} {masterId : String} {credit : Credit} :
    ladder.bucket mode masterId = (credit, all) ↔
      mode = .all ∧ ladder.masterCredit masterId = credit := by
  cases mode with
  | decade =>
      constructor
      · intro h
        exact absurd (Prod.mk.inj h).2 (decade_ne_all _)
      · rintro ⟨h, -⟩
        cases h
  | all =>
      constructor
      · intro h
        exact ⟨rfl, (Prod.mk.inj h).1⟩
      · rintro ⟨-, rfl⟩
        rfl

/-- A view with a plan admits the number of candidates that the plan keeps. -/
theorem admits_of_finest {view : View} {keep : Nat}
    (h : FinestFold ladder budget focus plan view keep) : ladder.Admits budget focus view :=
  ⟨keep, h.within, (h.longest keep h.within).mpr (Nat.le_refl keep)⟩

/-- The finest plan folds masters of a credit into one bucket just when the costs of the views say
so. -/
theorem coarse_masters_iff {view : View} {keep : Nat}
    (h : FinestFold ladder budget focus plan view keep) (credit : Credit) :
    (credit, all) ∈ plan.buckets.map (·.1) ↔ ladder.CoarseMasters budget focus credit := by
  have hadmits := admits_of_finest h
  obtain ⟨before, after, hviews, hbefore⟩ := h.first
  have hbuckets : (credit, all) ∈ plan.buckets.map (·.1) ↔
      ∃ masterId ∈ (ladder.candidates focus view.1.1).drop keep,
        ladder.bucket view.2 masterId = (credit, all) := by
    rw [h.form, planOf, bucketed, List.map_map]
    show _ ∈ List.map id _ ↔ _
    rw [List.map_id, List.mem_eraseDups, List.mem_map]
  rw [hbuckets]
  constructor
  · rintro ⟨masterId, hmem, hbucket⟩
    obtain ⟨hmode, hcredit⟩ := bucket_all_iff.mp hbucket
    obtain ⟨place, hplace⟩ := List.mem_iff_getElem?.mp hmem
    rw [List.getElem?_drop] at hplace
    have hwithin := (List.getElem?_eq_some_iff.mp hplace).1
    have hview : view = (view.1, .all) := Prod.ext rfl hmode
    have hover : ¬ladder.PrefixFits budget focus view (keep + place + 1) := by
      rw [h.longest _ hwithin]
      omega
    rw [hview] at hviews hadmits hover
    exact ⟨before, view.1, after, hviews, hbefore, hadmits, keep + place, masterId, hplace, hcredit,
      hover⟩
  · rintro ⟨before', level, after', hviews', hbefore', hadmits', place, masterId, hplace, hcredit,
      hover⟩
    obtain rfl : view = (level, .all) :=
      first_place_unique (hviews.symm.trans hviews') hbefore hbefore' hadmits hadmits'
    have hwithin := (List.getElem?_eq_some_iff.mp hplace).1
    rw [h.longest _ hwithin] at hover
    refine ⟨masterId, List.mem_iff_getElem?.mpr ⟨place - keep, ?_⟩, bucket_all_iff.mpr ⟨rfl, hcredit⟩⟩
    rw [List.getElem?_drop, Nat.add_sub_cancel' (by omega)]
    exact hplace

/-! ## The release plane -/

/-- The entries of the release plane besides the focus, under a strategy. -/
def openCost (ladder : Ladder) (focus : Option Focus) (plan : MasterPlan) (strategy : Strategy) :
    Nat :=
  let folded := ladder.foldReleases (openMasters focus plan) (ladder.openLanes focus plan) strategy
  folded.1.length + folded.2.length

/-- The room that the focus leaves on the release plane. -/
def roomOf (budget : Budget) (focus : Option Focus) (plan : MasterPlan) : Int :=
  budget.releases - (fixedNodes focus plan).length - (fixedAggs focus plan).length

/-- The open releases of a lane fold whole: neither all open releases nor the fold by decades fits
the room, and a release of the lane is not kept, the stateful ones being kept where a coarser fold
that keeps them fits. -/
def CoarseReleases (ladder : Ladder) (budget : Budget) (focus : Option Focus) (plan : MasterPlan)
    (lane : Credit) : Prop :=
  roomOf budget focus plan <
      (ladder.everything (openMasters focus plan) (ladder.openLanes focus plan)).length ∧
    roomOf budget focus plan < ladder.openCost focus plan ⟨true, true, true⟩ ∧
    ∃ item ∈ ladder.openItems focus lane, item.stateful = true →
      roomOf budget focus plan < ladder.openCost focus plan ⟨true, true, false⟩ ∧
        roomOf budget focus plan < ladder.openCost focus plan ⟨false, true, false⟩

/-- The coarser folds come last: they keep the stateful releases where one that does fits. -/
theorem find_coarser (fits : Strategy → Bool) (hlast : fits ⟨false, false, false⟩ = true)
    (hdecade : fits ⟨true, true, true⟩ = false) :
    ∃ strategy, strategies.find? fits = some strategy ∧ strategy.byDecade = false ∧
      (strategy.keepStateful = true ↔
        fits ⟨true, true, false⟩ = true ∨ fits ⟨false, true, false⟩ = true) := by
  rw [strategies, List.find?_cons, hdecade, List.find?_cons]
  cases horiginal : fits ⟨true, true, false⟩ with
  | true => exact ⟨_, rfl, rfl, by simp⟩
  | false =>
      rw [List.find?_cons]
      cases hstateful : fits ⟨false, true, false⟩ with
      | true => exact ⟨_, rfl, rfl, by simp⟩
      | false =>
          rw [List.find?_cons, hlast]
          exact ⟨_, rfl, rfl, by simp⟩

/-- The strategy of a plan folds the open releases of a lane whole just when the costs of the
strategies say so. -/
theorem coarse_releases_iff (lane : Credit) :
    (∃ strategy, ladder.outcomeOf budget focus plan = some strategy ∧ strategy.byDecade = false ∧
      ∃ item ∈ ladder.openItems focus lane, ¬(strategy.keepStateful ∧ item.stateful)) ↔
      ladder.CoarseReleases budget focus plan lane := by
  have hfits : ∀ strategy, strategy.keepStateful = true →
      (taken (roomOf budget focus plan) (ladder.foldReleases (openMasters focus plan)
        (ladder.openLanes focus plan)) strategy = true ↔
          (ladder.openCost focus plan strategy : Int) ≤ roomOf budget focus plan) := by
    intro strategy hstateful
    simp [taken, openCost, hstateful]
  have houtcome : ladder.outcomeOf budget focus plan =
      if ((ladder.everything (openMasters focus plan)
        (ladder.openLanes focus plan)).length : Int) ≤ roomOf budget focus plan then none
      else strategies.find? (taken (roomOf budget focus plan)
        (ladder.foldReleases (openMasters focus plan) (ladder.openLanes focus plan))) := rfl
  rw [houtcome, CoarseReleases]
  by_cases hall : ((ladder.everything (openMasters focus plan)
      (ladder.openLanes focus plan)).length : Int) ≤ roomOf budget focus plan
  · -- every open release is drawn
    rw [if_pos hall]
    constructor
    · rintro ⟨_, h, -⟩
      cases h
    · rintro ⟨h, -⟩
      exact absurd hall (Int.not_le.mpr h)
  rw [if_neg hall]
  by_cases hdecade : (ladder.openCost focus plan ⟨true, true, true⟩ : Int) ≤ roomOf budget focus plan
  · -- the first strategy folds by decades
    rw [strategies, List.find?_cons, (hfits _ rfl).mpr hdecade]
    constructor
    · rintro ⟨strategy, h, hwhole, -⟩
      obtain rfl := Option.some.inj h
      cases hwhole
    · rintro ⟨-, h, -⟩
      exact absurd hdecade (Int.not_le.mpr h)
  obtain ⟨strategy, hfind, hwhole, hkeeps⟩ := find_coarser _ (by simp [taken])
    (Bool.eq_false_iff.mpr ((hfits _ rfl).not.mpr hdecade))
  rw [hfits _ rfl, hfits _ rfl] at hkeeps
  rw [hfind]
  have hkept : ∀ item : Item, ¬(strategy.keepStateful ∧ item.stateful) ↔
      (item.stateful = true →
        roomOf budget focus plan < ladder.openCost focus plan ⟨true, true, false⟩ ∧
          roomOf budget focus plan < ladder.openCost focus plan ⟨false, true, false⟩) := by
    intro item
    rw [hkeeps, ← Int.not_le, ← Int.not_le, ← not_or]
    tauto
  constructor
  · rintro ⟨found, hfound, -, item, hitem, hfree⟩
    obtain rfl := Option.some.inj hfound
    exact ⟨Int.not_le.mp hall, Int.not_le.mp hdecade, item, hitem, (hkept item).mp hfree⟩
  · rintro ⟨-, -, item, hitem, hcosts⟩
    exact ⟨strategy, rfl, hwhole, item, hitem, (hkept item).mpr hcosts⟩

end Ladder

/-! ## Requests -/

/-- A coarse aggregate beside the rest of a narrower focus, by what the views and the strategies
cost. -/
def CoarseByCosts (ladder : Ladder) (budget : Budget) (focus : Option Focus)
    (plan : MasterPlan) : Prop :=
  (∃ found credit label members, focus = some found ∧
    found.target = .bucket credit label members ∧ found.offPage members ≠ [] ∧
    ladder.CoarseMasters budget focus credit) ∨
  ∃ found lane label members, focus = some found ∧
    found.target = .lane lane (some label) members ∧ found.offPage members ≠ [] ∧
    ladder.CoarseReleases budget focus plan lane

theorem coarse_by_costs_iff {ladder : Ladder} {budget : Budget} {focus : Option Focus}
    {plan : MasterPlan} {view : Ladder.View} {keep : Nat}
    (h : FinestFold ladder budget focus plan view keep) :
    CoarseBeside ladder budget focus plan ↔ CoarseByCosts ladder budget focus plan := by
  refine or_congr ?_ ?_
  · simp only [Ladder.coarse_masters_iff h]
  · simp only [← Ladder.coarse_releases_iff]
    constructor
    · rintro ⟨found, lane, label, members, strategy, hfound, htarget, hoff, hstrategy⟩
      exact ⟨found, lane, label, members, hfound, htarget, hoff, strategy, hstrategy⟩
    · rintro ⟨found, lane, label, members, hfound, htarget, hoff, strategy, hstrategy⟩
      exact ⟨found, lane, label, members, strategy, hfound, htarget, hoff, hstrategy⟩

/-- The counts of a response are those of the undrawn members of the sets its aggregates name, just
when what the views and the strategies cost puts no coarse aggregate beside the rest of a narrower
focus. The plan is the finest that the budget admits. -/
theorem counts_by_costs {catalog : Catalog} {marks : Option Marks} {budget : Budget}
    {focus : Option String} {page : Nat} {payload : Payload} {found : Option Focus}
    (hcatalog : catalog.Valid) (hbudget : budget.validate = .ok ())
    (hresolves : Resolves (Ladder.build catalog marks) budget page focus found)
    (hbuild : buildStrata catalog budget focus page marks = .ok payload) :
    ∃ plan view keep, FinestFold (Ladder.build catalog marks) budget found plan view keep ∧
      (payload.AllCountUndrawn (Ladder.build catalog marks) budget ↔
        ¬CoarseByCosts (Ladder.build catalog marks) budget found plan) := by
  obtain ⟨plan, hfit, hcounts⟩ := counts_of_plan hcatalog hbudget hresolves hbuild
  obtain ⟨view, keep, hfinest⟩ := fit_finest (build_well_formed catalog marks) hfit
  exact ⟨plan, view, keep, hfinest, hcounts.trans (not_congr (coarse_by_costs_iff hfinest))⟩

end CatalogApi.Strata
