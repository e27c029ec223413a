import CatalogApi.Strata.Plans
import CatalogApi.Strata.Render

/-!
# Every view fits its budget

The page size of a focus leaves room for the coarsest fold of the rest of the view
(`coarsest_fits`), so `fit` finds a plan at every validated budget, and the release plane of the
plan fits because each strategy is bounded by the floors the plan was counted with
(`plan_releases_fits`). `strata_fits_budget` is the result for the whole request.
-/

namespace CatalogApi.Strata

open ByKey Slices

namespace Ladder

variable {ladder : Ladder} {budget : Budget} {focus : Option Focus}

/-! ## Counting lanes and buckets -/

theorem present_pos {α : Type} {items : List α} (h : items ≠ []) : present items = 1 :=
  if_neg h

/-- A sum over the kept elements is a sum over all of them with zero for the others. -/
theorem sum_map_filter {α : Type} (p : α → Prop) [DecidablePred p] (weight : α → Nat)
    (l : List α) :
    ((l.filter fun a => p a).map weight).sum = (l.map fun a => if p a then weight a else 0).sum := by
  induction l with
  | nil => rfl
  | cons a l ih =>
      rw [List.map_cons, List.sum_cons, ← ih]
      by_cases h : p a
      · simp [h]
      · simp [h]

/-- The elements with a non-empty group, counted. -/
theorem length_filter_present {α β : Type} (group : α → List β) [DecidablePred (group · ≠ [])]
    (l : List α) :
    (l.filter fun a => group a ≠ []).length = (l.map fun a => present (group a)).sum := by
  induction l with
  | nil => rfl
  | cons a l ih =>
      rw [List.map_cons, List.sum_cons, ← ih, present]
      by_cases h : group a = []
      · simp [h]
      · simp [h, Nat.add_comm]

theorem sum_le_length {α : Type} {weight : α → Nat} (hone : ∀ a, weight a ≤ 1) (l : List α) :
    (l.map weight).sum ≤ l.length := by
  induction l with
  | nil => exact Nat.le_refl 0
  | cons a l ih =>
      have hle := hone a
      rw [List.map_cons, List.sum_cons, List.length_cons]
      omega

theorem sum_present_le {α β : Type} (group : α → List β) (l : List α) :
    (l.map fun a => present (group a)).sum ≤ l.length :=
  sum_le_length (fun a => present_le (group a)) l

/-- The lanes of some credits, counted. -/
theorem length_lanes_of (ladder : Ladder) (shown : List Credit) :
    (ladder.lanesOf shown).length = (shown.map fun c => present (ladder.masterless c)).sum := by
  exact length_filter_present ladder.masterless shown

/-- The masters of a credit that a view may fold. -/
def foldable (ladder : Ladder) (focus : Option Focus) (credit : Credit) : List String :=
  (ladder.mastersByCredit credit).filter fun masterId =>
    masterId ∉ (pinnedMasters focus).1 ++ (pinnedMasters focus).2

theorem mem_candidates {shown : List Credit} {masterId : String} :
    masterId ∈ ladder.candidates focus shown ↔
      ∃ credit ∈ shown, masterId ∈ ladder.foldable focus credit := by
  have heq : ladder.candidates focus shown = sortBy ladder.masterPriority
      ((shown.flatMap ladder.mastersByCredit).filter fun masterId =>
        masterId ∉ (pinnedMasters focus).1 ++ (pinnedMasters focus).2) := rfl
  rw [heq, mem_sort_by, List.mem_filter, List.mem_flatMap]
  simp only [foldable, List.mem_filter]
  constructor
  · rintro ⟨⟨credit, hcredit, hmem⟩, hfree⟩
    exact ⟨credit, hcredit, hmem, hfree⟩
  · rintro ⟨credit, hcredit, hmem, hfree⟩
    exact ⟨⟨credit, hcredit, hmem⟩, hfree⟩

/-- Folded all together, a view has a bucket for each drawn credit with a master to fold. -/
theorem length_all_buckets (hladder : ladder.WellFormed) (focus : Option Focus)
    (shown folded : List Credit) :
    (ladder.planOf focus shown folded .all 0).buckets.length ≤
      (shown.map fun c => present (ladder.foldable focus c)).sum := by
  rw [planOf, length_bucketed, List.drop_zero]
  have hsub : ((ladder.candidates focus shown).map (ladder.bucket .all)).eraseDups ⊆
      (shown.filter fun c => ladder.foldable focus c ≠ []).map fun c => (c, all) := by
    intro key hkey
    rw [List.mem_eraseDups] at hkey
    obtain ⟨masterId, hcandidate, rfl⟩ := List.mem_map.mp hkey
    obtain ⟨credit, hcredit, hmem⟩ := mem_candidates.mp hcandidate
    have hunder := hladder.mem_masters.mp (List.mem_of_mem_filter hmem)
    refine List.mem_map.mpr ⟨credit, ?_, ?_⟩
    · rw [List.mem_filter, decide_eq_true_eq]
      exact ⟨hcredit, List.ne_nil_of_mem hmem⟩
    · rw [bucket, hunder.2]
  have hle := (List.subperm_of_subset (nodup_erase_dups _) hsub).length_le
  rw [List.length_map] at hle
  exact hle.trans (Nat.le_of_eq (length_filter_present (ladder.foldable focus) shown))

/-! ## The coarsest fold fits -/

/-- A view that pins at most one master folds into two entries a credit. -/
theorem fixed_masters_le (hladder : ladder.WellFormed) (shown folded : List Credit)
    (hremainder : (pinnedMasters focus).2 = []) :
    ladder.fixedMasters focus shown + 0 +
        (ladder.planOf focus shown folded .all 0).buckets.length ≤
      (pinnedMasters focus).1.length + 2 * shown.length := by
  have hbuckets := length_all_buckets hladder focus shown folded
  have hfoldable := sum_present_le (ladder.foldable focus) shown
  have hlanes := sum_present_le ladder.masterless shown
  rw [fixedMasters, length_lanes_of, hremainder]
  have hnone : present ([] : List String) = 0 := rfl
  omega

/-- The release floor of a view whose focus is on no lane. -/
theorem release_floor_lanes (hlane : ∀ lane, onLane focus lane = none) (pinned : List String)
    (shown : List Credit) :
    ladder.releaseFloor focus pinned (ladder.lanesOf shown) =
      (pinned.map (masterFloor focus)).sum +
        (shown.map fun c => present (ladder.masterless c)).sum := by
  have hone : ladder.laneFloor focus = fun _ => 1 := by
    funext lane
    rw [laneFloor, hlane lane]
  rw [releaseFloor, hone, List.map_const', List.sum_replicate_nat, Nat.mul_one, length_lanes_of]

theorem on_lane_none {found : Focus}
    (h : ∀ credit label members, found.target ≠ .lane credit label members) (lane : Credit) :
    onLane (some found) lane = none := by
  unfold onLane
  dsimp only
  split
  · rename_i htarget
    exact absurd htarget (h _ _ _)
  · rfl

theorem on_master_none {found : Focus}
    (h : ∀ credit masterId members, found.target ≠ .pressings credit masterId members)
    (masterId : String) : onMaster (some found) masterId = none := by
  unfold onMaster
  dsimp only
  split
  · rename_i htarget
    exact absurd htarget (h _ _ _)
  · rfl

/-- Without a focus the root alone is drawn. -/
theorem coarsest_fits_plain (hladder : ladder.WellFormed) (hbudget : budget.Floors)
    {shown folded : List Credit} (hshown : shown.length = 1) :
    ladder.FitsAt budget none shown folded .all 0 := by
  have hcredits := hbudget.credits
  have hmasters := hbudget.masters
  have hreleases := hbudget.releases
  have hfixed := fixed_masters_le hladder shown folded (rfl : (pinnedMasters none).2 = [])
  have hlanes := sum_present_le ladder.masterless shown
  have hfloor : ladder.fixedReleases none shown =
      (shown.map fun c => present (ladder.masterless c)).sum := by
    rw [fixedReleases, release_floor_lanes fun _ => rfl]
    exact Nat.zero_add _
  have hpinned : (pinnedMasters none).1.length = 0 := rfl
  constructor
  · omega
  · omega

/-- On the credits beyond the root a page of them is drawn. -/
theorem coarsest_fits_others (hladder : ladder.WellFormed) (hbudget : budget.Floors)
    {found : Focus} {members : List Credit} (htarget : found.target = .others members)
    {shown folded : List Credit} (hshown : shown.length ≤ budget.credits) :
    ladder.FitsAt budget (some found) shown folded .all 0 := by
  have hmasters := hbudget.masters
  have hreleases := hbudget.releases
  have hpinned : pinnedMasters (some found) = ([], []) := by rw [pinnedMasters, htarget]
  have hfixed := fixed_masters_le hladder shown folded
    (show (pinnedMasters (some found)).2 = [] by rw [hpinned])
  have hlanes := sum_present_le ladder.masterless shown
  have hfloor : ladder.fixedReleases (some found) shown =
      (shown.map fun c => present (ladder.masterless c)).sum := by
    rw [fixedReleases, hpinned, release_floor_lanes (on_lane_none (by simp [htarget]))]
    exact Nat.zero_add _
  rw [hpinned, List.length_nil] at hfixed
  constructor
  · omega
  · omega

/-- The lanes and the buckets of the drawn credits, when these are the credits of the focus. -/
theorem sum_focused_credits (credit : Credit) (weight : Credit → Nat) :
    ((ladder.focusedCredits credit).map weight).sum =
      if credit = ladder.root then weight credit else weight ladder.root + weight credit := by
  unfold focusedCredits
  by_cases h : credit = ladder.root
  · rw [if_pos h, if_pos h, h]
    simp
  · rw [if_neg h, if_neg h]
    simp

/-- On a bucket, the page size leaves room for the lanes and the other buckets. -/
theorem coarsest_fits_bucket (hladder : ladder.WellFormed) (hbudget : budget.Floors)
    {found : Focus} {credit : Credit} {label : String} {members : List String}
    (hsound : found.Sound ladder budget) (htarget : found.target = .bucket credit label members)
    {shown folded : List Credit} (hshown : shown.Perm (ladder.focusedCredits credit)) :
    ladder.FitsAt budget (some found) shown folded .all 0 := by
  have hcredits := hbudget.credits
  have hmasters := hbudget.masters
  have hreleases := hbudget.releases
  have hpinned : pinnedMasters (some found) = (found.onPage members, found.offPage members) := by
    rw [pinnedMasters, htarget]
  have hmem : ∀ masterId, masterId ∈ found.onPage members ++ found.offPage members ↔
      masterId ∈ members := fun masterId => (slice_append_leftover members _ _).mem_iff
  -- the masters of the credit that fold are those off the member set
  have hown : ladder.foldable (some found) credit =
      (ladder.mastersByCredit credit).filter fun masterId => masterId ∉ members := by
    rw [foldable, hpinned]
    exact List.filter_congr fun masterId _ => by rw [decide_eq_decide, hmem]
  -- at the coarsest fold a credit draws one bucket at most
  have hroot : present (ladder.foldable (some found) ladder.root) ≤
      present (ladder.mastersByCredit ladder.root) := by
    by_cases hnil : ladder.mastersByCredit ladder.root = []
    · rw [foldable, hnil]
      exact Nat.le_refl _
    · rw [present_pos hnil]
      exact present_le _
  have hlanes := length_lanes_of ladder shown
  rw [(hshown.map _).sum_nat, sum_focused_credits] at hlanes
  have hbuckets := length_all_buckets hladder (some found) shown folded
  rw [(hshown.map _).sum_nat, sum_focused_credits, hown] at hbuckets
  have hothers : (ladder.lanesOf shown).length +
      (ladder.planOf (some found) shown folded .all 0).buckets.length ≤
        ladder.otherMasterEntries credit members := by
    unfold otherMasterEntries
    by_cases h : credit = ladder.root
    · rw [if_pos h] at hlanes hbuckets ⊢
      omega
    · rw [if_neg h] at hlanes hbuckets ⊢
      omega
  have hentries : ladder.otherMasterEntries credit members ≤ 4 := by
    have h1 := present_le (ladder.masterless credit)
    have h2 := present_le ((ladder.mastersByCredit credit).filter fun masterId =>
      masterId ∉ members)
    have h3 := present_le (ladder.masterless ladder.root)
    have h4 := present_le (ladder.mastersByCredit ladder.root)
    unfold otherMasterEntries
    dsimp only
    split
    · omega
    · omega
  have hlanesLe := sum_present_le ladder.masterless shown
  rw [← length_lanes_of] at hlanesLe
  have hcount : shown.length ≤ 2 := by
    rw [hshown.length_eq, focusedCredits]
    split
    · exact Nat.le_succ 1
    · exact Nat.le_refl 2
  have hsize := hsound.size
  rw [htarget] at hsize
  have hpage := hsound.page
  rw [Focus.pages, htarget, hsize] at hpage
  have hlanesEq : ((ladder.focusedCredits credit).map fun c => present (ladder.masterless c)).sum =
      (ladder.lanesOf shown).length := by
    rw [sum_focused_credits, hlanes]
  simp only [targetPageSize, hlanesEq] at hsize hpage
  have hroom := page_entries (le_min (by omega) (by omega)) hpage
  rw [← hsize] at hroom
  have hrest := present_le (found.offPage members)
  have hfloor : ladder.fixedReleases (some found) shown =
      (found.onPage members).length + (ladder.lanesOf shown).length := by
    rw [fixedReleases, hpinned, release_floor_lanes (on_lane_none (by simp [htarget])),
      length_lanes_of]
    have hone : masterFloor (some found) = fun _ => 1 := by
      funext masterId
      rw [masterFloor, on_master_none (by simp [htarget])]
    rw [hone, List.map_const', List.sum_replicate_nat, Nat.mul_one]
  rw [FitsAt, fixedMasters, hpinned, hfloor]
  dsimp only
  rcases hroom with ⟨hnil, hle⟩ | hle
  · have hnone : present (found.offPage members) = 0 := if_pos hnil
    have hle' : ((found.onPage members).length : Int) ≤ _ := hle
    rw [le_min_iff] at hle'
    omega
  · have hle' : ((found.onPage members).length : Int) ≤ _ := hle
    rw [le_min_iff] at hle'
    omega

theorem base_credits_focused {found : Focus} {credit : Credit}
    (h : found.target.credit = some credit) :
    ladder.baseCredits (some found) = ladder.focusedCredits credit := by
  rw [baseCredits, Option.bind_some, h]
  rfl

theorem length_focused_credits (ladder : Ladder) (credit : Credit) :
    (ladder.focusedCredits credit).length ≤ 2 := by
  unfold focusedCredits
  split
  · exact Nat.le_succ 1
  · exact Nat.le_refl 2

/-- A page of a master or lane with its rest fits what the other lanes leave. -/
theorem release_page_entries {members : List Item} {found : Focus} {room : Int} (hroom : 2 ≤ room)
    (hsize : found.pageSize = pageSizeFor members.length room (room - 1))
    (hpage : found.page < pageCount members.length found.pageSize) :
    ((found.onPage members).length : Int) + present (found.offPage members) ≤ room := by
  rw [hsize] at hpage
  have hentries := page_entries (by omega) hpage
  rw [← hsize] at hentries
  have hrest := present_le (found.offPage members)
  rcases hentries with ⟨hnil, hle⟩ | hle
  · have hnone : present (found.offPage members) = 0 := if_pos hnil
    have hle' : ((found.onPage members).length : Int) ≤ room := hle
    omega
  · have hle' : ((found.onPage members).length : Int) ≤ room - 1 := hle
    omega

/-- On a master, its page, its rest and the lanes fit the release plane. -/
theorem coarsest_fits_pressings (hladder : ladder.WellFormed) (hbudget : budget.Floors)
    {found : Focus} {credit : Credit} {masterId : String} {members : List Item}
    (hsound : found.Sound ladder budget)
    (htarget : found.target = .pressings credit masterId members)
    {shown folded : List Credit} (hshown : shown.Perm (ladder.focusedCredits credit)) :
    ladder.FitsAt budget (some found) shown folded .all 0 := by
  have hcredits := hbudget.credits
  have hmasters := hbudget.masters
  have hreleases := hbudget.releases
  have hpinned : pinnedMasters (some found) = ([masterId], []) := by rw [pinnedMasters, htarget]
  have hfixed := fixed_masters_le hladder shown folded
    (show (pinnedMasters (some found)).2 = [] by rw [hpinned])
  have hcount := length_focused_credits ladder credit
  rw [← hshown.length_eq] at hcount
  have hlanesLe := sum_present_le ladder.masterless shown
  have hlanes : ladder.otherLanes credit none members =
      (shown.map fun c => present (ladder.masterless c)).sum := by
    rw [(hshown.map _).sum_nat, otherLanes]
    rfl
  have hsize := hsound.size
  rw [htarget] at hsize
  simp only [targetPageSize, hlanes] at hsize
  have hpage := hsound.page
  rw [Focus.pages, htarget] at hpage
  have hentries := release_page_entries (by omega) hsize hpage
  have hfloor : ladder.fixedReleases (some found) shown =
      (found.onPage members).length + present (found.offPage members) +
        (shown.map fun c => present (ladder.masterless c)).sum := by
    have hon : onMaster (some found) masterId = some (found, members) := by
      rw [onMaster]
      simp [htarget]
    rw [fixedReleases, hpinned, release_floor_lanes (on_lane_none (by simp [htarget]))]
    simp [masterFloor, hon]
  rw [hpinned, List.length_singleton] at hfixed
  constructor
  · omega
  · omega

/-- The floor of the drawn lanes with a focus on one of them. -/
theorem lane_floor_focused {found : Focus} {credit : Credit} {label : Option String}
    {members : List Item} (hsound : found.Sound ladder budget)
    (htarget : found.target = .lane credit label members)
    {shown : List Credit} (hshown : shown.Perm (ladder.focusedCredits credit)) :
    ((ladder.lanesOf shown).map (ladder.laneFloor (some found))).sum =
      (found.onPage members).length + present (found.offPage members) +
        ladder.otherLanes credit (some credit) members := by
  have hmembers := hsound.target
  rw [htarget] at hmembers
  have hlane : ladder.masterless credit ≠ [] := by
    obtain ⟨item, hitem⟩ := List.exists_mem_of_ne_nil _ hmembers.2
    rw [hmembers.1] at hitem
    cases label with
    | none => exact List.ne_nil_of_mem hitem
    | some label => exact List.ne_nil_of_mem (List.mem_of_mem_filter hitem)
  have hon : onLane (some found) credit = some (found, label, members) := by
    rw [onLane]
    simp [htarget]
  have hoff : ∀ other, credit ≠ other → onLane (some found) other = none := by
    intro other hne
    rw [onLane]
    simp [htarget, hne]
  rw [lanesOf, sum_map_filter (fun c => ladder.masterless c ≠ []), (hshown.map _).sum_nat,
    sum_focused_credits, otherLanes, sum_focused_credits]
  by_cases hroot : credit = ladder.root
  · rw [if_pos hroot, if_pos hroot, if_pos hlane, if_pos rfl, laneFloor, hon]
  · rw [if_neg hroot, if_neg hroot, if_pos hlane, if_pos rfl,
      if_neg fun h => hroot (Option.some.inj h), laneFloor, laneFloor, hon, hoff _ hroot]
    by_cases hnil : ladder.masterless ladder.root = []
    · have hnone : present (ladder.masterless ladder.root) = 0 := if_pos hnil
      rw [if_neg (not_not.mpr hnil), hnone]
      dsimp only
      omega
    · rw [if_pos hnil, present_pos hnil]
      dsimp only
      omega

/-- On a lane, its page, its rest and the other lanes fit the release plane. -/
theorem coarsest_fits_lane (hladder : ladder.WellFormed) (hbudget : budget.Floors)
    {found : Focus} {credit : Credit} {label : Option String} {members : List Item}
    (hsound : found.Sound ladder budget) (htarget : found.target = .lane credit label members)
    {shown folded : List Credit} (hshown : shown.Perm (ladder.focusedCredits credit)) :
    ladder.FitsAt budget (some found) shown folded .all 0 := by
  have hcredits := hbudget.credits
  have hmasters := hbudget.masters
  have hreleases := hbudget.releases
  have hpinned : pinnedMasters (some found) = ([], []) := by rw [pinnedMasters, htarget]
  have hfixed := fixed_masters_le hladder shown folded
    (show (pinnedMasters (some found)).2 = [] by rw [hpinned])
  have hcount := length_focused_credits ladder credit
  have hlanes : ladder.otherLanes credit (some credit) members ≤
      (ladder.focusedCredits credit).length := by
    refine sum_le_length (fun c => ?_) _
    have hpresent := present_le (ladder.masterless c)
    split
    · split
      · exact Nat.le_refl 1
      · exact Nat.zero_le 1
    · exact hpresent
  rw [hshown.length_eq] at hfixed
  have hsize := hsound.size
  rw [htarget] at hsize
  simp only [targetPageSize] at hsize
  have hpage := hsound.page
  rw [Focus.pages, htarget] at hpage
  have hentries := release_page_entries (by omega) hsize hpage
  have hfloor : ladder.fixedReleases (some found) shown =
      (found.onPage members).length + present (found.offPage members) +
        ladder.otherLanes credit (some credit) members := by
    rw [← lane_floor_focused hsound htarget hshown, fixedReleases, hpinned, releaseFloor]
    exact Nat.zero_add _
  rw [hpinned, List.length_nil] at hfixed
  constructor
  · omega
  · omega

/-- The coarsest level of every view folds into the budget. -/
theorem coarsest_fits (hladder : ladder.WellFormed) (hbudget : budget.Floors)
    (hfocus : ladder.FocusSound budget focus) :
    ∃ level ∈ ladder.creditLevels budget focus,
      ladder.FitsAt budget focus level.1 level.2 .all 0 := by
  cases focus with
  | none =>
      obtain ⟨hlevel, hshown⟩ := coarsest_level hladder hbudget hfocus rfl
      exact ⟨_, hlevel, coarsest_fits_plain hladder hbudget hshown.length_eq⟩
  | some found =>
      have hsound := hfocus found rfl
      cases htarget : found.target with
      | others members =>
          have hothers : onOthers (some found) = some (found, members) := by
            simp [onOthers, htarget]
          have hlevel : (ladder.root :: found.onPage members, found.offPage members) ∈
              ladder.creditLevels budget (some found) := by
            rw [credit_levels_others hothers]
            exact List.mem_singleton.mpr rfl
          have hfits := (credit_level_sound hladder hbudget hfocus hlevel).fits
          exact ⟨_, hlevel, coarsest_fits_others hladder hbudget htarget
            (Nat.le_of_add_right_le hfits)⟩
      | bucket credit label members =>
          obtain ⟨hlevel, hshown⟩ := coarsest_level hladder hbudget hfocus
            (by simp [onOthers, htarget])
          rw [base_credits_focused (by rw [htarget]; rfl)] at hshown
          exact ⟨_, hlevel, coarsest_fits_bucket hladder hbudget hsound htarget hshown⟩
      | pressings credit masterId members =>
          obtain ⟨hlevel, hshown⟩ := coarsest_level hladder hbudget hfocus
            (by simp [onOthers, htarget])
          rw [base_credits_focused (by rw [htarget]; rfl)] at hshown
          exact ⟨_, hlevel, coarsest_fits_pressings hladder hbudget hsound htarget hshown⟩
      | lane credit label members =>
          obtain ⟨hlevel, hshown⟩ := coarsest_level hladder hbudget hfocus
            (by simp [onOthers, htarget])
          rw [base_credits_focused (by rw [htarget]; rfl)] at hshown
          exact ⟨_, hlevel, coarsest_fits_lane hladder hbudget hsound htarget hshown⟩

/-! ## The release plane -/

/-- Entry counts add up: what each element contributes is within its floor. -/
theorem sum_entries_le {α β γ : Type} (entries : α → List β × List γ) (extra floor : α → Nat)
    (l : List α)
    (hfloor : ∀ a ∈ l, (entries a).1.length + (entries a).2.length + extra a ≤ floor a) :
    (l.flatMap fun a => (entries a).1).length + (l.flatMap fun a => (entries a).2).length +
      (l.map extra).sum ≤ (l.map floor).sum := by
  induction l with
  | nil => exact Nat.le_refl 0
  | cons a l ih =>
      have hhead := hfloor a List.mem_cons_self
      have htail := ih fun b hb => hfloor b (List.mem_cons_of_mem _ hb)
      rw [List.flatMap_cons, List.flatMap_cons, List.length_append, List.length_append,
        List.map_cons, List.map_cons, List.sum_cons, List.sum_cons]
      omega

theorem on_master_eq {masterId : String} {found : Focus} {members : List Item}
    (h : onMaster focus masterId = some (found, members)) :
    focus = some found ∧ ∃ credit, found.target = .pressings credit masterId members := by
  unfold onMaster at h
  split at h
  · cases h
  · split at h
    · rename_i credit focused items htarget
      by_cases heq : focused = masterId
      · rw [if_pos heq] at h
        obtain ⟨rfl, rfl⟩ := Prod.mk.inj (Option.some.inj h)
        exact ⟨rfl, credit, heq ▸ htarget⟩
      · rw [if_neg heq] at h
        cases h
    · cases h

theorem on_lane_eq {lane : Credit} {found : Focus} {label : Option String} {members : List Item}
    (h : onLane focus lane = some (found, label, members)) :
    focus = some found ∧ found.target = .lane lane label members := by
  unfold onLane at h
  split at h
  · cases h
  · split at h
    · rename_i focused _ items htarget
      by_cases heq : focused = lane
      · rw [if_pos heq] at h
        simp only [Option.some.injEq, Prod.mk.injEq] at h
        obtain ⟨rfl, rfl, rfl⟩ := h
        exact ⟨rfl, heq ▸ htarget⟩
      · rw [if_neg heq] at h
        cases h
    · cases h

/-- A focused master takes its floor, and any other master at least one entry. -/
theorem fixed_of_master_entries (masterId : String) :
    (fixedOfMaster focus masterId).1.length + (fixedOfMaster focus masterId).2.length +
      (if onMaster focus masterId = none then 1 else 0) ≤ masterFloor focus masterId := by
  unfold fixedOfMaster masterFloor
  cases hon : onMaster focus masterId with
  | none => exact Nat.le_refl 1
  | some found =>
      obtain ⟨found, members⟩ := found
      dsimp only
      rw [List.length_map, present]
      by_cases hnil : found.offPage members = []
      · rw [if_pos hnil, if_pos hnil]
        exact Nat.le_refl _
      · rw [if_neg hnil, if_neg hnil]
        exact Nat.le_refl _

/-- The releases of a lane that are off the focus outnumber none of its members. -/
theorem lane_longer_of_open (hfocus : ladder.FocusSound budget focus) {lane : Credit}
    {found : Focus} {label : Option String} {members : List Item}
    (hon : onLane focus lane = some (found, label, members))
    (hopen : ladder.openItems focus lane ≠ []) :
    (ladder.masterless lane).length > members.length := by
  obtain ⟨rfl, htarget⟩ := on_lane_eq hon
  have hmembers := (hfocus found rfl).target
  rw [htarget] at hmembers
  have hsub : members.Sublist (ladder.masterless lane) := by
    rw [hmembers.1]
    cases label with
    | none => exact List.Sublist.refl _
    | some label => exact List.filter_sublist
  refine lt_of_le_of_ne hsub.length_le fun heq => hopen ?_
  rw [openItems, hon]
  dsimp only
  rw [List.filter_eq_nil_iff]
  intro item hitem
  rw [← hsub.eq_of_length heq] at hitem
  simpa using hitem

/-- A focused lane takes its floor, and any other lane at least one entry. -/
theorem fixed_of_lane_entries (hfocus : ladder.FocusSound budget focus) (lane : Credit) :
    (fixedOfLane focus lane).1.length + (fixedOfLane focus lane).2.length +
      present (ladder.openItems focus lane) ≤ ladder.laneFloor focus lane := by
  have hpresent := present_le (ladder.openItems focus lane)
  unfold fixedOfLane laneFloor
  cases hon : onLane focus lane with
  | none =>
      dsimp only
      rw [List.length_nil, List.length_nil]
      omega
  | some found =>
      obtain ⟨found, label, members⟩ := found
      dsimp only
      have hopen : present (ladder.openItems focus lane) ≤
          if (ladder.masterless lane).length > members.length then 1 else 0 := by
        by_cases hnil : ladder.openItems focus lane = []
        · rw [present, if_pos hnil]
          exact Nat.zero_le _
        · rw [if_pos (lane_longer_of_open hfocus hon hnil)]
          exact hpresent
      rw [List.length_map]
      have hrest : (if found.offPage members = [] then []
          else [({ id := found.id, parent := laneId lane, items := found.offPage members,
                   decade := label } : ReleaseAgg)]).length = present (found.offPage members) := by
        unfold present
        split
        · rfl
        · rfl
      rw [hrest]
      omega

/-- Without anything kept, a master or a lane is one entry. -/
theorem fold_coarsest_entries (ladder : Ladder) (masters : List String)
    (lanes : List (Credit × List Item)) :
    (ladder.foldReleases masters lanes ⟨false, false, false⟩).1.length +
      (ladder.foldReleases masters lanes ⟨false, false, false⟩).2.length ≤
      masters.length + lanes.length := by
  have hmasters := sum_entries_le (ladder.foldMaster ⟨false, false, false⟩) (fun _ => 0)
    (fun _ => 1) masters ?_
  · have hlanes := sum_entries_le (fun lane : Credit × List Item =>
      foldLane ⟨false, false, false⟩ lane.1 lane.2) (fun _ => 0) (fun _ => 1) lanes ?_
    · rw [List.map_const', List.map_const', List.sum_replicate_nat, List.sum_replicate_nat,
        Nat.mul_one] at hmasters hlanes
      rw [foldReleases, List.length_append, List.length_append]
      omega
    · intro lane _
      unfold foldLane
      dsimp only
      split
      · simp
      · simp
  · intro masterId _
    unfold foldMaster keepsOfMaster
    dsimp only
    split
    · simp
    · simp

/-- The strategies in turn give an outcome within the room, or that of the coarsest. -/
theorem first_fitting_cases (room : Int) (fold : Strategy → List ReleaseNode × List ReleaseAgg) :
    ∃ strategy ∈ strategies, firstFitting room fold strategies = .ok (fold strategy) ∧
      (((fold strategy).1.length + (fold strategy).2.length : Int) ≤ room ∨
        strategy = ⟨false, false, false⟩) := by
  have hstep : ∀ strategy rest, firstFitting room fold (strategy :: rest) =
      if ((fold strategy).1.length + (fold strategy).2.length : Int) ≤ room ∨
          ¬(strategy.keepOriginal ∨ strategy.keepStateful ∨ strategy.byDecade) then
        .ok (fold strategy)
      else firstFitting room fold rest := fun _ _ => rfl
  have hkeeps : ∀ strategy ∈ strategies, strategy ≠ ⟨false, false, false⟩ →
      strategy.keepOriginal ∨ strategy.keepStateful ∨ strategy.byDecade := by decide
  -- walk down the strategies: each either fits or is not the last
  suffices h : ∀ tried untried, strategies = tried ++ untried →
      ⟨false, false, false⟩ ∈ untried → ∃ strategy ∈ strategies,
        firstFitting room fold untried = .ok (fold strategy) ∧
          (((fold strategy).1.length + (fold strategy).2.length : Int) ≤ room ∨
            strategy = ⟨false, false, false⟩) from h [] strategies rfl (by decide)
  intro tried untried hsplit hlast
  induction untried generalizing tried with
  | nil => cases hlast
  | cons strategy rest ih =>
      have hmem : strategy ∈ strategies := by
        rw [hsplit]
        exact List.mem_append_right _ List.mem_cons_self
      rw [hstep]
      by_cases hfits : ((fold strategy).1.length + (fold strategy).2.length : Int) ≤ room
      · rw [if_pos (Or.inl hfits)]
        exact ⟨strategy, hmem, rfl, Or.inl hfits⟩
      · by_cases hcoarsest : strategy = ⟨false, false, false⟩
        · rw [if_pos (Or.inr (by simp [hcoarsest]))]
          exact ⟨strategy, hmem, rfl, Or.inr hcoarsest⟩
        · rw [if_neg (not_or.mpr ⟨hfits, not_not.mpr (hkeeps strategy hmem hcoarsest)⟩)]
          refine ih (tried ++ [strategy]) ?_ ?_
          · rw [List.append_assoc, List.singleton_append, hsplit]
          · exact (List.mem_cons.mp hlast).resolve_left (Ne.symm hcoarsest)

/-- A candidate is not the master of the focus. -/
theorem candidate_floor {shown : List Credit} {masterId : String}
    (h : masterId ∈ ladder.candidates focus shown) : masterFloor focus masterId = 1 := by
  obtain ⟨credit, -, hmem⟩ := mem_candidates.mp h
  rw [foldable, List.mem_filter, decide_eq_true_eq] at hmem
  cases hon : onMaster focus masterId with
  | none => rw [masterFloor, hon]
  | some found =>
      obtain ⟨found, members⟩ := found
      obtain ⟨rfl, credit, htarget⟩ := on_master_eq hon
      refine absurd ?_ hmem.2
      rw [pinnedMasters, htarget]
      exact List.mem_singleton.mpr rfl

/-- The release floor of a plan. -/
theorem plan_floor (shown folded : List Credit) (mode : FoldMode) {keep : Nat}
    (hkeep : keep ≤ (ladder.candidates focus shown).length) :
    ((ladder.planOf focus shown folded mode keep).masters.map (masterFloor focus)).sum +
      ((ladder.planOf focus shown folded mode keep).lanes.map (ladder.laneFloor focus)).sum =
      ladder.fixedReleases focus shown + keep := by
  have hkept : ((ladder.candidates focus shown).take keep).map (masterFloor focus) =
      ((ladder.candidates focus shown).take keep).map fun _ => 1 :=
    List.map_congr_left fun masterId h => candidate_floor (List.mem_of_mem_take h)
  rw [planOf, List.map_append, List.sum_append, hkept, List.map_const', List.sum_replicate_nat,
    Nat.mul_one, List.length_take, Nat.min_eq_left hkeep, fixedReleases, releaseFloor]
  exact Nat.add_right_comm _ _ _

/-- `plan_releases` of a plan within the budget returns, and the plane is within the budget. -/
theorem plan_releases_fits (hfocus : ladder.FocusSound budget focus) {plan : MasterPlan}
    (hfloor : (plan.masters.map (masterFloor focus)).sum +
      (plan.lanes.map (ladder.laneFloor focus)).sum ≤ budget.releases) :
    ∃ releases, ladder.planReleases budget focus plan = .ok releases ∧
      releases.1.length + releases.2.length ≤ budget.releases := by
  have hmasters := sum_entries_le (fixedOfMaster focus)
    (fun masterId => if onMaster focus masterId = none then 1 else 0) (masterFloor focus)
    plan.masters fun masterId _ => fixed_of_master_entries masterId
  have hlanes := sum_entries_le (fixedOfLane focus)
    (fun lane => present (ladder.openItems focus lane)) (ladder.laneFloor focus)
    plan.lanes fun lane _ => fixed_of_lane_entries hfocus lane
  have hopenMasters : (openMasters focus plan).length = (plan.masters.map fun masterId =>
      if onMaster focus masterId = none then 1 else 0).sum := by
    have hsum := sum_map_filter (fun masterId => onMaster focus masterId = none) (fun _ => 1)
      plan.masters
    rw [List.map_const', List.sum_replicate_nat, Nat.mul_one] at hsum
    exact hsum
  have hopenLanes : (ladder.openLanes focus plan).length =
      (plan.lanes.map fun lane => present (ladder.openItems focus lane)).sum := by
    rw [← length_filter_present (ladder.openItems focus), openLanes, List.filter_map,
      List.length_map]
    rfl
  have hfixed : (fixedNodes focus plan).length + (fixedAggs focus plan).length +
      (openMasters focus plan).length + (ladder.openLanes focus plan).length ≤
        budget.releases := by
    rw [hopenMasters, hopenLanes, fixedNodes, fixedAggs, List.length_append, List.length_append]
    omega
  unfold planReleases
  dsimp only
  split
  · rename_i hall
    refine ⟨_, rfl, ?_⟩
    dsimp only
    rw [List.length_append]
    omega
  · obtain ⟨strategy, -, hreturn, hroom⟩ := first_fitting_cases
      ((budget.releases : Int) - (fixedNodes focus plan).length - (fixedAggs focus plan).length)
      (ladder.foldReleases (openMasters focus plan) (ladder.openLanes focus plan))
    rw [hreturn]
    refine ⟨_, rfl, ?_⟩
    dsimp only
    rw [List.length_append, List.length_append]
    rcases hroom with hroom | rfl
    · omega
    · have hcoarsest := fold_coarsest_entries ladder (openMasters focus plan)
        (ladder.openLanes focus plan)
      omega

/-! ## The whole view -/

/-- Every plane of a payload of a view is within the budget. -/
structure WithinBudget (budget : Budget) (payload : Payload) : Prop where
  credits : payload.creditNodes.length + payload.creditAggs.length ≤ budget.credits
  masters : payload.masterNodes.length + payload.masterAggs.length ≤ budget.masters
  releases : payload.releaseNodes.length + payload.releaseAggs.length ≤ budget.releases

theorem length_remainder_aggs (ladder : Ladder) (focus : Option Focus) (remainder : List String) :
    (ladder.remainderAggs focus remainder).length ≤ present remainder := by
  unfold remainderAggs present
  split
  · exact Nat.zero_le _
  · split
    · split
      · exact Nat.le_refl 0
      · exact Nat.le_refl 1
    · exact Nat.zero_le _

/-- A view of a sound focus is rendered, and its payload is within the budget. -/
theorem render_within_budget (hladder : ladder.WellFormed) (hbudget : budget.Floors)
    (hfocus : ladder.FocusSound budget focus) :
    ∃ payload, ladder.render budget focus = .ok payload ∧ WithinBudget budget payload := by
  obtain ⟨level, hlevel, hcoarsest⟩ := coarsest_fits hladder hbudget hfocus
  obtain ⟨plan, hfit⟩ := fit_succeeds hlevel hcoarsest
  obtain ⟨drawn, hdrawn, mode, hplan⟩ := fit_form hfit
  have hcredits := (credit_level_sound hladder hbudget hfocus hdrawn).fits
  rcases ladder.plan_masters_form budget focus drawn.1 drawn.2 mode with
    ⟨keep, hkeep, hform, hfits⟩ | ⟨hnone, -⟩
  · rw [hform, Option.some.injEq] at hplan
    subst hplan
    obtain ⟨releases, hreleases, hplane⟩ := plan_releases_fits hfocus
      ((plan_floor drawn.1 drawn.2 mode hkeep).trans_le hfits.2)
    refine ⟨ladder.payload budget focus (ladder.planOf focus drawn.1 drawn.2 mode keep) releases,
      ?_, ?_, ?_, ?_⟩
    · rw [render, hfit]
      simp only [bind, Except.bind, hreleases, pure, Except.pure]
    · simp only [payload, planOf, List.length_map]
      refine le_trans (Nat.add_le_add_left ?_ _) hcredits
      by_cases hnil : drawn.2 = []
      · simp [hnil]
      · simp [hnil, present]
    · have hremainder := length_remainder_aggs ladder focus (pinnedMasters focus).2
      have hwithin := hfits.1
      simp only [payload, planOf, fixedMasters, List.length_map, List.length_append,
        length_sort_by, List.length_take, Nat.min_eq_left hkeep] at hwithin ⊢
      omega
    · simp only [payload, List.length_map]
      exact hplane
  · rw [hnone] at hplan
    cases hplan

end Ladder

/-- Under a validated budget every strata request without a focus, or with one that resolves,
returns a response, and every plane of it is within the budget. -/
theorem strata_fits_budget (catalog : Catalog) (budget : Budget) (focus : Option String)
    (page : Nat) (marks : Option Marks) (hbudget : budget.validate = .ok ())
    (hfocus : ∀ focusId, focus = some focusId → focusId ≠ "" →
      ∃ found, (Ladder.build catalog marks).resolveFocus focusId page budget = .ok found) :
    ∃ payload, buildStrata catalog budget focus page marks = .ok payload ∧
      payload.creditNodes.length + payload.creditAggs.length ≤ budget.credits ∧
      payload.masterNodes.length + payload.masterAggs.length ≤ budget.masters ∧
      payload.releaseNodes.length + payload.releaseAggs.length ≤ budget.releases := by
  have hladder := build_well_formed catalog marks
  have hfloors := Budget.floors_of_validate hbudget
  by_cases hplain : focus = none ∨ focus = some ""
  · obtain ⟨payload, hrender, hwithin⟩ := Ladder.render_within_budget hladder hfloors
      Ladder.focus_sound_none
    have hbuild : buildStrata catalog budget focus page marks =
        (Ladder.build catalog marks).render budget none := by
      rcases hplain with rfl | rfl
      · exact build_strata_none catalog budget page marks
      · exact build_strata_empty catalog budget page marks
    exact ⟨payload, hbuild.trans hrender, hwithin.credits, hwithin.masters, hwithin.releases⟩
  · rw [not_or] at hplain
    obtain ⟨focusId, rfl⟩ := Option.ne_none_iff_exists'.mp hplain.1
    have hne : focusId ≠ "" := fun h => hplain.2 (congrArg some h)
    obtain ⟨found, hresolve⟩ := hfocus focusId rfl hne
    have hsound := Ladder.resolve_focus_ok hladder hresolve
    obtain ⟨payload, hrender, hwithin⟩ := Ladder.render_within_budget hladder hfloors
      (Ladder.focus_sound_some hsound)
    refine ⟨payload, ?_, hwithin.credits, hwithin.masters, hwithin.releases⟩
    rw [build_strata_some catalog budget page marks hne, hresolve]
    exact hrender

/-- Two releases of one master under the root, and a release without a master under a duo. -/
def duo : Catalog :=
  { rootId := "1", rootName := some "Ann"
    releases :=
      [⟨"10", some "5", some 1990, ["1"], .discogs, none⟩,
       ⟨"11", some "5", none, ["1"], .discogs, none⟩,
       ⟨"12", none, some 2003, ["1", "2"], .discogs, none⟩]
    masterYears := ⟨[("5", some 1989)], List.nodup_singleton _⟩ }

/-- The least budget that validates. -/
def tightest : Budget := ⟨3, 6, 4⟩

/-- Four credits, ten masters over three decades and a master of six pressings: over the least budget
in every plane. -/
def longCareer : Catalog :=
  { rootId := "1", rootName := some "Ann"
    releases :=
      [("10", 1970), ("11", 1971), ("12", 1980), ("13", 1990), ("14", 1991), ("15", 1992),
        ("16", 1993), ("17", 1994)].map (fun (id, year) =>
          ⟨id, some ("1" ++ id), some year, ["1"], .discogs, none⟩) ++
      ["20", "21", "22", "23", "24"].map (fun id =>
        ⟨id, some "110", some 1999, ["1"], .discogs, none⟩) ++
      [⟨"30", none, some 1995, ["1", "2"], .discogs, none⟩,
       ⟨"31", some "131", some 1996, ["1", "3"], .discogs, none⟩,
       ⟨"32", some "132", some 1997, ["1", "4"], .discogs, none⟩]
    masterYears := ⟨[("110", some 1969)], List.nodup_singleton _⟩ }

/-- The second page of the six pressings fits the least budget, with credits, masters and releases
folded beside it. -/
theorem career_fits_budget : ∃ payload,
    buildStrata longCareer tightest (some "m:110") 1 none = .ok payload ∧
    payload.creditNodes.length + payload.creditAggs.length ≤ 3 ∧
    payload.masterNodes.length + payload.masterAggs.length ≤ 6 ∧
    payload.releaseNodes.length + payload.releaseAggs.length ≤ 4 := by
  refine strata_fits_budget longCareer tightest (some "m:110") 1 none rfl fun focusId hfocus _ => ?_
  obtain rfl := Option.some.inj hfocus
  exact ⟨_, rfl⟩

end CatalogApi.Strata
