import CatalogApi.Strata.Similar

/-!
# The order of the rows

The ladder of a catalog whose releases, masters and credits are told apart by their sort keys does
not depend on the order of the releases (`build_reordered`), and neither does the response
(`strata_order_free`).
-/

namespace CatalogApi.Strata

open ByKey Text

/-- The catalog with its releases in another order. -/
def Catalog.reordered (catalog : Catalog) (releases : List Release) : Catalog :=
  { catalog with releases }

/-- The sort keys of a ladder tell its releases, masters and credits apart. -/
structure Catalog.Ordered (catalog : Catalog) : Prop where
  distinct : (catalog.releases.map fun release => (release.provider, release.id)).Nodup
  ids : ∀ release ∈ catalog.releases, Canonical release.id
  masters : ∀ release ∈ catalog.releases, ∀ masterId, release.masterId = some masterId →
    Canonical masterId
  artists : ∀ release ∈ catalog.releases, release.provider = .discogs →
    ∀ artist ∈ release.credit, artist ≠ "" ∧ Lacks '+' artist

section Build

variable {catalog : Catalog} {marks : Option Marks} {releases : List Release}

/-! ## Keys -/

theorem original_key_separates (hcatalog : catalog.Ordered) (masterId : String) :
    Separates originalKey (byMaster catalog masterId) := by
  intro release hrelease other hother heq
  simp only [byMaster, List.mem_filter, decide_eq_true_eq] at hrelease hother
  simp only [originalKey, EmbeddingLike.apply_eq_iff_eq, Prod.mk.injEq] at heq
  have hid := id_key_inj (hcatalog.ids release hrelease.1) (hcatalog.ids other hother.1) heq.2.2
  refine List.inj_on_of_nodup_map hcatalog.distinct hrelease.1 hother.1 ?_
  rw [hrelease.2.1, hother.2.1, hid]

theorem sort_key_separates (hcatalog : catalog.Ordered) :
    Separates Item.sortKey (placed catalog marks) := by
  intro item hitem other hother heq
  have hrelease := (placed_release hitem).1
  have hrelease' := (placed_release hother).1
  simp only [Item.sortKey, EmbeddingLike.apply_eq_iff_eq, Prod.mk.injEq] at heq
  obtain ⟨-, -, hprovider, hkey⟩ := heq
  have hid := id_key_inj (hcatalog.ids _ hrelease) (hcatalog.ids _ hrelease') hkey
  refine placed_eq hitem hother (List.inj_on_of_nodup_map hcatalog.distinct hrelease hrelease' ?_)
  refine Prod.ext ?_ hid
  cases hp : item.release.provider with
  | discogs =>
      cases hp' : other.release.provider with
      | discogs => rfl
      | musicbrainz => simp [hp, hp'] at hprovider
  | musicbrainz =>
      cases hp' : other.release.provider with
      | discogs => simp [hp, hp'] at hprovider
      | musicbrainz => rfl

theorem master_key_separates (hcatalog : catalog.Ordered) :
    Separates (masterKey catalog marks) (placedMasters catalog marks) := by
  have hcanonical : ∀ masterId ∈ placedMasters catalog marks, Canonical masterId := by
    intro masterId hmaster
    obtain ⟨item, hitem, hsome⟩ := mem_placed_masters.mp hmaster
    exact hcatalog.masters item.release (placed_release hitem).1 masterId hsome
  intro masterId hmaster other hother heq
  simp only [masterKey, EmbeddingLike.apply_eq_iff_eq, Prod.mk.injEq] at heq
  exact id_key_inj (hcanonical masterId hmaster) (hcanonical other hother) heq.2.2

/-- Credits of artist ids without a plus sign are told apart by their ids. -/
theorem credit_id_inj_of_lacks {credit credit' : Credit}
    (h : ∀ artist ∈ credit, artist ≠ "" ∧ Lacks '+' artist)
    (h' : ∀ artist ∈ credit', artist ≠ "" ∧ Lacks '+' artist)
    (heq : creditId credit = creditId credit') : credit = credit' := by
  have hjoin : join '+' credit = join '+' credit' := (String.append_right_inj _).mp heq
  have hempty : ∀ {credit : Credit}, (∀ artist ∈ credit, artist ≠ "" ∧ Lacks '+' artist) →
      join '+' credit = "" → credit = [] := by
    intro credit hc hnone
    by_contra hne
    have hsplit := split_join hne fun artist hartist => (hc artist hartist).2
    have hone : split '+' "" = [""] := by decide
    rw [hnone, hone] at hsplit
    exact (hc "" (hsplit ▸ List.mem_singleton.mpr rfl)).1 rfl
  by_cases hnil : credit = []
  · have hnone : join '+' credit' = "" := by rw [← hjoin, hnil]; rfl
    rw [hnil, hempty h' hnone]
  · by_cases hnil' : credit' = []
    · have hnone : join '+' credit = "" := by rw [hjoin, hnil']; rfl
      rw [hnil', hempty h hnone]
    · exact join_inj hnil (fun artist hartist => (h artist hartist).2) hnil'
        (fun artist hartist => (h' artist hartist).2) hjoin

theorem placed_credit_artists (hcatalog : catalog.Ordered) {credit : Credit}
    (h : credit ∈ placedCredits catalog marks) :
    ∀ artist ∈ credit, artist ≠ "" ∧ Lacks '+' artist := by
  rw [placedCredits, List.mem_eraseDups, List.mem_append] at h
  rcases h with h | h
  · obtain ⟨masterId, hplaced, rfl⟩ := List.mem_map.mp h
    obtain ⟨release, horiginal⟩ := placed_original hplaced
    obtain ⟨hrelease, hprovider, -⟩ := original_mem horiginal
    rw [creditOfMaster, horiginal]
    exact hcatalog.artists release hrelease hprovider
  · obtain ⟨item, hitem, hmaster, rfl⟩ := mem_placed_lanes.mp h
    obtain ⟨hrelease, ⟨hprovider, hcredit⟩ | ⟨masterId, -, hsome, -⟩⟩ := placed_release hitem
    · rw [hcredit]
      exact hcatalog.artists item.release hrelease hprovider
    · rw [hmaster] at hsome
      cases hsome

theorem credit_key_separates (hcatalog : catalog.Ordered) :
    Separates (creditKey catalog marks) (placedCredits catalog marks) := by
  intro credit hcredit other hother heq
  simp only [creditKey, EmbeddingLike.apply_eq_iff_eq, Prod.mk.injEq] at heq
  exact credit_id_inj_of_lacks (placed_credit_artists hcatalog hcredit)
    (placed_credit_artists hcatalog hother) heq.2

/-! ## The groups of a reordered catalog -/

section

variable (hcatalog : catalog.Ordered) (h : catalog.releases.Perm releases)
include hcatalog h

theorem original_reordered :
    original (catalog.reordered releases) = original catalog := by
  funext masterId
  exact (first_by_eq_of_perm (h.filter _) (original_key_separates hcatalog masterId)).symm

theorem place_reordered :
    place (catalog.reordered releases) marks = place catalog marks := by
  funext release
  unfold place
  rw [original_reordered hcatalog h]
  rfl

theorem placed_reordered :
    (placed catalog marks).Perm (placed (catalog.reordered releases) marks) := by
  unfold placed
  rw [place_reordered hcatalog h]
  exact h.filterMap _

theorem items_under_reordered :
    itemsUnder (catalog.reordered releases) marks = itemsUnder catalog marks := by
  funext masterId
  exact (sort_by_eq_of_perm ((placed_reordered hcatalog h).filter _)
    ((sort_key_separates hcatalog).mono fun item hitem => List.mem_of_mem_filter hitem)).symm

theorem items_without_reordered :
    itemsWithout (catalog.reordered releases) marks = itemsWithout catalog marks := by
  funext credit
  exact (sort_by_eq_of_perm ((placed_reordered hcatalog h).filter _)
    ((sort_key_separates hcatalog).mono fun item hitem => List.mem_of_mem_filter hitem)).symm

theorem placed_masters_reordered :
    (placedMasters catalog marks).Perm (placedMasters (catalog.reordered releases) marks) :=
  erase_dups_perm ((placed_reordered hcatalog h).filterMap _)

theorem placed_lanes_reordered :
    (placedLanes catalog marks).Perm (placedLanes (catalog.reordered releases) marks) :=
  erase_dups_perm (((placed_reordered hcatalog h).filter _).map _)

theorem credit_of_master_reordered :
    creditOfMaster (catalog.reordered releases) = creditOfMaster catalog := by
  funext masterId
  rw [creditOfMaster, creditOfMaster, original_reordered hcatalog h]

theorem year_of_master_reordered :
    yearOfMaster (catalog.reordered releases) marks = yearOfMaster catalog marks := by
  funext masterId
  rw [yearOfMaster, yearOfMaster, items_under_reordered hcatalog h]
  rfl

theorem masters_under_reordered :
    mastersUnder (catalog.reordered releases) marks = mastersUnder catalog marks := by
  have hkey : masterKey (catalog.reordered releases) marks = masterKey catalog marks := by
    funext masterId
    rw [masterKey, masterKey, year_of_master_reordered hcatalog h]
  funext credit
  unfold mastersUnder
  rw [hkey, credit_of_master_reordered hcatalog h]
  exact (sort_by_eq_of_perm ((placed_masters_reordered hcatalog h).filter _)
    ((master_key_separates hcatalog).mono fun _ hmem => List.mem_of_mem_filter hmem)).symm

theorem placed_credits_reordered :
    (placedCredits catalog marks).Perm (placedCredits (catalog.reordered releases) marks) := by
  unfold placedCredits
  rw [credit_of_master_reordered hcatalog h]
  exact erase_dups_perm (((placed_masters_reordered hcatalog h).map _).append
    (placed_lanes_reordered hcatalog h))

theorem credit_key_reordered :
    creditKey (catalog.reordered releases) marks = creditKey catalog marks := by
  funext credit
  unfold creditKey placedUnder
  rw [masters_under_reordered hcatalog h, items_under_reordered hcatalog h,
    items_without_reordered hcatalog h]

/-- A node id names the same item in any order. -/
theorem by_node_id_reordered (nodeId : String) :
    ((placed (catalog.reordered releases) marks).reverse.find? fun item => item.nodeId = nodeId) =
      (placed catalog marks).reverse.find? fun item => item.nodeId = nodeId := by
  refine (find_eq_of_perm ((placed catalog marks).reverse_perm.trans
    ((placed_reordered hcatalog h).trans (List.reverse_perm _).symm)) ?_).symm
  intro item hitem other hother hnode hnode'
  rw [List.mem_reverse] at hitem hother
  have heq : item.nodeId = other.nodeId :=
    (of_decide_eq_true hnode).trans (of_decide_eq_true hnode').symm
  refine placed_eq hitem hother (List.inj_on_of_nodup_map hcatalog.distinct
    (placed_release hitem).1 (placed_release hother).1 ?_)
  unfold Item.nodeId at heq
  cases hp : item.release.provider with
  | discogs =>
      cases hp' : other.release.provider with
      | discogs =>
          rw [hp, hp'] at heq
          rw [(String.append_right_inj _).mp heq]
      | musicbrainz =>
          rw [hp, hp'] at heq
          exact absurd heq (starts_ne (by decide) (by decide) _ _)
  | musicbrainz =>
      cases hp' : other.release.provider with
      | discogs =>
          rw [hp, hp'] at heq
          exact absurd heq (starts_ne (by decide) (by decide) _ _)
      | musicbrainz =>
          rw [hp, hp'] at heq
          rw [(String.append_right_inj _).mp heq]

end

/-- The ladder of a reordered catalog is similar to that of the catalog. -/
theorem build_reordered (hcatalog : catalog.Ordered) (h : catalog.releases.Perm releases)
    (marks : Option Marks) :
    Similar id (Ladder.build catalog marks)
      (Ladder.build (catalog.reordered releases) marks) where
  release := fun _ => rfl
  year := fun _ => rfl
  yearSource := fun _ => rfl
  credit := fun _ => rfl
  stateful := fun _ _ => rfl
  inj := fun _ _ _ _ heq => heq
  rootId := rfl
  rootName := rfl
  years := rfl
  anchor := by
    funext masterId
    show (original (catalog.reordered releases) masterId).map (·.id) =
      (original catalog masterId).map (·.id)
    rw [original_reordered hcatalog h]
  items := by
    rw [List.map_id]
    exact (placed_reordered hcatalog h).symm
  masterIds := (placed_masters_reordered hcatalog h).symm
  itemsByMaster := fun masterId => by
    rw [List.map_id]
    exact congrFun (items_under_reordered hcatalog h) masterId
  masterlessCredits := (placed_lanes_reordered hcatalog h).symm
  masterless := fun credit => by
    rw [List.map_id]
    exact congrFun (items_without_reordered hcatalog h) credit
  byNodeId := fun nodeId => by
    rw [Option.map_id]
    exact by_node_id_reordered hcatalog h nodeId
  found := by
    intro nodeId item hfind
    exact List.mem_reverse.mp (List.mem_of_find?_eq_some hfind)
  masterCredit := credit_of_master_reordered hcatalog h
  masterYear := year_of_master_reordered hcatalog h
  mastersByCredit := masters_under_reordered hcatalog h
  statefulMasters := by
    funext masterId
    show (itemsUnder (catalog.reordered releases) marks masterId).any (·.stateful) =
      (itemsUnder catalog marks masterId).any (·.stateful)
    rw [items_under_reordered hcatalog h]
  creditOrder := by
    show _ :: sortBy _ _ = _ :: sortBy _ _
    rw [credit_key_reordered hcatalog h]
    refine congrArg _ (sort_by_eq_of_perm ((placed_credits_reordered hcatalog h).filter _) ?_).symm
    exact (credit_key_separates hcatalog).mono fun _ hmem => List.mem_of_mem_filter hmem

end Build

/-! ## The response -/

theorem map_id_target (target : Target) : target.map id = target := by
  cases target with
  | others members => rfl
  | bucket credit label members => rfl
  | pressings credit masterId members => exact congrArg _ (List.map_id _)
  | lane credit label members => exact congrArg _ (List.map_id _)

theorem map_id_focus (focus : Focus) : focus.map id = focus := by
  rw [Focus.map, map_id_target]

theorem change_plane_id (plane : List ReleaseNode × List ReleaseAgg) :
    changePlane id plane = plane := by
  simp [changePlane]

section

variable {ladder ladder' : Ladder} (h : Similar id ladder ladder')
  (hsigned : ladder'.signedIn = ladder.signedIn)
include h hsigned

/-- Similar ladders of the same items draw the same payload. -/
theorem payload_same (budget : Budget) (focus : Option Focus)
    (plan : MasterPlan) (releases : List ReleaseNode × List ReleaseAgg) :
    ladder'.payload budget focus plan releases = ladder.payload budget focus plan releases := by
  have hitems : ladder'.itemsByMaster = ladder.itemsByMaster := funext fun masterId => by
    rw [h.itemsByMaster, List.map_id]
  have hmasterless : ladder'.masterless = ladder.masterless := funext fun credit => by
    rw [h.masterless, List.map_id]
  have hall := h.items
  rw [List.map_id] at hall
  have hcounts : ladder'.counts = ladder.counts := by
    funext items
    rw [Ladder.counts, Ladder.counts, hsigned]
  have hstate : ladder'.entryState = ladder.entryState := by
    funext items
    rw [Ladder.entryState, Ladder.entryState, hsigned]
  have hcredit : ladder'.creditItems = ladder.creditItems := by
    funext credit
    rw [Ladder.creditItems, Ladder.creditItems, h.mastersByCredit, hitems, hmasterless]
  have hbucketAgg : ladder'.bucketAgg = ladder.bucketAgg := by
    funext credit label masters
    rw [Ladder.bucketAgg, Ladder.bucketAgg, hcounts, hitems]
  have htotals : ladder'.totals = ladder.totals := by
    rw [Ladder.totals, Ladder.totals, h.creditOrder, h.masterIds.length_eq, hall.length_eq,
      hmasterless, (h.masterlessCredits.map _).sum_nat, hall.countP_eq, hall.countP_eq]
  have hcreditNode : ladder'.creditNode = ladder.creditNode := by
    funext credit
    rw [Ladder.creditNode, Ladder.creditNode, hcredit, hcounts, hstate, h.mastersByCredit,
      hmasterless]
  have hotherAgg : ladder'.otherAgg = ladder.otherAgg := by
    funext folded
    rw [Ladder.otherAgg, Ladder.otherAgg, hcredit, hcounts, h.mastersByCredit]
  have hmasterNode : ladder'.masterNode = ladder.masterNode := by
    funext masterId
    rw [Ladder.masterNode, Ladder.masterNode, hitems, h.masterYear, h.masterCredit, hcounts,
      hstate, h.years]
  have hlaneAgg : ladder'.laneAgg = ladder.laneAgg := by
    funext lane
    rw [Ladder.laneAgg, Ladder.laneAgg, hcounts, hmasterless]
  have hremainder : ladder'.remainderAggs = ladder.remainderAggs := by
    funext focus remainder
    unfold Ladder.remainderAggs
    rw [hbucketAgg]
  have hnode : ladder'.releaseNode = ladder.releaseNode := by
    funext node
    rw [Ladder.releaseNode, Ladder.releaseNode, hsigned]
  have hagg : ladder'.releaseAgg = ladder.releaseAgg := by
    funext agg
    rw [Ladder.releaseAgg, Ladder.releaseAgg, hcounts]
  unfold Ladder.payload
  rw [h.rootId, h.rootName, hsigned, htotals, hcreditNode, hotherAgg, h.master_node_key, hmasterNode,
    hlaneAgg, h.bucket_key, hbucketAgg, hremainder, hnode, hagg]

/-- Similar ladders of the same items render the same payload. -/
theorem render_same (hladder : ladder.WellFormed)
    {budget : Budget} {focus : Option Focus} (hfocus : ladder.FocusSound budget focus) :
    ladder'.render budget focus = ladder.render budget focus := by
  have hmap : focus.map (Focus.map id) = focus := by
    cases focus with
    | none => rfl
    | some found => exact congrArg some (map_id_focus found)
  have hfit : ladder'.fit budget (focus.map (Focus.map id)) = ladder.fit budget focus :=
    h.fit_map focus
  have hreleases : ∀ plan, ladder'.planReleases budget focus plan =
      ladder.planReleases budget focus plan := by
    intro plan
    have hplan := h.plan_releases_map hladder hfocus plan
    rw [hmap] at hplan
    rw [hplan]
    cases ladder.planReleases budget focus plan with
    | error error => rfl
    | ok plane => exact congrArg Except.ok (change_plane_id plane)
  rw [hmap] at hfit
  unfold Ladder.render
  simp only [hfit, hreleases, payload_same h hsigned]

/-- A cursor of similar ladders of the same items is answered alike. -/
theorem request_same (hladder : ladder.WellFormed)
    (budget : Budget) (focusId : String) (page : Nat) :
    (ladder'.resolveFocus focusId page budget >>= fun found =>
        ladder'.render budget (some found)) =
      ladder.resolveFocus focusId page budget >>= fun found =>
        ladder.render budget (some found) := by
  rw [h.resolve_focus_map hladder]
  cases hresolve : ladder.resolveFocus focusId page budget with
  | error error => rfl
  | ok found =>
      have hsound := Ladder.resolve_focus_ok hladder hresolve
      show ladder'.render budget (some (found.map id)) = ladder.render budget (some found)
      rw [map_id_focus]
      exact render_same h hsigned hladder (Ladder.focus_sound_some hsound)

end

/-- On a catalog whose (provider, id) pairs are distinct and whose release and master ids are
written canonically, and whose artist ids are not empty and hold no plus sign, neither the response
nor the error of a request depends on the order of the releases. -/
theorem strata_order_free (catalog : Catalog) (releases : List Release) (budget : Budget)
    (focus : Option String) (page : Nat) (marks : Option Marks) (hcatalog : catalog.Ordered)
    (h : catalog.releases.Perm releases) :
    buildStrata (catalog.reordered releases) budget focus page marks =
      buildStrata catalog budget focus page marks := by
  have hsimilar := build_reordered hcatalog h marks
  have hladder := build_well_formed catalog marks
  cases focus with
  | none =>
      rw [build_strata_none, build_strata_none]
      exact render_same hsimilar rfl hladder Ladder.focus_sound_none
  | some focusId =>
      by_cases hne : focusId = ""
      · subst hne
        rw [build_strata_empty, build_strata_empty]
        exact render_same hsimilar rfl hladder Ladder.focus_sound_none
      · rw [build_strata_some _ budget page marks hne, build_strata_some _ budget page marks hne]
        exact request_same hsimilar rfl hladder budget focusId page

theorem duo_ordered : duo.Ordered where
  distinct := by decide
  ids := by decide
  masters := by decide
  artists := by decide

theorem duo_order_free : buildStrata (duo.reordered duo.releases.reverse) tightest none 0 none =
    buildStrata duo tightest none 0 none :=
  strata_order_free duo duo.releases.reverse tightest none 0 none duo_ordered
    duo.releases.reverse_perm.symm

/-- Two masters of one credit whose ids are the number five. -/
def fives : Catalog :=
  { rootId := "1", rootName := none
    releases :=
      [⟨"10", some "5", some 1990, ["1"], .discogs, none⟩,
       ⟨"11", some "05", some 1990, ["1"], .discogs, none⟩]
    masterYears := ⟨[], List.nodup_nil⟩ }

/-- The masters are drawn in the order of the rows. -/
theorem fives_follow_rows :
    ((fives.releases.map (·.id)).Nodup ∧ ∀ release ∈ fives.releases, Canonical release.id) ∧
    tightest.validate = .ok () ∧
    buildStrata (fives.reordered fives.releases.reverse) tightest none 0 none ≠
      buildStrata fives tightest none 0 none := by
  refine ⟨⟨by decide, by decide⟩, rfl, ?_⟩
  decide +kernel

end CatalogApi.Strata
