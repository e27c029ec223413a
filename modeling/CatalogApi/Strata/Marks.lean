import CatalogApi.Strata.Similar

/-!
# What the caller's marks can change

Marks steer the folds through the set of stateful releases only, and show in the collector fields
only (`marks_stay_private`): two ladders of one catalog are similar when their marks make the same
releases stateful (`build_remarked`).
-/

namespace CatalogApi.Strata

open ByKey Slices Text

/-! ## Dropping the collector fields -/

def Counts.withoutMarks (counts : Counts) : Counts := { counts with states := none }

def CreditEntry.withoutMarks (node : CreditEntry) : CreditEntry :=
  { node with counts := node.counts.withoutMarks, state := none }

def OtherCredits.withoutMarks (agg : OtherCredits) : OtherCredits :=
  { agg with counts := agg.counts.withoutMarks }

def MasterEntry.withoutMarks (node : MasterEntry) : MasterEntry :=
  { node with counts := node.counts.withoutMarks, state := none }

def MasterAggEntry.withoutMarks (agg : MasterAggEntry) : MasterAggEntry :=
  { agg with counts := agg.counts.withoutMarks }

def ReleaseEntry.withoutMarks (node : ReleaseEntry) : ReleaseEntry :=
  { node with collector := none }

def ReleaseAggEntry.withoutMarks (agg : ReleaseAggEntry) : ReleaseAggEntry :=
  { agg with counts := agg.counts.withoutMarks }

/-- A payload without its `state`, `states`, `recorded_at` and `owned_copy_ids` fields. -/
def Payload.withoutMarks (payload : Payload) : Payload :=
  { payload with
    creditNodes := payload.creditNodes.map (·.withoutMarks)
    creditAggs := payload.creditAggs.map (·.withoutMarks)
    masterNodes := payload.masterNodes.map (·.withoutMarks)
    masterAggs := payload.masterAggs.map (·.withoutMarks)
    releaseNodes := payload.releaseNodes.map (·.withoutMarks)
    releaseAggs := payload.releaseAggs.map (·.withoutMarks) }

/-- The response as an anonymous caller sees it. -/
def Payload.anonymous (payload : Payload) : Payload :=
  { payload.withoutMarks with signedIn := false }

/-- The release is in the caller's collection or wantlist. -/
def statefulUnder (marks : Option Marks) (releaseId : String) : Prop :=
  ∃ found, marks = some found ∧ ((found.get? releaseId).getD noMark).state ≠ .none

/-! ## Remarked items -/

/-- The item under other marks. -/
def remark (marks : Option Marks) (item : Item) : Item :=
  match item.release.provider with
  | .discogs =>
      let mark := marks.map fun marks => (marks.get? item.release.id).getD noMark
      { item with state := mark.map (·.state), mark }
  | .musicbrainz => { item with state := none, mark := none }

section Remark

variable {marks : Option Marks} (item : Item)

theorem remark_release : (remark marks item).release = item.release := by
  unfold remark
  split
  · rfl
  · rfl

theorem remark_year : (remark marks item).year = item.year := by
  unfold remark
  split
  · rfl
  · rfl

theorem remark_year_source : (remark marks item).yearSource = item.yearSource := by
  unfold remark
  split
  · rfl
  · rfl

theorem remark_credit : (remark marks item).credit = item.credit := by
  unfold remark
  split
  · rfl
  · rfl

theorem remark_sort_key : (remark marks item).sortKey = item.sortKey := by
  rw [Item.sortKey, Item.sortKey, remark_year, remark_release]

theorem remark_node_id : (remark marks item).nodeId = item.nodeId := by
  rw [Item.nodeId, Item.nodeId, remark_release]

end Remark

section Build

variable {catalog : Catalog} {marks marks' : Option Marks}

theorem place_remarked (release : Release) :
    place catalog marks' release = (place catalog marks release).map (remark marks') := by
  unfold place
  dsimp only
  cases hprovider : release.provider with
  | discogs =>
      dsimp only [Option.map_some]
      rw [remark]
      dsimp only
      rw [hprovider]
  | musicbrainz =>
      dsimp only
      cases release.masterId.bind (original catalog) with
      | none => rfl
      | some found =>
          dsimp only [Option.map_some]
          rw [remark]
          dsimp only
          rw [hprovider]

theorem placed_remarked (catalog : Catalog) (marks marks' : Option Marks) :
    placed catalog marks' = (placed catalog marks).map (remark marks') := by
  rw [placed, placed, List.map_filterMap]
  exact congrArg (List.filterMap · _) (funext place_remarked)

/-- The stateful items are those the marks put in the collection or the wantlist. -/
theorem placed_stateful {item : Item} (h : item ∈ placed catalog marks) :
    item.stateful = true ↔
      item.release.provider = .discogs ∧ statefulUnder marks item.release.id := by
  obtain ⟨release, -, hplace⟩ := List.mem_filterMap.mp h
  have hrelease := place_release hplace
  unfold place at hplace
  dsimp only at hplace
  cases hprovider : release.provider with
  | discogs =>
      rw [hprovider] at hplace
      obtain rfl := Option.some.inj hplace
      unfold Item.stateful statefulUnder
      cases marks with
      | none => simp
      | some marks => simp [hprovider]
  | musicbrainz =>
      rw [hprovider] at hplace
      dsimp only at hplace
      rw [hrelease, hprovider]
      cases hfound : release.masterId.bind (original catalog) with
      | none =>
          rw [hfound] at hplace
          cases hplace
      | some found =>
          rw [hfound] at hplace
          obtain rfl := Option.some.inj hplace
          simp [Item.stateful]

theorem remark_stateful
    (h : ∀ release ∈ catalog.releases, release.provider = .discogs →
      (statefulUnder marks release.id ↔ statefulUnder marks' release.id))
    {item : Item} (hitem : item ∈ placed catalog marks) :
    (remark marks' item).stateful = item.stateful := by
  have hremarked : remark marks' item ∈ placed catalog marks' := by
    rw [placed_remarked catalog marks marks']
    exact List.mem_map_of_mem hitem
  rw [Bool.eq_iff_iff, placed_stateful hremarked, placed_stateful hitem, remark_release]
  refine and_congr_right fun hprovider => ?_
  exact (h item.release (placed_release hitem).1 hprovider).symm

/-! ## Remarked groups -/

section

variable (catalog marks marks')

theorem items_under_remarked (masterId : String) :
    itemsUnder catalog marks' masterId = (itemsUnder catalog marks masterId).map
      (remark marks') := by
  unfold itemsUnder
  rw [placed_remarked catalog marks marks',
    filter_map_kept fun item _ => by rw [remark_release], sort_by_map fun item _ => remark_sort_key item]

theorem items_without_remarked (credit : Credit) :
    itemsWithout catalog marks' credit = (itemsWithout catalog marks credit).map
      (remark marks') := by
  unfold itemsWithout
  rw [placed_remarked catalog marks marks',
    filter_map_kept fun item _ => by rw [remark_release, remark_credit],
    sort_by_map fun item _ => remark_sort_key item]

theorem placed_masters_remarked :
    placedMasters catalog marks' = placedMasters catalog marks := by
  unfold placedMasters
  rw [placed_remarked catalog marks marks', List.filterMap_map]
  refine congrArg (fun f => (List.filterMap f _).eraseDups) (funext fun item => ?_)
  rw [Function.comp_apply, remark_release]

theorem placed_lanes_remarked :
    placedLanes catalog marks' = placedLanes catalog marks := by
  unfold placedLanes
  rw [placed_remarked catalog marks marks', filter_map_kept fun item _ => by rw [remark_release],
    List.map_map]
  refine congrArg List.eraseDups (List.map_congr_left fun item _ => ?_)
  rw [Function.comp_apply, remark_credit]

theorem year_of_master_remarked :
    yearOfMaster catalog marks' = yearOfMaster catalog marks := by
  funext masterId
  have hyears : ((itemsUnder catalog marks masterId).map (remark marks')).filterMap (·.year) =
      (itemsUnder catalog marks masterId).filterMap (·.year) := by
    rw [List.filterMap_map]
    exact congrArg (List.filterMap · _) (funext fun item => remark_year item)
  rw [yearOfMaster, yearOfMaster, items_under_remarked catalog marks marks', span, span, hyears]

theorem masters_under_remarked :
    mastersUnder catalog marks' = mastersUnder catalog marks := by
  have hkey : masterKey catalog marks' = masterKey catalog marks := by
    funext masterId
    rw [masterKey, masterKey, year_of_master_remarked catalog marks marks']
  funext credit
  rw [mastersUnder, mastersUnder, hkey, placed_masters_remarked catalog marks marks']

theorem credit_order_remarked :
    (Ladder.build catalog marks').creditOrder = (Ladder.build catalog marks).creditOrder := by
  have hkey : creditKey catalog marks' = creditKey catalog marks := by
    funext credit
    simp only [creditKey, placedUnder, masters_under_remarked catalog marks marks',
      items_under_remarked catalog marks marks', items_without_remarked catalog marks marks',
      List.length_map]
  have hcredits : placedCredits catalog marks' = placedCredits catalog marks := by
    rw [placedCredits, placedCredits, placed_masters_remarked catalog marks marks',
      placed_lanes_remarked catalog marks marks']
  show _ :: sortBy _ _ = _ :: sortBy _ _
  rw [hkey, hcredits]

end

/-- Marks that make the same releases stateful build similar ladders. -/
theorem build_remarked
    (h : ∀ release ∈ catalog.releases, release.provider = .discogs →
      (statefulUnder marks release.id ↔ statefulUnder marks' release.id)) :
    Similar (remark marks') (Ladder.build catalog marks) (Ladder.build catalog marks') where
  release := remark_release
  year := remark_year
  yearSource := remark_year_source
  credit := remark_credit
  stateful := fun _ hitem => remark_stateful h hitem
  inj := fun item hitem other hother heq => by
    refine placed_eq hitem hother ?_
    rw [← @remark_release marks' item, heq, remark_release]
  rootId := rfl
  rootName := rfl
  years := rfl
  anchor := rfl
  items := List.Perm.of_eq (placed_remarked catalog marks marks')
  masterIds := List.Perm.of_eq (placed_masters_remarked catalog marks marks')
  itemsByMaster := items_under_remarked catalog marks marks'
  masterlessCredits := List.Perm.of_eq (placed_lanes_remarked catalog marks marks')
  masterless := items_without_remarked catalog marks marks'
  byNodeId := by
    intro nodeId
    show ((placed catalog marks').reverse.find? _) = ((placed catalog marks).reverse.find? _).map _
    rw [placed_remarked catalog marks marks', ← List.map_reverse, List.find?_map]
    refine congrArg (Option.map _) (congrArg (List.find? · _) (funext fun item => ?_))
    rw [Function.comp_apply, remark_node_id]
  found := fun nodeId item hfind => List.mem_reverse.mp (List.mem_of_find?_eq_some hfind)
  masterCredit := rfl
  masterYear := year_of_master_remarked catalog marks marks'
  mastersByCredit := masters_under_remarked catalog marks marks'
  statefulMasters := by
    funext masterId
    show (itemsUnder catalog marks' masterId).any (·.stateful) =
      (itemsUnder catalog marks masterId).any (·.stateful)
    rw [items_under_remarked catalog marks marks', List.any_map, Bool.eq_iff_iff,
      List.any_eq_true, List.any_eq_true]
    refine exists_congr fun item => and_congr_right fun hitem => ?_
    rw [Function.comp_apply, remark_stateful h (mem_items_under.mp hitem).1]
  creditOrder := credit_order_remarked catalog marks marks'

end Build

/-! ## The payload -/

section View

variable {change : Item → Item} {ladder ladder' : Ladder}

section

variable (h : Similar change ladder ladder')
include h

/-- The counts of changed items, without the states. -/
theorem counts_changed (items : List Item) :
    (ladder'.counts (items.map change)).withoutMarks = (ladder.counts items).withoutMarks := by
  have hyears : (items.map change).filterMap (·.year) = items.filterMap (·.year) := by
    rw [List.filterMap_map]
    exact congrArg (List.filterMap · _) (funext fun item => h.year item)
  have hundated : (items.map change).countP (fun item => item.year = none) =
      items.countP fun item => item.year = none := by
    rw [List.countP_map]
    exact List.countP_congr fun item _ => by rw [Function.comp_apply, h.year]
  have hmusicbrainz : (items.map change).countP
      (fun item => item.release.provider = .musicbrainz) =
      items.countP fun item => item.release.provider = .musicbrainz := by
    rw [List.countP_map]
    exact List.countP_congr fun item _ => by rw [Function.comp_apply, h.release]
  simp only [Ladder.counts, Counts.withoutMarks, span, hyears, hundated, hmusicbrainz,
    List.length_map]

theorem credit_items_changed (credit : Credit) :
    ladder'.creditItems credit = (ladder.creditItems credit).map change := by
  rw [Ladder.creditItems, Ladder.creditItems, h.mastersByCredit, h.masterless, List.map_append,
    List.map_flatMap]
  exact congrArg (· ++ _) (List.flatMap_congr fun masterId _ => h.itemsByMaster masterId)

theorem credit_node_changed (credit : Credit) :
    (ladder'.creditNode credit).withoutMarks = (ladder.creditNode credit).withoutMarks := by
  simp only [Ladder.creditNode, CreditEntry.withoutMarks, credit_items_changed h,
    counts_changed h, h.mastersByCredit, h.length_masterless]

theorem other_agg_changed (folded : List Credit) :
    (ladder'.otherAgg folded).withoutMarks = (ladder.otherAgg folded).withoutMarks := by
  have hitems : folded.flatMap ladder'.creditItems =
      (folded.flatMap ladder.creditItems).map change := by
    rw [List.map_flatMap]
    exact List.flatMap_congr fun credit _ => credit_items_changed h credit
  simp only [Ladder.otherAgg, OtherCredits.withoutMarks, hitems, counts_changed h,
    h.mastersByCredit]

theorem master_node_changed (masterId : String) :
    (ladder'.masterNode masterId).withoutMarks = (ladder.masterNode masterId).withoutMarks := by
  simp only [Ladder.masterNode, MasterEntry.withoutMarks, h.itemsByMaster, counts_changed h,
    h.masterCredit, h.masterYear, h.years]

theorem lane_agg_changed (lane : Credit) :
    (ladder'.laneAgg lane).withoutMarks = (ladder.laneAgg lane).withoutMarks := by
  simp only [Ladder.laneAgg, MasterAggEntry.withoutMarks, h.masterless, counts_changed h]

theorem bucket_agg_changed (credit : Credit) (label : String) (masters : List String) :
    (ladder'.bucketAgg credit label masters).withoutMarks =
      (ladder.bucketAgg credit label masters).withoutMarks := by
  have hitems : masters.flatMap ladder'.itemsByMaster =
      (masters.flatMap ladder.itemsByMaster).map change := by
    rw [List.map_flatMap]
    exact List.flatMap_congr fun masterId _ => h.itemsByMaster masterId
  simp only [Ladder.bucketAgg, MasterAggEntry.withoutMarks, hitems, counts_changed h]

theorem remainder_aggs_changed (focus : Option Focus) (remainder : List String) :
    (ladder'.remainderAggs (focus.map (Focus.map change)) remainder).map (·.withoutMarks) =
      (ladder.remainderAggs focus remainder).map (·.withoutMarks) := by
  cases focus with
  | none => rfl
  | some found =>
      obtain ⟨id, target, page, pageSize⟩ := found
      cases target with
      | others members => rfl
      | bucket credit label members =>
          by_cases hnil : remainder = []
          · simp [Ladder.remainderAggs, Focus.map, Target.map, hnil]
          · simp [Ladder.remainderAggs, Focus.map, Target.map, hnil, bucket_agg_changed h]
      | pressings credit masterId members => rfl
      | lane credit label members => rfl

theorem release_node_changed (node : ReleaseNode) :
    (ladder'.releaseNode (change node.1, node.2)).withoutMarks =
      (ladder.releaseNode node).withoutMarks := by
  simp only [Ladder.releaseNode, ReleaseEntry.withoutMarks, Item.nodeId, h.release, h.year,
    h.yearSource]

theorem release_agg_changed (agg : ReleaseAgg) :
    (ladder'.releaseAgg { agg with items := agg.items.map change }).withoutMarks =
      (ladder.releaseAgg agg).withoutMarks := by
  simp only [Ladder.releaseAgg, ReleaseAggEntry.withoutMarks, counts_changed h]

end

theorem focus_entry_map (focus : Focus) : (focus.map change).entry = focus.entry := by
  obtain ⟨id, target, page, pageSize⟩ := focus
  cases target with
  | others members => rfl
  | bucket credit label members => rfl
  | pressings credit masterId members =>
      simp [Focus.entry, Focus.map, Focus.pages, Target.map, Target.size]
  | lane credit label members =>
      simp [Focus.entry, Focus.map, Focus.pages, Target.map, Target.size]

theorem totals_changed (h : Similar change ladder ladder') : ladder'.totals = ladder.totals := by
  have hundated : (ladder.items.map change).countP (fun item => item.year = none) =
      ladder.items.countP fun item => item.year = none := by
    rw [List.countP_map]
    exact List.countP_congr fun item _ => by rw [Function.comp_apply, h.year]
  have hmusicbrainz : (ladder.items.map change).countP
      (fun item => item.release.provider = .musicbrainz) =
      ladder.items.countP fun item => item.release.provider = .musicbrainz := by
    rw [List.countP_map]
    exact List.countP_congr fun item _ => by rw [Function.comp_apply, h.release]
  have hmasterless : (ladder'.masterlessCredits.map fun credit =>
      (ladder'.masterless credit).length).sum =
      (ladder.masterlessCredits.map fun credit => (ladder.masterless credit).length).sum := by
    rw [(h.masterlessCredits.map _).sum_nat]
    simp only [h.length_masterless]
  rw [Ladder.totals, Ladder.totals, h.creditOrder, h.masterIds.length_eq, h.items.length_eq,
    h.items.countP_eq, h.items.countP_eq, hundated, hmusicbrainz, hmasterless, List.length_map]

/-- Similar ladders draw the same payload, up to the collector fields and `signed_in`. -/
theorem payload_changed (h : Similar change ladder ladder') (budget : Budget)
    (focus : Option Focus) (plan : MasterPlan) (releases : List ReleaseNode × List ReleaseAgg) :
    (ladder'.payload budget (focus.map (Focus.map change)) plan
        (changePlane change releases)).anonymous =
      (ladder.payload budget focus plan releases).anonymous := by
  have hfocus : (focus.map (Focus.map change)).map (·.entry) = focus.map (·.entry) := by
    cases focus with
    | none => rfl
    | some found => exact congrArg some (focus_entry_map found)
  have hcredits := List.map_congr_left fun credit (_ : credit ∈ plan.shownCredits) =>
    credit_node_changed h credit
  have hother : (if plan.foldedCredits = [] then []
      else [ladder'.otherAgg plan.foldedCredits]).map (·.withoutMarks) =
      (if plan.foldedCredits = [] then []
        else [ladder.otherAgg plan.foldedCredits]).map (·.withoutMarks) := by
    split
    · rfl
    · exact congrArg (fun agg => [agg]) (other_agg_changed h plan.foldedCredits)
  have hmasters := List.map_congr_left
    fun masterId (_ : masterId ∈ sortBy ladder.masterNodeKey plan.masters) =>
      master_node_changed h masterId
  have hlanes := List.map_congr_left fun lane (_ : lane ∈ plan.lanes) => lane_agg_changed h lane
  have hbuckets := List.map_congr_left
    fun bucket (_ : bucket ∈ sortBy ladder.bucketKey plan.buckets) =>
      bucket_agg_changed h bucket.1.1 bucket.1.2 bucket.2
  have hremainder := remainder_aggs_changed h focus plan.remainder
  have hnodes := List.map_congr_left fun node (_ : node ∈ releases.1) => release_node_changed h node
  have haggs := List.map_congr_left fun agg (_ : agg ∈ releases.2) => release_agg_changed h agg
  simp only [Payload.anonymous, Payload.withoutMarks, Ladder.payload, changePlane, List.map_map,
    List.map_append, Function.comp_def, h.rootId, h.rootName, totals_changed h, h.master_node_key,
    h.bucket_key, hfocus]
  simp only [hcredits, hmasters, hlanes, hbuckets, hremainder, hnodes, haggs, hother]

/-- An unsigned ladder draws no collector field. -/
theorem payload_unsigned (hsigned : ladder.signedIn = false) (budget : Budget)
    (focus : Option Focus) (plan : MasterPlan) (releases : List ReleaseNode × List ReleaseAgg) :
    (ladder.payload budget focus plan releases).anonymous =
      ladder.payload budget focus plan releases := by
  have hcounts : ∀ items, (ladder.counts items).withoutMarks = ladder.counts items := fun items => by
    simp [Ladder.counts, Counts.withoutMarks, hsigned]
  have hbucket : ∀ credit label masters, (ladder.bucketAgg credit label masters).withoutMarks =
      ladder.bucketAgg credit label masters := fun credit label masters => by
    simp only [Ladder.bucketAgg, MasterAggEntry.withoutMarks, hcounts]
  have hcredit : ∀ credit, (ladder.creditNode credit).withoutMarks = ladder.creditNode credit :=
    fun credit => by
      simp only [Ladder.creditNode, CreditEntry.withoutMarks, hcounts, Ladder.entryState, hsigned,
        Bool.false_eq_true, if_false]
  have hmaster : ∀ masterId, (ladder.masterNode masterId).withoutMarks =
      ladder.masterNode masterId := fun masterId => by
    simp only [Ladder.masterNode, MasterEntry.withoutMarks, hcounts, Ladder.entryState, hsigned,
      Bool.false_eq_true, if_false]
  have hlane : ∀ lane, (ladder.laneAgg lane).withoutMarks = ladder.laneAgg lane := fun lane => by
    simp only [Ladder.laneAgg, MasterAggEntry.withoutMarks, hcounts]
  have hnode : ∀ node, (ladder.releaseNode node).withoutMarks = ladder.releaseNode node :=
    fun node => by
      simp only [Ladder.releaseNode, ReleaseEntry.withoutMarks, hsigned, Bool.false_eq_true,
        if_false]
  have hagg : ∀ agg, (ladder.releaseAgg agg).withoutMarks = ladder.releaseAgg agg := fun agg => by
    simp only [Ladder.releaseAgg, ReleaseAggEntry.withoutMarks, hcounts]
  have hother : (if plan.foldedCredits = [] then []
      else [ladder.otherAgg plan.foldedCredits]).map (·.withoutMarks) =
      if plan.foldedCredits = [] then [] else [ladder.otherAgg plan.foldedCredits] := by
    split
    · rfl
    · simp only [List.map_cons, List.map_nil, Ladder.otherAgg, OtherCredits.withoutMarks, hcounts]
  have hremainder : (ladder.remainderAggs focus plan.remainder).map (·.withoutMarks) =
      ladder.remainderAggs focus plan.remainder := by
    unfold Ladder.remainderAggs
    split
    · rfl
    · split
      · split
        · rfl
        · exact congrArg (fun agg => [agg]) (hbucket _ _ _)
      · rfl
  simp only [Payload.anonymous, Payload.withoutMarks, Ladder.payload, List.map_map,
    List.map_append, Function.comp_def, hcredit, hmaster, hlane, hbucket, hnode, hagg, hother,
    hremainder, hsigned]

section

variable (h : Similar change ladder ladder') (hladder : ladder.WellFormed)
include h hladder

/-- A view of similar ladders is rendered alike, up to the collector fields. -/
theorem render_changed
    {budget : Budget} {focus : Option Focus} (hfocus : ladder.FocusSound budget focus) :
    (ladder'.render budget (focus.map (Focus.map change))).map Payload.anonymous =
      (ladder.render budget focus).map Payload.anonymous := by
  unfold Ladder.render
  rw [h.fit_map]
  cases ladder.fit budget focus with
  | error error => rfl
  | ok plan =>
      simp only [bind, Except.bind, h.plan_releases_map hladder hfocus]
      cases ladder.planReleases budget focus plan with
      | error error => rfl
      | ok releases => exact congrArg Except.ok (payload_changed h budget focus plan releases)

/-- A cursor of similar ladders is answered alike, up to the collector fields. -/
theorem request_changed (budget : Budget) (focusId : String) (page : Nat) :
    (ladder'.resolveFocus focusId page budget >>= fun found =>
        ladder'.render budget (some found)).map Payload.anonymous =
      (ladder.resolveFocus focusId page budget >>= fun found =>
        ladder.render budget (some found)).map Payload.anonymous := by
  rw [h.resolve_focus_map hladder]
  cases hresolve : ladder.resolveFocus focusId page budget with
  | error error => rfl
  | ok found =>
      have hsound := Ladder.focus_sound_some (Ladder.resolve_focus_ok hladder hresolve)
      show (ladder'.render budget ((some found).map (Focus.map change))).map Payload.anonymous =
        (ladder.render budget (some found)).map Payload.anonymous
      exact render_changed h hladder hsound

/-- A request without a cursor is answered alike, up to the collector fields. -/
theorem plain_changed (budget : Budget) :
    (ladder'.render budget none).map Payload.anonymous =
      (ladder.render budget none).map Payload.anonymous := by
  have hview : (ladder'.render budget ((none : Option Focus).map (Focus.map change))).map
      Payload.anonymous = (ladder.render budget none).map Payload.anonymous :=
    render_changed h hladder Ladder.focus_sound_none
  rw [Option.map_none] at hview
  exact hview

end

end View

/-! ## Requests -/

/-- Marks that make the same releases stateful give the same anonymous view. -/
theorem build_strata_remarked {catalog : Catalog} {marks marks' : Option Marks} (budget : Budget)
    (focus : Option String) (page : Nat)
    (h : ∀ release ∈ catalog.releases, release.provider = .discogs →
      (statefulUnder marks release.id ↔ statefulUnder marks' release.id)) :
    (buildStrata catalog budget focus page marks').map Payload.anonymous =
      (buildStrata catalog budget focus page marks).map Payload.anonymous := by
  have hsimilar := build_remarked h
  have hladder := build_well_formed catalog marks
  cases focus with
  | none =>
      rw [build_strata_none, build_strata_none]
      exact plain_changed hsimilar hladder budget
  | some focusId =>
      by_cases hne : focusId = ""
      · subst hne
        rw [build_strata_empty, build_strata_empty]
        exact plain_changed hsimilar hladder budget
      · rw [build_strata_some _ budget page marks' hne, build_strata_some _ budget page marks hne]
        exact request_changed hsimilar hladder budget focusId page

/-- A response is the payload of a plan of the ladder. -/
theorem build_payload {catalog : Catalog} {budget : Budget} {focus : Option String} {page : Nat}
    {marks : Option Marks} {payload : Payload}
    (h : buildStrata catalog budget focus page marks = .ok payload) :
    ∃ found plan releases,
      payload = (Ladder.build catalog marks).payload budget found plan releases := by
  obtain ⟨found, -, hrender⟩ := build_strata_form h
  obtain ⟨plan, releases, -, -, hpayload⟩ := Ladder.render_payload hrender
  exact ⟨found, plan, releases, hpayload⟩

theorem build_signed_in (catalog : Catalog) (marks : Option Marks) :
    (Ladder.build catalog marks).signedIn = marks.isSome :=
  rfl

/-- Without a caller a response holds no collector field. -/
theorem build_anonymous {catalog : Catalog} {budget : Budget} {focus : Option String} {page : Nat}
    {payload : Payload} (h : buildStrata catalog budget focus page none = .ok payload) :
    payload.anonymous = payload := by
  obtain ⟨found, plan, releases, rfl⟩ := build_payload h
  exact payload_unsigned (build_signed_in catalog none) budget found plan releases

/-- A caller's response is the anonymous one with the caller signed in and the fields it drops. -/
theorem build_without_marks (catalog : Catalog) (budget : Budget) (focus : Option String)
    (page : Nat) (marks : Marks) :
    (buildStrata catalog budget focus page (some marks)).map Payload.withoutMarks =
      ((buildStrata catalog budget focus page (some marks)).map Payload.anonymous).map
        fun payload => { payload with signedIn := true } := by
  cases hbuild : buildStrata catalog budget focus page (some marks) with
  | error error => rfl
  | ok payload =>
      obtain ⟨found, plan, releases, rfl⟩ := build_payload hbuild
      have hsigned : ((Ladder.build catalog (some marks)).payload budget found plan
          releases).signedIn = true := build_signed_in catalog (some marks)
      simp only [Except.map, Payload.anonymous, Payload.withoutMarks, hsigned]

/-- An anonymous response holds no collector field; a caller whose marks make no release of the
root stateful sees the anonymous response besides those fields and `signed_in`; and two callers
whose marks make the same releases stateful see the same response besides those fields. -/
theorem marks_stay_private (catalog : Catalog) (budget : Budget) (focus : Option String)
    (page : Nat) :
    (∀ payload, buildStrata catalog budget focus page none = .ok payload →
      payload.anonymous = payload) ∧
    (∀ marks : Marks, (∀ release ∈ catalog.releases, release.provider = .discogs →
        ((marks.get? release.id).getD noMark).state = .none) →
      (buildStrata catalog budget focus page (some marks)).map Payload.anonymous =
        buildStrata catalog budget focus page none) ∧
    ∀ marks marks' : Marks, (∀ release ∈ catalog.releases, release.provider = .discogs →
        (((marks.get? release.id).getD noMark).state ≠ .none ↔
          ((marks'.get? release.id).getD noMark).state ≠ .none)) →
      (buildStrata catalog budget focus page (some marks')).map Payload.withoutMarks =
        (buildStrata catalog budget focus page (some marks)).map Payload.withoutMarks := by
  have hstateful : ∀ (marks : Marks) (releaseId : String), statefulUnder (some marks) releaseId ↔
      ((marks.get? releaseId).getD noMark).state ≠ .none := by
    intro marks releaseId
    simp [statefulUnder]
  refine ⟨fun payload => build_anonymous, fun marks h => ?_, fun marks marks' h => ?_⟩
  · have hsame : ∀ release ∈ catalog.releases, release.provider = .discogs →
        (statefulUnder none release.id ↔ statefulUnder (some marks) release.id) := by
      intro release hrelease hprovider
      rw [hstateful, h release hrelease hprovider]
      simp [statefulUnder]
    rw [build_strata_remarked budget focus page hsame]
    cases hbuild : buildStrata catalog budget focus page none with
    | error error => rfl
    | ok payload => exact congrArg Except.ok (build_anonymous hbuild)
  · have hsame : ∀ release ∈ catalog.releases, release.provider = .discogs →
        (statefulUnder (some marks) release.id ↔ statefulUnder (some marks') release.id) := by
      intro release hrelease hprovider
      rw [hstateful, hstateful]
      exact h release hrelease hprovider
    rw [build_without_marks, build_without_marks, build_strata_remarked budget focus page hsame]

/-- A caller who owns a pressing. -/
def ownsOne : Marks :=
  Dict.empty.set "13" ⟨true, false, some "2001-02-03", none, ["c1"]⟩

/-- A caller who wants the same pressing. -/
def wantsOne : Marks :=
  Dict.empty.set "13" ⟨false, true, none, some "2020-11-12", []⟩

/-- Two callers with a mark on the same pressing see the same response besides their marks, which is
not the anonymous one. -/
theorem career_marks_private :
    (buildStrata longCareer tightest none 0 (some ownsOne)).map Payload.withoutMarks =
        (buildStrata longCareer tightest none 0 (some wantsOne)).map Payload.withoutMarks ∧
      (buildStrata longCareer tightest none 0 (some ownsOne)).map Payload.anonymous ≠
        buildStrata longCareer tightest none 0 none := by
  refine ⟨(marks_stay_private longCareer tightest none 0).2.2 wantsOne ownsOne ?_, by decide⟩
  intro release _ _
  by_cases hid : release.id = "13"
  · rw [hid]
    decide
  · simp [ownsOne, wantsOne, Dict.get_set, hid, Dict.get_empty]

end CatalogApi.Strata
