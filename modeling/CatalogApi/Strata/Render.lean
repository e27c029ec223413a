import CatalogApi.Strata.Fold

/-!
# The strata response

`_counts`, `_release_node`, `render` and `build_strata` of `api/strata.py`. The payload is built
as data; the names and titles that `apply_labels` fills later are `none`, and the shared-personnel
edges it adds are left out.
-/

namespace CatalogApi.Strata

open ByKey

/-! ## The payload -/

/-- A `states` count; a state that does not occur has no key in it. -/
structure StateCounts where
  none : Nat
  wanted : Nat
  owned : Nat
  wantedOwned : Nat
  deriving DecidableEq

/-- What every node above the releases, and every aggregate, counts. `states` is there for a
signed-in caller. -/
structure Counts where
  releases : Nat
  undatedReleases : Nat
  musicbrainzReleases : Nat
  y0 : Option Int
  y1 : Option Int
  states : Option StateCounts
  deriving DecidableEq

structure Artist where
  id : String
  name : Option String
  deriving DecidableEq

/-- A credit node; `state` is there for a signed-in caller. -/
structure CreditEntry where
  id : String
  artists : List Artist
  masters : Nat
  masterless : Nat
  counts : Counts
  state : Option CollectorState
  deriving DecidableEq

/-- The `c:other` aggregate. -/
structure OtherCredits where
  id : String
  credits : Nat
  masters : Nat
  counts : Counts
  deriving DecidableEq

/-- Where the year of a master node comes from. -/
inductive MasterYearSource where
  | master | releases
  deriving DecidableEq

/-- A master node; `state` is there for a signed-in caller. -/
structure MasterEntry where
  id : String
  parent : String
  masterId : String
  title : Option String
  year : Option Int
  yearSource : Option MasterYearSource
  undated : Bool
  counts : Counts
  state : Option CollectorState
  deriving DecidableEq

inductive MasterAggKind where
  | noMaster | masters
  deriving DecidableEq

/-- An aggregate of the master plane: a no-master lane or a bucket of masters. -/
structure MasterAggEntry where
  id : String
  parent : String
  kind : MasterAggKind
  decade : Option String
  masters : Nat
  counts : Counts
  deriving DecidableEq

structure RecordedAt where
  owned : Option String
  wanted : Option String
  deriving DecidableEq

/-- The collector fields of a release node. -/
structure CollectorFields where
  state : Option CollectorState
  recordedAt : Option RecordedAt
  ownedCopyIds : List String
  deriving DecidableEq

/-- A release node; `collector` is there for a signed-in caller. -/
structure ReleaseEntry where
  id : String
  parent : String
  provider : Provider
  releaseId : String
  title : Option String
  year : Option Int
  yearSource : Option YearSource
  undated : Bool
  collector : Option CollectorFields
  deriving DecidableEq

/-- An aggregate of the release plane. -/
structure ReleaseAggEntry where
  id : String
  parent : String
  decade : Option String
  counts : Counts
  deriving DecidableEq

structure Totals where
  credits : Nat
  masters : Nat
  releases : Nat
  masterlessReleases : Nat
  undatedReleases : Nat
  musicbrainzReleases : Nat
  deriving DecidableEq

inductive PlaneKind where
  | credit | master | release
  deriving DecidableEq

structure FocusEntry where
  id : String
  plane : PlaneKind
  page : Nat
  pages : Nat
  pageSize : Nat
  members : Nat
  deriving DecidableEq

/-- The response: root, budget, focus, totals, and the nodes and aggregates of the three planes. -/
structure Payload where
  rootId : String
  rootName : Option String
  budget : Budget
  focus : Option FocusEntry
  signedIn : Bool
  totals : Totals
  creditNodes : List CreditEntry
  creditAggs : List OtherCredits
  masterNodes : List MasterEntry
  masterAggs : List MasterAggEntry
  releaseNodes : List ReleaseEntry
  releaseAggs : List ReleaseAggEntry
  deriving DecidableEq

/-! ## Counting -/

/-- `_rollup`: owned if any release is, else wanted. -/
def rollup (items : List Item) : CollectorState :=
  let states := items.map (·.state)
  if some .owned ∈ states ∨ some .wantedOwned ∈ states then .owned
  else if some .wanted ∈ states then .wanted else .none

/-- The counter of the states of the items. -/
def stateCounts (items : List Item) : StateCounts :=
  let states := items.filterMap (·.state)
  { none := states.count .none, wanted := states.count .wanted, owned := states.count .owned,
    wantedOwned := states.count .wantedOwned }

namespace Ladder

variable (ladder : Ladder)

/-- `_counts`. -/
def counts (items : List Item) : Counts :=
  { releases := items.length
    undatedReleases := items.countP fun item => item.year = none
    musicbrainzReleases := items.countP fun item => item.release.provider = .musicbrainz
    y0 := (span items).1
    y1 := (span items).2
    states := if ladder.signedIn then some (stateCounts items) else none }

/-- The `state` of a credit or master node. -/
def entryState (items : List Item) : Option CollectorState :=
  if ladder.signedIn then some (rollup items) else none

/-! ## Entries -/

/-- `_release_node`. -/
def releaseNode (node : ReleaseNode) : ReleaseEntry :=
  let item := node.1
  { id := item.nodeId, parent := node.2, provider := item.release.provider,
    releaseId := item.release.id, title := item.release.title, year := item.year,
    yearSource := item.yearSource, undated := item.year = none,
    collector :=
      if ladder.signedIn then some
        { state := item.state
          recordedAt := item.mark.map fun mark => { owned := mark.ownedAt, wanted := mark.wantedAt }
          ownedCopyIds := item.mark.elim [] (·.ownedCopyIds) }
      else none }

def releaseAgg (agg : ReleaseAgg) : ReleaseAggEntry :=
  { id := agg.id, parent := agg.parent, decade := agg.decade, counts := ladder.counts agg.items }

def creditNode (credit : Credit) : CreditEntry :=
  let items := ladder.creditItems credit
  { id := creditId credit, artists := credit.map fun id => { id, name := none },
    masters := (ladder.mastersByCredit credit).length,
    masterless := (ladder.masterless credit).length, counts := ladder.counts items,
    state := ladder.entryState items }

/-- The `c:other` aggregate of the folded credits. -/
def otherAgg (folded : List Credit) : OtherCredits :=
  { id := otherCredits, credits := folded.length,
    masters := (folded.map fun credit => (ladder.mastersByCredit credit).length).sum,
    counts := ladder.counts (folded.flatMap ladder.creditItems) }

def masterNode (masterId : String) : MasterEntry :=
  let items := ladder.itemsByMaster masterId
  let year := ladder.masterYear masterId
  { id := masterNodeId masterId, parent := creditId (ladder.masterCredit masterId), masterId,
    title := none, year,
    yearSource :=
      if (ladder.catalog.masterYears.get? masterId).join.isSome then some .master
      else if year.isSome then some .releases else none,
    undated := year = none, counts := ladder.counts items, state := ladder.entryState items }

def laneAgg (lane : Credit) : MasterAggEntry :=
  { id := laneId lane, parent := creditId lane, kind := .noMaster, decade := none, masters := 0,
    counts := ladder.counts (ladder.masterless lane) }

/-- `bucket` of `render`. -/
def bucketAgg (credit : Credit) (label : String) (masters : List String) : MasterAggEntry :=
  { id := "ma:" ++ creditId credit ++ ":" ++ label, parent := creditId credit, kind := .masters,
    decade := if label = all then none else some label, masters := masters.length,
    counts := ladder.counts (masters.flatMap ladder.itemsByMaster) }

/-- `credit_rank`. -/
def creditRank (credit : Credit) : Nat := ladder.creditOrder.idxOf credit

/-- The order of the master nodes. -/
def masterNodeKey (masterId : String) : Nat ×ₗ Bool ×ₗ Int ×ₗ IdKey :=
  let year := ladder.masterYear masterId
  toLex (ladder.creditRank (ladder.masterCredit masterId),
    toLex (year.isNone, toLex (year.getD 0, idKey masterId)))

/-- The order of the master buckets. -/
def bucketKey (bucket : (Credit × String) × List String) : Nat ×ₗ Bool ×ₗ String :=
  toLex (ladder.creditRank bucket.1.1, toLex (decide (bucket.1.2 = undated), bucket.1.2))

/-- The aggregate of the masters off the focused page, under the focus's own id. -/
def remainderAggs (focus : Option Focus) (remainder : List String) : List MasterAggEntry :=
  match focus with
  | none => []
  | some focus =>
      match focus.target with
      | .bucket credit label _ =>
          if remainder = [] then [] else [ladder.bucketAgg credit label remainder]
      | _ => []

def totals : Totals :=
  { credits := ladder.creditOrder.length
    masters := ladder.masterIds.length
    releases := ladder.items.length
    masterlessReleases :=
      (ladder.masterlessCredits.map fun credit => (ladder.masterless credit).length).sum
    undatedReleases := ladder.items.countP fun item => item.year = none
    musicbrainzReleases := ladder.items.countP fun item => item.release.provider = .musicbrainz }

end Ladder

/-- The focus of the response. -/
def Focus.entry (focus : Focus) : FocusEntry :=
  { id := focus.id
    plane := match focus.target with
      | .others _ => .credit
      | .bucket _ _ _ => .master
      | .pressings _ _ _ => .release
      | .lane _ _ _ => .release
    page := focus.page, pages := focus.pages, pageSize := focus.pageSize,
    members := focus.target.size }

namespace Ladder

variable (ladder : Ladder)

/-- The payload of a plan. -/
def payload (budget : Budget) (focus : Option Focus) (plan : MasterPlan)
    (releases : List ReleaseNode × List ReleaseAgg) : Payload :=
  { rootId := ladder.catalog.rootId
    rootName := ladder.catalog.rootName
    budget
    focus := focus.map (·.entry)
    signedIn := ladder.signedIn
    totals := ladder.totals
    creditNodes := plan.shownCredits.map ladder.creditNode
    creditAggs := if plan.foldedCredits = [] then [] else [ladder.otherAgg plan.foldedCredits]
    masterNodes := (sortBy ladder.masterNodeKey plan.masters).map ladder.masterNode
    masterAggs := plan.lanes.map ladder.laneAgg ++
      (sortBy ladder.bucketKey plan.buckets).map (fun bucket =>
        ladder.bucketAgg bucket.1.1 bucket.1.2 bucket.2) ++
      ladder.remainderAggs focus plan.remainder
    releaseNodes := releases.1.map ladder.releaseNode
    releaseAggs := releases.2.map ladder.releaseAgg }

/-- `render`. -/
def render (budget : Budget) (focus : Option Focus) : Except StrataError Payload := do
  let plan ← ladder.fit budget focus
  let releases ← ladder.planReleases budget focus plan
  pure (ladder.payload budget focus plan releases)

end Ladder

/-- `build_strata`; an empty focus is no focus. -/
def buildStrata (catalog : Catalog) (budget : Budget) (focus : Option String) (page : Nat)
    (marks : Option Marks) : Except StrataError Payload := do
  let ladder := Ladder.build catalog marks
  let resolved ← match focus with
    | none => pure none
    | some focusId =>
        if focusId = "" then pure none
        else some <$> ladder.resolveFocus focusId page budget
  ladder.render budget resolved

/-! ## Requests -/

theorem build_strata_none (catalog : Catalog) (budget : Budget) (page : Nat)
    (marks : Option Marks) :
    buildStrata catalog budget none page marks =
      (Ladder.build catalog marks).render budget none := by
  simp only [buildStrata, pure_bind]

theorem build_strata_empty (catalog : Catalog) (budget : Budget) (page : Nat)
    (marks : Option Marks) :
    buildStrata catalog budget (some "") page marks =
      (Ladder.build catalog marks).render budget none := by
  simp only [buildStrata, if_true, pure_bind]

theorem build_strata_some (catalog : Catalog) (budget : Budget) {focusId : String} (page : Nat)
    (marks : Option Marks) (h : focusId ≠ "") :
    buildStrata catalog budget (some focusId) page marks =
      (Ladder.build catalog marks).resolveFocus focusId page budget >>= fun found =>
        (Ladder.build catalog marks).render budget (some found) := by
  simp only [buildStrata, if_neg h, bind_map_left]

end CatalogApi.Strata
