import CatalogApi.Strata.Focus

/-!
# Folding a view into its budget

`_credit_levels`, `_release_floor`, `_plan_masters`, `fit`, `plan_releases` and `_fold_releases`
of `api/strata.py`. A focused master or lane draws its page and holds the rest of its members in
one aggregate; everything else folds, from the finest view to the coarsest, until it fits.
-/

namespace CatalogApi.Strata

open ByKey Text

/-- `_MasterPlan`. -/
structure MasterPlan where
  shownCredits : List Credit
  foldedCredits : List Credit
  masters : List String
  buckets : List ((Credit × String) × List String)
  remainder : List String
  lanes : List Credit

/-- `_ReleaseAgg`. -/
structure ReleaseAgg where
  id : String
  parent : String
  items : List Item
  decade : Option String

/-! ## The focus in a view -/

/-- The focus and its members, when it is on the credits beyond the root. -/
def onOthers (focus : Option Focus) : Option (Focus × List Credit) :=
  match focus with
  | none => none
  | some focus =>
      match focus.target with
      | .others members => some (focus, members)
      | _ => none

/-- The focus and its members, when it is on this master. -/
def onMaster (focus : Option Focus) (masterId : String) : Option (Focus × List Item) :=
  match focus with
  | none => none
  | some focus =>
      match focus.target with
      | .pressings _ focused members => if focused = masterId then some (focus, members) else none
      | _ => none

/-- The focus, its label and its members, when it is on this lane. -/
def onLane (focus : Option Focus) (lane : Credit) :
    Option (Focus × Option String × List Item) :=
  match focus with
  | none => none
  | some focus =>
      match focus.target with
      | .lane focused label members =>
          if focused = lane then some (focus, label, members) else none
      | _ => none

/-- The masters a focus pins to the plane, and those it holds in one remainder. -/
def pinnedMasters (focus : Option Focus) : List String × List String :=
  match focus with
  | none => ([], [])
  | some focus =>
      match focus.target with
      | .bucket _ _ members => (focus.onPage members, focus.offPage members)
      | .pressings _ masterId _ => ([masterId], [])
      | _ => ([], [])

/-- What one strategy keeps as nodes, and how it folds the rest of a lane. -/
structure Strategy where
  keepOriginal : Bool
  keepStateful : Bool
  byDecade : Bool
  deriving DecidableEq

/-- `strategies`, from the finest to the coarsest. -/
def strategies : List Strategy :=
  [⟨true, true, true⟩, ⟨true, true, false⟩, ⟨false, true, false⟩, ⟨false, false, false⟩]

/-- A release node with its parent. -/
abbrev ReleaseNode := Item × String

/-- The node id of a master. -/
def masterNodeId (masterId : String) : String := "m:" ++ masterId

/-- The id of a no-master lane. -/
def laneId (lane : Credit) : String := "nm:" ++ creditId lane

namespace Ladder

variable (ladder : Ladder) (budget : Budget) (focus : Option Focus)

/-! ## Credits -/

/-- The credits that every level of a view draws. -/
def baseCredits : List Credit :=
  match focus.bind (·.target.credit) with
  | none => [ladder.root]
  | some credit => if credit = ladder.root then [ladder.root] else [ladder.root, credit]

/-- `_credit_levels`: the drawn and the folded credits, from the finest level to the coarsest. -/
def creditLevels : List (List Credit × List Credit) :=
  match onOthers focus with
  | some (focus, members) => [(ladder.root :: focus.onPage members, focus.offPage members)]
  | none =>
      let base := ladder.baseCredits focus
      let rest := ladder.creditOrder.filter fun credit => credit ∉ base
      let most : Int :=
        if base.length + rest.length ≤ budget.credits then rest.length
        else budget.credits - base.length - 1
      -- from `most` extra credits down to none
      (List.range (most + 1).toNat).reverse.map fun extra =>
        (ladder.creditOrder.filter fun credit => credit ∈ base ∨ credit ∈ rest.take extra,
          rest.drop extra)

/-- The level that draws `extra` credits besides the base. -/
def levelOf (ladder : Ladder) (focus : Option Focus) (extra : Nat) :
    List Credit × List Credit :=
  let rest := ladder.creditOrder.filter fun credit => credit ∉ ladder.baseCredits focus
  (ladder.creditOrder.filter fun credit =>
      credit ∈ ladder.baseCredits focus ∨ credit ∈ rest.take extra,
    rest.drop extra)

/-! ## Masters -/

/-- The fewest release-plane entries of a drawn master. -/
def masterFloor (masterId : String) : Nat :=
  match onMaster focus masterId with
  | some (focus, members) => (focus.onPage members).length + present (focus.offPage members)
  | none => 1

/-- The fewest release-plane entries of a drawn lane. -/
def laneFloor (lane : Credit) : Nat :=
  match onLane focus lane with
  | some (focus, _, members) =>
      (focus.onPage members).length + present (focus.offPage members) +
        (if (ladder.masterless lane).length > members.length then 1 else 0)
  | none => 1

/-- `_release_floor`. -/
def releaseFloor (pinned : List String) (lanes : List Credit) : Nat :=
  (pinned.map (masterFloor focus)).sum + (lanes.map (ladder.laneFloor focus)).sum

/-- The view of `keep` masters and `buckets` buckets goes over the budget. -/
def overBudget (fixedM fixedR keep buckets : Nat) : Prop :=
  fixedM + keep + buckets > budget.masters ∨ fixedR + keep > budget.releases

instance (fixedM fixedR keep buckets : Nat) :
    Decidable (overBudget budget fixedM fixedR keep buckets) :=
  inferInstanceAs (Decidable (_ ∨ _))

/-- The `while` loop of `_plan_masters`. The kept candidates stand last first; the keys of the
counter are the buckets of the candidates folded so far. -/
def foldMasters (fixedM fixedR : Nat) (bucket : String → Credit × String) :
    List String → List (Credit × String) → List String × List (Credit × String)
  | [], buckets => ([], buckets)
  | masterId :: kept, buckets =>
      if overBudget budget fixedM fixedR (kept.length + 1) buckets.length then
        foldMasters fixedM fixedR bucket kept (buckets.insert (bucket masterId))
      else (masterId :: kept, buckets)

/-- `bucketed`: the folded masters by bucket, in the order the buckets were opened. -/
def bucketed (bucket : String → Credit × String) (masters : List String) :
    List ((Credit × String) × List String) :=
  (masters.map bucket).eraseDups.map fun key =>
    (key, masters.filter fun masterId => bucket masterId = key)

/-- The masters a level may keep, the first to keep first. -/
def candidates (shown : List Credit) : List String :=
  let (pinned, remainder) := pinnedMasters focus
  sortBy ladder.masterPriority
    ((shown.flatMap ladder.mastersByCredit).filter fun masterId => masterId ∉ pinned ++ remainder)

/-- `_plan_masters`. -/
def planMasters (shown folded : List Credit) (mode : FoldMode) : Option MasterPlan :=
  let (pinned, remainder) := pinnedMasters focus
  let candidates := ladder.candidates focus shown
  let lanes := shown.filter fun credit => ladder.masterless credit ≠ []
  let fixedM := pinned.length + present remainder + lanes.length
  let fixedR := ladder.releaseFloor focus pinned lanes
  let (kept, buckets) :=
    foldMasters budget fixedM fixedR (ladder.bucket mode) candidates.reverse []
  if overBudget budget fixedM fixedR kept.length buckets.length then none
  else some
    { shownCredits := shown, foldedCredits := folded, masters := pinned ++ kept.reverse,
      buckets := bucketed (ladder.bucket mode) (candidates.drop kept.length), remainder, lanes }

/-- `fit`: the first plan of the finest level that has one, by decade before all together. -/
def fit : Except StrataError MasterPlan :=
  let views := (ladder.creditLevels budget focus).flatMap fun level =>
    [(level, FoldMode.decade), (level, FoldMode.all)]
  match views.findSome? fun (level, mode) =>
    ladder.planMasters budget focus level.1 level.2 mode with
  | some plan => pure plan
  | none => throw (.assertion "no strata view fits a validated budget")

/-! ## Releases -/

/-- The items of a master that a strategy keeps as nodes. -/
def keepsOfMaster (strategy : Strategy) (masterId : String) (item : Item) : Bool :=
  (strategy.keepOriginal ∧ item.release.provider = .discogs ∧
    some item.release.id = ladder.anchor masterId) ∨ (strategy.keepStateful ∧ item.stateful)

/-- One master of `_fold_releases`. -/
def foldMaster (strategy : Strategy) (masterId : String) :
    List ReleaseNode × List ReleaseAgg :=
  let parent := masterNodeId masterId
  let kept := (ladder.itemsByMaster masterId).filter (ladder.keepsOfMaster strategy masterId)
  let rest := (ladder.itemsByMaster masterId).filter fun item =>
    ¬ladder.keepsOfMaster strategy masterId item
  (kept.map (·, parent),
    if rest = [] then []
    else [{ id := "ra:m:" ++ masterId, parent, items := rest, decade := none }])

/-- One lane of `_fold_releases`. -/
def foldLane (strategy : Strategy) (lane : Credit) (items : List Item) :
    List ReleaseNode × List ReleaseAgg :=
  let parent := laneId lane
  let kept := items.filter fun item => strategy.keepStateful ∧ item.stateful
  let rest := items.filter fun item => ¬(strategy.keepStateful ∧ item.stateful)
  (kept.map (·, parent),
    if rest = [] then []
    else if strategy.byDecade then
      (rest.map fun item => decade item.year).eraseDups.map fun label =>
        { id := "ra:nm:" ++ creditId lane ++ ":" ++ label, parent,
          items := rest.filter fun item => decade item.year = label, decade := some label }
    else [{ id := "ra:nm:" ++ creditId lane, parent, items := rest, decade := none }])

/-- `_fold_releases`. -/
def foldReleases (masters : List String) (lanes : List (Credit × List Item))
    (strategy : Strategy) : List ReleaseNode × List ReleaseAgg :=
  (masters.flatMap (fun masterId => (ladder.foldMaster strategy masterId).1) ++
      lanes.flatMap fun lane => (foldLane strategy lane.1 lane.2).1,
    masters.flatMap (fun masterId => (ladder.foldMaster strategy masterId).2) ++
      lanes.flatMap fun lane => (foldLane strategy lane.1 lane.2).2)

/-- The page and the rest of the focus, when it is on this master. -/
def fixedOfMaster (masterId : String) : List ReleaseNode × List ReleaseAgg :=
  match onMaster focus masterId with
  | none => ([], [])
  | some (focus, members) =>
      let parent := masterNodeId masterId
      ((focus.onPage members).map (·, parent),
        if focus.offPage members = [] then []
        else [{ id := focus.id, parent, items := focus.offPage members, decade := none }])

/-- The page and the rest of the focus, when it is on this lane. -/
def fixedOfLane (lane : Credit) : List ReleaseNode × List ReleaseAgg :=
  match onLane focus lane with
  | none => ([], [])
  | some (focus, label, members) =>
      let parent := laneId lane
      ((focus.onPage members).map (·, parent),
        if focus.offPage members = [] then []
        else [{ id := focus.id, parent, items := focus.offPage members, decade := label }])

/-- The releases of a lane that are not members of the focus. -/
def openItems (lane : Credit) : List Item :=
  match onLane focus lane with
  | none => ladder.masterless lane
  | some (_, _, members) => (ladder.masterless lane).filter fun item => item ∉ members

/-- The strategies in turn: the first that fits the room, else the last. -/
def firstFitting (room : Int) (fold : Strategy → List ReleaseNode × List ReleaseAgg) :
    List Strategy → Except StrataError (List ReleaseNode × List ReleaseAgg)
  | [] => throw (.assertion "unreachable: the last strategy always returns")
  | strategy :: rest =>
      let (nodes, aggs) := fold strategy
      if (nodes.length + aggs.length : Int) ≤ room ∨
          ¬(strategy.keepOriginal ∨ strategy.keepStateful ∨ strategy.byDecade) then
        pure (nodes, aggs)
      else firstFitting room fold rest

/-- `fixed_nodes`: the focused page, under its master or lane. -/
def fixedNodes (plan : MasterPlan) : List ReleaseNode :=
  plan.masters.flatMap (fun masterId => (fixedOfMaster focus masterId).1) ++
    plan.lanes.flatMap fun lane => (fixedOfLane focus lane).1

/-- `fixed_aggs`: the rest of the focus. -/
def fixedAggs (plan : MasterPlan) : List ReleaseAgg :=
  plan.masters.flatMap (fun masterId => (fixedOfMaster focus masterId).2) ++
    plan.lanes.flatMap fun lane => (fixedOfLane focus lane).2

/-- `open_masters`. -/
def openMasters (plan : MasterPlan) : List String :=
  plan.masters.filter fun masterId => onMaster focus masterId = none

/-- `open_lanes`. -/
def openLanes (plan : MasterPlan) : List (Credit × List Item) :=
  (plan.lanes.map fun lane => (lane, ladder.openItems focus lane)).filter fun lane => lane.2 ≠ []

/-- `everything`: each open release as a node. -/
def everything (masters : List String) (lanes : List (Credit × List Item)) : List ReleaseNode :=
  masters.flatMap (fun masterId =>
      (ladder.itemsByMaster masterId).map (·, masterNodeId masterId)) ++
    lanes.flatMap fun lane => lane.2.map (·, laneId lane.1)

/-- `plan_releases`. -/
def planReleases (plan : MasterPlan) :
    Except StrataError (List ReleaseNode × List ReleaseAgg) := do
  let fixedNodes := fixedNodes focus plan
  let fixedAggs := fixedAggs focus plan
  let openMasters := openMasters focus plan
  let openLanes := ladder.openLanes focus plan
  let room : Int := budget.releases - fixedNodes.length - fixedAggs.length
  let everything := ladder.everything openMasters openLanes
  if (everything.length : Int) ≤ room then pure (fixedNodes ++ everything, fixedAggs)
  else do
    let (nodes, aggs) ← firstFitting room (ladder.foldReleases openMasters openLanes) strategies
    pure (fixedNodes ++ nodes, fixedAggs ++ aggs)

end Ladder

end CatalogApi.Strata
