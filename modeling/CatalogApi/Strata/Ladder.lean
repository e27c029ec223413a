import CatalogApi.Strata.Catalog

/-!
# The ladder of one root

`_Item` and `_Ladder.__init__` of `api/strata.py`: every release placed under a credit, directly
or through its master, and the groups a view is folded from. A dictionary of groups is the list of
its keys in insertion order together with the group of each key; a key that the dictionary does
not hold has the empty group, and the subscripts of the source only take keys it holds.
-/

namespace CatalogApi.Strata

open ByKey Text

/-- Where the year of an item comes from. -/
inductive YearSource where
  | release | master
  deriving DecidableEq

/-- `_Item`: a release placed on the ladder. -/
structure Item where
  release : Release
  year : Option Int
  yearSource : Option YearSource
  credit : Credit
  state : Option CollectorState
  mark : Option Mark
  deriving DecidableEq

/-- `_Item.node_id`. -/
def Item.nodeId (item : Item) : String :=
  match item.release.provider with
  | .discogs => "r:" ++ item.release.id
  | .musicbrainz => "mb:" ++ item.release.id

/-- `_Item.stateful`. -/
def Item.stateful (item : Item) : Bool :=
  item.state ≠ none ∧ item.state ≠ some .none

/-- `_Item.sort_key`: undated items first, then by year, provider and id. -/
def Item.sortKey (item : Item) : Bool ×ₗ Int ×ₗ Bool ×ₗ IdKey :=
  toLex (item.year.isSome, toLex (item.year.getD 0,
    toLex (decide (item.release.provider ≠ .discogs), idKey item.release.id)))

/-- `_span`: the first and the last year. -/
def span (items : List Item) : Option Int × Option Int :=
  let years := items.filterMap (·.year)
  (years.min?, years.max?)

/-- The caller's marks by Discogs release id. -/
abbrev Marks := Dict String Mark

/-- The attributes of `_Ladder`. -/
structure Ladder where
  catalog : Catalog
  signedIn : Bool
  anchor : String → Option String
  items : List Item
  masterIds : List String
  itemsByMaster : String → List Item
  masterlessCredits : List Credit
  masterless : Credit → List Item
  byNodeId : String → Option Item
  masterCredit : String → Credit
  masterYear : String → Option Int
  mastersByCredit : Credit → List String
  statefulMasters : String → Bool
  creditOrder : List Credit

/-- `_Ladder.root`. -/
def Ladder.root (ladder : Ladder) : Credit := [ladder.catalog.rootId]

/-! ## Placing the releases -/

section Placing

variable (catalog : Catalog) (marks : Option Marks)

/-- The Discogs releases of a master. -/
def byMaster (masterId : String) : List Release :=
  catalog.releases.filter fun release =>
    release.provider = .discogs ∧ release.masterId = some masterId

/-- The order that finds the original of a master: the earliest dated release. -/
def originalKey (release : Release) : Bool ×ₗ Int ×ₗ IdKey :=
  toLex (release.year.isNone, toLex (release.year.getD 0, idKey release.id))

/-- The original of a master. -/
def original (masterId : String) : Option Release :=
  firstBy originalKey (byMaster catalog masterId)

/-- The year of the master a release names. -/
def ownMasterYear (release : Release) : Option Int :=
  match release.masterId with
  | none => none
  | some masterId =>
      if masterId = "" then none else (catalog.masterYears.get? masterId).join

/-- The effective year of a release: its own, else that of its master. -/
def effectiveYear (release : Release) : Option Int × Option YearSource :=
  match release.year with
  | some year => (some year, some .release)
  | none =>
      match ownMasterYear catalog release with
      | some year => (some year, some .master)
      | none => (none, none)

/-- The item of a release; a MusicBrainz-only release reaches the ladder only through a master. -/
def place (release : Release) : Option Item :=
  let (year, yearSource) := effectiveYear catalog release
  match release.provider with
  | .discogs =>
      let mark := marks.map fun marks => (marks.get? release.id).getD noMark
      some { release, year, yearSource, credit := release.credit, state := mark.map (·.state),
             mark }
  | .musicbrainz =>
      match release.masterId.bind (original catalog) with
      | some original =>
          some { release, year, yearSource, credit := original.credit, state := none,
                 mark := none }
      | none => none

/-- The items of the ladder in catalog order. -/
def placed : List Item :=
  catalog.releases.filterMap (place catalog marks)

/-! ## The groups -/

/-- `items_by_master[masterId]`. -/
def itemsUnder (masterId : String) : List Item :=
  sortBy Item.sortKey
    ((placed catalog marks).filter fun item => item.release.masterId = some masterId)

/-- `masterless[credit]`. -/
def itemsWithout (credit : Credit) : List Item :=
  sortBy Item.sortKey
    ((placed catalog marks).filter fun item =>
      item.release.masterId = none ∧ item.credit = credit)

/-- The keys of `items_by_master`. -/
def placedMasters : List String :=
  ((placed catalog marks).filterMap (·.release.masterId)).eraseDups

/-- The keys of `masterless`. -/
def placedLanes : List Credit :=
  (((placed catalog marks).filter fun item => item.release.masterId = none).map
    (·.credit)).eraseDups

/-- `master_credit[masterId]`: the credit of the original. -/
def creditOfMaster (masterId : String) : Credit :=
  (original catalog masterId).elim [] (·.credit)

/-- `master_year[masterId]`: the master's own year, else the first of its items. -/
def yearOfMaster (masterId : String) : Option Int :=
  (catalog.masterYears.get? masterId).join.or (span (itemsUnder catalog marks masterId)).1

/-- The order of the masters of one credit. -/
def masterKey (masterId : String) : Bool ×ₗ Int ×ₗ IdKey :=
  let year := yearOfMaster catalog marks masterId
  toLex (year.isSome, toLex (year.getD 0, idKey masterId))

/-- `masters_by_credit[credit]`. -/
def mastersUnder (credit : Credit) : List String :=
  sortBy (masterKey catalog marks)
    ((placedMasters catalog marks).filter fun masterId =>
      creditOfMaster catalog masterId = credit)

/-- How many releases sit under a credit. -/
def placedUnder (credit : Credit) : Nat :=
  ((mastersUnder catalog marks credit).map fun masterId =>
    (itemsUnder catalog marks masterId).length).sum + (itemsWithout catalog marks credit).length

/-- The credits with something under them. -/
def placedCredits : List Credit :=
  ((placedMasters catalog marks).map (creditOfMaster catalog) ++
    placedLanes catalog marks).eraseDups

/-- The order of the credits beyond the root: the most releases first. -/
def creditKey (credit : Credit) : Int ×ₗ String :=
  toLex (-(placedUnder catalog marks credit : Int), creditId credit)

/-- `_Ladder(catalog, marks)`. -/
def Ladder.build : Ladder where
  catalog := catalog
  signedIn := marks.isSome
  anchor := fun masterId => (original catalog masterId).map (·.id)
  items := placed catalog marks
  masterIds := placedMasters catalog marks
  itemsByMaster := itemsUnder catalog marks
  masterlessCredits := placedLanes catalog marks
  masterless := itemsWithout catalog marks
  byNodeId := fun nodeId => (placed catalog marks).reverse.find? fun item => item.nodeId = nodeId
  masterCredit := creditOfMaster catalog
  masterYear := yearOfMaster catalog marks
  mastersByCredit := mastersUnder catalog marks
  statefulMasters := fun masterId => (itemsUnder catalog marks masterId).any (·.stateful)
  creditOrder := [catalog.rootId] ::
    sortBy (creditKey catalog marks)
      ((placedCredits catalog marks).filter fun credit => credit ≠ [catalog.rootId])

end Placing

/-! ## Credit-level helpers -/

/-- `credit_items`. -/
def Ladder.creditItems (ladder : Ladder) (credit : Credit) : List Item :=
  (ladder.mastersByCredit credit).flatMap ladder.itemsByMaster ++ ladder.masterless credit

/-- `_master_priority`: stateful masters first, then the most releases. -/
def Ladder.masterPriority (ladder : Ladder) (masterId : String) : Bool ×ₗ Int ×ₗ IdKey :=
  toLex (!ladder.statefulMasters masterId,
    toLex (-((ladder.itemsByMaster masterId).length : Int), idKey masterId))

/-- How masters fold: by decade, or all of a credit together. -/
inductive FoldMode where
  | decade | all

/-- `_bucket`. -/
def Ladder.bucket (ladder : Ladder) (mode : FoldMode) (masterId : String) : Credit × String :=
  (ladder.masterCredit masterId,
    match mode with
    | .decade => decade (ladder.masterYear masterId)
    | .all => all)

end CatalogApi.Strata
