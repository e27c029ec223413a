import CatalogApi.Lib.Firsts
import CatalogApi.Lib.Reordered
import Mathlib.Data.String.Basic

/-!
# Search results

`_entity_select`, `_build_union` and `_run_results` of `api/queries/search_queries.py` over the four
entity tables. PostgreSQL's text search for a query and its cast of a year are parameters, and so
is the order in which an execution puts rows that compare equal under an `ORDER BY`.
-/

namespace CatalogApi.Search

open ByKey

/-- `ALL_TYPES`. -/
inductive EntityType where
  | artist | label | master | release
  deriving DecidableEq

/-- The ids of a media block. -/
structure Media where
  families : List String
  mediums : List String

/-- A row of an entity table, with the fields of `data` that a search reads. -/
structure Document where
  dataId : String
  name : Option String
  title : Option String
  year : Option String
  genres : Option (List String)
  media : Option Media
  country : Option String

/-- The entity tables. -/
abbrev Catalog := EntityType → List Document

/-- An entry of `_ENTITY_CONFIG`. -/
structure EntityConfig where
  nameField : Document → Option String
  hasYear : Bool
  hasGenres : Bool
  hasMedia : Bool
  hasCountry : Bool

/-- `_ENTITY_CONFIG`. -/
def entityConfig : EntityType → EntityConfig
  | .artist => ⟨(·.name), false, false, false, false⟩
  | .label => ⟨(·.name), false, false, false, false⟩
  | .master => ⟨(·.title), true, false, false, false⟩
  | .release => ⟨(·.title), true, true, true, true⟩

/-- PostgreSQL's text search for a query: what it finds, how it ranks and shows it, and the number
of a year. -/
structure TextSearch (Rank : Type) where
  found : String → Bool
  rank : String → Rank
  headline : String → String
  yearNumber : String → Int

structure Filters where
  yearMin : Option Int
  yearMax : Option Int
  genres : List String
  mediaFamilies : List String
  mediaMediums : List String
  countries : List String

/-- `_year_filter_clause`. -/
def yearFilter (yearNumber : String → Int) (yearMin yearMax : Option Int)
    (column : Option String) : Bool :=
  (yearMin.all fun bound => column.all fun year => bound ≤ yearNumber year) &&
    (yearMax.all fun bound => column.all fun year => yearNumber year ≤ bound)

/-- `_genre_filter_clause`. -/
def genreFilter (genres : List String) (column : Option (List String)) : Bool :=
  genres.isEmpty || column.all fun held => genres.any fun genre => genre ∈ held

/-- `_media_filter_clause`. -/
def mediaFilter (families mediums : List String) (column : Option Media) : Bool :=
  (families.isEmpty && mediums.isEmpty) || column.all fun media =>
    (families.any fun family => family ∈ media.families) ||
      mediums.any fun medium => medium ∈ media.mediums

/-- `_country_filter_clause`. -/
def countryFilter (countries : List String) (column : Option String) : Bool :=
  countries.isEmpty || column.all fun country => country ∈ countries

/-- A query with its filters. -/
structure Query (Rank : Type) where
  search : TextSearch Rank
  filters : Filters

/-- A row of the results. -/
structure Row (Rank : Type) where
  type : EntityType
  id : String
  name : Option String
  rank : Rank
  highlight : String
  year : Option String
  genres : Option (List String)
  country : Option String
  deriving DecidableEq

section Select

variable {Rank : Type} [LinearOrder Rank]

namespace Query

variable (query : Query Rank) (type : EntityType)

/-- `COALESCE(data->>{name}, '')`. -/
def text (document : Document) : String := ((entityConfig type).nameField document).getD ""

/-- The `WHERE` of a branch. -/
def selects (document : Document) : Bool :=
  let config := entityConfig type
  query.search.found (text type document) &&
    yearFilter query.search.yearNumber query.filters.yearMin query.filters.yearMax
      (if config.hasYear then document.year else none) &&
    genreFilter query.filters.genres (if config.hasGenres then document.genres else none) &&
    mediaFilter query.filters.mediaFamilies query.filters.mediaMediums
      (if config.hasMedia then document.media else none) &&
    countryFilter query.filters.countries (if config.hasCountry then document.country else none)

/-- The row of a document with its rank. -/
def row (rank : Rank) (document : Document) : Row Rank :=
  let config := entityConfig type
  { type, id := document.dataId, name := config.nameField document, rank
    highlight := query.search.headline (text type document)
    year := if config.hasYear then document.year else none
    genres := if config.hasGenres then document.genres else none
    country := if config.hasCountry then document.country else none }

/-- `data_id` and rank of the matches of a branch. -/
def matched (catalog : Catalog) : List (String × Rank) :=
  ((catalog type).filter (query.selects type)).map fun document =>
    (document.dataId, query.search.rank (text type document))

end Query

/-- The order `rank DESC, data_id` of a branch. -/
def branchKey (entry : String × Rank) : Rankᵒᵈ ×ₗ String := toLex (OrderDual.toDual entry.2, entry.1)

/-- The order `rank DESC, id` of the results. -/
def rowKey (row : Row Rank) : Rankᵒᵈ ×ₗ String := toLex (OrderDual.toDual row.rank, row.id)

/-- How one execution sorts the matches of each branch, and the results. -/
structure Sorts (Rank : Type) where
  branch : EntityType → List (String × Rank) → List (String × Rank)
  results : List (Row Rank) → List (Row Rank)

/-- An execution sorts by the order of each `ORDER BY`. -/
structure Sorts.Lawful (sorts : Sorts Rank) : Prop where
  branch : ∀ type entries, Slices.Ordered branchKey entries (sorts.branch type entries)
  results : ∀ rows, Slices.Ordered rowKey rows (sorts.results rows)

section Run

variable (query : Query Rank) (sorts : Sorts Rank) (catalog : Catalog)

/-- `_entity_select`. -/
def entitySelect (perTableLimit : Nat) (type : EntityType) : List (Row Rank) :=
  let matched := query.matched type catalog
  let top := if perTableLimit = 0 then matched else (sorts.branch type matched).take perTableLimit
  top.flatMap fun entry =>
    ((catalog type).filter fun document => document.dataId = entry.1).map (query.row type entry.2)

inductive SearchError where
  /-- `types must not be empty`. -/
  | noTypes

/-- `_build_union`. -/
def buildUnion (perTableLimit : Nat) (types : List EntityType) :
    Except SearchError (List (Row Rank)) :=
  if types = [] then .error .noTypes
  else .ok (types.flatMap (entitySelect query sorts catalog perTableLimit))

/-- `_run_results`. -/
def runResults (types : List EntityType) (limit offset : Nat) :
    Except SearchError (List (Row Rank)) := do
  let results ← buildUnion query sorts catalog ((limit + offset) * 2) types
  return ((sorts.results results).drop offset).take limit

end Run

end Select

end CatalogApi.Search
