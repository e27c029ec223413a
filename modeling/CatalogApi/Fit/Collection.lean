import CatalogApi.Lib.Folds
import Mathlib.Data.Finset.Sort
import Mathlib.Data.String.Basic

/-!
# The folded collection

`fold_collection` of `api/queries/fit_queries.py`: one row per held release folded into id sets,
counts per facet, the neighbourhoods of each genre and the index of held titles. A set is a finite
set until it is sorted at the end. `str.casefold` followed by `str.strip` is a parameter
`titleText`, so what is proved holds of any rule that a title key is made by.
-/

namespace CatalogApi.Fit

open Folds

/-- A row of `_COLLECTION_CYPHER`. -/
structure Row where
  releaseId : Option String
  title : Option String
  artistIds : List String
  labelIds : List String
  genres : List String
  styles : List String
  masterIds : List String
  deriving DecidableEq

/-- A row as the loop reads it: only the values that are not empty. -/
structure Release where
  releaseId : String
  title : Option String
  artists : List String
  labels : List String
  genres : List String
  styles : List String
  masters : List String

/-- What `fold_collection` returns. -/
structure Collection where
  releaseIds : List String
  masterIds : List String
  artistIds : List String
  labelIds : List String
  genres : List String
  styles : List String
  artistCounts : List (String × Nat)
  labelCounts : List (String × Nat)
  genreCounts : List (String × Nat)
  styleCounts : List (String × Nat)
  genreArtists : List (String × List String)
  genreLabels : List (String × List String)
  genreStyles : List (String × List String)
  heldTitles : List (String × String)
  heldTitleReleases : List (String × String)

/-- `mapping.get(key)` of a returned dictionary. -/
def get {V : Type} (mapping : List (String × V)) (key : String) : Option V :=
  (mapping.find? fun entry => entry.1 = key).map (·.2)

/-- `value or None`. -/
def truthy (value : Option String) : Option String := value.filter (· ≠ "")

/-- `[str(value) for value in values if value]`. -/
def present (values : List String) : List String := values.filter (· ≠ "")

/-- The values of a row, when it has a release id. -/
def release (row : Row) : Option Release :=
  (truthy row.releaseId).map fun releaseId =>
    { releaseId, title := truthy row.title, artists := present row.artistIds,
      labels := present row.labelIds, genres := present row.genres, styles := present row.styles,
      masters := present row.masterIds }

/-- The accumulators of the loop. -/
structure Folding where
  releaseIds : Finset String
  masterIds : Finset String
  artistIds : Finset String
  labelIds : Finset String
  genres : Finset String
  styles : Finset String
  artistCounts : Dict String Nat
  labelCounts : Dict String Nat
  genreCounts : Dict String Nat
  styleCounts : Dict String Nat
  genreArtists : Dict String (Finset String)
  genreLabels : Dict String (Finset String)
  genreStyles : Dict String (Finset String)
  heldTitles : Dict String String
  heldTitleReleases : Dict String String

def emptyFolding : Folding :=
  { releaseIds := ∅, masterIds := ∅, artistIds := ∅, labelIds := ∅, genres := ∅, styles := ∅,
    artistCounts := .empty, labelCounts := .empty, genreCounts := .empty, styleCounts := .empty,
    genreArtists := .empty, genreLabels := .empty, genreStyles := .empty,
    heldTitles := .empty, heldTitleReleases := .empty }

/-- Count one release for each value, once even when the release names it twice. -/
def countValues (counts : Dict String Nat) (values : List String) : Dict String Nat :=
  values.eraseDups.foldl (fun d value => d.set value ((d.get? value).getD 0 + 1)) counts

/-- `mapping.setdefault(genre, set()).update(values)` for each genre of a release. -/
def joinValues (mapping : Dict String (Finset String)) (genres values : List String) :
    Dict String (Finset String) :=
  genres.eraseDups.foldl
    (fun d genre => d.set genre (((d.get? genre).getD ∅) ∪ values.toFinset)) mapping

section Titles

variable (titleText : String → String)

/-- `held_title_key`. -/
def heldTitleKey (artistId title : String) : String := artistId ++ "|" ++ titleText title

/-- The title keys of a release. -/
def titleKeys (release : Release) : List String :=
  match release.title with
  | none => []
  | some title => release.artists.map fun artistId => heldTitleKey titleText artistId title

/-- The title entries of a release. -/
def addTitles (titles : Dict String String) (release : Release) : Dict String String :=
  match release.title with
  | none => titles
  | some title => (titleKeys titleText release).foldl (fun d key => d.set key title) titles

/-- The lowest id of each title key, the release included. -/
def addTitleReleases (ids : Dict String String) (release : Release) : Dict String String :=
  (titleKeys titleText release).foldl (fun d key =>
    d.set key (min ((d.get? key).getD release.releaseId) release.releaseId)) ids

/-- The body of the loop. -/
def foldRelease (folding : Folding) (release : Release) : Folding where
  releaseIds := insert release.releaseId folding.releaseIds
  masterIds := folding.masterIds ∪ release.masters.toFinset
  artistIds := folding.artistIds ∪ release.artists.toFinset
  labelIds := folding.labelIds ∪ release.labels.toFinset
  genres := folding.genres ∪ release.genres.toFinset
  styles := folding.styles ∪ release.styles.toFinset
  artistCounts := countValues folding.artistCounts release.artists
  labelCounts := countValues folding.labelCounts release.labels
  genreCounts := countValues folding.genreCounts release.genres
  styleCounts := countValues folding.styleCounts release.styles
  genreArtists := joinValues folding.genreArtists release.genres release.artists
  genreLabels := joinValues folding.genreLabels release.genres release.labels
  genreStyles := joinValues folding.genreStyles release.genres release.styles
  heldTitles := addTitles titleText folding.heldTitles release
  heldTitleReleases := addTitleReleases titleText folding.heldTitleReleases release

/-- The loop over the releases. -/
def folded (releases : List Release) : Folding :=
  releases.foldl (foldRelease titleText) emptyFolding

/-- `{genre: sorted(values) for genre, values in sorted(mapping.items())}`. -/
def sortedSets (mapping : Dict String (Finset String)) : List (String × List String) :=
  (sortedItems mapping).map fun entry => (entry.1, entry.2.sort)

/-- `fold_collection`. -/
def foldCollection (rows : List Row) : Collection :=
  let folding := folded titleText (rows.filterMap release)
  { releaseIds := folding.releaseIds.sort
    masterIds := folding.masterIds.sort
    artistIds := folding.artistIds.sort
    labelIds := folding.labelIds.sort
    genres := folding.genres.sort
    styles := folding.styles.sort
    artistCounts := sortedItems folding.artistCounts
    labelCounts := sortedItems folding.labelCounts
    genreCounts := sortedItems folding.genreCounts
    styleCounts := sortedItems folding.styleCounts
    genreArtists := sortedSets folding.genreArtists
    genreLabels := sortedSets folding.genreLabels
    genreStyles := sortedSets folding.genreStyles
    heldTitles := sortedItems folding.heldTitles
    heldTitleReleases := sortedItems folding.heldTitleReleases }

end Titles

end CatalogApi.Fit
