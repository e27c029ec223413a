import CatalogApi.Lib.ByKey
import CatalogApi.Lib.Dict
import CatalogApi.Lib.Text
import Mathlib.Algebra.Ring.Nat
import Mathlib.Data.String.Basic

/-!
# The catalog of one root

The data of `api/strata.py`: the node budget, one artist's releases as the catalog read returns
them, the caller's marks, and the keys that order ids, years and labels. Ids are texts; the digit
test and the lower case of an id are those of ASCII.
-/

namespace CatalogApi.Strata

open Text

/-! ## Limits and fixed labels -/

/-- `PAGE_SIZE`. -/
def pageSize : Nat := 8

/-- `MAX_CREDITS`. -/
def maxCredits : Nat := 48

/-- `MAX_MASTERS`. -/
def maxMasters : Nat := 500

/-- `MAX_RELEASES`. -/
def maxReleases : Nat := 500

/-- `OTHER_CREDITS`. -/
def otherCredits : String := "c:other"

/-- `UNDATED`. -/
def undated : String := "undated"

/-- `ALL`. -/
def all : String := "all"

/-! ## Requests -/

/-- What a strata request fails with: a malformed budget, a cursor that names nothing, a pressing
that is no member of the set its cursor names, or a failed assertion. -/
inductive StrataError where
  | budget (message : String)
  | focusNotFound (message : String)
  | stopIteration
  | assertion (message : String)
  deriving DecidableEq

/-- Most entries of each plane, nodes and aggregates together. -/
structure Budget where
  credits : Nat
  masters : Nat
  releases : Nat
  deriving DecidableEq

/-- `Budget.validate`. -/
def Budget.validate (budget : Budget) : Except StrataError Unit :=
  if ¬(3 ≤ budget.credits ∧ budget.credits ≤ maxCredits) then
    throw (.budget s!"credits must be between 3 and {maxCredits}")
  else if ¬(2 * budget.credits ≤ budget.masters ∧ budget.masters ≤ maxMasters) then
    throw (.budget s!"masters must be between twice the credits and {maxMasters}")
  else if ¬(budget.credits + 1 ≤ budget.releases ∧ budget.releases ≤ maxReleases) then
    throw (.budget s!"releases must be between credits + 1 and {maxReleases}")
  else pure ()

/-- The floors that a validated budget keeps. -/
structure Budget.Floors (budget : Budget) : Prop where
  credits : 3 ≤ budget.credits
  masters : 2 * budget.credits ≤ budget.masters
  releases : budget.credits + 1 ≤ budget.releases

theorem Budget.floors_of_validate {budget : Budget} (h : budget.validate = .ok ()) :
    budget.Floors := by
  unfold Budget.validate at h
  by_cases hcredits : 3 ≤ budget.credits ∧ budget.credits ≤ maxCredits
  · by_cases hmasters : 2 * budget.credits ≤ budget.masters ∧ budget.masters ≤ maxMasters
    · by_cases hreleases : budget.credits + 1 ≤ budget.releases ∧ budget.releases ≤ maxReleases
      · exact ⟨hcredits.1, hmasters.1, hreleases.1⟩
      · rw [if_neg (not_not.mpr hcredits), if_neg (not_not.mpr hmasters), if_pos hreleases] at h
        cases h
    · rw [if_neg (not_not.mpr hcredits), if_pos hmasters] at h
      cases h
  · rw [if_pos hcredits] at h
    cases h

/-! ## Releases and marks -/

inductive Provider where
  | discogs | musicbrainz
  deriving DecidableEq

/-- A sorted set of artist ids. -/
abbrev Credit := List String

/-- One release of the root; a MusicBrainz-only release has an empty credit. -/
structure Release where
  id : String
  masterId : Option String
  year : Option Int
  credit : Credit
  provider : Provider
  title : Option String
  deriving DecidableEq

/-- The catalog side of one root. -/
structure Catalog where
  rootId : String
  rootName : Option String
  releases : List Release
  masterYears : Dict String (Option Int)

/-- The values of a collector state. -/
inductive CollectorState where
  | none | wanted | owned | wantedOwned
  deriving DecidableEq

/-- The caller's edges on one Discogs release. -/
structure Mark where
  owned : Bool
  wanted : Bool
  ownedAt : Option String
  wantedAt : Option String
  ownedCopyIds : List String
  deriving DecidableEq

/-- `Mark()`. -/
def noMark : Mark :=
  { owned := false, wanted := false, ownedAt := none, wantedAt := none, ownedCopyIds := [] }

/-- `Mark.state`. -/
def Mark.state (mark : Mark) : CollectorState :=
  if mark.owned ∧ mark.wanted then .wantedOwned
  else if mark.owned then .owned
  else if mark.wanted then .wanted else .none

/-! ## Keys -/

/-- `credit_id`. -/
def creditId (credit : Credit) : String := "c:" ++ join '+' credit

/-- The order of ids: numbers first, by value, then the other texts. -/
abbrev IdKey := Nat ×ₗ Nat ×ₗ String

/-- `id_key`. -/
def idKey (value : String) : IdKey :=
  if isDigit value then toLex (0, toLex (toInt value, "")) else toLex (1, toLex (0, value))

/-- `decade`. -/
def decade : Option Int → String
  | none => undated
  | some year => toString (year / 10 * 10) ++ "s"

/-- A number without leading zeros, or a text that is no number. -/
def Canonical (value : String) : Prop :=
  isDigit value → toString (toInt value) = value

instance (value : String) : Decidable (Canonical value) :=
  inferInstanceAs (Decidable (_ → _))

/-- Canonically written ids are told apart by their key. -/
theorem id_key_inj {value value' : String} (hvalue : Canonical value) (hvalue' : Canonical value')
    (h : idKey value = idKey value') : value = value' := by
  unfold idKey at h
  by_cases hdigit : isDigit value
  · by_cases hdigit' : isDigit value'
    · rw [if_pos hdigit, if_pos hdigit'] at h
      simp only [EmbeddingLike.apply_eq_iff_eq, Prod.mk.injEq, true_and, and_true] at h
      rw [← hvalue hdigit, h, hvalue' hdigit']
    · rw [if_pos hdigit, if_neg hdigit'] at h
      simp at h
  · by_cases hdigit' : isDigit value'
    · rw [if_neg hdigit, if_pos hdigit'] at h
      simp at h
    · rw [if_neg hdigit, if_neg hdigit'] at h
      simpa using h

end CatalogApi.Strata
