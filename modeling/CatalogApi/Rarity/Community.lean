import CatalogApi.Rarity.Signals
import Mathlib.Tactic.NormNum

/-!
# Community counts

The have and want counts of releases, loaded at once or for one page. Loaded at once they stand
under the text of every release id. A page asks for its decimal ids alone and so knows the counts of
these (`page_counts`); it fails when `int` does not take one of them (`load_page_some`).
-/

namespace CatalogApi.Rarity

open Numerals

/-- A row of `insights.community_counts`. -/
structure CommunityRow where
  releaseId : Int
  haveCount : Option Int
  wantCount : Option Int

/-- A number that a `BIGINT` holds. -/
def InBigint (n : Int) : Prop := -2 ^ 63 ≤ n ∧ n < 2 ^ 63

instance (n : Int) : Decidable (InBigint n) := inferInstanceAs (Decidable (_ ∧ _))

/-- `insights.community_counts`, with `release_id` its key. -/
structure Community where
  rows : List CommunityRow
  keyed : (rows.map (·.releaseId)).Nodup
  bigint : ∀ row ∈ rows, InBigint row.releaseId

/-- The have and want counts of a row. -/
def CommunityRow.counts (row : CommunityRow) : Counts := (row.haveCount, row.wantCount)

/-- The counts of rows by the text of the release id. -/
def countsByText (rows : List CommunityRow) : String → Option Counts :=
  indexByRelease (rows.map fun row => (toString row.releaseId, row.counts))

/-- `_load_community_counts` of a table that can be read. -/
def loadCommunityCounts (community : Community) : String → Option Counts :=
  countsByText community.rows

/-- `_load_page_community_counts`; `none` when a decimal id is too long for `int`. -/
def loadPageCommunityCounts (community : Community) (ids : List String) :
    Option (String → Option Counts) := do
  let releaseIds ← (ids.filter isDecimalText).mapM Numerals.int
  some (countsByText (community.rows.filter fun row => row.releaseId ∈ releaseIds))

/-! ## What the loaders know -/

theorem counts_by_text {rows : List CommunityRow} (hkeyed : (rows.map (·.releaseId)).Nodup)
    {id : String} {counts : Counts} : countsByText rows id = some counts ↔
      ∃ row ∈ rows, toString row.releaseId = id ∧ row.counts = counts := by
  rw [countsByText, indexByRelease, Option.map_eq_some_iff]
  constructor
  · rintro ⟨entry, hfind, rfl⟩
    have hmem := List.mem_reverse.mp (List.mem_of_find?_eq_some hfind)
    have hkey := List.find?_some hfind
    obtain ⟨row, hrow, rfl⟩ := List.mem_map.mp hmem
    exact ⟨row, hrow, of_decide_eq_true hkey, rfl⟩
  · rintro ⟨row, hrow, rfl, rfl⟩
    have hentry : (toString row.releaseId, row.counts) ∈
        (rows.map fun row => (toString row.releaseId, row.counts)).reverse :=
      List.mem_reverse.mpr (List.mem_map.mpr ⟨row, hrow, rfl⟩)
    cases hfind : (rows.map fun row => (toString row.releaseId, row.counts)).reverse.find?
        fun entry => entry.1 = toString row.releaseId with
    | none => exact absurd (decide_eq_true rfl) (List.find?_eq_none.mp hfind _ hentry)
    | some entry =>
        have hmem := List.mem_reverse.mp (List.mem_of_find?_eq_some hfind)
        have hkey := List.find?_some hfind
        obtain ⟨other, hother, rfl⟩ := List.mem_map.mp hmem
        have htext : toString other.releaseId = toString row.releaseId := of_decide_eq_true hkey
        have hid : other.releaseId = row.releaseId := Int.repr_inj.mp htext
        rw [List.inj_on_of_nodup_map hkeyed hother hrow hid]
        exact ⟨_, rfl, rfl⟩

theorem bigint_short {n : Int} (h : InBigint n) : n < 10 ^ maxStrDigits := by
  have hpow : (10 : Int) ^ 19 ≤ 10 ^ maxStrDigits :=
    pow_le_pow_right₀ (by decide) (by decide)
  have hlt := h.2
  norm_num at hlt hpow ⊢
  omega

/-- The counts of a page can be loaded when `int` takes its decimal ids. -/
theorem load_page_some {community : Community} {ids : List String} :
    (∃ counts, loadPageCommunityCounts community ids = some counts) ↔
      ∀ id ∈ ids, isDecimalText id = true → (Numerals.int id).isSome = true := by
  constructor
  · rintro ⟨counts, h⟩ id hid hdecimal
    obtain ⟨releaseIds, hread, -⟩ := Option.bind_eq_some_iff.mp h
    have hmap := Keyset.map_m_eq_some.mp hread
    have hmem : Numerals.int id ∈ (ids.filter isDecimalText).map Numerals.int :=
      List.mem_map_of_mem (List.mem_filter.mpr ⟨hid, hdecimal⟩)
    rw [hmap, List.mem_map] at hmem
    obtain ⟨n, -, hn⟩ := hmem
    rw [← hn, Option.isSome_some]
  · intro h
    have hread : (ids.filter isDecimalText).mapM Numerals.int =
        some ((ids.filter isDecimalText).filterMap Numerals.int) := by
      refine Keyset.map_m_of_is_some fun id hid => ?_
      obtain ⟨hmem, hdecimal⟩ := List.mem_filter.mp hid
      exact h id hmem hdecimal
    exact ⟨_, by rw [loadPageCommunityCounts, hread]; rfl⟩

/-- A page knows the counts of its decimal ids. -/
theorem page_counts {community : Community} {ids : List String}
    {counts : String → Option Counts} (h : loadPageCommunityCounts community ids = some counts)
    {id : String} (hid : id ∈ ids) :
    counts id = if isDecimalText id = true then loadCommunityCounts community id else none := by
  obtain ⟨releaseIds, hread, hcounts⟩ := Option.bind_eq_some_iff.mp h
  obtain rfl := Option.some.inj hcounts
  have hids : ∀ n, n ∈ releaseIds ↔
      ∃ id ∈ ids, isDecimalText id = true ∧ Numerals.int id = some n := by
    intro n
    have hmem : some n ∈ (ids.filter isDecimalText).map Numerals.int ↔ n ∈ releaseIds := by
      rw [Keyset.map_m_eq_some.mp hread]
      simp
    rw [← hmem]
    simp [List.mem_map, List.mem_filter, and_assoc]
  have hfilter : ((community.rows.filter fun row => row.releaseId ∈ releaseIds).map
      (·.releaseId)).Nodup := community.keyed.sublist (List.filter_sublist.map _)
  refine Option.ext fun found => ?_
  rw [counts_by_text hfilter]
  split
  case isTrue hdecimal =>
    rw [loadCommunityCounts, counts_by_text community.keyed]
    constructor
    · rintro ⟨row, hrow, htext, hfound⟩
      exact ⟨row, (List.mem_filter.mp hrow).1, htext, hfound⟩
    · rintro ⟨row, hrow, rfl, hfound⟩
      have hnonneg := (decimal_str row.releaseId).mp hdecimal
      have hint := int_str hnonneg (bigint_short (community.bigint row hrow))
      refine ⟨row, List.mem_filter.mpr ⟨hrow, decide_eq_true ?_⟩, rfl, hfound⟩
      exact (hids _).mpr ⟨_, hid, hdecimal, hint⟩
  case isFalse hdecimal =>
    refine iff_of_false ?_ (by simp)
    rintro ⟨row, hrow, rfl, -⟩
    have hmem := of_decide_eq_true (List.mem_filter.mp hrow).2
    obtain ⟨id, -, hid', hint⟩ := (hids _).mp hmem
    exact hdecimal ((decimal_str _).mpr (int_decimal_nonneg hid' hint))

end CatalogApi.Rarity
