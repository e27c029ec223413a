import CatalogApi.LedgerBackfill.Bounds
import Mathlib.Order.Bounds.Basic

/-!
# The creation bounds as minima

`creation_bounds` over the two arrays of the reader: each bound is the least timestamp of the rows
from its candidate on, `NO_TIME` where no row has one, the bounds do not decrease, and the order of
the rows does not matter (`creation_bounds_spec`).
-/

namespace CatalogApi.LedgerBackfill

/-- The timestamps of the rows from this id on that are not NULL. -/
def timesFrom (rows : List (Int × Int)) (id : Int) : Set Int :=
  {time | 0 < time ∧ ∃ rowId, (rowId, time) ∈ rows ∧ id ≤ rowId}

theorem foldr_min_mem (l : List Int) (bound : Int) :
    l.foldr min bound = bound ∨ l.foldr min bound ∈ l := by
  induction l with
  | nil => exact Or.inl rfl
  | cons a l ih =>
      rw [List.foldr_cons]
      rcases min_choice a (l.foldr min bound) with hmin | hmin
      · rw [hmin]
        exact Or.inr List.mem_cons_self
      · rw [hmin]
        exact ih.imp_right (List.mem_cons_of_mem a)

/-- c(k) is one of the timestamps or `NO_TIME`. -/
theorem creation_mem (rows : List (Int × Int)) (id : Int) :
    creation rows id = noTime ∨ creation rows id ∈ timesFrom rows id := by
  refine (foldr_min_mem _ noTime).imp_right fun hmem => ?_
  obtain ⟨row, hrow, htime⟩ := List.mem_map.mp hmem
  obtain ⟨hrow, hcond⟩ := List.mem_filter.mp hrow
  obtain ⟨hpos, hle⟩ := of_decide_eq_true hcond
  rw [creation, ← htime]
  exact ⟨hpos, row.1, hrow, hle⟩

theorem creation_le {rows : List (Int × Int)} {id time : Int} (h : time ∈ timesFrom rows id) :
    creation rows id ≤ time := by
  obtain ⟨hpos, rowId, hrow, hle⟩ := h
  exact (le_creation.mp le_rfl).2 (rowId, time) hrow hpos hle

/-- c(k) is the least timestamp, where there is one. -/
theorem creation_least {rows : List (Int × Int)} (hint : ∀ row ∈ rows, row.2 ≤ noTime) {id : Int}
    (hsome : (timesFrom rows id).Nonempty) : IsLeast (timesFrom rows id) (creation rows id) := by
  refine ⟨?_, fun time htime => creation_le htime⟩
  rcases creation_mem rows id with hnone | hmem
  · obtain ⟨time, htime⟩ := hsome
    obtain ⟨rowId, hrow, -⟩ := htime.2
    have heq : creation rows id = time :=
      le_antisymm (creation_le htime) (hnone ▸ hint _ hrow)
    exact heq ▸ htime
  · exact hmem

theorem creation_none {rows : List (Int × Int)} {id : Int} (hnone : timesFrom rows id = ∅) :
    creation rows id = noTime :=
  (creation_mem rows id).resolve_right fun hmem => Set.notMem_empty _ (hnone ▸ hmem)

/-- c(k) does not decrease with k. -/
theorem creation_mono (rows : List (Int × Int)) {id id' : Int} (h : id ≤ id') :
    creation rows id ≤ creation rows id' := by
  obtain ⟨htime, hrows⟩ := le_creation.mp (le_refl (creation rows id))
  exact le_creation.mpr ⟨htime, fun row hrow hpos hle => hrows row hrow hpos (h.trans hle)⟩

/-- The order of the rows does not matter to c(k). -/
theorem creation_perm {rows rows' : List (Int × Int)} (h : rows.Perm rows') :
    creation rows = creation rows' := by
  refine funext fun id => eq_of_forall_le_iff fun m => ?_
  simp only [le_creation, h.mem_iff]

theorem creation_bounds_zip {candidates : List Int} (hsorted : candidates.Pairwise (· < ·))
    {rowIds rowUpdated : List Int} (hlength : rowIds.length = rowUpdated.length) :
    creationBounds candidates rowIds rowUpdated =
      candidates.map (creation (rowIds.zip rowUpdated)) := by
  have hbounds := creation_bounds_eq (hsorted.imp le_of_lt) (rowIds.zip rowUpdated)
  rwa [List.map_fst_zip hlength.le, List.map_snd_zip hlength.ge] at hbounds

/-- The bounds of sorted candidates over rows of any order, their timestamps 64-bit integers. -/
theorem creation_bounds_spec {candidates rowIds rowUpdated : List Int}
    (hsorted : candidates.Pairwise (· < ·)) (hlength : rowIds.length = rowUpdated.length)
    (hint : ∀ updated ∈ rowUpdated, updated ≤ noTime) :
    (creationBounds candidates rowIds rowUpdated).length = candidates.length ∧
      (∀ (i : Nat) (candidate : Int), candidates[i]? = some candidate →
        ∃ bound, (creationBounds candidates rowIds rowUpdated)[i]? = some bound ∧
          ((timesFrom (rowIds.zip rowUpdated) candidate).Nonempty →
            IsLeast (timesFrom (rowIds.zip rowUpdated) candidate) bound) ∧
          (timesFrom (rowIds.zip rowUpdated) candidate = ∅ → bound = noTime)) ∧
      (creationBounds candidates rowIds rowUpdated).Pairwise (· ≤ ·) ∧
      ∀ rowIds' rowUpdated', rowIds'.length = rowUpdated'.length →
        (rowIds'.zip rowUpdated').Perm (rowIds.zip rowUpdated) →
          creationBounds candidates rowIds' rowUpdated' =
            creationBounds candidates rowIds rowUpdated := by
  have hrows : ∀ row ∈ rowIds.zip rowUpdated, row.2 ≤ noTime := fun row hrow =>
    hint row.2 (List.of_mem_zip hrow).2
  rw [creation_bounds_zip hsorted hlength]
  refine ⟨List.length_map _, fun i candidate hi => ?_, ?_, fun rowIds' rowUpdated' hlength' hperm => ?_⟩
  · refine ⟨creation (rowIds.zip rowUpdated) candidate, ?_, creation_least hrows, creation_none⟩
    rw [List.getElem?_map, hi, Option.map_some]
  · rw [List.pairwise_map]
    exact hsorted.imp fun hlt => creation_mono _ hlt.le
  · rw [creation_bounds_zip hsorted hlength', creation_perm hperm]

theorem creation_bounds_of_four_rows :
    (creationBounds [2, 5] [7, 2, 9, 1] [300, 100, 0, 50]).Pairwise (· ≤ ·) ∧
      ∃ bound, (creationBounds [2, 5] [7, 2, 9, 1] [300, 100, 0, 50])[1]? = some bound ∧
        IsLeast (timesFrom [(7, 300), (2, 100), (9, 0), (1, 50)] 5) bound := by
  have hsorted : [2, 5].Pairwise fun a b : Int => a < b := by decide
  have hlength : ([7, 2, 9, 1] : List Int).length = ([300, 100, 0, 50] : List Int).length := rfl
  have hint : ∀ updated ∈ ([300, 100, 0, 50] : List Int), updated ≤ noTime := by decide
  obtain ⟨-, hbounds, hmono, -⟩ := creation_bounds_spec hsorted hlength hint
  obtain ⟨bound, hat, hleast, -⟩ := hbounds 1 5 rfl
  exact ⟨hmono, bound, hat, hleast ⟨300, by decide, 7, List.mem_cons_self, by decide⟩⟩

end CatalogApi.LedgerBackfill
