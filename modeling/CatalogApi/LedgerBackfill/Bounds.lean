import CatalogApi.LedgerBackfill.Plan

/-!
# The creation bounds

`creation` is c(k) of proxy 2 over the rows of `l_release_url`. Every minimum is told apart by its
lower bounds, and `creation_bounds_eq` says that the buckets and their suffix minimum give c(k) of
each candidate.
-/

namespace CatalogApi.LedgerBackfill

open Bisect

/-- c(k): the least timestamp of the rows from this id on, `NO_TIME` where there is none. -/
def creation (rows : List (Int × Int)) (id : Int) : Int :=
  ((rows.filter fun row => 0 < row.2 ∧ id ≤ row.1).map (·.2)).foldr min noTime

theorem le_least {l : List Int} {bound m : Int} :
    m ≤ l.foldr min bound ↔ m ≤ bound ∧ ∀ a ∈ l, m ≤ a := by
  induction l with
  | nil => simp
  | cons a l ih =>
      rw [List.foldr_cons, le_min_iff, ih, List.forall_mem_cons]
      exact ⟨fun ⟨ha, hbound, hl⟩ => ⟨hbound, ha, hl⟩, fun ⟨hbound, ha, hl⟩ => ⟨ha, hbound, hl⟩⟩

theorem le_creation {rows : List (Int × Int)} {id m : Int} :
    m ≤ creation rows id ↔
      m ≤ noTime ∧ ∀ row ∈ rows, 0 < row.2 → id ≤ row.1 → m ≤ row.2 := by
  rw [creation, le_least]
  refine and_congr_right fun _ => ?_
  simp only [List.forall_mem_map, List.mem_filter, decide_eq_true_eq, and_imp]

/-! ## Buckets -/

section Buckets

variable {candidates bounds : List Int} {m : Int}

@[simp]
theorem length_fold_row (candidates bounds : List Int) (row : Int × Int) :
    (foldRow candidates bounds row).length = bounds.length := by
  rw [foldRow]
  split
  · dsimp only
    split
    · exact List.length_set
    · rfl
  · rfl

/-- A row lowers the bucket of the last candidate at or below it, and no other. -/
theorem le_fold_row (row : Int × Int) {i : Nat} (hi : i < bounds.length) :
    m ≤ (foldRow candidates bounds row).getD i noTime ↔
      m ≤ bounds.getD i noTime ∧
        (0 < row.2 → bisectRight candidates row.1 = i + 1 → m ≤ row.2) := by
  rw [foldRow]
  split
  case isFalse hzero => exact ⟨fun h => ⟨h, fun hpos => absurd hpos hzero⟩, fun h => h.1⟩
  case isTrue hpos =>
    dsimp only
    generalize bisectRight candidates row.1 = position
    split
    case isTrue hless =>
      obtain ⟨hposition, hless⟩ := hless
      by_cases hbucket : position - 1 = i
      · subst hbucket
        rw [List.getD_eq_getElem _ _ (by simpa using hi), List.getElem_set_self]
        refine ⟨fun h => ⟨h.trans hless.le, fun _ _ => h⟩, fun h => h.2 hpos (by omega)⟩
      · have hother : (bounds.set (position - 1) row.2).getD i noTime = bounds.getD i noTime := by
          rw [List.getD_eq_getElem?_getD, List.getD_eq_getElem?_getD, List.getElem?_set_ne hbucket]
        rw [hother]
        exact ⟨fun h => ⟨h, fun _ heq => absurd (by omega) hbucket⟩, fun h => h.1⟩
    case isFalse hless =>
      refine ⟨fun h => ⟨h, fun _ heq => ?_⟩, fun h => h.1⟩
      subst heq
      rw [Nat.add_sub_cancel] at hless
      exact h.trans (not_lt.mp fun hlt => hless ⟨Nat.succ_ne_zero i, hlt⟩)

/-- The buckets after some rows. -/
theorem le_fold_rows (rows : List (Int × Int)) {i : Nat} (hi : i < bounds.length) :
    m ≤ (rows.foldl (foldRow candidates) bounds).getD i noTime ↔
      m ≤ bounds.getD i noTime ∧
        ∀ row ∈ rows, 0 < row.2 → bisectRight candidates row.1 = i + 1 → m ≤ row.2 := by
  induction rows generalizing bounds with
  | nil => simp
  | cons row rows ih =>
      rw [List.foldl_cons, ih (by rwa [length_fold_row]), le_fold_row row hi, List.forall_mem_cons,
        and_assoc]

@[simp]
theorem length_fold_rows (candidates bounds : List Int) (rows : List (Int × Int)) :
    (rows.foldl (foldRow candidates) bounds).length = bounds.length := by
  induction rows generalizing bounds with
  | nil => rfl
  | cons row rows ih => rw [List.foldl_cons, ih, length_fold_row]

/-! ## Suffix minima -/

theorem suffix_min_cons (bound : Int) (bounds : List Int) :
    suffixMin (bound :: bounds) =
      (min (suffixMin bounds).1 bound, min (suffixMin bounds).1 bound :: (suffixMin bounds).2) := rfl

@[simp]
theorem length_suffix_min (bounds : List Int) : (suffixMin bounds).2.length = bounds.length := by
  induction bounds with
  | nil => rfl
  | cons bound bounds ih => rw [suffix_min_cons, List.length_cons, ih, List.length_cons]

/-- The running minimum is the least of the buckets. -/
theorem le_running : m ≤ (suffixMin bounds).1 ↔ m ≤ noTime ∧ ∀ bound ∈ bounds, m ≤ bound := by
  induction bounds with
  | nil => simp [suffixMin]
  | cons bound bounds ih =>
      rw [suffix_min_cons, le_min_iff, ih, List.forall_mem_cons]
      exact ⟨fun h => ⟨h.1.1, h.2, h.1.2⟩, fun h => ⟨⟨h.1, h.2.2⟩, h.2.1⟩⟩

/-- The suffix minimum at an index is the least of the buckets from there on. -/
theorem le_suffix_min {i : Nat} (hi : i < bounds.length) :
    m ≤ (suffixMin bounds).2.getD i noTime ↔
      m ≤ noTime ∧ ∀ j, i ≤ j → j < bounds.length → m ≤ bounds.getD j noTime := by
  induction bounds generalizing i with
  | nil => cases hi
  | cons bound bounds ih =>
      rw [suffix_min_cons]
      cases i with
      | zero =>
          rw [List.getD_cons_zero, le_min_iff, le_running]
          constructor
          · rintro ⟨⟨htime, hrest⟩, hbound⟩
            refine ⟨htime, fun j _ hj => ?_⟩
            cases j with
            | zero => exact hbound
            | succ j =>
                rw [List.getD_cons_succ, List.getD_eq_getElem _ _ (Nat.lt_of_succ_lt_succ hj)]
                exact hrest _ (List.getElem_mem _)
          · rintro ⟨htime, hall⟩
            refine ⟨⟨htime, fun bound' hbound' => ?_⟩, hall 0 (Nat.le_refl 0) (Nat.succ_pos _)⟩
            obtain ⟨j, hj, rfl⟩ := List.getElem_of_mem hbound'
            have hat := hall (j + 1) (Nat.zero_le _) (Nat.succ_lt_succ hj)
            rwa [List.getD_cons_succ, List.getD_eq_getElem _ _ hj] at hat
      | succ i =>
          rw [List.getD_cons_succ, ih (Nat.lt_of_succ_lt_succ hi)]
          refine and_congr_right fun _ => ⟨fun hall j hij hj => ?_, fun hall j hij hj => ?_⟩
          · cases j with
            | zero => cases hij
            | succ j =>
                exact hall j (Nat.le_of_succ_le_succ hij) (Nat.lt_of_succ_lt_succ hj)
          · exact hall (j + 1) (Nat.succ_le_succ hij) (Nat.succ_lt_succ hj)

end Buckets

/-! ## The bounds of the candidates -/

section Candidates

variable {candidates : List Int}

/-- A row is in a bucket from a candidate on exactly if its id is not below the candidate's. -/
theorem lt_bisect_right (hsorted : candidates.Pairwise (· ≤ ·)) {i : Nat} {candidate : Int}
    (hi : candidates[i]? = some candidate) (id : Int) :
    i < bisectRight candidates id ↔ candidate ≤ id := by
  rw [bisect_right_eq hsorted]
  have hbelow : candidates.Pairwise fun a b => decide (b ≤ id) = true → decide (a ≤ id) = true := by
    refine hsorted.imp fun hle hle' => ?_
    rw [decide_eq_true_eq] at hle' ⊢
    exact le_trans hle hle'
  rw [← count_boundary hbelow i candidate hi, decide_eq_true_eq]

theorem bisect_right_le (hsorted : candidates.Pairwise (· ≤ ·)) (id : Int) :
    bisectRight candidates id ≤ candidates.length := by
  rw [bisect_right_eq hsorted]
  exact List.countP_le_length

/-- `creation_bounds` gives c(k) of each candidate. -/
theorem creation_bounds_eq (hsorted : candidates.Pairwise (· ≤ ·)) (rows : List (Int × Int)) :
    creationBounds candidates (rows.map (·.1)) (rows.map (·.2)) = candidates.map (creation rows) := by
  have hzip : (rows.map (·.1)).zip (rows.map (·.2)) = rows := by
    rw [List.zip_map', List.map_id']
  rw [creationBounds, hzip]
  refine List.ext_getElem (by simp) fun i hi hi' => ?_
  have hlength : i < candidates.length := by simpa using hi'
  rw [List.getElem_map, ← List.getD_eq_getElem _ noTime hi]
  refine eq_of_forall_le_iff fun m => ?_
  rw [le_suffix_min (by simpa using hlength), le_creation]
  refine and_congr_right fun htime => ?_
  constructor
  · intro hall row hrow hpos hle
    have hbucket := (lt_bisect_right hsorted (List.getElem?_eq_getElem hlength) row.1).mpr hle
    have hend := bisect_right_le hsorted row.1
    have hat := hall (bisectRight candidates row.1 - 1) (by omega) (by simp; omega)
    rw [le_fold_rows rows (by simp; omega)] at hat
    exact hat.2 row hrow hpos (by omega)
  · intro hall j hij hj
    rw [length_fold_rows, List.length_replicate] at hj
    rw [le_fold_rows rows (by simpa using hj)]
    refine ⟨by simpa [List.getD_replicate, hj] using htime, fun row hrow hpos hbucket => ?_⟩
    refine hall row hrow hpos ?_
    exact (lt_bisect_right hsorted (List.getElem?_eq_getElem hlength) row.1).mp (by omega)

end Candidates

end CatalogApi.LedgerBackfill
