import CatalogApi.Lib.Termination
import Mathlib.Data.List.Nodup
import Mathlib.Data.List.Perm.Subperm

/-!
# The media backfill of collections

`backfill_collection` selects a batch of rows without media, updates each by its key and commits,
until none is left. The key comparison is SQL equality, which is never true of a NULL, so a row
without an instance id stays as it is and is selected again. The loop ends, with every row filled
and counted once, exactly when no row lacks both its media and its instance id
(`backfilled_iff`).
-/

namespace CatalogApi.MediaBackfill

open Relation Termination

variable {Formats Media : Type}

/-- A row of `user_collections`; the columns that the backfill does not read are `rest`. -/
structure Row (Formats Media : Type) where
  userId : String
  releaseId : Int
  instanceId : Option Int
  formats : Option Formats
  media : Option Media
  rest : String
  deriving DecidableEq

/-- The columns of the unique key. -/
def Row.key (row : Row Formats Media) : String × Int × Option Int :=
  (row.userId, row.releaseId, row.instanceId)

/-- The key is unique among the rows with an instance id; NULLs do not conflict. -/
def Keyed (rows : List (Row Formats Media)) : Prop :=
  ((rows.filter (·.instanceId.isSome)).map (·.key)).Nodup

instance [DecidableEq Formats] [DecidableEq Media] (rows : List (Row Formats Media)) :
    Decidable (Keyed rows) := inferInstanceAs (Decidable (List.Nodup _))

/-- `user_collections`. -/
structure Collections (Formats Media : Type) where
  rows : List (Row Formats Media)
  unique : Keyed rows

/-- SQL equality of a column that may be NULL with a value that may be NULL. -/
def sqlEq (column value : Option Int) : Bool :=
  match column, value with
  | some column, some value => column = value
  | _, _ => false

/-- The row is matched by the `WHERE` of the `UPDATE` for a selected row. -/
def Row.matchedBy (row selected : Row Formats Media) : Bool :=
  row.userId = selected.userId && row.releaseId = selected.releaseId &&
    sqlEq row.instanceId selected.instanceId

/-- `WHERE media IS NULL`. -/
def Row.lacksMedia (row : Row Formats Media) : Bool := row.media.isNone

/-- The row with the media block computed from the formats of a row. -/
def Row.withMediaOf (mapDiscogsFormats : Option Formats → Media) (row source : Row Formats Media) :
    Row Formats Media :=
  { row with media := some (mapDiscogsFormats source.formats) }

/-- One `UPDATE` of the batch. -/
def updateMedia (mapDiscogsFormats : Option Formats → Media) (rows : List (Row Formats Media))
    (selected : Row Formats Media) : List (Row Formats Media) :=
  rows.map fun row =>
    if row.matchedBy selected then row.withMediaOf mapDiscogsFormats selected else row

/-- The batches that `SELECT … WHERE media IS NULL LIMIT batch_size` can return. -/
def Selects (batchSize : Nat) (rows batch : List (Row Formats Media)) : Prop :=
  batch.Subperm (rows.filter (·.lacksMedia)) ∧
    batch.length = min batchSize (rows.filter (·.lacksMedia)).length

/-- The committed rows and the running total. -/
structure State (Formats Media : Type) where
  rows : List (Row Formats Media)
  total : Nat

/-- One round of the loop: a batch that is not empty is updated and counted. -/
def Round (mapDiscogsFormats : Option Formats → Media) (batchSize : Nat)
    (earlier later : State Formats Media) : Prop :=
  ∃ batch, Selects batchSize earlier.rows batch ∧ batch ≠ [] ∧
    later = ⟨batch.foldl (updateMedia mapDiscogsFormats) earlier.rows, earlier.total + batch.length⟩

/-- The row as the backfill leaves it: without media it is filled from its formats. -/
def Row.filled (mapDiscogsFormats : Option Formats → Media) (row : Row Formats Media) :
    Row Formats Media :=
  if row.lacksMedia then row.withMediaOf mapDiscogsFormats row else row

/-- The backfill of the collections ends, and whichever batches are selected, no row is left
without media, rows that had media are unchanged, and the total is the number of rows filled. -/
structure Backfilled (mapDiscogsFormats : Option Formats → Media) (batchSize : Nat)
    (collections : Collections Formats Media) : Prop where
  terminates : Terminates (Round mapDiscogsFormats batchSize) ⟨collections.rows, 0⟩
  ends : ∃ final, ReflTransGen (Round mapDiscogsFormats batchSize) ⟨collections.rows, 0⟩ final ∧
    Final (Round mapDiscogsFormats batchSize) final
  returns : ∀ final, ReflTransGen (Round mapDiscogsFormats batchSize) ⟨collections.rows, 0⟩ final →
    Final (Round mapDiscogsFormats batchSize) final →
      (∀ row ∈ final.rows, row.media ≠ none) ∧
      final.rows = collections.rows.map (·.filled mapDiscogsFormats) ∧
      final.total = collections.rows.countP (·.lacksMedia)

/-- Every row without media has an instance id. -/
def Collections.Addressable (collections : Collections Formats Media) : Prop :=
  ∀ row ∈ collections.rows, row.media = none → row.instanceId ≠ none

/-! ## One batch -/

section Batch

variable {mapDiscogsFormats : Option Formats → Media} {rows batch : List (Row Formats Media)}

theorem matched_by {row selected : Row Formats Media} :
    row.matchedBy selected = true ↔ row.key = selected.key ∧ row.instanceId ≠ none := by
  have hsql : sqlEq row.instanceId selected.instanceId = true ↔
      row.instanceId = selected.instanceId ∧ row.instanceId ≠ none := by
    cases row.instanceId with
    | none => simp [sqlEq]
    | some column =>
        cases selected.instanceId with
        | none => simp [sqlEq]
        | some value => simp [sqlEq]
  rw [Row.matchedBy, Bool.and_eq_true, Bool.and_eq_true, hsql, Row.key, Row.key, Prod.mk.injEq,
    Prod.mk.injEq, decide_eq_true_eq, decide_eq_true_eq, and_assoc, and_assoc, and_assoc]

/-- A row is matched by a row of the table only if it is that row. -/
theorem eq_of_matched (hunique : Keyed rows)
    {row selected : Row Formats Media} (hrow : row ∈ rows) (hselected : selected ∈ rows)
    (hmatched : row.matchedBy selected = true) : row = selected := by
  obtain ⟨hkey, hinstance⟩ := matched_by.mp hmatched
  have hinstance' : selected.instanceId ≠ none := by
    have heq : row.instanceId = selected.instanceId := congrArg (fun key => key.2.2) hkey
    rwa [← heq]
  exact List.inj_on_of_nodup_map hunique
    (List.mem_filter.mpr ⟨hrow, Option.isSome_iff_ne_none.mpr hinstance⟩)
    (List.mem_filter.mpr ⟨hselected, Option.isSome_iff_ne_none.mpr hinstance'⟩) hkey

/-- What the updates of a batch make of one row. -/
def updatedBy (mapDiscogsFormats : Option Formats → Media) (batch : List (Row Formats Media))
    (row : Row Formats Media) : Row Formats Media :=
  batch.foldl (fun row selected =>
    if row.matchedBy selected then row.withMediaOf mapDiscogsFormats selected else row) row

theorem foldl_update (rows batch : List (Row Formats Media)) :
    batch.foldl (updateMedia mapDiscogsFormats) rows =
      rows.map (updatedBy mapDiscogsFormats batch) := by
  induction batch generalizing rows with
  | nil => exact (List.map_id' rows).symm
  | cons selected batch ih =>
      rw [List.foldl_cons, ih, updateMedia, List.map_map]
      rfl

open Classical in
/-- A batch of rows that can be addressed fills exactly its rows. -/
theorem updated_by_eq (hunique : Keyed rows)
    (hsub : ∀ selected ∈ batch, selected ∈ rows ∧ selected.instanceId ≠ none)
    {row : Row Formats Media} (hrow : row ∈ rows) :
    updatedBy mapDiscogsFormats batch row =
      if row ∈ batch then row.withMediaOf mapDiscogsFormats row else row := by
  -- the media of the row may have been set by an earlier update of the batch
  suffices hmedia : ∀ media, updatedBy mapDiscogsFormats batch { row with media } =
      if row ∈ batch then row.withMediaOf mapDiscogsFormats row else { row with media } from
    hmedia row.media
  induction batch with
  | nil => exact fun _ => rfl
  | cons selected batch ih =>
      intro media
      rw [List.forall_mem_cons] at hsub
      rw [updatedBy, List.foldl_cons]
      by_cases hmatched : row.matchedBy selected = true
      · have hsame := eq_of_matched hunique hrow hsub.1.1 hmatched
        subst hsame
        have hstep : (if ({ row with media } : Row Formats Media).matchedBy row then
            ({ row with media } : Row Formats Media).withMediaOf mapDiscogsFormats row
            else { row with media }) = row.withMediaOf mapDiscogsFormats row := if_pos hmatched
        rw [hstep, if_pos List.mem_cons_self]
        refine (ih hsub.2 _).trans ?_
        split
        case isTrue => rfl
        case isFalse => rfl
      · have hne : row ≠ selected := by
          rintro rfl
          exact hmatched (matched_by.mpr ⟨rfl, hsub.1.2⟩)
        have hstep : (if ({ row with media } : Row Formats Media).matchedBy selected then
            ({ row with media } : Row Formats Media).withMediaOf mapDiscogsFormats selected
            else { row with media }) = { row with media } := if_neg hmatched
        rw [hstep]
        refine (ih hsub.2 media).trans (if_congr ?_ rfl rfl)
        rw [List.mem_cons, or_iff_right hne]

end Batch

/-! ## The loop -/

section Loop

variable {mapDiscogsFormats : Option Formats → Media} {start : List (Row Formats Media)}
  {state later : State Formats Media} {batchSize : Nat}

/-- Some rows that lacked media have been filled and counted, and nothing else has changed. -/
structure Progress (mapDiscogsFormats : Option Formats → Media) (start : List (Row Formats Media))
    (state : State Formats Media) : Prop where
  each : List.Forall₂ (fun before now => now = before ∨
    (before.lacksMedia = true ∧ now = before.withMediaOf mapDiscogsFormats before)) start state.rows
  count : state.total + state.rows.countP (·.lacksMedia) = start.countP (·.lacksMedia)

theorem progress_start (start : List (Row Formats Media)) :
    Progress mapDiscogsFormats start ⟨start, 0⟩ where
  each := List.forall₂_same.mpr fun _ _ => Or.inl rfl
  count := Nat.zero_add _

theorem Progress.keys (h : Progress mapDiscogsFormats start state) :
    state.rows.map (·.key) = start.map (·.key) := by
  have hkeys : List.Forall₂ (fun before now : Row Formats Media => before.key = now.key)
      start state.rows := h.each.imp fun before now hnow => by
    rcases hnow with rfl | ⟨-, rfl⟩
    · rfl
    · rfl
  clear h
  generalize state.rows = rows at hkeys ⊢
  induction hkeys with
  | nil => rfl
  | cons hkey _ ih => rw [List.map_cons, List.map_cons, hkey, ih]

theorem keyed_iff (rows : List (Row Formats Media)) :
    Keyed rows ↔ ((rows.map (·.key)).filter fun key => key.2.2.isSome).Nodup := by
  rw [Keyed, List.filter_map]
  rfl

/-- A row that still lacks media is as it was. -/
theorem Progress.lacking (h : Progress mapDiscogsFormats start state) {row : Row Formats Media}
    (hrow : row ∈ state.rows) (hlacks : row.lacksMedia = true) : row ∈ start := by
  obtain ⟨each, -⟩ := h
  generalize state.rows = rows at each hrow
  induction each with
  | nil => cases hrow
  | cons hnow _ ih =>
      rcases List.mem_cons.mp hrow with rfl | hrow
      · rcases hnow with rfl | ⟨-, rfl⟩
        · exact List.mem_cons_self
        · cases hlacks
      · exact List.mem_cons_of_mem _ (ih hrow)

open Classical in
/-- A selection of some rows without repetitions is as long as the number of these rows. -/
theorem countP_selected {nulls batch : List (Row Formats Media)} (hnodup : nulls.Nodup)
    (hbatch : batch.Subperm nulls) : nulls.countP (· ∈ batch) = batch.length := by
  obtain ⟨sub, hperm, hsub⟩ := hbatch
  have hbatchNodup : batch.Nodup := hperm.nodup (hnodup.sublist hsub)
  rw [List.countP_eq_length_filter]
  refine List.Perm.length_eq ((List.perm_ext_iff_of_nodup (hnodup.filter _) hbatchNodup).mpr ?_)
  intro row
  rw [List.mem_filter, decide_eq_true_eq]
  exact and_iff_right_of_imp fun hrow => hsub.subset (hperm.mem_iff.mpr hrow)

/-- One round fills and counts the rows of its batch. -/
theorem round_progress (hunique : Keyed start)
    (haddressable : ∀ row ∈ start, row.lacksMedia = true → row.instanceId ≠ none)
    (h : Progress mapDiscogsFormats start state)
    (hround : Round mapDiscogsFormats batchSize state later) :
    Progress mapDiscogsFormats start later ∧
      later.rows.countP (·.lacksMedia) < state.rows.countP (·.lacksMedia) := by
  classical
  obtain ⟨batch, ⟨hselect, -⟩, hne, rfl⟩ := hround
  have hmem : ∀ row ∈ batch, row ∈ state.rows ∧ row.lacksMedia = true := fun row hrow =>
    List.mem_filter.mp (hselect.subset hrow)
  have hkeyed : Keyed state.rows := by
    rw [keyed_iff, h.keys, ← keyed_iff]
    exact hunique
  have hinstance : ∀ row ∈ state.rows, row.lacksMedia = true → row.instanceId ≠ none :=
    fun row hrow hlacks => haddressable row (h.lacking hrow hlacks) hlacks
  have hrows : batch.foldl (updateMedia mapDiscogsFormats) state.rows = state.rows.map fun row =>
      if row ∈ batch then row.withMediaOf mapDiscogsFormats row else row := by
    rw [foldl_update]
    refine List.map_congr_left fun row hrow => updated_by_eq hkeyed (fun selected hselected => ?_) hrow
    exact ⟨(hmem selected hselected).1,
      hinstance selected (hmem selected hselected).1 (hmem selected hselected).2⟩
  have hnulls : (state.rows.filter (·.lacksMedia)).Nodup := by
    have hsame : state.rows.filter (·.lacksMedia) =
        (state.rows.filter (·.instanceId.isSome)).filter (·.lacksMedia) := by
      rw [List.filter_filter]
      refine List.filter_congr fun row hrow => ?_
      cases hlacks : row.lacksMedia with
      | false => rfl
      | true => simp [Option.isSome_iff_ne_none.mpr (hinstance row hrow hlacks)]
    rw [hsame]
    exact (List.Nodup.of_map _ hkeyed).filter _
  have hcount : (batch.foldl (updateMedia mapDiscogsFormats) state.rows).countP (·.lacksMedia) +
      batch.length = state.rows.countP (·.lacksMedia) := by
    have hleft : (batch.foldl (updateMedia mapDiscogsFormats) state.rows).countP (·.lacksMedia) =
        (state.rows.filter (·.lacksMedia)).countP (· ∉ batch) := by
      rw [hrows, List.countP_map, List.countP_filter]
      refine List.countP_congr fun row _ => ?_
      rw [Function.comp_apply, Bool.and_eq_true, decide_eq_true_eq]
      by_cases hin : row ∈ batch
      · simp [hin, Row.lacksMedia, Row.withMediaOf]
      · simp [hin]
    have hlength : state.rows.countP (·.lacksMedia) =
        (state.rows.filter (·.lacksMedia)).length := List.countP_eq_length_filter
    have hsplit := @List.length_eq_countP_add_countP _ (fun row => decide (row ∈ batch))
      (state.rows.filter (·.lacksMedia))
    rw [countP_selected hnulls hselect] at hsplit
    simp only [decide_eq_true_eq] at hsplit
    omega
  have hpos : 0 < batch.length := List.length_pos_iff.mpr hne
  refine ⟨⟨?_, ?_⟩, ?_⟩
  · dsimp only
    rw [hrows, List.forall₂_map_right_iff]
    refine h.each.imp fun before now hnow => ?_
    split
    case isTrue hin =>
      rcases hnow with rfl | ⟨-, rfl⟩
      · exact Or.inr ⟨(hmem _ hin).2, rfl⟩
      · exact absurd (hmem _ hin).2 (by simp [Row.lacksMedia, Row.withMediaOf])
    case isFalse => exact hnow
  · have hbefore := h.count
    dsimp only
    omega
  · dsimp only
    omega

/-- While a row lacks media there is a batch to select. -/
theorem exists_round (hsize : 0 < batchSize) {row : Row Formats Media} (hrow : row ∈ state.rows)
    (hlacks : row.lacksMedia = true) :
    ∃ later, Round mapDiscogsFormats batchSize state later := by
  have hnull : row ∈ state.rows.filter (·.lacksMedia) := List.mem_filter.mpr ⟨hrow, hlacks⟩
  refine ⟨_, (state.rows.filter (·.lacksMedia)).take batchSize, ⟨?_, List.length_take⟩, ?_, rfl⟩
  · exact (List.take_sublist _ _).subperm
  · intro hnil
    rcases List.take_eq_nil_iff.mp hnil with hzero | hnil
    · omega
    · rw [hnil] at hnull
      cases hnull

/-- A row without media and without an instance id stays as it is. -/
theorem unaddressed_kept {row : Row Formats Media} (hrow : row ∈ state.rows)
    (hinstance : row.instanceId = none) (hround : Round mapDiscogsFormats batchSize state later) :
    row ∈ later.rows := by
  obtain ⟨batch, -, -, rfl⟩ := hround
  rw [foldl_update]
  refine List.mem_map.mpr ⟨row, hrow, ?_⟩
  rw [updatedBy]
  induction batch with
  | nil => rfl
  | cons selected batch ih =>
      have hmatched : ¬row.matchedBy selected = true := fun h => (matched_by.mp h).2 hinstance
      rw [List.foldl_cons, if_neg hmatched, ih]

/-- A state without rows to fill is the start with every row filled. -/
theorem Progress.finished (h : Progress mapDiscogsFormats start state)
    (hnone : ∀ row ∈ state.rows, row.media ≠ none) :
    state.rows = start.map (·.filled mapDiscogsFormats) ∧
      state.total = start.countP (·.lacksMedia) := by
  have hlacks : ∀ row ∈ state.rows, ¬row.lacksMedia = true := fun row hrow hlacks =>
    hnone row hrow (Option.isNone_iff_eq_none.mp hlacks)
  have hzero : state.rows.countP (·.lacksMedia) = 0 := List.countP_eq_zero.mpr hlacks
  have hcount := h.count
  refine ⟨?_, by omega⟩
  obtain ⟨each, -⟩ := h
  clear hnone hzero hcount
  generalize state.rows = rows at each hlacks ⊢
  induction each with
  | nil => rfl
  | cons hnow _ ih =>
      rw [List.forall_mem_cons] at hlacks
      rw [List.map_cons, ← ih hlacks.2, Row.filled]
      rcases hnow with rfl | ⟨hbefore, rfl⟩
      · rw [if_neg hlacks.1]
      · rw [if_pos hbefore]

/-- A table with a row that cannot be addressed is never finished. -/
theorem not_terminates (hsize : 0 < batchSize) {row : Row Formats Media} (hrow : row ∈ state.rows)
    (hmedia : row.media = none) (hinstance : row.instanceId = none) :
    ¬Terminates (Round mapDiscogsFormats batchSize) state := by
  refine not_acc_of_progress (fun state => row ∈ state.rows) (fun earlier hearlier => ?_) hrow
  obtain ⟨later, hround⟩ := exists_round hsize hearlier (Option.isNone_iff_eq_none.mpr hmedia)
  exact ⟨later, hround, unaddressed_kept hearlier hinstance hround⟩

end Loop

/-- The backfill of the collections ends with every row filled exactly when each row that lacks
media has an instance id. -/
theorem backfilled_iff {Formats Media : Type} (mapDiscogsFormats : Option Formats → Media)
    (collections : Collections Formats Media) {batchSize : Nat} (hsize : 0 < batchSize) :
    Backfilled mapDiscogsFormats batchSize collections ↔ collections.Addressable := by
  constructor
  · intro h row hrow hmedia hinstance
    exact not_terminates hsize hrow hmedia hinstance h.terminates
  · intro h
    have haddressable : ∀ row ∈ collections.rows, row.lacksMedia = true → row.instanceId ≠ none :=
      fun row hrow hlacks => h row hrow (Option.isNone_iff_eq_none.mp hlacks)
    have hround : ∀ earlier later, Progress mapDiscogsFormats collections.rows earlier →
        Round mapDiscogsFormats batchSize earlier later →
        Progress mapDiscogsFormats collections.rows later ∧
          later.rows.countP (·.lacksMedia) < earlier.rows.countP (·.lacksMedia) :=
      fun _ _ => round_progress collections.unique haddressable
    have hterminates : Terminates (Round mapDiscogsFormats batchSize) ⟨collections.rows, 0⟩ :=
      acc_of_measure (fun state => state.rows.countP (·.lacksMedia)) hround
        (progress_start collections.rows)
    refine ⟨hterminates, exists_final hterminates, ?_⟩
    · intro final hreach hfinal
      have hprogress : Progress mapDiscogsFormats collections.rows final :=
        invariant_of_reaches (fun earlier later progress round =>
          (hround earlier later progress round).1) (progress_start collections.rows) hreach
      have hnone : ∀ row ∈ final.rows, row.media ≠ none := by
        intro row hrow hmedia
        obtain ⟨later, hlater⟩ := exists_round hsize hrow (Option.isNone_iff_eq_none.mpr hmedia)
        exact hfinal later hlater
      exact ⟨hnone, hprogress.finished hnone⟩

section Examples

/-- A table with one row to fill and one that has its media. -/
def oneToFill : Collections String String where
  rows := [⟨"u", 1, some 7, some "LP", none, ""⟩, ⟨"u", 1, none, none, some "vinyl", ""⟩]
  unique := by decide

theorem one_to_fill_backfilled :
    Backfilled (fun formats => formats.getD "none") 500 oneToFill :=
  (backfilled_iff _ oneToFill (by decide)).mpr (by unfold Collections.Addressable; decide)

/-- A table whose row to fill has no instance id. -/
def noInstance : Collections String String where
  rows := [⟨"u", 1, none, some "LP", none, ""⟩]
  unique := by decide

theorem no_instance_never_filled :
    ¬Backfilled (fun formats => formats.getD "none") 500 noInstance := fun h =>
  not_terminates (by decide) List.mem_cons_self rfl rfl h.terminates

end Examples

end CatalogApi.MediaBackfill
