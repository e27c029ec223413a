import CatalogApi.LedgerBackfill.Dating

/-!
# Placing the MBIDs

The search in the sorted releases puts every MBID of the release table in the place of its release
(`place_gids_fill`), and the compaction keeps the releases that got one. So `finalize` over the
tables of an export has the plan of its dated releases (`finalize_eq`).
-/

namespace CatalogApi.LedgerBackfill

open ByKey Bisect Blocks

/-- A MusicBrainz release id. -/
abbrev Gid := { gid : Bytes // gid.length = 16 }

/-! ## The places of the MBIDs -/

section Places

variable {dated : List Int}

/-- What the slot of a release holds, zero bytes while it is free. -/
def slotBytes : Option Gid → Bytes
  | none => List.replicate 16 0
  | some gid => gid.val

theorem length_slot (slot : Option Gid) : (slotBytes slot).length = 16 := by
  cases slot with
  | none => exact List.length_replicate
  | some gid => exact gid.property

/-- The flat array and the flags, when the slots of the dated releases hold these. -/
def slotState (dated : List Int) (slot : Int → Option Gid) : Bytes × List Bool :=
  ((dated.map slot).flatMap slotBytes, (dated.map slot).map Option.isSome)

/-- A release row fills the slot of its release, if it is dated. -/
theorem place_gid_update (hsorted : dated.Pairwise (· < ·)) (slot : Int → Option Gid) {gids : Bytes}
    {row : Int × Nat} {gid : Gid} (hgid : gidAt gids row.2 = gid.val) :
    placeGid dated gids (slotState dated slot) row =
      slotState dated (Function.update slot row.1 (some gid)) := by
  rw [placeGid]
  have hnodup : dated.Nodup := hsorted.imp ne_of_lt
  by_cases hin : row.1 ∈ dated
  · obtain ⟨i, hi, hrow⟩ := List.getElem_of_mem hin
    have hat : bisectLeft dated row.1 = i :=
      bisect_left_get hsorted (by rw [List.getElem?_eq_getElem hi, hrow])
    have hset : (dated.map slot).set i (some gid) =
        dated.map (Function.update slot row.1 (some gid)) := by
      refine List.ext_getElem (by simp) fun j hj hj' => ?_
      have hj : j < dated.length := by simpa using hj'
      rw [List.getElem_set, List.getElem_map, List.getElem_map]
      split
      · rename_i heq
        subst heq
        rw [hrow, Function.update_self]
      · rename_i hne
        have hother : dated[j] ≠ row.1 := by
          rw [← hrow]
          intro heq
          exact hne (hnodup.getElem_inj_iff.mp heq).symm
        rw [Function.update_of_ne hother]
    have hbytes := set_block length_slot (show i < (dated.map slot).length by simpa using hi)
      (some gid)
    rw [hat, if_pos ⟨hi, by rw [List.getD_eq_getElem _ _ hi, hrow]⟩, hgid]
    refine Prod.ext ?_ ?_
    · rw [hset] at hbytes
      exact hbytes
    · show ((dated.map slot).map Option.isSome).set i true = _
      rw [slotState, ← hset, List.map_set]
      rfl
  · have hmiss : ¬(bisectLeft dated row.1 < dated.length ∧
        dated.getD (bisectLeft dated row.1) 0 = row.1) := by
      rintro ⟨hlt, heq⟩
      rw [List.getD_eq_getElem _ _ hlt] at heq
      exact hin (heq ▸ List.getElem_mem hlt)
    have hsame : dated.map (Function.update slot row.1 (some gid)) = dated.map slot := by
      refine List.map_congr_left fun release hrelease => Function.update_of_ne ?_ _ _
      rintro rfl
      exact hin hrelease
    rw [if_neg hmiss, slotState, slotState, hsame]

/-- The slots after these release rows. -/
def fill (slot : Int → Option Gid) (releases : List (Int × Gid)) : Int → Option Gid :=
  releases.foldl (fun slot row => Function.update slot row.1 (some row.2)) slot

/-- The loop over the release rows fills the slots. -/
theorem place_gids_fill (hsorted : dated.Pairwise (· < ·)) {gids : Bytes}
    (releases : List (Int × Gid)) (start : Nat) (slot : Int → Option Gid)
    (hgids : ∀ i row, releases[i]? = some row → gidAt gids (start + i) = row.2.val) :
    ((releases.map (·.1)).zipIdx start).foldl (placeGid dated gids) (slotState dated slot) =
      slotState dated (fill slot releases) := by
  induction releases generalizing start slot with
  | nil => rfl
  | cons row releases ih =>
      have hfirst : gidAt gids start = row.2.val := hgids 0 row rfl
      have hstep : placeGid dated gids (slotState dated slot) (row.1, start) =
          slotState dated (Function.update slot row.1 (some row.2)) :=
        place_gid_update hsorted slot hfirst
      rw [List.map_cons, List.zipIdx_cons, List.foldl_cons, hstep]
      refine ih (start + 1) _ fun i row' hrow' => ?_
      rw [Nat.add_assoc, Nat.add_comm 1 i]
      exact hgids (i + 1) row' hrow'

/-- The MBID of a release. -/
def gidOf (releases : List (Int × Gid)) (release : Int) : Option Gid :=
  (releases.find? fun row => row.1 = release).map (·.2)

/-- With distinct release ids every slot holds the MBID of its release. -/
theorem fill_eq {releases : List (Int × Gid)} (hnodup : (releases.map (·.1)).Nodup)
    (slot : Int → Option Gid) (release : Int) :
    fill slot releases release = (gidOf releases release).or (slot release) := by
  induction releases generalizing slot with
  | nil => rfl
  | cons row releases ih =>
      rw [List.map_cons, List.nodup_cons] at hnodup
      show fill (Function.update slot row.1 (some row.2)) releases release = _
      rw [ih hnodup.2]
      by_cases hrelease : row.1 = release
      · have hnone : gidOf releases release = none := by
          rw [gidOf, Option.map_eq_none_iff, List.find?_eq_none]
          intro other hother heq
          refine hnodup.1 (List.mem_map.mpr ⟨other, hother, ?_⟩)
          exact (of_decide_eq_true heq).trans hrelease.symm
        have hsome : gidOf (row :: releases) release = some row.2 := by
          rw [gidOf, List.find?_cons, decide_eq_true hrelease]
          rfl
        rw [hnone, hsome, ← hrelease, Function.update_self]
        rfl
      · have hskip : gidOf (row :: releases) release = gidOf releases release := by
          rw [gidOf, List.find?_cons_of_neg (by simpa using hrelease), gidOf]
        rw [hskip, Function.update_of_ne (Ne.symm hrelease)]

end Places

/-! ## The plan -/

namespace Tables

variable (tables : Tables)

/-- The dated releases that have an MBID. -/
def kept : List (Int × Int × Int) :=
  tables.dated.filter fun link => (gidOf tables.releases link.2.1).isSome

/-- The plan of the dated releases. -/
def plan : BackfillPlan where
  mbids := tables.kept.flatMap fun link => slotBytes (gidOf tables.releases link.2.1)
  discogsIds := tables.kept.map (·.2.2)
  eventAt := tables.kept.map fun link => tables.bound link.1
  counts :=
    { releaseUrlRows := tables.rows.length
      discogsReleaseLinks := tables.candidates.length
      releasesLinked := tables.earliest.length
      undated := (tables.earliest.filter fun link => tables.bound link.1 = noTime).length
      missingReleaseRow := tables.dated.length - tables.kept.length
      events := tables.kept.length }

variable {tables}

theorem earliest_sorted : tables.earliest.Pairwise fun a b => a.2.1 < b.2.1 :=
  heads_sorted (sort_by_sorted _ _)

theorem dated_sorted : (tables.dated.map (·.2.1)).Pairwise (· < ·) :=
  List.pairwise_map.mpr (earliest_sorted.sublist List.filter_sublist)

end Tables

section Finalize

variable {tables : Tables} {read : List String}

/-- The loop dates the releases of the tables. -/
theorem date_candidates (hrows : (tables.rows.map (·.id)).Nodup) :
    dateReleases (tables.candidates.map (·.2.1)) (tables.candidates.map (·.2.2))
        (creationBounds (tables.candidates.map (·.1)) (tables.reader read).rowIds
          (tables.reader read).rowUpdated)
        (argsort (tables.candidates.map (·.2.1))).length (argsort (tables.candidates.map (·.2.1)))
        ⟨[], [], [], 0, 0⟩ =
      { releases := tables.dated.map (·.2.1)
        discogsIds := tables.dated.map (·.2.2)
        eventAt := tables.dated.map fun link => tables.bound link.1
        linked := tables.earliest.length
        undated := (tables.earliest.filter fun link => tables.bound link.1 = noTime).length } := by
  have hbounds : creationBounds (tables.candidates.map (·.1)) (tables.reader read).rowIds
      (tables.reader read).rowUpdated = tables.candidates.map fun link => tables.bound link.1 := by
    have hsorted : (tables.candidates.map (·.1)).Pairwise (· ≤ ·) :=
      List.pairwise_map.mpr ((candidates_sorted hrows).imp le_of_lt)
    have hids : (tables.reader read).rowIds = tables.stamps.map (·.1) := by
      rw [Tables.stamps, List.map_map]
      rfl
    have hupdated : (tables.reader read).rowUpdated = tables.stamps.map (·.2) := by
      rw [Tables.stamps, List.map_map]
      rfl
    rw [hids, hupdated, creation_bounds_eq hsorted, List.map_map]
    rfl
  have hplaces : ∀ i ∈ argsort (tables.candidates.map (·.2.1)), i < tables.candidates.length := by
    intro i hi
    rw [mem_argsort, List.length_map] at hi
    exact hi
  rw [hbounds, date_releases_eq _ _ _ _ _ (Nat.le_refl _) hplaces,
    argsort_map (fun link : Int × Int × Int => link.2.1) tables.candidates (0, 0, 0)]
  simp only [List.nil_append, Nat.zero_add]
  rfl

/-- The loop over the release table puts every MBID in its place. -/
theorem place_releases (hreleases : (tables.releases.map (·.1)).Nodup) :
    (tables.reader read).releaseIds.zipIdx.foldl
        (placeGid (tables.dated.map (·.2.1)) (tables.reader read).releaseGids)
        (List.replicate (16 * (tables.dated.map (·.2.1)).length) 0,
          List.replicate (tables.dated.map (·.2.1)).length false) =
      slotState (tables.dated.map (·.2.1)) (gidOf tables.releases) := by
  have hfree (releases : List Int) : (List.replicate (16 * releases.length) 0,
      List.replicate releases.length false) = slotState releases fun _ => none := by
    induction releases with
    | nil => rfl
    | cons release releases ih =>
        obtain ⟨hbytes, hflags⟩ := Prod.ext_iff.mp ih
        refine Prod.ext ?_ ?_
        · rw [List.length_cons, Nat.mul_succ, Nat.add_comm, List.replicate_add]
          exact congrArg (List.replicate 16 0 ++ ·) hbytes
        · exact congrArg (false :: ·) hflags
  have hgids (i : Nat) (row : Int × Gid) (hrow : tables.releases[i]? = some row) :
      gidAt (tables.reader read).releaseGids (0 + i) = row.2.val := by
    rw [Nat.zero_add]
    exact block_at (fun row : Int × Gid => row.2.property) hrow
  have hslots : fill (fun _ => none) tables.releases = gidOf tables.releases := by
    funext release
    rw [fill_eq hreleases, Option.or_none]
  rw [hfree, ← hslots]
  exact place_gids_fill Tables.dated_sorted tables.releases 0 _ hgids

/-- The MBIDs of the places that are filled. -/
theorem kept_gids : ((List.range tables.dated.length).filter fun i =>
      ((tables.dated.map fun link => (gidOf tables.releases link.2.1).isSome)).getD i false).flatMap
        (gidAt (slotState (tables.dated.map (·.2.1)) (gidOf tables.releases)).1) =
      tables.kept.flatMap fun link => slotBytes (gidOf tables.releases link.2.1) := by
  have hblock (i : Nat) (hi : i < tables.dated.length) :
      gidAt (slotState (tables.dated.map (·.2.1)) (gidOf tables.releases)).1 i =
        (tables.dated.map fun link => slotBytes (gidOf tables.releases link.2.1)).getD i [] := by
    rw [List.getD_eq_getElem _ _ (by simpa using hi), List.getElem_map]
    refine block_at length_slot ?_
    rw [List.getElem?_map, List.getElem?_map, List.getElem?_eq_getElem hi]
    rfl
  rw [List.flatMap_def, List.flatMap_def, Tables.kept,
    ← map_kept (fun link => (gidOf tables.releases link.2.1).isSome)
      (fun link => slotBytes (gidOf tables.releases link.2.1)) [] tables.dated]
  refine congrArg List.flatten (List.map_congr_left fun i hi => ?_)
  exact hblock i (List.mem_range.mp (List.mem_filter.mp hi).1)

/-- The columns of the plan are those of the kept releases, compacted or not. -/
theorem compaction_eq :
    (if tables.dated.length - tables.kept.length ≠ 0 then
      (((List.range tables.dated.length).filter fun i =>
          (tables.dated.map fun link => (gidOf tables.releases link.2.1).isSome).getD i false).flatMap
            (gidAt (slotState (tables.dated.map (·.2.1)) (gidOf tables.releases)).1),
        permute ((List.range tables.dated.length).filter fun i =>
          (tables.dated.map fun link => (gidOf tables.releases link.2.1).isSome).getD i false)
            (tables.dated.map (·.2.2)),
        permute ((List.range tables.dated.length).filter fun i =>
          (tables.dated.map fun link => (gidOf tables.releases link.2.1).isSome).getD i false)
            (tables.dated.map fun link => tables.bound link.1))
    else
      ((slotState (tables.dated.map (·.2.1)) (gidOf tables.releases)).1,
        tables.dated.map (·.2.2), tables.dated.map fun link => tables.bound link.1)) =
    (tables.kept.flatMap fun link => slotBytes (gidOf tables.releases link.2.1),
      tables.kept.map (·.2.2), tables.kept.map fun link => tables.bound link.1) := by
  split
  case isTrue hsome =>
    rw [kept_gids, permute, permute, map_kept, map_kept]
    rfl
  case isFalse hnone =>
    have hall : tables.kept = tables.dated :=
      List.filter_sublist.eq_of_length_le (Nat.sub_eq_zero_iff_le.mp (not_not.mp hnone))
    rw [hall, slotState, List.map_map, List.flatMap_map]
    rfl

/-- `finalize` over the tables of an export. -/
theorem finalize_eq (hread : ∀ table ∈ tableNames, table ∈ read) (htypes : tables.linkTypes ≠ [])
    (hurls : (tables.urls.map (·.1)).Nodup) (hrows : (tables.rows.map (·.id)).Nodup)
    (hreleases : (tables.releases.map (·.1)).Nodup) :
    (tables.reader read).finalize = .ok tables.plan := by
  have hmissing : (tables.reader read).missing = [] :=
    List.filter_eq_nil_iff.mpr fun table htable habsent =>
      of_decide_eq_true habsent (hread table htable)
  have hids : permute (argsort ((tables.reader read).candidates.map (·.1)))
      ((tables.reader read).candidates.map (·.1)) = tables.candidates.map (·.1) := by
    rw [candidates_eq hurls, permute_argsort, Tables.candidates]
  have hreleaseIds : permute (argsort ((tables.reader read).candidates.map (·.1)))
      ((tables.reader read).candidates.map (·.2.1)) = tables.candidates.map (·.2.1) := by
    rw [candidates_eq hurls, permute_argsort, Tables.candidates]
  have hdiscogs : permute (argsort ((tables.reader read).candidates.map (·.1)))
      ((tables.reader read).candidates.map (·.2.2)) = tables.candidates.map (·.2.2) := by
    rw [candidates_eq hurls, permute_argsort, Tables.candidates]
  have hflags : (slotState (tables.dated.map (·.2.1)) (gidOf tables.releases)).2 =
      tables.dated.map fun link => (gidOf tables.releases link.2.1).isSome := by
    rw [slotState, List.map_map, List.map_map]
    rfl
  have hcount : (tables.dated.map fun link => (gidOf tables.releases link.2.1).isSome).count true =
      tables.kept.length := by
    rw [List.count, List.countP_map, Tables.kept, ← List.countP_eq_length_filter]
    exact List.countP_congr fun link _ => by simp
  have hlength : (tables.reader read).rowIds.length = tables.rows.length := List.length_map _
  have htypes : (tables.reader read).discogsLinkTypes ≠ [] := htypes
  rw [ExportReader.finalize, if_neg (by rw [hmissing]; exact fun h => h rfl), if_neg htypes]
  dsimp only
  rw [hids, hreleaseIds, hdiscogs, date_candidates hrows, place_releases hreleases, hflags, hcount,
    List.length_map, compaction_eq, List.length_map, List.length_map, hlength]
  rfl

end Finalize

end CatalogApi.LedgerBackfill
