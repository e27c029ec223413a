import CatalogApi.LedgerBackfill.Bounds
import CatalogApi.LedgerBackfill.Reading
import CatalogApi.Lib.Heads

/-!
# Dating releases

What the arrays of `finalize` hold, over the rows of the tables: the candidates are the linked rows
with their Discogs ids (`candidates_eq`), each release has its candidate of lowest id as its link
(`mem_earliest`), and the loop over the releases dates each by that link (`date_releases_eq`).
-/

namespace CatalogApi.LedgerBackfill

open ByKey Bisect Blocks

namespace Tables

variable (tables : Tables)

/-- The links of a discogs link type. -/
def discogsLinks : List Int :=
  (tables.links.filter fun link => link.2 ∈ tables.linkTypes).map (·.1)

/-- The Discogs id of a URL. -/
def discogsId (url : Int) : Option Int := (tables.urls.find? fun row => row.1 = url).map (·.2)

/-- A row as a Discogs release link: id, release and Discogs id. -/
def candidate (row : ReleaseUrl) : Option (Int × Int × Int) :=
  if row.link ∈ tables.discogsLinks then
    (tables.discogsId row.url).map fun found => (row.id, row.release, found)
  else none

/-- The candidates in order of their ids. -/
def candidates : List (Int × Int × Int) :=
  sortBy (·.1) (tables.rows.filterMap tables.candidate)

/-- The ids and timestamps of the rows. -/
def stamps : List (Int × Int) := tables.rows.map fun row => (row.id, row.updated)

/-- c(k) over the rows. -/
def bound (id : Int) : Int := creation tables.stamps id

/-- The candidate of lowest id of each release, in order of the releases. -/
def earliest : List (Int × Int × Int) := heads (·.2.1) (sortBy (·.2.1) tables.candidates)

/-- Those that are dated. -/
def dated : List (Int × Int × Int) := tables.earliest.filter fun link => tables.bound link.1 ≠ noTime

end Tables

/-! ## Candidates -/

section Candidates

variable {tables : Tables} {read : List String}

theorem discogs_links_eq : (tables.reader read).discogsLinks = tables.discogsLinks := by
  rw [ExportReader.discogsLinks, Tables.discogsLinks]
  have hzip : (tables.reader read).linkIds.zip (tables.reader read).linkTypes = tables.links := by
    change (tables.links.map (·.1)).zip (tables.links.map (·.2)) = tables.links
    rw [List.zip_map', List.map_id']
  rw [hzip]
  rfl

theorem sort_by_strict {α : Type} {key : α → Int} {l : List α} (h : (l.map key).Nodup) :
    (sortBy key l).Pairwise fun a b => key a < key b := by
  have hnodup : ((sortBy key l).map key).Nodup :=
    ((sort_by_perm key l).map key).nodup_iff.mpr h
  refine (List.pairwise_and_iff.mpr ⟨sort_by_sorted key l, List.pairwise_map.mp hnodup⟩).imp ?_
  exact fun ⟨hle, hne⟩ => lt_of_le_of_ne hle hne

/-- The join of the rows with the URLs gives the Discogs release links. -/
theorem candidates_eq (hurls : (tables.urls.map (·.1)).Nodup) :
    (tables.reader read).candidates = tables.rows.filterMap tables.candidate := by
  have hrows : (tables.reader read).rowIds.zip ((tables.reader read).rowLinks.zip
      ((tables.reader read).rowReleases.zip (tables.reader read).rowUrls)) =
      tables.rows.map fun row => (row.id, row.link, row.release, row.url) := by
    change (tables.rows.map (·.id)).zip ((tables.rows.map (·.link)).zip
      ((tables.rows.map (·.release)).zip (tables.rows.map (·.url)))) = _
    rw [List.zip_map', List.zip_map', List.zip_map']
  have hids : permute (argsort (tables.reader read).urlIds) (tables.reader read).urlIds =
      (sortBy (·.1) tables.urls).map (·.1) := permute_argsort Prod.fst Prod.fst tables.urls
  have hdiscogs : permute (argsort (tables.reader read).urlIds) (tables.reader read).urlDiscogs =
      (sortBy (·.1) tables.urls).map (·.2) := permute_argsort Prod.fst Prod.snd tables.urls
  rw [ExportReader.candidates, hrows, List.filterMap_map]
  refine List.filterMap_congr fun row _ => ?_
  dsimp only [Function.comp_apply]
  rw [discogs_links_eq, hids, hdiscogs, Tables.candidate, Tables.discogsId]
  by_cases hlink : row.link ∈ tables.discogsLinks
  · rw [if_pos hlink, if_pos hlink]
    have hfind : (tables.urls.find? fun url => url.1 = row.url) =
        (sortBy (·.1) tables.urls).find? fun url => url.1 = row.url := by
      refine find_eq_of_perm (sort_by_perm _ _).symm fun a ha b hb hkey hkey' => ?_
      exact List.inj_on_of_nodup_map hurls ha hb
        ((of_decide_eq_true hkey).trans (of_decide_eq_true hkey').symm)
    rw [hfind, ← bisect_lookup (sort_by_strict hurls) row.url 0 0]
    split
    · rfl
    · rfl
  · rw [if_neg hlink, if_neg hlink]

/-- What a candidate is made of. -/
theorem candidate_eq_some {row : ReleaseUrl} {link : Int × Int × Int} :
    tables.candidate row = some link ↔
      row.link ∈ tables.discogsLinks ∧ tables.discogsId row.url = some link.2.2 ∧
        link.1 = row.id ∧ link.2.1 = row.release := by
  obtain ⟨id, release, found⟩ := link
  rw [Tables.candidate]
  split
  case isFalse hlink => exact ⟨nofun, fun h => absurd h.1 hlink⟩
  case isTrue hlink =>
    rw [Option.map_eq_some_iff]
    constructor
    · rintro ⟨discogsId, hfound, heq⟩
      cases heq
      exact ⟨hlink, hfound, rfl, rfl⟩
    · rintro ⟨-, hfound, rfl, rfl⟩
      exact ⟨found, hfound, rfl⟩

variable (hrows : (tables.rows.map (·.id)).Nodup)

include hrows

theorem candidates_nodup : ((tables.rows.filterMap tables.candidate).map (·.1)).Nodup := by
  rw [List.Nodup, List.pairwise_map, List.pairwise_filterMap]
  rw [List.Nodup, List.pairwise_map] at hrows
  refine hrows.imp fun hne link hlink link' hlink' heq => hne ?_
  rw [← (candidate_eq_some.mp hlink).2.2.1, ← (candidate_eq_some.mp hlink').2.2.1, heq]

theorem candidates_sorted : tables.candidates.Pairwise fun a b => a.1 < b.1 :=
  sort_by_strict (candidates_nodup hrows)

/-- The earliest link of each release is its candidate of lowest id. -/
theorem mem_earliest {link : Int × Int × Int} :
    link ∈ tables.earliest ↔ link ∈ tables.rows.filterMap tables.candidate ∧
      ∀ other ∈ tables.rows.filterMap tables.candidate, other.2.1 = link.2.1 →
        link.1 ≤ other.1 := by
  have hrank := sort_by_stable (·.2.1) (candidates_sorted hrows)
  rw [Tables.earliest, mem_heads (sort_by_sorted _ _) hrank]
  simp only [mem_sort_by, Tables.candidates]

end Candidates

/-! ## The loop over the releases -/

section Loop

variable (links : List (Int × Int × Int)) (bound : Int → Int)

/-- The loop takes the first link of each run, and counts those without a date. -/
theorem date_releases_eq (fuel : Nat) (order : List Nat) (dated : Dated)
    (hfuel : order.length ≤ fuel) (horder : ∀ i ∈ order, i < links.length) :
    dateReleases (links.map (·.2.1)) (links.map (·.2.2)) (links.map fun link => bound link.1) fuel
        order dated =
      let firsts := heads (·.2.1) (order.map fun i => links.getD i (0, 0, 0))
      let kept := firsts.filter fun link => bound link.1 ≠ noTime
      { releases := dated.releases ++ kept.map (·.2.1)
        discogsIds := dated.discogsIds ++ kept.map (·.2.2)
        eventAt := dated.eventAt ++ kept.map fun link => bound link.1
        linked := dated.linked + firsts.length
        undated := dated.undated + (firsts.filter fun link => bound link.1 = noTime).length } := by
  induction fuel generalizing order dated with
  | zero =>
      obtain rfl := List.length_eq_zero_iff.mp (Nat.le_zero.mp hfuel)
      simp [dateReleases]
  | succ fuel ih =>
      cases order with
      | nil => simp [dateReleases]
      | cons best rest =>
          have hbest : best < links.length := horder best List.mem_cons_self
          have hrelease (i : Nat) :
              (links.map (·.2.1)).getD i 0 = (links.getD i (0, 0, 0)).2.1 :=
            List.getD_map links (0, 0, 0) fun link => link.2.1
          have hdiscogs : (links.map (·.2.2)).getD best 0 = (links.getD best (0, 0, 0)).2.2 :=
            List.getD_map links (0, 0, 0) fun link => link.2.2
          have hbound : (links.map fun link => bound link.1).getD best 0 =
              bound (links.getD best (0, 0, 0)).1 := by
            rw [List.getD_eq_getElem _ _ (by simpa using hbest), List.getElem_map,
              List.getD_eq_getElem _ _ hbest]
          have hrest : (rest.map fun i => links.getD i (0, 0, 0)).dropWhile
              (fun link => link.2.1 = (links.getD best (0, 0, 0)).2.1) =
              (rest.dropWhile fun i => (links.map (·.2.1)).getD i 0 =
                (links.map (·.2.1)).getD best 0).map fun i => links.getD i (0, 0, 0) := by
            rw [List.dropWhile_map]
            simp only [hrelease, Function.comp_def]
          have hsub : (rest.dropWhile fun i => (links.map (·.2.1)).getD i 0 =
              (links.map (·.2.1)).getD best 0).Sublist rest := List.dropWhile_sublist _
          rw [dateReleases, ih _ _ (hsub.length_le.trans (Nat.le_of_succ_le_succ hfuel))
            fun i hi => horder i (List.mem_cons_of_mem _ (hsub.mem hi)), List.map_cons, heads_cons,
            hrest, hrelease, hdiscogs, hbound]
          generalize links.getD best (0, 0, 0) = link
          generalize heads (·.2.1) (((rest.map fun i => links.getD i (0, 0, 0)).dropWhile
            fun link' => link'.2.1 = link.2.1)) = firsts
          dsimp only
          by_cases hnone : bound link.1 = noTime
          · rw [List.filter_cons_of_neg (by simpa using hnone),
              List.filter_cons_of_pos (by simpa using hnone), if_pos hnone, List.length_cons,
              List.length_cons]
            simp only [Dated.mk.injEq, true_and]
            omega
          · rw [List.filter_cons_of_pos (by simpa using hnone),
              List.filter_cons_of_neg (by simpa using hnone), if_neg hnone, List.length_cons]
            simp only [List.map_cons, List.append_assoc, List.singleton_append, Dated.mk.injEq,
              true_and, and_true]
            omega

end Loop

end CatalogApi.LedgerBackfill
