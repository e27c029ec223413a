import CatalogApi.LedgerBackfill.Creation
import CatalogApi.LedgerBackfill.Placing
import CatalogApi.Lib.Numerals
import CatalogApi.Lib.Utf8
import Mathlib.Data.Set.Card

/-!
# The plan is proxy 2

`Tables.Links` says which rows link a release to Discogs, and `Tables.bounds` which of the bounds
c(k) they have. The plan of an export has an event at the least of them for each linked release that
has one and is in the release table, whatever the order of the members and of the rows
(`backfill_is_proxy_two`).
-/

namespace CatalogApi.LedgerBackfill

open ByKey

namespace Tables

variable (tables : Tables)

/-- The row links the release to this Discogs id: its link has a discogs type, and its URL is that
of a Discogs release. -/
structure Links (row : ReleaseUrl) (release discogsId : Int) : Prop where
  mem : row ∈ tables.rows
  release : row.release = release
  link : ∃ linkType ∈ tables.linkTypes, (row.link, linkType) ∈ tables.links
  url : (row.url, discogsId) ∈ tables.urls

/-- The bounds c(k) of the rows that link the release, where they exist. -/
def bounds (release : Int) : Set Int :=
  {time | ∃ row discogsId, tables.Links row release discogsId ∧
    IsLeast (timesFrom tables.stamps row.id) time}

/-- The releases with a row that links them. -/
def linked : Set Int := {release | ∃ row discogsId, tables.Links row release discogsId}

/-- Those without a bound. -/
def undated : Set Int := {release ∈ tables.linked | tables.bounds release = ∅}

/-- Those with a bound that the release table does not have. -/
def missing : Set Int :=
  {release ∈ tables.linked | (tables.bounds release).Nonempty ∧
    ∀ gid, (release, gid) ∉ tables.releases}

/-- Those with a bound that the release table has. -/
def planned : Set Int :=
  {release ∈ tables.linked | (tables.bounds release).Nonempty ∧
    ∃ gid, (release, gid) ∈ tables.releases}

/-- The event of a release: its MBID, the Discogs id of its row of lowest id and the least bound. -/
structure Event (release : Int) (event : Bytes × Int × Int) : Prop where
  mbid : ∃ gid : Gid, (release, gid) ∈ tables.releases ∧ event.1 = gid.val
  discogsId : ∃ row, tables.Links row release event.2.1 ∧
    ∀ row' discogsId, tables.Links row' release discogsId → row.id ≤ row'.id
  eventAt : IsLeast (tables.bounds release) event.2.2

/-- The plan is proxy 2 of the tables. -/
structure ProxyTwo (plan : BackfillPlan) : Prop where
  events : ∃ releases : List Int, releases.Pairwise (· < ·) ∧
    (∀ release, release ∈ releases ↔ release ∈ tables.planned) ∧
    List.Forall₂ tables.Event releases plan.events
  releaseUrlRows : {row | row ∈ tables.rows}.encard = plan.counts.releaseUrlRows
  discogsReleaseLinks : {row | ∃ release discogsId, tables.Links row release discogsId}.encard =
    plan.counts.discogsReleaseLinks
  releasesLinked : tables.linked.encard = plan.counts.releasesLinked
  undated : tables.undated.encard = plan.counts.undated
  missingReleaseRow : tables.missing.encard = plan.counts.missingReleaseRow
  planned : tables.planned.encard = plan.counts.events
  total : plan.counts.releasesLinked =
    plan.counts.undated + plan.counts.missingReleaseRow + plan.counts.events

end Tables

/-! ## Candidates as links -/

section Links

variable {tables : Tables}

theorem mem_discogs_links {link : Int} :
    link ∈ tables.discogsLinks ↔
      ∃ linkType ∈ tables.linkTypes, (link, linkType) ∈ tables.links := by
  rw [Tables.discogsLinks, List.mem_map]
  constructor
  · rintro ⟨⟨found, linkType⟩, hmem, rfl⟩
    obtain ⟨hmem, htype⟩ := List.mem_filter.mp hmem
    exact ⟨linkType, of_decide_eq_true htype, hmem⟩
  · rintro ⟨linkType, htype, hmem⟩
    exact ⟨(link, linkType), List.mem_filter.mpr ⟨hmem, decide_eq_true htype⟩, rfl⟩

theorem discogs_id_eq_some (hurls : (tables.urls.map (·.1)).Nodup) {url discogsId : Int} :
    tables.discogsId url = some discogsId ↔ (url, discogsId) ∈ tables.urls := by
  rw [Tables.discogsId, Option.map_eq_some_iff]
  constructor
  · rintro ⟨⟨found, discogsId⟩, hfound, rfl⟩
    obtain rfl : found = url := of_decide_eq_true (List.find?_some hfound :)
    exact List.mem_of_find?_eq_some hfound
  · intro hmem
    cases hfound : tables.urls.find? fun row => row.1 = url with
    | none => exact absurd (decide_eq_true rfl) (List.find?_eq_none.mp hfound _ hmem)
    | some found =>
        have hkey : found.1 = url := of_decide_eq_true (List.find?_some hfound :)
        have heq := List.inj_on_of_nodup_map hurls (List.mem_of_find?_eq_some hfound) hmem hkey
        exact ⟨found, rfl, by rw [heq]⟩

/-- A candidate is the row it is made of. -/
theorem candidate_links (hurls : (tables.urls.map (·.1)).Nodup) {row : ReleaseUrl}
    (hrow : row ∈ tables.rows) {link : Int × Int × Int} :
    tables.candidate row = some link ↔ link.1 = row.id ∧ tables.Links row link.2.1 link.2.2 := by
  rw [candidate_eq_some, mem_discogs_links, discogs_id_eq_some hurls]
  constructor
  · rintro ⟨hlink, hurl, hid, hrelease⟩
    exact ⟨hid, hrow, hrelease.symm, hlink, hurl⟩
  · rintro ⟨hid, -, hrelease, hlink, hurl⟩
    exact ⟨hlink, hurl, hid, hrelease.symm⟩

theorem mem_candidates (hurls : (tables.urls.map (·.1)).Nodup) {link : Int × Int × Int} :
    link ∈ tables.rows.filterMap tables.candidate ↔
      ∃ row, link.1 = row.id ∧ tables.Links row link.2.1 link.2.2 := by
  rw [List.mem_filterMap]
  constructor
  · rintro ⟨row, hrow, hcandidate⟩
    exact ⟨row, (candidate_links hurls hrow).mp hcandidate⟩
  · rintro ⟨row, hid, hlinks⟩
    exact ⟨row, hlinks.mem, (candidate_links hurls hlinks.mem).mpr ⟨hid, hlinks⟩⟩

end Links

/-! ## The link of a release -/

section Earliest

variable {tables : Tables} (hurls : (tables.urls.map (·.1)).Nodup)
  (hrows : (tables.rows.map (·.id)).Nodup)

include hurls hrows

/-- The link of a release is its row of lowest id. -/
theorem earliest_links {link : Int × Int × Int} (hlink : link ∈ tables.earliest) :
    ∃ row, link.1 = row.id ∧ tables.Links row link.2.1 link.2.2 ∧
      ∀ row' discogsId, tables.Links row' link.2.1 discogsId → row.id ≤ row'.id := by
  obtain ⟨hmem, hleast⟩ := (mem_earliest hrows).mp hlink
  obtain ⟨row, hid, hlinks⟩ := (mem_candidates hurls).mp hmem
  refine ⟨row, hid, hlinks, fun row' discogsId hlinks' => ?_⟩
  have hother := hleast (row'.id, link.2.1, discogsId)
    ((mem_candidates hurls).mpr ⟨row', rfl, hlinks'⟩)
  rw [← hid]
  exact hother rfl

/-- The releases with a link are the linked ones. -/
theorem mem_linked {release : Int} :
    release ∈ tables.earliest.map (·.2.1) ↔ release ∈ tables.linked := by
  constructor
  · intro hmem
    obtain ⟨link, hlink, rfl⟩ := List.mem_map.mp hmem
    obtain ⟨row, -, hlinks, -⟩ := earliest_links hurls hrows hlink
    exact ⟨row, link.2.2, hlinks⟩
  · rintro ⟨row, discogsId, hlinks⟩
    have hmem : (row.id, release, discogsId) ∈ (tables.rows.filterMap tables.candidate).filter
        fun link => link.2.1 = release :=
      List.mem_filter.mpr ⟨(mem_candidates hurls).mpr ⟨row, rfl, hlinks⟩, decide_eq_true rfl⟩
    cases hfirst : firstBy (·.1) ((tables.rows.filterMap tables.candidate).filter
        fun link => link.2.1 = release) with
    | none => exact absurd hmem (first_by_eq_none.mp hfirst ▸ List.not_mem_nil)
    | some link =>
        obtain ⟨hlink, hkey⟩ := List.mem_filter.mp (first_by_mem hfirst)
        have hrelease : link.2.1 = release := of_decide_eq_true hkey
        refine List.mem_map.mpr ⟨link, (mem_earliest hrows).mpr ⟨hlink, fun other hother heq => ?_⟩,
          hrelease⟩
        refine first_by_le hfirst (List.mem_filter.mpr ⟨hother, decide_eq_true ?_⟩)
        rw [heq, hrelease]

variable (htimes : ∀ row ∈ tables.rows, row.updated < noTime)

omit hurls hrows

theorem bound_lt {id time : Int} (htimes : ∀ row ∈ tables.rows, row.updated < noTime)
    (htime : time ∈ timesFrom tables.stamps id) : time < noTime := by
  obtain ⟨-, rowId, hstamp, -⟩ := htime
  obtain ⟨row, hrow, heq⟩ := List.mem_map.mp hstamp
  cases heq
  exact htimes row hrow

/-- c(k) exists if and only if it is a time. -/
theorem bound_eq_none {id : Int} (htimes : ∀ row ∈ tables.rows, row.updated < noTime) :
    tables.bound id = noTime ↔ timesFrom tables.stamps id = ∅ := by
  refine ⟨fun hnone => Set.eq_empty_iff_forall_notMem.mpr fun time htime => ?_, creation_none⟩
  have hle : tables.bound id ≤ time := creation_le htime
  have hlt := bound_lt htimes htime
  omega

theorem bound_least {id : Int} (htimes : ∀ row ∈ tables.rows, row.updated < noTime)
    (hsome : tables.bound id ≠ noTime) :
    IsLeast (timesFrom tables.stamps id) (tables.bound id) := by
  refine creation_least (fun stamp hstamp => ?_)
    (Set.nonempty_iff_ne_empty.mpr (mt (bound_eq_none htimes).mpr hsome))
  obtain ⟨row, hrow, heq⟩ := List.mem_map.mp hstamp
  cases heq
  exact (htimes row hrow).le

include hurls hrows htimes

/-- The bound of the link of a release is the least of its rows. -/
theorem earliest_bound {link : Int × Int × Int} (hlink : link ∈ tables.earliest)
    (hsome : tables.bound link.1 ≠ noTime) :
    IsLeast (tables.bounds link.2.1) (tables.bound link.1) := by
  obtain ⟨row, hid, hlinks, hlowest⟩ := earliest_links hurls hrows hlink
  rw [hid] at hsome ⊢
  refine ⟨⟨row, link.2.2, hlinks, bound_least htimes hsome⟩, fun time htime => ?_⟩
  obtain ⟨row', discogsId, hlinks', hleast⟩ := htime
  exact (creation_mono tables.stamps (hlowest row' discogsId hlinks')).trans (creation_le hleast.1)

/-- Without a bound of its link a release has none. -/
theorem earliest_undated {link : Int × Int × Int} (hlink : link ∈ tables.earliest)
    (hnone : tables.bound link.1 = noTime) : tables.bounds link.2.1 = ∅ := by
  obtain ⟨row, hid, hlinks, hlowest⟩ := earliest_links hurls hrows hlink
  refine Set.eq_empty_iff_forall_notMem.mpr fun time htime => ?_
  obtain ⟨row', discogsId, hlinks', ⟨hpos, rowId, hstamp, hle⟩, -⟩ := htime
  have hempty := (bound_eq_none htimes).mp hnone
  have hmem : time ∈ timesFrom tables.stamps link.1 :=
    ⟨hpos, rowId, hstamp, hid ▸ (hlowest row' discogsId hlinks').trans hle⟩
  exact Set.notMem_empty time (hempty ▸ hmem)

end Earliest

/-! ## The plan of the tables -/

theorem encard_of_nodup {α : Type} [DecidableEq α] {l : List α} {s : Set α} (hnodup : l.Nodup)
    (hmem : ∀ a, a ∈ l ↔ a ∈ s) : s.encard = l.length := by
  have hset : s = (l.toFinset : Set α) := by
    ext a
    rw [Finset.mem_coe, List.mem_toFinset, hmem]
  rw [hset, Set.encard_coe_eq_coe_finsetCard, List.toFinset_card_of_nodup hnodup]

theorem gid_of_mem {releases : List (Int × Gid)} {release : Int} {gid : Gid}
    (h : gidOf releases release = some gid) : (release, gid) ∈ releases := by
  obtain ⟨row, hfound, hgid⟩ := Option.map_eq_some_iff.mp h
  have hkey : row.1 = release := of_decide_eq_true (List.find?_some hfound :)
  rw [← hkey, ← hgid]
  exact List.mem_of_find?_eq_some hfound

theorem gid_of_is_some {releases : List (Int × Gid)} {release : Int} :
    (gidOf releases release).isSome = true ↔ ∃ gid, (release, gid) ∈ releases := by
  constructor
  · intro hsome
    obtain ⟨gid, hgid⟩ := Option.isSome_iff_exists.mp hsome
    exact ⟨gid, gid_of_mem hgid⟩
  · rintro ⟨gid, hmem⟩
    rw [gidOf, Option.isSome_map, List.find?_isSome]
    exact ⟨(release, gid), hmem, decide_eq_true rfl⟩

/-- The events of a plan whose columns are those of some rows. -/
theorem events_of_columns {α : Type} {mbid : α → Bytes} (hwidth : ∀ row, (mbid row).length = 16)
    (discogsId eventAt : α → Int) (rows : List α) (counts : PlanCounts) :
    (BackfillPlan.mk (rows.flatMap mbid) (rows.map discogsId) (rows.map eventAt) counts).events =
      rows.map fun row => (mbid row, discogsId row, eventAt row) := by
  rw [BackfillPlan.events, List.zip_map']
  refine List.ext_getElem (by simp) fun i hi hi' => ?_
  have hrow : i < rows.length := by simpa using hi'
  rw [List.getElem_map, List.getElem_zipIdx, List.getElem_map, List.getElem_map, Nat.zero_add]
  exact Prod.ext (Blocks.block_at hwidth (List.getElem?_eq_getElem hrow)) rfl

section Plan

variable {tables : Tables} (hurls : (tables.urls.map (·.1)).Nodup)
  (hrows : (tables.rows.map (·.id)).Nodup) (htimes : ∀ row ∈ tables.rows, row.updated < noTime)

include hurls hrows

/-- The rows that link a release are the candidates. -/
theorem links_card : {row | ∃ release discogsId, tables.Links row release discogsId}.encard =
    tables.candidates.length := by
  have hlength : tables.candidates.length =
      (tables.rows.filter fun row => (tables.candidate row).isSome).length := by
    rw [Tables.candidates, length_sort_by, List.length_filterMap_eq_countP,
      List.countP_eq_length_filter]
  rw [hlength]
  refine encard_of_nodup ((List.Nodup.of_map _ hrows).filter _) fun row => ?_
  rw [List.mem_filter, Option.isSome_iff_exists]
  constructor
  · rintro ⟨hrow, link, hlink⟩
    exact ⟨link.2.1, link.2.2, ((candidate_links hurls hrow).mp hlink).2⟩
  · rintro ⟨release, discogsId, hlinks⟩
    exact ⟨hlinks.mem, (row.id, release, discogsId),
      (candidate_links hurls hlinks.mem).mpr ⟨rfl, hlinks⟩⟩

include htimes

theorem mem_undated {release : Int} :
    release ∈ (tables.earliest.filter fun link => tables.bound link.1 = noTime).map (·.2.1) ↔
      release ∈ tables.undated := by
  rw [List.mem_map]
  constructor
  · rintro ⟨link, hmem, rfl⟩
    obtain ⟨hlink, hnone⟩ := List.mem_filter.mp hmem
    exact ⟨(mem_linked hurls hrows).mp (List.mem_map_of_mem hlink),
      earliest_undated hurls hrows htimes hlink (of_decide_eq_true hnone)⟩
  · rintro ⟨hlinked, hempty⟩
    obtain ⟨link, hlink, rfl⟩ := List.mem_map.mp ((mem_linked hurls hrows).mpr hlinked)
    refine ⟨link, List.mem_filter.mpr ⟨hlink, decide_eq_true (by_contra fun hsome => ?_)⟩, rfl⟩
    have hleast := earliest_bound hurls hrows htimes hlink hsome
    exact Set.notMem_empty _ (hempty ▸ hleast.1)

theorem mem_dated {release : Int} :
    release ∈ tables.dated.map (·.2.1) ↔
      release ∈ tables.linked ∧ (tables.bounds release).Nonempty := by
  rw [List.mem_map]
  constructor
  · rintro ⟨link, hmem, rfl⟩
    obtain ⟨hlink, hsome⟩ := List.mem_filter.mp hmem
    exact ⟨(mem_linked hurls hrows).mp (List.mem_map_of_mem hlink),
      ⟨_, (earliest_bound hurls hrows htimes hlink (of_decide_eq_true hsome)).1⟩⟩
  · rintro ⟨hlinked, hsome⟩
    obtain ⟨link, hlink, rfl⟩ := List.mem_map.mp ((mem_linked hurls hrows).mpr hlinked)
    refine ⟨link, List.mem_filter.mpr ⟨hlink, decide_eq_true fun hnone => ?_⟩, rfl⟩
    exact hsome.ne_empty (earliest_undated hurls hrows htimes hlink hnone)

theorem mem_missing {release : Int} :
    release ∈ (tables.dated.filter fun link =>
        ¬(gidOf tables.releases link.2.1).isSome).map (·.2.1) ↔ release ∈ tables.missing := by
  have hdated := @mem_dated tables hurls hrows htimes release
  rw [List.mem_map] at hdated ⊢
  constructor
  · rintro ⟨link, hmem, rfl⟩
    obtain ⟨hlink, hnone⟩ := List.mem_filter.mp hmem
    obtain ⟨hlinked, hsome⟩ := hdated.mp ⟨link, hlink, rfl⟩
    exact ⟨hlinked, hsome, fun gid hgid => of_decide_eq_true hnone (gid_of_is_some.mpr ⟨gid, hgid⟩)⟩
  · rintro ⟨hlinked, hsome, hnone⟩
    obtain ⟨link, hlink, rfl⟩ := hdated.mpr ⟨hlinked, hsome⟩
    refine ⟨link, List.mem_filter.mpr ⟨hlink, decide_eq_true fun hfound => ?_⟩, rfl⟩
    obtain ⟨gid, hgid⟩ := gid_of_is_some.mp hfound
    exact hnone gid hgid

theorem mem_planned {release : Int} :
    release ∈ tables.kept.map (·.2.1) ↔ release ∈ tables.planned := by
  have hdated := @mem_dated tables hurls hrows htimes release
  rw [List.mem_map] at hdated ⊢
  constructor
  · rintro ⟨link, hmem, rfl⟩
    obtain ⟨hlink, hfound⟩ := List.mem_filter.mp hmem
    obtain ⟨hlinked, hsome⟩ := hdated.mp ⟨link, hlink, rfl⟩
    exact ⟨hlinked, hsome, gid_of_is_some.mp hfound⟩
  · rintro ⟨hlinked, hsome, hgid⟩
    obtain ⟨link, hlink, rfl⟩ := hdated.mpr ⟨hlinked, hsome⟩
    exact ⟨link, List.mem_filter.mpr ⟨hlink, gid_of_is_some.mpr hgid⟩, rfl⟩

/-- The event of a kept release. -/
theorem kept_event {link : Int × Int × Int} (hkept : link ∈ tables.kept) :
    tables.Event link.2.1
      (slotBytes (gidOf tables.releases link.2.1), link.2.2, tables.bound link.1) := by
  obtain ⟨hdated, hfound⟩ := List.mem_filter.mp hkept
  obtain ⟨hlink, hsome⟩ := List.mem_filter.mp hdated
  obtain ⟨gid, hgid⟩ := Option.isSome_iff_exists.mp hfound
  obtain ⟨row, -, hlinks, hlowest⟩ := earliest_links hurls hrows hlink
  refine ⟨⟨gid, gid_of_mem hgid, by rw [hgid]; rfl⟩, ⟨row, hlinks, hlowest⟩, ?_⟩
  exact earliest_bound hurls hrows htimes hlink (of_decide_eq_true hsome)

/-- The plan of the tables is proxy 2. -/
theorem plan_is_proxy_two : tables.ProxyTwo tables.plan := by
  have hearliest : (tables.earliest.map (·.2.1)).Pairwise (· < ·) :=
    List.pairwise_map.mpr Tables.earliest_sorted
  have hkept : (tables.kept.map (·.2.1)).Pairwise (· < ·) :=
    Tables.dated_sorted.sublist (List.filter_sublist.map _)
  have hmissing : tables.dated.length - tables.kept.length =
      (tables.dated.filter fun link => ¬(gidOf tables.releases link.2.1).isSome).length := by
    have hsplit := tables.dated.length_eq_countP_add_countP fun link =>
      (gidOf tables.releases link.2.1).isSome
    rw [List.countP_eq_length_filter, List.countP_eq_length_filter] at hsplit
    exact Nat.sub_eq_of_eq_add' hsplit
  have hdated : tables.earliest.length =
      (tables.earliest.filter fun link => tables.bound link.1 = noTime).length +
        tables.dated.length := by
    rw [tables.earliest.length_eq_countP_add_countP fun link => tables.bound link.1 = noTime,
      Tables.dated, ← List.countP_eq_length_filter, ← List.countP_eq_length_filter]
    simp only [decide_eq_true_eq, ne_eq]
  exact
    { events := by
        refine ⟨tables.kept.map (·.2.1), hkept, fun release => mem_planned hurls hrows htimes, ?_⟩
        rw [Tables.plan, events_of_columns fun link => length_slot _, List.forall₂_map_left_iff,
          List.forall₂_map_right_iff, List.forall₂_same]
        exact fun link hlink => kept_event hurls hrows htimes hlink
      releaseUrlRows := encard_of_nodup (List.Nodup.of_map _ hrows) fun row => Iff.rfl
      discogsReleaseLinks := links_card hurls hrows
      releasesLinked := by
        rw [encard_of_nodup (hearliest.imp ne_of_lt) fun release => mem_linked hurls hrows,
          List.length_map]
        rfl
      undated := by
        rw [encard_of_nodup ((hearliest.sublist (List.filter_sublist.map _)).imp ne_of_lt)
          fun release => mem_undated hurls hrows htimes, List.length_map]
        rfl
      missingReleaseRow := by
        rw [encard_of_nodup ((Tables.dated_sorted.sublist (List.filter_sublist.map _)).imp ne_of_lt)
          fun release => mem_missing hurls hrows htimes, List.length_map, ← hmissing]
        rfl
      planned := by
        rw [encard_of_nodup (hkept.imp ne_of_lt) fun release => mem_planned hurls hrows htimes,
          List.length_map]
        rfl
      total := by
        have hle : tables.kept.length ≤ tables.dated.length := List.filter_sublist.length_le
        show tables.earliest.length =
          (tables.earliest.filter fun link => tables.bound link.1 = noTime).length +
            (tables.dated.length - tables.kept.length) + tables.kept.length
        rw [hdated]
        omega }

end Plan

/-! ## Any order -/

section Reordered

variable {tables tables' : Tables} (h : tables.Reordered tables')
  (hurls : (tables.urls.map (·.1)).Nodup) (hrows : (tables.rows.map (·.id)).Nodup)
  (hreleases : (tables.releases.map (·.1)).Nodup)

include h

theorem candidate_reordered (hurls : (tables.urls.map (·.1)).Nodup) :
    tables.candidate = tables'.candidate := by
  funext row
  have hlink : row.link ∈ tables.discogsLinks ↔ row.link ∈ tables'.discogsLinks := by
    simp only [mem_discogs_links, h.linkTypes.mem_iff, h.links.mem_iff]
  have hurl : tables.discogsId row.url = tables'.discogsId row.url := by
    refine congrArg (Option.map _) (find_eq_of_perm h.urls fun a ha b hb hkey hkey' => ?_)
    exact List.inj_on_of_nodup_map hurls ha hb
      ((of_decide_eq_true hkey).trans (of_decide_eq_true hkey').symm)
  rw [Tables.candidate, Tables.candidate, hurl]
  exact if_congr hlink rfl rfl

theorem bound_reordered : tables.bound = tables'.bound :=
  creation_perm (h.rows.map _)

theorem gid_reordered (hreleases : (tables.releases.map (·.1)).Nodup) :
    gidOf tables.releases = gidOf tables'.releases := by
  funext release
  refine congrArg (Option.map _) (find_eq_of_perm h.releases fun a ha b hb hkey hkey' => ?_)
  exact List.inj_on_of_nodup_map hreleases ha hb
    ((of_decide_eq_true hkey).trans (of_decide_eq_true hkey').symm)

include hurls hrows hreleases

/-- The plan does not depend on the order of the rows. -/
theorem plan_reordered : tables.plan = tables'.plan := by
  have hcandidates : tables.candidates = tables'.candidates := by
    refine (sort_by_eq_of_perm ((h.rows.filterMap _).trans ?_) fun a ha b hb => ?_)
    · rw [candidate_reordered h hurls]
    · exact List.inj_on_of_nodup_map (candidates_nodup hrows) ha hb
  simp only [Tables.plan, Tables.kept, Tables.dated, Tables.earliest, hcandidates,
    bound_reordered h, gid_reordered h hreleases, h.rows.length_eq]

end Reordered

variable {builtins : Builtins} {lines : String → List Bytes}

/-- The plan of an export whose tables have distinct ids is proxy 2, whatever the order of its
members and of the rows of each. -/
theorem backfill_is_proxy_two (hdecodes : builtins.Decodes) (hread : Readable builtins lines)
    (htypes : (Tables.of builtins lines).linkTypes ≠ [])
    (hurls : ((Tables.of builtins lines).urls.map (·.1)).Nodup)
    (hrows : ((Tables.of builtins lines).rows.map (·.id)).Nodup)
    (hreleases : ((Tables.of builtins lines).releases.map (·.1)).Nodup) :
    ∃ plan, (Tables.of builtins lines).ProxyTwo plan ∧
      ∀ order lines', order.Perm tableNames → (∀ table, (lines' table).Perm (lines table)) →
        ∃ reader, ExportReader.empty.readMembers builtins lines' order = .ok reader ∧
          reader.finalize = .ok plan := by
  have htimes (row : ReleaseUrl) (hrow : row ∈ (Tables.of builtins lines).rows) :
      row.updated < noTime := (updated_lt hrow).trans (by decide)
  refine ⟨(Tables.of builtins lines).plan, plan_is_proxy_two hurls hrows htimes,
    fun order lines' horder hlines => ?_⟩
  have hreordered : (Tables.of builtins lines').Reordered (Tables.of builtins lines) :=
    tables_of_perm hlines
  have htypes' : (Tables.of builtins lines').linkTypes ≠ [] := fun hnil =>
    htypes (List.nil_perm.mp (hnil ▸ hreordered.linkTypes))
  have hurls' := (hreordered.urls.map (·.1)).nodup_iff.mpr hurls
  have hrows' := (hreordered.rows.map (·.id)).nodup_iff.mpr hrows
  have hreleases' := (hreordered.releases.map (·.1)).nodup_iff.mpr hreleases
  refine ⟨_, read_members_eq hdecodes (hread.of_perm hlines) horder, ?_⟩
  rw [← plan_reordered hreordered hurls' hrows' hreleases']
  exact finalize_eq (fun table => horder.mem_iff.mpr) htypes' hurls' hrows' hreleases'

/-! ## An export of five rows -/

/-- Conversions that know the MBIDs and the timestamps of the lines. -/
def dumpBuiltins : Builtins where
  decode := fun raw =>
    if Utf8.encode (Utf8.decode raw) = raw then some (String.ofList (Utf8.decode raw)) else none
  decodeAscii := fun raw =>
    if raw.all (· < 128) then some (String.ofList (Utf8.decode raw)) else none
  int := fun raw =>
    let text := String.ofList (Utf8.decode raw)
    if Text.isDigit text then some (Text.toInt text : Int) else none
  intText := fun text => if Text.isDigit text then some (Text.toInt text : Int) else none
  uuid := fun text =>
    if text = "11111111-1111-1111-1111-111111111111" then
      some ⟨List.replicate 16 0x11, List.length_replicate⟩
    else if text = "33333333-3333-3333-3333-333333333333" then
      some ⟨List.replicate 16 0x33, List.length_replicate⟩
    else none
  timestamp := fun text =>
    let moment : Int :=
      if text = "2020-01-01 00:00:00+00" then 1577836800
      else if text = "2021-01-01 00:00:00+00" then 1609459200
      else if text = "2022-01-01 00:00:00+00" then 1640995200
      else if text = "2024-01-01 00:00:00+00" then 1704067200
      else 2 ^ 38
    if h : -2 ^ 38 ≤ moment ∧ moment < 2 ^ 38 then some ⟨moment, h⟩ else none

/-- Release 100 has two links, the first one edited; release 300 has no timestamp from its link on,
and release 400 is not in the release table. -/
def dumpLines (table : String) : List Bytes :=
  (if table = "link_type" then
    ["7\t\\N\t0\tg\trelease\turl\tdiscogs\n", "8\t\\N\t0\tg\trelease\turl\tpurchase\n"]
  else if table = "link" then ["1\t7\t\\N\n", "2\t8\t\\N\n"]
  else if table = "url" then
    ["13\tg\thttps://www.discogs.com/release/503\t0\n",
      "10\tg\thttps://www.discogs.com/release/500\t0\n", "12\tg\thttps://example.org/\t0\n"]
  else if table = "l_release_url" then
    ["7\t1\t100\t13\t0\t2022-01-01 00:00:00+00\t0\n",
      "5\t1\t100\t10\t0\t2024-01-01 00:00:00+00\t0\n",
      "6\t2\t200\t12\t0\t2021-01-01 00:00:00+00\t0\n",
      "8\t1\t300\t13\t0\t\\N\t0\n",
      "4\t1\t400\t10\t0\t2020-01-01 00:00:00+00\t0\n"]
  else if table = "release" then
    ["300\t33333333-3333-3333-3333-333333333333\tname\n",
      "100\t11111111-1111-1111-1111-111111111111\tname\n"]
  else []).map utf8

/-- Its tables. -/
def dumpTables : Tables where
  linkTypes := [7]
  links := [(1, 7), (2, 8)]
  urls := [(13, 503), (10, 500)]
  rows := [⟨7, 1, 100, 13, 1640995200⟩, ⟨5, 1, 100, 10, 1704067200⟩, ⟨6, 2, 200, 12, 1609459200⟩,
    ⟨8, 1, 300, 13, 0⟩, ⟨4, 1, 400, 10, 1577836800⟩]
  releases := [(300, ⟨List.replicate 16 0x33, List.length_replicate⟩),
    (100, ⟨List.replicate 16 0x11, List.length_replicate⟩)]

/-- Its plan: release 100 linked to 500 when the purchase link after its first row was added. -/
def dumpPlan : BackfillPlan where
  mbids := List.replicate 16 0x11
  discogsIds := [500]
  eventAt := [1609459200]
  counts :=
    { releaseUrlRows := 5, discogsReleaseLinks := 4, releasesLinked := 3, undated := 1,
      missingReleaseRow := 1, events := 1 }

theorem dump_decodes : dumpBuiltins.Decodes := by
  intro raw text hdecode
  rw [dumpBuiltins, Option.ite_none_right_eq_some] at hdecode
  obtain ⟨hraw, htext⟩ := hdecode
  rw [← Option.some.inj htext, utf8, String.toList_ofList]
  exact hraw.symm

theorem dump_readable : Readable dumpBuiltins dumpLines := by
  have hall : (tableNames.all fun table => (dumpLines table).all fun raw =>
      (ExportReader.empty.readLine dumpBuiltins table raw).toOption.isSome) = true := by
    decide +kernel
  intro table htable raw hraw
  have hline := List.all_eq_true.mp (List.all_eq_true.mp hall table htable) raw hraw
  cases hread : ExportReader.empty.readLine dumpBuiltins table raw with
  | ok reader => exact ⟨reader, rfl⟩
  | error failure =>
      rw [hread] at hline
      cases hline

theorem dump_tables : Tables.of dumpBuiltins dumpLines = dumpTables := by decide +kernel

theorem dump_is_proxy_two : (Tables.of dumpBuiltins dumpLines).ProxyTwo dumpPlan := by
  obtain ⟨plan, hplan, hrun⟩ := backfill_is_proxy_two dump_decodes dump_readable
    (by rw [dump_tables]; decide) (by rw [dump_tables]; decide) (by rw [dump_tables]; decide)
    (by rw [dump_tables]; decide)
  obtain ⟨reader, hreader, hfinalize⟩ := hrun tableNames dumpLines (List.Perm.refl _)
    fun _ => List.Perm.refl _
  have hread : reader = dumpTables.reader tableNames := by
    rw [read_members_eq dump_decodes dump_readable (List.Perm.refl _), dump_tables] at hreader
    exact (Except.ok.inj hreader).symm
  have hdump : (dumpTables.reader tableNames).finalize.toOption = some dumpPlan := by
    decide +kernel
  rw [← hread, hfinalize] at hdump
  rw [← Option.some.inj hdump]
  exact hplan

end CatalogApi.LedgerBackfill
