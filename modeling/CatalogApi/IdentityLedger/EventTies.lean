import CatalogApi.IdentityLedger.Ties
import Mathlib.Algebra.Order.BigOperators.Group.List

/-!
# Where the order of the rows shows in the events

Of an item's later aliases only the first MusicBrainz one is reported as a link at ingest, so the
events depend on the order of the rows exactly where that one is not decided (`LinkSettled`):
`count_later_links` says what the events of an item are, up to their order.
-/

namespace CatalogApi.IdentityLedger

open CatalogMerge ByKey

variable {rows rows' : LedgerRows}

/-- The same events up to the order of those with equal time and type. -/
structure SameEvents (events events' : List (Event × String)) : Prop where
  keys : events.map (fun event => eventOrder event.1) = events'.map fun event => eventOrder event.1
  perm : events.Perm events'

/-- The visible events decide the event plane. -/
theorem same_events_iff {group group' : List Nat} {asOf : Option Instant} {kind : String} :
    SameEvents (rows.events group asOf kind) (rows'.events group' asOf kind) ↔
      ∀ event, visible event.instant asOf →
        (rows.allEvents group kind).count event = (rows'.allEvents group' kind).count event := by
  constructor
  · rintro ⟨-, hperm⟩ event hvisible
    have hfirst := hperm.map Prod.fst
    simp only [LedgerRows.events, List.map_map, Function.comp_def, List.map_id'] at hfirst
    have hcount := (((sort_by_perm eventOrder _).symm.trans hfirst).trans
      (sort_by_perm eventOrder _)).count_eq event
    rwa [List.count_filter (by simpa using hvisible), List.count_filter (by simpa using hvisible)]
      at hcount
  · intro hcount
    have hperm : ((rows.allEvents group kind).filter fun event => visible event.instant asOf).Perm
        ((rows'.allEvents group' kind).filter fun event => visible event.instant asOf) := by
      refine List.perm_iff_count.mpr fun event => ?_
      by_cases hvisible : visible event.instant asOf
      · rw [List.count_filter (by simpa using hvisible), List.count_filter (by simpa using hvisible)]
        exact hcount event hvisible
      · rw [List.count_eq_zero_of_not_mem, List.count_eq_zero_of_not_mem]
        · simp [hvisible]
        · simp [hvisible]
    constructor
    · rw [LedgerRows.events, LedgerRows.events, List.map_map, List.map_map]
      exact keys_of_perm hperm
    · exact (((sort_by_perm eventOrder _).trans hperm).trans (sort_by_perm eventOrder _).symm).map _

/-! ## Later aliases -/

/-- The event of a later alias that is evidence. -/
def attached (entry : Alias) : Event :=
  .recorded entry.validFrom (.evidenceAttached entry.provider entry.source)

/-- The event of a later alias that is a link at ingest. -/
def linkedAt (item : Nat) (entry : Alias) : Event :=
  .recorded entry.validFrom (.linkedAtIngest item)

/-- The later alias that is reported as a link at ingest. -/
def firstLink (discogsAt : Option Instant) (later : List Alias) : Option Alias :=
  if discogsAt = none then none else later.find? fun entry => entry.provider = "musicbrainz"

theorem later_events_linked (item : Nat) (discogsAt : Option Instant) (later : List Alias) :
    laterEvents item discogsAt true later = later.map attached := by
  induction later with
  | nil => rfl
  | cons entry later ih =>
      rw [laterEvents, if_neg fun h => Bool.noConfusion h.2.2, ih]
      rfl

theorem later_events_unlinked (item : Nat) (later : List Alias) :
    laterEvents item none false later = later.map attached := by
  induction later with
  | nil => rfl
  | cons entry later ih =>
      rw [laterEvents, if_neg fun h => h.2.1 rfl, ih]
      rfl

/-- The events of the later aliases: each is evidence, but for the first link. -/
theorem count_later_links (item : Nat) (discogsAt : Option Instant) (later : List Alias)
    (event : Event) :
    (laterEvents item discogsAt false later).count event +
        ((firstLink discogsAt later).map attached).toList.count event =
      ((firstLink discogsAt later).map (linkedAt item)).toList.count event +
        (later.map attached).count event := by
  cases discogsAt with
  | none =>
      rw [later_events_unlinked]
      exact Nat.add_comm _ _
  | some instant =>
      induction later with
      | nil => rfl
      | cons entry later ih =>
          by_cases hprovider : entry.provider = "musicbrainz"
          · have hfirst : firstLink (some instant) (entry :: later) = some entry := by
              simp [firstLink, hprovider]
            rw [laterEvents, if_pos ⟨hprovider, nofun, rfl⟩, later_events_linked, hfirst]
            change List.count event (linkedAt item entry :: later.map attached) +
              [attached entry].count event = [linkedAt item entry].count event +
                (attached entry :: later.map attached).count event
            simp only [List.count_cons, List.count_nil]
            omega
          · have hfirst : firstLink (some instant) (entry :: later) =
                firstLink (some instant) later := by
              simp [firstLink, hprovider]
            rw [laterEvents, if_neg fun h => hprovider h.1, hfirst]
            change List.count event (attached entry :: laterEvents item (some instant) false later) +
              _ = _ + (attached entry :: later.map attached).count event
            rw [List.count_cons, List.count_cons]
            omega

/-! ## The first link -/

/-- A later MusicBrainz alias that none of the others comes before. -/
def IsFirstLink (rows : LedgerRows) (item : Nat) (mint : Instant) (entry : Alias) : Prop :=
  entry ∈ rows.laterAliases item mint ∧ entry.provider = "musicbrainz" ∧
    ∀ other ∈ rows.laterAliases item mint, other.provider = "musicbrainz" →
      aliasOrder entry ≤ aliasOrder other

/-- The visible first links of an item with a Discogs alias have one source. -/
def LinkSettled (rows : LedgerRows) (asOf : Option Instant) (item : Nat) : Prop :=
  (∃ entry ∈ rows.byItem item, entry.provider = "discogs") → ∀ mint ∈ rows.mint item,
    ∀ a b, IsFirstLink rows item mint a → IsFirstLink rows item mint b →
      visible a.validFrom asOf → a.source = b.source

/-- The instant an item's first Discogs alias opened. -/
def discogsAt (rows : LedgerRows) (item : Nat) : Option Instant :=
  (((rows.byItem item).filter fun entry => entry.provider = "discogs").map (·.validFrom)).min?

theorem IsFirstLink.order_eq {item : Nat} {mint : Instant} {a b : Alias}
    (ha : IsFirstLink rows item mint a) (hb : IsFirstLink rows item mint b) :
    aliasOrder a = aliasOrder b :=
  le_antisymm (ha.2.2 b hb.1 hb.2.1) (hb.2.2 a ha.1 ha.2.1)

/-- The events of an item with a mint. -/
theorem item_events_eq {item : Nat} {mint : Instant} (hmint : rows.mint item = some mint) :
    rows.itemEvents item =
      .recorded mint (.minted item
        (sortedSet (((rows.byItem item).filter fun entry => entry.validFrom = mint).map
          (·.provider)))) ::
        (laterEvents item (discogsAt rows item) false (rows.laterAliases item mint) ++
          rows.closeEvents item) := by
  rw [LedgerRows.itemEvents, hmint]
  rfl

theorem discogs_at_none {item : Nat} :
    discogsAt rows item = none ↔ ¬∃ entry ∈ rows.byItem item, entry.provider = "discogs" := by
  rw [discogsAt, List.min?_eq_none_iff, List.map_eq_nil_iff, List.filter_eq_nil_iff]
  simp

/-- The alias reported as a link at ingest is a first link. -/
theorem is_first_link {item : Nat} {mint : Instant} {discogsAt : Option Instant} {entry : Alias}
    (h : firstLink discogsAt (rows.laterAliases item mint) = some entry) :
    IsFirstLink rows item mint entry := by
  rw [firstLink] at h
  split at h
  · cases h
  · obtain ⟨hprovider, first, last, hsplit, hfirst⟩ := List.find?_eq_some_iff_append.mp h
    rw [decide_eq_true_eq] at hprovider
    refine ⟨hsplit ▸ List.mem_append_right _ List.mem_cons_self, hprovider, ?_⟩
    intro other hother hmusicbrainz
    have hsorted : (rows.laterAliases item mint).Pairwise fun a b => aliasOrder a ≤ aliasOrder b :=
      sort_by_sorted aliasOrder _
    rw [hsplit] at hother hsorted
    rw [List.pairwise_append, List.pairwise_cons] at hsorted
    rcases List.mem_append.mp hother with hother | hother
    · have hnot := hfirst other hother
      simp [hmusicbrainz] at hnot
    · rcases List.mem_cons.mp hother with rfl | hother
      · exact le_rfl
      · exact hsorted.2.1.1 other hother

theorem first_link_none {item : Nat} {mint : Instant} {discogsAt : Option Instant}
    (h : firstLink discogsAt (rows.laterAliases item mint) = none) (hat : discogsAt ≠ none)
    {entry : Alias} (hentry : entry ∈ rows.laterAliases item mint) :
    entry.provider ≠ "musicbrainz" := by
  rw [firstLink, if_neg hat, List.find?_eq_none] at h
  simpa using h entry hentry

namespace Reordered

variable (h : Reordered rows rows')
include h

theorem later_aliases (item : Nat) (mint : Instant) :
    (rows.laterAliases item mint).Perm (rows'.laterAliases item mint) := by
  have hfilter : ((rows'.byItem item).filter fun entry =>
        mint < entry.validFrom ∧ ¬rows'.openedBySupersession entry) =
      (rows'.byItem item).filter fun entry =>
        mint < entry.validFrom ∧ ¬rows.openedBySupersession entry := by
    refine List.filter_congr fun entry _ => ?_
    rw [decide_eq_decide, h.opened_by_supersession]
  refine (sort_by_perm aliasOrder _).trans (List.Perm.trans ?_ (sort_by_perm aliasOrder _).symm)
  rw [hfilter]
  exact (h.by_item item).filter _

theorem close_events (item : Nat) : (rows.closeEvents item).Perm (rows'.closeEvents item) := by
  have hclose : rows'.closeEvents item = (rows'.byItem item).filterMap fun entry =>
      if rows.closedBySupersession entry then none
      else entry.validTo.map fun t => Event.recorded t (.aliasClosed entry.provider) := by
    simp only [LedgerRows.closeEvents, h.closed_by_supersession]
  rw [hclose]
  exact (h.by_item item).filterMap _

theorem discogs_at (item : Nat) : discogsAt rows item = discogsAt rows' item :=
  min_of_perm (((h.by_item item).filter _).map _)

theorem is_first_link_iff {item : Nat} {mint : Instant} {entry : Alias} :
    IsFirstLink rows item mint entry ↔ IsFirstLink rows' item mint entry := by
  simp only [IsFirstLink, (h.later_aliases item mint).mem_iff]

/-- Up to the first links, the events of an item are the same. -/
theorem count_item_events {item : Nat} {mint : Instant} (hmint : rows.mint item = some mint)
    (event : Event) :
    (rows.itemEvents item).count event +
        (((firstLink (discogsAt rows item) (rows.laterAliases item mint)).map
            attached).toList.count event +
          ((firstLink (discogsAt rows item) (rows'.laterAliases item mint)).map
            (linkedAt item)).toList.count event) =
      (rows'.itemEvents item).count event +
        (((firstLink (discogsAt rows item) (rows'.laterAliases item mint)).map
            attached).toList.count event +
          ((firstLink (discogsAt rows item) (rows.laterAliases item mint)).map
            (linkedAt item)).toList.count event) := by
  have hproviders : sortedSet (((rows.byItem item).filter fun entry =>
        entry.validFrom = mint).map (·.provider)) =
      sortedSet (((rows'.byItem item).filter fun entry => entry.validFrom = mint).map
        (·.provider)) :=
    sorted_set_congr fun _ => (((h.by_item item).filter _).map _).mem_iff
  have hclose := (h.close_events item).count_eq event
  have hattached := ((h.later_aliases item mint).map attached).count_eq event
  have hlater := count_later_links item (discogsAt rows item) (rows.laterAliases item mint) event
  have hlater' := count_later_links item (discogsAt rows item) (rows'.laterAliases item mint) event
  rw [item_events_eq hmint, item_events_eq (h.mint item ▸ hmint), ← h.discogs_at, ← hproviders]
  simp only [List.count_cons, List.count_append]
  omega

theorem item_events_none {item : Nat} (hmint : rows.mint item = none) :
    rows.itemEvents item = rows'.itemEvents item := by
  rw [LedgerRows.itemEvents, LedgerRows.itemEvents, ← h.mint, hmint]

/-- The visible events of an item with a settled link are the same. -/
theorem item_events {item : Nat} {asOf : Option Instant} (hsettled : LinkSettled rows asOf item)
    {event : Event} (hvisible : visible event.instant asOf) :
    (rows.itemEvents item).count event = (rows'.itemEvents item).count event := by
  cases hmint : rows.mint item with
  | none => rw [h.item_events_none hmint]
  | some mint =>
      have hcount := h.count_item_events hmint event
      cases hfirst : firstLink (discogsAt rows item) (rows.laterAliases item mint) with
      | none =>
          have hfirst' : firstLink (discogsAt rows item) (rows'.laterAliases item mint) = none := by
            by_cases hat : discogsAt rows item = none
            · rw [firstLink, if_pos hat]
            · rw [firstLink, if_neg hat, List.find?_eq_none]
              intro entry hentry
              simpa using first_link_none hfirst hat ((h.later_aliases item mint).mem_iff.mpr hentry)
          rw [hfirst, hfirst'] at hcount
          exact Nat.add_right_cancel hcount
      | some a =>
          have hat : discogsAt rows item ≠ none := by
            intro hat
            rw [firstLink, if_pos hat] at hfirst
            cases hfirst
          have ha := is_first_link hfirst
          cases hfirst' : firstLink (discogsAt rows item) (rows'.laterAliases item mint) with
          | none =>
              exact absurd ha.2.1
                (first_link_none hfirst' hat ((h.later_aliases item mint).mem_iff.mp ha.1))
          | some b =>
              have hb := h.is_first_link_iff.mpr (is_first_link hfirst')
              obtain ⟨hfrom, hprovider, -⟩ := alias_order_eq (ha.order_eq hb)
              have hlinked : linkedAt item a = linkedAt item b := by
                rw [linkedAt, linkedAt, hfrom]
              have hattached : [attached a].count event = [attached b].count event := by
                by_cases hseen : visible a.validFrom asOf
                · have hdiscogs := not_not.mp fun hnot => hat (discogs_at_none.mpr hnot)
                  have hsource := hsettled hdiscogs mint hmint a b ha hb hseen
                  rw [attached, attached, hfrom, hprovider, hsource]
                · rw [List.count_eq_zero_of_not_mem, List.count_eq_zero_of_not_mem]
                  · rintro hmem
                    rw [List.mem_singleton.mp hmem] at hvisible
                    exact hseen (hfrom ▸ hvisible)
                  · rintro hmem
                    rw [List.mem_singleton.mp hmem] at hvisible
                    exact hseen hvisible
              rw [hfirst, hfirst'] at hcount
              change _ + ([attached a].count event + [linkedAt item b].count event) =
                _ + ([attached b].count event + [linkedAt item a].count event) at hcount
              rw [hlinked, hattached] at hcount
              exact Nat.add_right_cancel hcount

/-- The events of the supersessions and of the link changes are the same. -/
theorem other_events (group : List Nat) (kind : String) :
    ((rows.supersessions.filter fun row => touches group row).flatMap rows.supersessionEvents ++
        rows.linkEventsOf group kind).Perm
      ((rows'.supersessions.filter fun row => touches group row).flatMap rows'.supersessionEvents ++
        rows'.linkEventsOf group kind) := by
  have hevents : rows'.supersessionEvents = rows.supersessionEvents := by
    funext row
    rw [LedgerRows.supersessionEvents, LedgerRows.supersessionEvents, LedgerRows.movesOf,
      LedgerRows.movesOf, h.moveCounts]
  refine List.Perm.append ?_ ?_
  · rw [hevents]
    exact (h.supersessions.filter _).flatMap_right _
  · refine List.Perm.map _ ?_
    have hids : ∀ externalId : String,
        externalId ∈ (group.flatMap fun member => (rows.byItem member).filterMap fun entry =>
          if entry.provider = "musicbrainz" ∧ entry.entityKind = kind then some entry.externalId
          else none) ↔
        externalId ∈ group.flatMap fun member => (rows'.byItem member).filterMap fun entry =>
          if entry.provider = "musicbrainz" ∧ entry.entityKind = kind then some entry.externalId
          else none := by
      intro externalId
      simp only [List.mem_flatMap, List.mem_filterMap, (h.by_item _).mem_iff]
    simp only [hids]
    exact h.linkEvents.filter _

theorem count_all_events (group : List Nat) (kind : String) (event : Event) :
    (rows.allEvents group kind).count event + ((group.flatMap rows'.itemEvents).count event) =
      (rows'.allEvents group kind).count event + (group.flatMap rows.itemEvents).count event := by
  have hother := (h.other_events group kind).count_eq event
  rw [LedgerRows.allEvents, LedgerRows.allEvents]
  simp only [List.count_append] at hother ⊢
  omega

theorem events {group : List Nat} {asOf : Option Instant} (kind : String)
    (hsettled : ∀ item ∈ group, LinkSettled rows asOf item) :
    SameEvents (rows.events group asOf kind) (rows'.events group asOf kind) := by
  refine same_events_iff.mpr fun event hvisible => ?_
  have hitems : (group.flatMap rows.itemEvents).count event =
      (group.flatMap rows'.itemEvents).count event := by
    rw [List.count_flatMap, List.count_flatMap]
    refine congrArg _ (List.map_congr_left fun item hitem => ?_)
    exact h.item_events (hsettled item hitem) hvisible
  have hcount := h.count_all_events group kind event
  rw [hitems] at hcount
  exact Nat.add_right_cancel hcount

end Reordered

/-! ## An unsettled link shows -/

theorem later_alias_item {item : Nat} {mint : Instant} {entry : Alias}
    (h : entry ∈ rows.laterAliases item mint) : entry ∈ rows.aliases ∧ entry.nativeId = item :=
  mem_by_item.mp (List.mem_of_mem_filter (mem_sort_by.mp h))

/-- With a first link first, it is the one reported as a link at ingest. -/
theorem first_link_first {item : Nat} {mint : Instant} {discogsAt : Option Instant} {entry : Alias}
    (h : IsFirstLink rows item mint entry) (hat : discogsAt ≠ none) :
    firstLink discogsAt ((rows.aliasFirst entry).laterAliases item mint) = some entry := by
  obtain ⟨hentry, rfl⟩ := later_alias_item h.1
  obtain ⟨hlater, hprovider, hleast⟩ :=
    (alias_first_reordered hentry).is_first_link_iff.mp h
  have hmem := mem_sort_by.mp hlater
  have hkeep := (List.mem_filter.mp hmem).2
  rw [firstLink, if_neg hat, LedgerRows.laterAliases,
    find_sort_by_least hmem (by simpa using hprovider) fun other hother hmusicbrainz =>
      hleast other (mem_sort_by.mpr hother) (by simpa using hmusicbrainz),
    by_item_first, List.filter_cons_of_pos (by exact hkeep), List.find?_cons_of_pos]
  simp [hprovider]

/-- Another item's events stay as they were. -/
theorem item_events_other {entry : Alias} {item : Nat} (hne : entry.nativeId ≠ item) :
    (rows.aliasFirst entry).itemEvents item = rows.itemEvents item := by
  have hitem : (rows.aliasFirst entry).byItem item = rows.byItem item := by_item_other hne
  simp only [LedgerRows.itemEvents, LedgerRows.mint, LedgerRows.laterAliases,
    LedgerRows.closeEvents, hitem]
  rfl

/-- No evidence event is a link at ingest. -/
theorem count_linked_attached (item : Nat) (first : Option Alias) (entry : Alias) :
    (first.map (linkedAt item)).toList.count (attached entry) = 0 := by
  refine List.count_eq_zero_of_not_mem fun hmem => ?_
  obtain ⟨other, -, heq⟩ := Option.map_eq_some_iff.mp (Option.mem_toList.mp hmem)
  rw [linkedAt, attached, Event.recorded, Event.recorded] at heq
  simp at heq

/-- With a first link first, its evidence is reported once less. -/
theorem count_first_link {item : Nat} {mint : Instant} (hmint : rows.mint item = some mint)
    (hat : discogsAt rows item ≠ none) {first : Alias} (hfirst : IsFirstLink rows item mint first)
    (entry : Alias) :
    (rows.itemEvents item).count (attached entry) +
        ((firstLink (discogsAt rows item) (rows.laterAliases item mint)).map
          attached).toList.count (attached entry) =
      ((rows.aliasFirst first).itemEvents item).count (attached entry) +
        [attached first].count (attached entry) := by
  have hcount := (alias_first_reordered (later_alias_item hfirst.1).1).count_item_events hmint
    (attached entry)
  rw [count_linked_attached, count_linked_attached, first_link_first hfirst hat] at hcount
  exact hcount

/-- Events that are the same in every order settle the links of the group. -/
theorem link_settled_of_same {group : List Nat} {asOf : Option Instant} {kind : String}
    (hsame : ∀ rows', Reordered rows rows' →
      SameEvents (rows.events group asOf kind) (rows'.events group asOf kind))
    {item : Nat} (hitem : item ∈ group) : LinkSettled rows asOf item := by
  intro hdiscogs mint hmint a b ha hb hvisible
  have hat : discogsAt rows item ≠ none := fun hnone => discogs_at_none.mp hnone hdiscogs
  obtain ⟨hfrom, -, -⟩ := alias_order_eq (ha.order_eq hb)
  have horda := alias_first_reordered (later_alias_item ha.1).1
  have hordb := alias_first_reordered (later_alias_item hb.1).1
  have hseen : visible (attached a).instant asOf := hvisible
  have hcount : (group.flatMap (rows.aliasFirst a).itemEvents).count (attached a) =
      (group.flatMap (rows.aliasFirst b).itemEvents).count (attached a) := by
    have hcounta := horda.count_all_events group kind (attached a)
    have hcountb := hordb.count_all_events group kind (attached a)
    rw [same_events_iff.mp (hsame _ horda) _ hseen] at hcounta
    rw [same_events_iff.mp (hsame _ hordb) _ hseen] at hcountb
    omega
  by_contra hsource
  have hne : attached b ≠ attached a := by
    intro heq
    rw [attached, attached, Event.recorded, Event.recorded] at heq
    simp only [Event.mk.injEq, Detail.evidenceAttached.injEq] at heq
    exact hsource heq.2.1.2.symm
  have hless : ∀ member ∈ group,
      ((rows.aliasFirst a).itemEvents member).count (attached a) ≤
        ((rows.aliasFirst b).itemEvents member).count (attached a) ∧
      (member = item → ((rows.aliasFirst a).itemEvents member).count (attached a) <
        ((rows.aliasFirst b).itemEvents member).count (attached a)) := by
    intro member _
    by_cases hmember : item = member
    · subst hmember
      have hcounta := count_first_link hmint hat ha a
      have hcountb := count_first_link hmint hat hb a
      rw [List.count_singleton_self] at hcounta
      have hzero : [attached b].count (attached a) = 0 :=
        List.count_eq_zero_of_not_mem (by simpa using hne.symm)
      rw [hzero] at hcountb
      omega
    · have hothera : a.nativeId ≠ member := (later_alias_item ha.1).2 ▸ hmember
      have hotherb : b.nativeId ≠ member := (later_alias_item hb.1).2 ▸ hmember
      rw [item_events_other hothera, item_events_other hotherb]
      exact ⟨le_rfl, fun heq => absurd heq.symm hmember⟩
  rw [List.count_flatMap, List.count_flatMap] at hcount
  exact absurd hcount (ne_of_lt (List.sum_lt_sum _ _ (fun member hmember => (hless member hmember).1)
    ⟨item, hitem, (hless item hitem).2 rfl⟩))

end CatalogApi.IdentityLedger
