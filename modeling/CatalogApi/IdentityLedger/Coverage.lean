import CatalogApi.IdentityLedger.EventTies

/-!
# What covering the items of a work keeps

Rows `Covers` some items when they hold each item's aliases in the payload's order, and exactly the
supersessions on either side of which one is. Such rows give the same group, evidence, former items
and events as all rows do.
-/

namespace CatalogApi.IdentityLedger

open CatalogMerge ByKey

/-- Rows that hold what all rows say about these items. -/
structure Covers (items : List Nat) (rows all : LedgerRows) : Prop where
  own : ∀ item ∈ items, rows.byItem item = sortBy aliasOrder (all.byItem item)
  subset : ∀ entry ∈ rows.aliases, entry ∈ all.aliases
  supersessions : rows.supersessions =
    all.supersessions.filter fun row => row.supersededId ∈ items ∨ row.survivorId ∈ items
  moves : ∀ row ∈ rows.supersessions, rows.movesOf row.id = all.movesOf row.id

namespace Covers

variable {items : List Nat} {rows all : LedgerRows} (h : Covers items rows all)
include h

theorem by_item_perm {item : Nat} (hitem : item ∈ items) :
    (rows.byItem item).Perm (all.byItem item) := by
  rw [h.own item hitem]
  exact sort_by_perm aliasOrder _

theorem mint {item : Nat} (hitem : item ∈ items) : rows.mint item = all.mint item := by
  rw [LedgerRows.mint, LedgerRows.mint, min_of_perm ((h.by_item_perm hitem).map (·.validFrom))]

theorem mem_supersessions {row : Supersession} :
    row ∈ rows.supersessions ↔
      row ∈ all.supersessions ∧ (row.supersededId ∈ items ∨ row.survivorId ∈ items) := by
  rw [h.supersessions, List.mem_filter, decide_eq_true_eq]

theorem opened_instant {item : Nat} (hitem : item ∈ items) (instant : Instant) :
    rows.openedInstant item instant ↔ all.openedInstant item instant := by
  constructor
  · rintro ⟨row, hrow, hside⟩
    exact ⟨row, (h.mem_supersessions.mp hrow).1, hside⟩
  · rintro ⟨row, hrow, hside⟩
    refine ⟨row, h.mem_supersessions.mpr ⟨hrow, ?_⟩, hside⟩
    rcases hside with ⟨rfl, -⟩ | ⟨rfl, -⟩
    · exact Or.inr hitem
    · exact Or.inl hitem

theorem closed_instant {item : Nat} (hitem : item ∈ items) (instant : Instant) :
    rows.closedInstant item instant ↔ all.closedInstant item instant := by
  constructor
  · rintro ⟨row, hrow, hside⟩
    exact ⟨row, (h.mem_supersessions.mp hrow).1, hside⟩
  · rintro ⟨row, hrow, hside⟩
    refine ⟨row, h.mem_supersessions.mpr ⟨hrow, ?_⟩, hside⟩
    rcases hside with ⟨rfl, -⟩ | ⟨rfl, -⟩
    · exact Or.inl hitem
    · exact Or.inr hitem

theorem opened_by_supersession {entry : Alias} (hitem : entry.nativeId ∈ items) :
    rows.openedBySupersession entry ↔ all.openedBySupersession entry :=
  h.opened_instant hitem _

theorem closed_by_supersession {entry : Alias} (hitem : entry.nativeId ∈ items) :
    rows.closedBySupersession entry ↔ all.closedBySupersession entry := by
  simp only [LedgerRows.closedBySupersession, h.closed_instant hitem]

theorem group {item : Nat} (hitem : item ∈ items) : rows.group item = all.group item := by
  have hrows : (rows.supersessions.filter fun row => row.survivorId = item ∧ row.validTo = none) =
      all.supersessions.filter fun row => row.survivorId = item ∧ row.validTo = none := by
    rw [h.supersessions, List.filter_filter]
    refine List.filter_congr fun row _ => ?_
    by_cases hside : row.survivorId = item
    · simp [hside, hitem]
    · simp [hside]
  rw [LedgerRows.group, LedgerRows.group, hrows]

theorem held {item : Nat} (hitem : item ∈ items) (t : Option Instant) (kind provider : String) :
    rows.held item t kind provider ↔ all.held item t kind provider := by
  simp only [LedgerRows.held, (h.by_item_perm hitem).mem_iff]

theorem group_held {group : List Nat} (hgroup : ∀ item ∈ group, item ∈ items)
    (t : Option Instant) : rows.groupHeld group t ↔ all.groupHeld group t := by
  constructor
  · rintro ⟨member, hmember, entry, hentry, hprop⟩
    exact ⟨member, hmember, entry, (h.by_item_perm (hgroup member hmember)).mem_iff.mp hentry, hprop⟩
  · rintro ⟨member, hmember, entry, hentry, hprop⟩
    exact ⟨member, hmember, entry, (h.by_item_perm (hgroup member hmember)).mem_iff.mpr hentry,
      hprop⟩

theorem master_state {item : Nat} (hitem : item ∈ items) (asOf : Option Instant) :
    rows.state item [item] asOf "master" = all.state item [item] asOf "master" := by
  have hkind : ¬("master" = "release") := by decide
  have hgroup : ∀ member ∈ [item], member ∈ items := by simpa using hitem
  simp only [LedgerRows.state, h.held hitem, h.group_held hgroup, if_neg hkind]

/-! ## Evidence and former items -/

theorem evidence_row {entry : Alias} (hitem : entry.nativeId ∈ items) (asOf : Option Instant) :
    rows.evidenceRow asOf entry = all.evidenceRow asOf entry := by
  simp only [LedgerRows.evidenceRow, h.mint hitem, h.opened_by_supersession hitem,
    h.closed_by_supersession hitem]

theorem evidence {group : List Nat} (hgroup : ∀ item ∈ group, item ∈ items)
    (asOf : Option Instant) : rows.evidence group asOf = all.evidence group asOf := by
  rw [evidence_eq, evidence_eq]
  refine sort_by_congr fun k => ?_
  rw [List.filter_flatMap, List.filter_flatMap]
  refine List.flatMap_congr fun member hmember => ?_
  have hitem := hgroup member hmember
  have hrow : ((rows.byItem member).filter fun entry => visible entry.validFrom asOf).map
        (rows.evidenceRow asOf) =
      ((rows.byItem member).filter fun entry => visible entry.validFrom asOf).map
        (all.evidenceRow asOf) := by
    refine List.map_congr_left fun entry hentry => h.evidence_row ?_ asOf
    rw [(mem_by_item.mp (List.mem_of_mem_filter hentry)).2]
    exact hitem
  have hsort : (sortBy aliasOrder ((all.byItem member).filter fun entry =>
        visible entry.validFrom asOf)).map (all.evidenceRow asOf) =
      sortBy evidenceOrder (((all.byItem member).filter fun entry =>
        visible entry.validFrom asOf).map (all.evidenceRow asOf)) := by
    refine map_sort_by (fun entry => ?_) _
    rfl
  rw [hrow, h.own member hitem, filter_sort_by, hsort, filter_sort_by_class]

theorem former_items {edition : Nat} (hedition : edition ∈ items) (asOf : Option Instant) :
    rows.formerItems edition asOf = all.formerItems edition asOf := by
  have hrows : (rows.supersessions.filter fun row => Former rows edition asOf row) =
      all.supersessions.filter fun row => Former all edition asOf row := by
    rw [h.supersessions, List.filter_filter]
    refine List.filter_congr fun row _ => ?_
    rw [← Bool.decide_and, decide_eq_decide, Former, Former, h.group hedition]
    exact and_iff_left_of_imp fun hformer => Or.inr (hformer.1 ▸ hedition)
  rw [former_items_eq, former_items_eq, hrows]

theorem work_providers {work : Nat} (hwork : work ∈ items) (asOf : Option Instant) :
    rows.workProviders work asOf = all.workProviders work asOf := by
  rw [LedgerRows.workProviders, LedgerRows.workProviders, h.own work hwork, filter_sort_by,
    sort_sorted]

/-! ## Events -/

theorem later_aliases {item : Nat} (hitem : item ∈ items) (mint : Instant) :
    rows.laterAliases item mint = all.laterAliases item mint := by
  have hkept : ((rows.byItem item).filter fun entry =>
        mint < entry.validFrom ∧ ¬rows.openedBySupersession entry) =
      (rows.byItem item).filter fun entry =>
        mint < entry.validFrom ∧ ¬all.openedBySupersession entry := by
    refine List.filter_congr fun entry hentry => ?_
    rw [decide_eq_decide, h.opened_by_supersession ((mem_by_item.mp hentry).2 ▸ hitem)]
  rw [LedgerRows.laterAliases, LedgerRows.laterAliases, hkept, h.own item hitem, filter_sort_by,
    sort_sorted]

theorem close_events {item : Nat} (hitem : item ∈ items) :
    (rows.closeEvents item).Perm (all.closeEvents item) := by
  have hclose : rows.closeEvents item = (rows.byItem item).filterMap fun entry =>
      if all.closedBySupersession entry then none
      else entry.validTo.map fun t => Event.recorded t (.aliasClosed entry.provider) := by
    refine List.filterMap_congr fun entry hentry => ?_
    simp only [h.closed_by_supersession ((mem_by_item.mp hentry).2 ▸ hitem)]
  rw [hclose]
  exact (h.by_item_perm hitem).filterMap _

theorem item_events {item : Nat} (hitem : item ∈ items) :
    (rows.itemEvents item).Perm (all.itemEvents item) := by
  have hperm := h.by_item_perm hitem
  cases hmint : all.mint item with
  | none => rw [LedgerRows.itemEvents, LedgerRows.itemEvents, h.mint hitem, hmint]
  | some mint =>
      have hdiscogs : discogsAt rows item = discogsAt all item :=
        min_of_perm ((hperm.filter _).map _)
      have hproviders : sortedSet (((rows.byItem item).filter fun entry =>
            entry.validFrom = mint).map (·.provider)) =
          sortedSet (((all.byItem item).filter fun entry => entry.validFrom = mint).map
            (·.provider)) :=
        sorted_set_congr fun _ => ((hperm.filter _).map _).mem_iff
      rw [item_events_eq hmint, item_events_eq ((h.mint hitem).trans hmint), hdiscogs, hproviders,
        h.later_aliases hitem]
      exact ((h.close_events hitem).append_left _).cons _

theorem supersession_events {group : List Nat} (hgroup : ∀ item ∈ group, item ∈ items) :
    (rows.supersessions.filter fun row => touches group row).flatMap rows.supersessionEvents =
      (all.supersessions.filter fun row => touches group row).flatMap all.supersessionEvents := by
  have hrows : (rows.supersessions.filter fun row => touches group row) =
      all.supersessions.filter fun row => touches group row := by
    rw [h.supersessions, List.filter_filter]
    refine List.filter_congr fun row _ => ?_
    rw [← Bool.decide_and, decide_eq_decide]
    refine and_iff_left_of_imp fun htouches => ?_
    rcases htouches with hin | hin
    · exact Or.inr (hgroup _ hin)
    · exact Or.inl (hgroup _ hin)
  rw [← hrows]
  refine List.flatMap_congr fun row hrow => ?_
  rw [LedgerRows.supersessionEvents, LedgerRows.supersessionEvents,
    h.moves row (List.mem_of_mem_filter hrow)]

end Covers

end CatalogApi.IdentityLedger
