import CatalogApi.IdentityLedger.Coverage
import CatalogApi.IdentityLedger.Queries
import CatalogApi.IdentityLedger.RowOrder

/-!
# The selected rows against all rows

The rows `get_ledger_work` selects cover the items of the work and its shown editions
(`select_covers`), and give every plane that all rows give but one: a state at an instant also reads
who held a Discogs release then, and only current holders are selected.
-/

namespace CatalogApi.IdentityLedger

open CatalogMerge ByKey

/-! ## Lookups while keys are single -/

section Lookups

variable (rows : LedgerRows) (hvalid : SingleValid rows.aliases)
include hvalid

theorem current_alias_iff {key : AliasKey} {item : Nat} :
    rows.currentAlias key = some item ↔
      ∃ entry ∈ rows.aliases, entry.key = key ∧ entry.validTo = none ∧ entry.nativeId = item := by
  constructor
  · intro hcurrent
    obtain ⟨entry, hfound, rfl⟩ := Option.map_eq_some_iff.mp hcurrent
    have hprop := List.find?_some hfound
    rw [decide_eq_true_eq] at hprop
    exact ⟨entry, List.mem_reverse.mp (List.mem_of_find?_eq_some hfound), hprop.1, hprop.2, rfl⟩
  · rintro ⟨entry, hentry, hkey, hopen, rfl⟩
    rw [LedgerRows.currentAlias]
    cases hfound : rows.aliases.reverse.find? fun entry =>
      entry.key = key ∧ entry.validTo = none with
    | none =>
        have hnot := List.find?_eq_none.mp hfound entry (List.mem_reverse.mpr hentry)
        rw [decide_eq_true_eq] at hnot
        exact absurd ⟨hkey, hopen⟩ hnot
    | some other =>
        have hprop := List.find?_some hfound
        rw [decide_eq_true_eq] at hprop
        have hother := List.mem_reverse.mp (List.mem_of_find?_eq_some hfound)
        rw [hvalid.valid_unique none hother hentry (hprop.1.trans hkey.symm) hprop.2 hopen]
        rfl

theorem holder_iff {provider kind externalId : String} {t : Option Instant} {item : Nat} :
    rows.holder provider kind externalId t = some item ↔
      ∃ entry ∈ rows.aliases, entry.key = (provider, kind, externalId) ∧ valid entry t ∧
        entry.nativeId = item := by
  constructor
  · intro hholder
    obtain ⟨entry, hfound, rfl⟩ := Option.map_eq_some_iff.mp hholder
    obtain ⟨hentry, hkey⟩ := List.mem_filter.mp (List.mem_of_find?_eq_some hfound)
    have hprop := List.find?_some hfound
    rw [decide_eq_true_eq] at hprop hkey
    exact ⟨entry, hentry, hkey, hprop, rfl⟩
  · rintro ⟨entry, hentry, hkey, hval, rfl⟩
    have hmem : entry ∈ rows.byKey (provider, kind, externalId) :=
      List.mem_filter.mpr ⟨hentry, by simpa using hkey⟩
    rw [LedgerRows.holder]
    cases hfound : (rows.byKey (provider, kind, externalId)).find? fun entry => valid entry t with
    | none => exact absurd hval (by simpa using List.find?_eq_none.mp hfound entry hmem)
    | some other =>
        obtain ⟨hother, hkey'⟩ := List.mem_filter.mp (List.mem_of_find?_eq_some hfound)
        have hprop := List.find?_some hfound
        rw [decide_eq_true_eq] at hprop hkey'
        rw [hvalid.valid_unique t hother hentry (hkey'.trans hkey.symm) hprop hval]
        rfl

end Lookups

/-- An item that resolves to another is in its group. -/
theorem mem_group_of_resolve {rows : LedgerRows} {item edition : Nat}
    (h : rows.resolve item = edition) : item ∈ rows.group edition := by
  rw [LedgerRows.resolve, resolveItem, openTarget] at h
  cases hrow : openRow rows.supersessions item with
  | none =>
      rw [hrow] at h
      subst h
      exact List.mem_cons_self
  | some row =>
      rw [hrow] at h
      obtain ⟨hmem, hitem, hopen⟩ := open_row_some hrow
      refine List.mem_cons_of_mem _ (mem_sorted_set.mpr (List.mem_map.mpr ⟨row, ?_, hitem⟩))
      rw [List.mem_filter, decide_eq_true_eq]
      exact ⟨hmem, h, hopen⟩

/-! ## The selected rows cover the selected items -/

section Selection

variable (tables : LedgerTables) (work : Nat) (shown : List Nat)

theorem mem_select_items {ids : List Nat} {item : Nat} :
    item ∈ tables.selectItems ids ↔ ∃ id ∈ ids, item ∈ tables.allRows.group id := by
  simp [LedgerTables.selectItems, LedgerRows.group, LedgerTables.allRows]

/-- The items whose aliases are selected. -/
def fetchedItems : List Nat :=
  tables.selectItems (work :: shown) ++
    tables.selectHolders (tables.selectItems (work :: shown))

theorem mem_select_aliases {items : List Nat} {entry : Alias} :
    entry ∈ tables.selectAliases items ↔ entry ∈ tables.aliases ∧ entry.nativeId ∈ items := by
  rw [LedgerTables.selectAliases, mem_sort_by, List.mem_filter, decide_eq_true_eq]

theorem mem_selected_aliases {entry : Alias} :
    entry ∈ (tables.selectRows work shown).aliases ↔
      entry ∈ tables.aliases ∧ entry.nativeId ∈ fetchedItems tables work shown := by
  rw [fetchedItems, List.mem_append]
  change entry ∈ tables.selectAliases (tables.selectItems (work :: shown)) ++ _ ↔ _
  rw [List.mem_append, mem_select_aliases]
  split
  · rename_i hnone
    simp [hnone]
  · rw [mem_select_aliases, ← and_or_left]

theorem holder_not_item {item : Nat}
    (h : item ∈ tables.selectHolders (tables.selectItems (work :: shown))) :
    item ∉ tables.selectItems (work :: shown) := by
  have hmem := (List.mem_filter.mp (mem_sorted_set.mp h)).2
  rwa [decide_eq_true_eq] at hmem

theorem select_by_item (items : List Nat) {item : Nat} (hitem : item ∈ items) :
    (tables.selectAliases items).filter (fun entry => entry.nativeId = item) =
      sortBy aliasOrder (tables.allRows.byItem item) := by
  have hrows : ((tables.aliases.filter fun entry => entry.nativeId ∈ items).filter
      fun entry => entry.nativeId = item) = tables.allRows.byItem item := by
    rw [List.filter_filter]
    refine List.filter_congr fun entry _ => ?_
    rw [← Bool.decide_and, decide_eq_decide]
    exact and_iff_left_of_imp fun heq => heq ▸ hitem
  rw [LedgerTables.selectAliases, filter_sort_by, hrows]

/-- A count of moves does not depend on the other supersessions it is selected with. -/
theorem select_move_counts {ids : List Nat} {id : Nat} (table : MovedTable)
    (hid : ∀ move ∈ tables.moves, move.supersessionId = id → id ∈ ids) :
    tables.selectMoveCounts ids id table = tables.selectMoveCounts [id] id table := by
  have hcount : (tables.moves.countP fun move =>
        move.supersessionId ∈ ids ∧ move.supersessionId = id ∧ move.tableName = table) =
      tables.moves.countP fun move =>
        move.supersessionId ∈ [id] ∧ move.supersessionId = id ∧ move.tableName = table := by
    refine List.countP_congr fun move hmove => ?_
    rw [decide_eq_true_eq, decide_eq_true_eq]
    constructor
    · exact fun hsame => ⟨List.mem_singleton.mpr hsame.2.1, hsame.2⟩
    · exact fun hsame => ⟨hsame.2.1 ▸ hid move hmove hsame.2.1, hsame.2⟩
  rw [LedgerTables.selectMoveCounts, LedgerTables.selectMoveCounts, hcount]

/-- The selected rows cover the selected items. -/
theorem select_covers :
    Covers (tables.selectItems (work :: shown)) (tables.selectRows work shown) tables.allRows where
  own := by
    intro item hitem
    change (tables.selectAliases (tables.selectItems (work :: shown)) ++ _).filter _ = _
    rw [List.filter_append, select_by_item tables _ hitem]
    refine (congrArg _ (List.filter_eq_nil_iff.mpr fun entry hentry => ?_)).trans
      (List.append_nil _)
    split at hentry
    · cases hentry
    · have hholder := ((mem_select_aliases tables).mp hentry).2
      rw [decide_eq_true_eq]
      exact fun heq => holder_not_item tables work shown (heq ▸ hholder) hitem
  subset := fun entry hentry => ((mem_selected_aliases tables work shown).mp hentry).1
  supersessions := rfl
  moves := by
    intro row hrow
    refine List.filterMap_congr fun table _ => ?_
    have hids : row.id ∈ (tables.selectRows work shown).supersessions.map (·.id) :=
      List.mem_map.mpr ⟨row, hrow, rfl⟩
    have hselected : (tables.selectRows work shown).moveCounts row.id table =
        tables.selectMoveCounts [row.id] row.id table :=
      select_move_counts tables table fun _ _ _ => hids
    have hall : tables.allRows.moveCounts row.id table =
        tables.selectMoveCounts [row.id] row.id table :=
      select_move_counts tables table fun move hmove heq => List.mem_map.mpr ⟨move, hmove, heq⟩
    rw [hselected, hall]

/-! ## Rows of an edition -/

theorem root_group {edition : Nat} (hedition : edition ∈ work :: shown) :
    ∀ item ∈ tables.allRows.group edition, item ∈ tables.selectItems (work :: shown) :=
  fun _ hitem => (mem_select_items tables).mpr ⟨edition, hedition, hitem⟩

theorem root_selected {edition : Nat} (hedition : edition ∈ work :: shown) :
    edition ∈ tables.selectItems (work :: shown) :=
  root_group tables work shown hedition edition List.mem_cons_self

theorem selected_valid (hvalid : SingleValid tables.aliases) :
    SingleValid (tables.selectRows work shown).aliases := fun t a ha b hb =>
  hvalid t a ((select_covers tables work shown).subset a ha) b
    ((select_covers tables work shown).subset b hb)

/-- A selected item resolves as it does with all rows. -/
theorem selected_resolve {item : Nat} (hitem : item ∈ tables.selectItems (work :: shown)) :
    (tables.selectRows work shown).resolve item = tables.allRows.resolve item := by
  have hrow : openRow (tables.selectRows work shown).supersessions item =
      openRow tables.allRows.supersessions item := by
    rw [(select_covers tables work shown).supersessions, openRow, openRow, ← List.filter_reverse,
      List.find?_filter]
    refine congrArg (fun p => List.find? p _) (funext fun row => ?_)
    rw [decide_eq_decide, decide_eq_true_eq, decide_eq_true_eq]
    exact and_iff_right_of_imp fun hrow => Or.inl (hrow.1 ▸ hitem)
  rw [LedgerRows.resolve, LedgerRows.resolve, resolveItem, resolveItem, openTarget, openTarget, hrow]

section

variable {edition : Nat} (hvalid : SingleValid tables.aliases)
    (hedition : edition ∈ work :: shown)
include hvalid hedition

/-- The selected rows name the same keys of an edition. -/
theorem selected_resolves_to (key : AliasKey) :
    (tables.selectRows work shown).resolvesTo key edition ↔
      tables.allRows.resolvesTo key edition := by
  have hcovers := select_covers tables work shown
  have hgroup := hcovers.group (root_selected tables work shown hedition)
  constructor
  · rintro ⟨item, hcurrent, hresolve⟩
    obtain ⟨entry, hentry, hkey, hopen, rfl⟩ :=
      (current_alias_iff _ (selected_valid tables work shown hvalid)).mp hcurrent
    have hmem := mem_group_of_resolve hresolve
    rw [hgroup] at hmem
    have hitem := root_group tables work shown hedition _ hmem
    refine ⟨entry.nativeId, (current_alias_iff tables.allRows hvalid).mpr
      ⟨entry, hcovers.subset entry hentry, hkey, hopen, rfl⟩, ?_⟩
    rw [← selected_resolve tables work shown hitem]
    exact hresolve
  · rintro ⟨item, hcurrent, hresolve⟩
    obtain ⟨entry, hentry, hkey, hopen, rfl⟩ :=
      (current_alias_iff tables.allRows hvalid).mp hcurrent
    have hitem := root_group tables work shown hedition _ (mem_group_of_resolve hresolve)
    refine ⟨entry.nativeId, (current_alias_iff _ (selected_valid tables work shown hvalid)).mpr
      ⟨entry, (mem_selected_aliases tables work shown).mpr
        ⟨hentry, List.mem_append_left _ hitem⟩, hkey, hopen, rfl⟩, ?_⟩
    rw [selected_resolve tables work shown hitem]
    exact hresolve

/-- A key of an edition has a current alias on a selected item. -/
theorem current_release_selected {provider externalId : String}
    (h : tables.allRows.resolvesTo (provider, "release", externalId) edition) :
    externalId ∈ tables.currentReleases (tables.selectItems (work :: shown)) provider := by
  obtain ⟨item, hcurrent, hresolve⟩ := h
  obtain ⟨entry, hentry, hkey, hopen, rfl⟩ :=
    (current_alias_iff tables.allRows hvalid).mp hcurrent
  have hitem := root_group tables work shown hedition _ (mem_group_of_resolve hresolve)
  obtain ⟨hprovider, hrest⟩ := Prod.mk.inj hkey
  obtain ⟨hkind, hexternal⟩ := Prod.mk.inj hrest
  refine List.mem_map.mpr ⟨entry, List.mem_filter.mpr ⟨?_, ?_⟩, hexternal⟩
  · exact (mem_select_aliases tables).mpr ⟨hentry, hitem⟩
  · rw [decide_eq_true_eq]
    exact ⟨hopen, hkind, hprovider⟩

theorem selected_musicbrainz_rows :
    (tables.selectRows work shown).musicbrainzRows edition =
      tables.allRows.musicbrainzRows edition := by
  change (tables.musicbrainzReleases.filter _).filter _ = tables.musicbrainzReleases.filter _
  rw [List.filter_filter]
  refine List.filter_congr fun row hrow => ?_
  rw [← Bool.decide_and, decide_eq_decide, selected_resolves_to tables work shown hvalid hedition]
  refine and_iff_left_of_imp fun hresolves => ?_
  exact List.mem_filterMap.mpr ⟨row.mbid,
    current_release_selected tables work shown hvalid hedition hresolves, tables.mbids row hrow⟩

theorem selected_discogs_rows :
    (tables.selectRows work shown).discogsRows edition = tables.allRows.discogsRows edition := by
  change (tables.discogsReleases.filter _).filter _ = tables.discogsReleases.filter _
  rw [List.filter_filter]
  refine List.filter_congr fun row _ => ?_
  rw [← Bool.decide_and, decide_eq_decide, selected_resolves_to tables work shown hvalid hedition]
  exact and_iff_left_of_imp (current_release_selected tables work shown hvalid hedition)

end

/-! ## Works -/

theorem master_work_key {master : Alias} {row : (String × String) × Nat}
    (h : row ∈ tables.masterWork master) : row.1 = (master.provider, master.externalId) := by
  rw [LedgerTables.masterWork] at h
  split at h
  · rw [List.mem_singleton.mp h]
  · obtain ⟨other, -, rfl⟩ := List.mem_map.mp h
    rfl

/-- A wanted master is looked up as among all masters. -/
theorem master_works_congr {wanted wanted' : String → String → Bool} {provider externalId : String}
    (h : wanted provider externalId = wanted' provider externalId) :
    tables.masterWorks wanted provider externalId =
      tables.masterWorks wanted' provider externalId := by
  have hrows : ((tables.masterRows wanted).filter fun row => row.1 = (provider, externalId)) =
      (tables.masterRows wanted').filter fun row => row.1 = (provider, externalId) := by
    rw [LedgerTables.masterRows, LedgerTables.masterRows, flat_map_filter, flat_map_filter,
      List.filter_flatMap, List.filter_flatMap]
    refine List.flatMap_congr fun master _ => ?_
    by_cases hkey : (master.provider, master.externalId) = (provider, externalId)
    · obtain ⟨hprovider, hexternal⟩ := Prod.mk.inj hkey
      rw [hprovider, hexternal, h]
    · have hnone : (tables.masterWork master).filter
          (fun row => row.1 = (provider, externalId)) = [] := by
        refine List.filter_eq_nil_iff.mpr fun row hrow => ?_
        rw [decide_eq_true_eq, master_work_key tables hrow]
        exact hkey
      split <;> split <;> simp only [hnone, List.filter_nil]
  have hfind : ∀ l : List ((String × String) × Nat),
      l.reverse.find? (fun row => row.1 = (provider, externalId)) =
        (l.filter fun row => row.1 = (provider, externalId)).reverse.head? := by
    intro l
    rw [← List.filter_reverse, List.head?_filter]
  rw [LedgerTables.masterWorks, LedgerTables.masterWorks, hfind, hfind, hrows]

/-- The selected rows name the works that all rows name. -/
theorem selected_works (hvalid : SingleValid tables.aliases) {edition : Nat}
    (hedition : edition ∈ work :: shown) :
    (tables.selectRows work shown).works edition = tables.allRows.works edition := by
  have hdiscogs : ((tables.selectRows work shown).discogsRows edition).filterMap (fun row =>
        row.masterId.bind fun master =>
          (tables.selectRows work shown).masterWorks "discogs" (strip master)) =
      (tables.allRows.discogsRows edition).filterMap fun row =>
        row.masterId.bind fun master => tables.allRows.masterWorks "discogs" (strip master) := by
    rw [← selected_discogs_rows tables work shown hvalid hedition]
    refine List.filterMap_congr fun row hrow => ?_
    have hselected := List.mem_of_mem_filter hrow
    cases hmaster : row.masterId with
    | none => rfl
    | some master =>
        refine master_works_congr tables ?_
        have hmem : strip master ∈ (tables.selectRows work shown).discogsReleases.filterMap fun row =>
            row.masterId.map strip :=
          List.mem_filterMap.mpr ⟨row, hselected, by rw [hmaster]; rfl⟩
        rw [decide_eq_decide]
        exact ⟨fun _ => Or.inl rfl, fun _ => Or.inl ⟨rfl, hmem⟩⟩
  have hmusicbrainz : ((tables.selectRows work shown).musicbrainzRows edition).filterMap (fun row =>
        row.releaseGroupMbid.bind fun group =>
          (tables.selectRows work shown).masterWorks "musicbrainz" group) =
      (tables.allRows.musicbrainzRows edition).filterMap fun row =>
        row.releaseGroupMbid.bind fun group => tables.allRows.masterWorks "musicbrainz" group := by
    rw [← selected_musicbrainz_rows tables work shown hvalid hedition]
    refine List.filterMap_congr fun row hrow => ?_
    have hselected := List.mem_of_mem_filter hrow
    cases hgroup : row.releaseGroupMbid with
    | none => rfl
    | some group =>
        refine master_works_congr tables ?_
        have hmem : group ∈ (tables.selectRows work shown).musicbrainzReleases.filterMap
            (·.releaseGroupMbid) := List.mem_filterMap.mpr ⟨row, hselected, hgroup⟩
        rw [decide_eq_decide]
        exact ⟨fun _ => Or.inr rfl, fun _ => Or.inr ⟨rfl, hmem⟩⟩
  rw [LedgerRows.works, LedgerRows.works, hdiscogs, hmusicbrainz]

theorem selected_provider_rows (hvalid : SingleValid tables.aliases) {edition : Nat}
    (hedition : edition ∈ work :: shown) :
    (tables.selectRows work shown).providerRows edition = tables.allRows.providerRows edition := by
  rw [LedgerRows.providerRows, LedgerRows.providerRows,
    selected_discogs_rows tables work shown hvalid hedition,
    selected_musicbrainz_rows tables work shown hvalid hedition]

/-! ## Events -/

/-- The MusicBrainz rows of this kind the group's items have held. -/
def heldIds (rows : LedgerRows) (group : List Nat) (kind : String) : List String :=
  group.flatMap fun member => (rows.byItem member).filterMap fun entry =>
    if entry.provider = "musicbrainz" ∧ entry.entityKind = kind then some entry.externalId else none

theorem mem_held_ids {rows : LedgerRows} {group : List Nat} {kind externalId : String} :
    externalId ∈ heldIds rows group kind ↔
      ∃ member ∈ group, ∃ entry ∈ rows.byItem member, entry.provider = "musicbrainz" ∧
        entry.entityKind = kind ∧ entry.externalId = externalId := by
  simp [heldIds, and_assoc]

section

variable {group : List Nat} (hgroup : ∀ item ∈ group, item ∈ tables.selectItems (work :: shown))
include hgroup

/-- The selected link changes hold those of every row a covered group has held. -/
theorem link_event_selected {kind externalId : String}
    (hheld : externalId ∈ heldIds tables.allRows group kind) :
    externalId ∈ (((tables.selectRows work shown).aliases.filter fun entry =>
      entry.nativeId ∈ tables.selectItems (work :: shown) ∧
        entry.provider = "musicbrainz").filter fun entry =>
          entry.entityKind = kind).map (·.externalId) := by
  obtain ⟨member, hmember, entry, hentry, hprovider, hkind, rfl⟩ := mem_held_ids.mp hheld
  obtain ⟨hmem, rfl⟩ := mem_by_item.mp hentry
  have hitem := hgroup _ hmember
  have hselected : entry ∈ (tables.selectRows work shown).aliases :=
    (mem_selected_aliases tables work shown).mpr ⟨hmem, List.mem_append_left _ hitem⟩
  refine List.mem_map.mpr ⟨entry, List.mem_filter.mpr ⟨List.mem_filter.mpr ⟨hselected, ?_⟩, ?_⟩, rfl⟩
  · rw [decide_eq_true_eq]
    exact ⟨hitem, hprovider⟩
  · rw [decide_eq_true_eq]
    exact hkind

/-- The link changes of the rows a covered group has held. -/
theorem selected_link_events {kind : String}
    (hkind : kind = "release" ∨ kind = "master") :
    ((tables.selectRows work shown).linkEventsOf group kind).Perm
      (tables.allRows.linkEventsOf group kind) := by
  have hcovers := select_covers tables work shown
  have hids : ∀ externalId, externalId ∈ heldIds (tables.selectRows work shown) group kind ↔
      externalId ∈ heldIds tables.allRows group kind := by
    intro externalId
    rw [mem_held_ids, mem_held_ids]
    refine exists_congr fun member => and_congr_right fun hmember => ?_
    simp only [(hcovers.by_item_perm (hgroup member hmember)).mem_iff]
  refine List.Perm.map _ ?_
  have hwanted : ((tables.selectRows work shown).linkEvents.filter fun event =>
        event.entityKind = kind ∧
          event.externalId ∈ heldIds (tables.selectRows work shown) group kind) =
      (tables.selectRows work shown).linkEvents.filter fun event =>
        event.entityKind = kind ∧ event.externalId ∈ heldIds tables.allRows group kind := by
    refine List.filter_congr fun event _ => ?_
    rw [decide_eq_decide, hids]
  change ((tables.selectRows work shown).linkEvents.filter fun event =>
    event.entityKind = kind ∧
      event.externalId ∈ heldIds (tables.selectRows work shown) group kind).Perm
    (tables.allRows.linkEvents.filter fun event =>
      event.entityKind = kind ∧ event.externalId ∈ heldIds tables.allRows group kind)
  rw [hwanted]
  refine (((sort_by_perm linkEventOrder _).map _).filter _).trans (List.Perm.of_eq ?_)
  have hboth : ∀ (p : Nat × LinkEvent → Bool) (q : LinkEvent → Bool),
      ((tables.linkEvents.filter p).map (·.2)).filter q =
        (tables.linkEvents.filter fun row => q row.2 && p row).map (·.2) := by
    intro p q
    rw [List.filter_map, List.filter_filter]
    rfl
  refine (hboth _ _).trans ((congrArg _ (List.filter_congr fun row _ => ?_)).trans (hboth _ _).symm)
  rw [← Bool.decide_and, ← Bool.decide_and, decide_eq_decide]
  constructor
  · exact fun hboth => ⟨hboth.1, hboth.2.1⟩
  · rintro ⟨hevent, hprovider⟩
    have hselected := link_event_selected tables work shown hgroup hevent.2
    refine ⟨hevent, hprovider, ?_⟩
    rcases hkind with rfl | rfl
    · exact Or.inl ⟨hevent.1, hselected⟩
    · exact Or.inr ⟨hevent.1, hselected⟩

theorem selected_events {kind : String}
    (hkind : kind = "release" ∨ kind = "master") (asOf : Option Instant) :
    SameEvents ((tables.selectRows work shown).events group asOf kind)
      (tables.allRows.events group asOf kind) := by
  have hcovers := select_covers tables work shown
  refine same_events_iff.mpr fun event _ => List.Perm.count_eq ?_ event
  refine (List.Perm.append ?_ ?_).append (selected_link_events tables work shown hgroup hkind)
  · exact List.Perm.flatMap_left _ fun item hitem => hcovers.item_events (hgroup item hitem)
  · rw [hcovers.supersession_events hgroup]

end

end Selection

end CatalogApi.IdentityLedger
