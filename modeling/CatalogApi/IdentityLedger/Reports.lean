import CatalogApi.IdentityLedger.Repairs

/-!
# What is reported of repairs and attached aliases

In a run that explains its aliases, the instants of the reported events tell loaders from repairs:
an alias attached after its item's mint is reported once (`count_attached`), and no event at the
instant of a re-attachment or a revert is evidence or a closing (`repaired_type`).
-/

namespace CatalogApi.IdentityLedger

open CatalogMerge ByKey Runs Reattach

/-- The ledger's rows hold the supersessions and the alias rows of the group's items. -/
structure HoldsItems (rows : LedgerRows) (db : Db) (group : List Nat) : Prop where
  supersessions : HoldsSupersessions rows db group
  aliases : ∀ item ∈ group,
    (rows.byItem item).Perm (db.aliases.filter fun entry => entry.nativeId = item)

/-- The types an alias row opened after its item's mint is reported as. -/
def attachTypes : List String := ["evidence_attached", "linked_at_ingest"]

/-! ## Counting events -/

section Count

variable {rows : LedgerRows} {group : List Nat} {asOf : Option Instant} {kind : String}

theorem count_events (p : Event → Bool) :
    (rows.events group asOf kind).countP (fun event => p event.1) =
      ((rows.allEvents group kind).filter fun event => visible event.instant asOf).countP p := by
  rw [LedgerRows.events, List.countP_map]
  exact (sort_by_perm eventOrder _).countP_eq p

/-- An event that is no supersession's and no link change's is one of an item. -/
theorem count_item_events {p : Event → Bool} (hsupersession : ∀ row, ∀ event ∈
      rows.supersessionEvents row, ¬p event)
    (hlink : ∀ event ∈ rows.linkEventsOf group kind, ¬p event) :
    (rows.allEvents group kind).countP p = (group.flatMap rows.itemEvents).countP p := by
  have hrows : ((rows.supersessions.filter fun row => touches group row).flatMap
      rows.supersessionEvents).countP p = 0 := by
    refine List.countP_eq_zero.mpr fun event hevent => ?_
    obtain ⟨row, -, hevent⟩ := List.mem_flatMap.mp hevent
    exact hsupersession row event hevent
  rw [LedgerRows.allEvents, List.countP_append, List.countP_append, hrows,
    List.countP_eq_zero.mpr hlink, Nat.add_zero]

theorem supersession_event_type {row : Supersession} {event : Event}
    (h : event ∈ rows.supersessionEvents row) :
    (∃ cause superseded survivor decisionRef compressed moves, event.detail =
      .opened cause superseded survivor decisionRef compressed moves) ∨
      event.detail = .reverted row.supersededId row.survivorId := by
  rcases List.mem_cons.mp h with rfl | h
  · exact Or.inl ⟨_, _, _, _, _, _, rfl⟩
  · obtain ⟨t, -, rfl⟩ := Option.map_eq_some_iff.mp (Option.mem_toList.mp h)
    exact Or.inr rfl

theorem link_event_type {event : Event} (h : event ∈ rows.linkEventsOf group kind) :
    ∃ change provider externalId before after sourceRef decisionRef, event.detail =
      .linkEvent change provider externalId before after sourceRef decisionRef := by
  obtain ⟨change, -, rfl⟩ := List.mem_map.mp h
  exact ⟨_, _, _, _, _, _, _, rfl⟩

/-- Each later alias is reported by one event, at its instant. -/
theorem count_later_events (item : Nat) (discogsAt : Option Instant) (linked : Bool)
    (entries : List Alias) (t : Instant) :
    (laterEvents item discogsAt linked entries).countP
        (fun event => event.instant = t ∧ event.detail.type ∈ attachTypes) =
      entries.countP fun entry => entry.validFrom = t := by
  induction entries generalizing linked with
  | nil => rfl
  | cons entry entries ih =>
      unfold laterEvents
      split <;> rw [List.countP_cons, List.countP_cons, ih] <;>
        simp [Event.recorded, Detail.type, attachTypes]

/-- At most one later alias of an item is a link at ingest. -/
theorem count_linked_events (item : Nat) (discogsAt : Option Instant) (linked : Bool)
    (entries : List Alias) :
    (laterEvents item discogsAt linked entries).countP
        (fun event => event.detail = .linkedAtIngest item) ≤ if linked then 0 else 1 := by
  induction entries generalizing linked with
  | nil => exact Nat.zero_le _
  | cons entry entries ih =>
      unfold laterEvents
      split
      · rename_i hcond
        have hrest := ih true
        rw [if_pos rfl] at hrest
        rw [List.countP_cons, hcond.2.2]
        simpa [Event.recorded] using hrest
      · rw [List.countP_cons]
        simpa [Event.recorded] using ih linked

theorem group_nodup {db : Db} {nextId : Nat} {used : Set Instant} {edition : Nat}
    (hchained : Chained db.supersessions nextId used)
    (hrows : HoldsSupersessions rows db (rows.group edition)) : (rows.group edition).Nodup := by
  refine List.nodup_cons.mpr ⟨fun hin => ?_, sorted_set_nodup _⟩
  obtain ⟨row, hrow, hsuperseded⟩ := List.mem_map.mp (mem_sorted_set.mp hin)
  obtain ⟨hmem, hcond⟩ := List.mem_filter.mp hrow
  rw [decide_eq_true_eq] at hcond
  have htouches : touches (rows.group edition) row := Or.inl (by rw [hcond.1]; exact List.mem_cons_self)
  exact hchained.irrefl row ((hrows row htouches).mp hmem) (hsuperseded.trans hcond.1.symm)

end Count

/-! ## Reports of an explained run -/

section Reports

variable {rows : LedgerRows} {group : List Nat} {trace : List Repair} {db : Db}
  (h : Explained trace db) (htimes : (trace.map Repair.now).Nodup)
  (hholds : HoldsItems rows db group)
include h hholds

omit h in
theorem alias_of_item {item : Nat} (hitem : item ∈ group) {entry : Alias}
    (hentry : entry ∈ rows.byItem item) : entry ∈ db.aliases ∧ entry.nativeId = item := by
  have hin := (hholds.aliases item hitem).mem_iff.mp hentry
  rw [List.mem_filter, decide_eq_true_eq] at hin
  exact hin

include htimes

/-- An alias of the group opened by a loader was not opened by a supersession, and conversely. -/
theorem opened_by_supersession_iff {entry : Alias} (hentry : entry ∈ db.aliases)
    (hitem : entry.nativeId ∈ group) :
    rows.openedBySupersession entry ↔ ¬AttachedAt trace entry.validFrom entry.nativeId := by
  constructor
  · rintro ⟨row, hrow, hcases⟩ hattached
    have htouches : touches group row := by
      rcases hcases with ⟨hside, -⟩ | ⟨hside, -⟩
      · exact Or.inl (hside ▸ hitem)
      · exact Or.inr (hside ▸ hitem)
    have hin := (hholds.supersessions row htouches).mp hrow
    refine attached_apart htimes hattached ?_
    rcases hcases with ⟨-, hfrom⟩ | ⟨-, hto⟩
    · exact Or.inl (hfrom ▸ h.merged row hin)
    · exact h.repaired row hin _ hto
  · intro hnot
    obtain ⟨row, hin, hcases⟩ := (h.opened entry hentry).resolve_left hnot
    have htouches : touches group row := by
      rcases hcases with ⟨hside, -⟩ | ⟨hside, -⟩
      · exact Or.inl (hside ▸ hitem)
      · exact Or.inr (hside ▸ hitem)
    exact ⟨row, (hholds.supersessions row htouches).mpr hin, hcases.imp id fun hc => ⟨hc.1, hc.2.1⟩⟩

omit htimes in
/-- A closed alias of the group was closed by a supersession. -/
theorem closed_by_supersession {entry : Alias} (hentry : entry ∈ db.aliases)
    (hitem : entry.nativeId ∈ group) {t : Instant} (hto : entry.validTo = some t) :
    rows.closedBySupersession entry := by
  obtain ⟨row, hin, hcases⟩ := h.closed entry hentry t hto
  have htouches : touches group row := by
    rcases hcases with ⟨hside, -⟩ | ⟨hside, -⟩
    · exact Or.inr (hside ▸ hitem)
    · exact Or.inl (hside ▸ hitem)
  exact ⟨t, hto, row, (hholds.supersessions row htouches).mpr hin,
    hcases.imp id fun hc => ⟨hc.1, hc.2.1⟩⟩

/-- Evidence and links at ingest are of aliases a loader attached then; no closing is reported. -/
theorem reported_attach {item : Nat} (hitem : item ∈ group) {event : Event}
    (hevent : event ∈ rows.itemEvents item) :
    event.detail.type ≠ "alias_closed" ∧
      (event.detail.type ∈ attachTypes → AttachedAt trace event.instant item) := by
  obtain ⟨mint, -, ⟨providers, rfl⟩ | ⟨entry, hentry, hinstant, hdetail⟩ |
    ⟨entry, hentry, hnot, t, hto, -⟩⟩ := mem_item_events hevent
  · exact ⟨by simp [Event.recorded, Detail.type], by simp [Event.recorded, Detail.type, attachTypes]⟩
  · obtain ⟨hown, hcond⟩ := List.mem_filter.mp (mem_sort_by.mp hentry)
    rw [decide_eq_true_eq] at hcond
    obtain ⟨hin, rfl⟩ := alias_of_item hholds hitem hown
    have hattached := not_not.mp
      fun hnot => hcond.2 ((opened_by_supersession_iff h htimes hholds hin hitem).mpr hnot)
    refine ⟨?_, fun _ => hinstant ▸ hattached⟩
    rcases hdetail with hdetail | hdetail <;> rw [hdetail] <;> simp [Detail.type]
  · obtain ⟨hin, rfl⟩ := alias_of_item hholds hitem hentry
    exact absurd (closed_by_supersession h hholds hin hitem hto) hnot

/-- No event at the instant of a repair is evidence or a closing. -/
theorem repaired_type {asOf : Option Instant} {kind : String} {event : Event × String}
    (hevent : event ∈ rows.events group asOf kind)
    (hrepair : ReattachedAt trace event.1.instant ∨ RevertedAt trace event.1.instant) :
    event.1.detail.type ∉ "alias_closed" :: attachTypes := by
  obtain ⟨hall, -⟩ := mem_events.mp hevent
  rw [LedgerRows.allEvents, List.mem_append, List.mem_append] at hall
  rcases hall with (hitem | hrow) | hlink
  · obtain ⟨item, hmember, hitem⟩ := List.mem_flatMap.mp hitem
    obtain ⟨hclosed, hattach⟩ := reported_attach h htimes hholds hmember hitem
    intro htype
    rcases List.mem_cons.mp htype with htype | htype
    · exact hclosed htype
    · exact attached_apart htimes (hattach htype) hrepair
  · obtain ⟨row, -, hrow⟩ := List.mem_flatMap.mp hrow
    rcases supersession_event_type hrow with ⟨cause, _, _, _, _, _, hdetail⟩ | hdetail
    · rw [hdetail]
      cases cause <;> simp [Detail.type, attachTypes]
    · rw [hdetail]
      simp [Detail.type, attachTypes]
  · obtain ⟨change, _, _, _, _, _, _, hdetail⟩ := link_event_type hlink
    rw [hdetail]
    cases change <;> simp [Detail.type, attachTypes]

omit h hholds in
theorem attached_item_unique {t : Instant} {item other : Nat} (hitem : AttachedAt trace t item)
    (hother : AttachedAt trace t other) : other = item := by
  obtain ⟨_, _, _, _, _, _, hmem⟩ := hitem
  obtain ⟨_, _, _, _, _, _, hmem'⟩ := hother
  cases List.inj_on_of_nodup_map htimes hmem hmem' rfl
  rfl

/-- The alias a loader attached after its item's mint is one of the later aliases, once. -/
theorem count_later_aliases {item : Nat} (hitem : item ∈ group) {t mint : Instant}
    (hattached : AttachedAt trace t item) (hlater : mint < t) :
    (rows.laterAliases item mint).countP (fun entry => entry.validFrom = t) = 1 := by
  have hkept : ∀ entry ∈ rows.byItem item, (decide (entry.validFrom = t) &&
      decide (mint < entry.validFrom ∧ ¬rows.openedBySupersession entry)) =
      decide (entry.validFrom = t) := by
    intro entry hentry
    obtain ⟨hin, rfl⟩ := alias_of_item hholds hitem hentry
    by_cases hfrom : entry.validFrom = t
    · have hopened : ¬rows.openedBySupersession entry := fun hopened =>
        (opened_by_supersession_iff h htimes hholds hin hitem).mp hopened (hfrom ▸ hattached)
      simp [hfrom, hlater, hopened]
    · simp [hfrom]
  have honce := h.once t item hattached
  calc (rows.laterAliases item mint).countP (fun entry => entry.validFrom = t)
      = (rows.byItem item).countP (fun entry => entry.validFrom = t) := by
        rw [LedgerRows.laterAliases, (sort_by_perm _ _).countP_eq, List.countP_filter]
        exact List.countP_congr fun entry hentry => by rw [hkept entry hentry]
    _ = (db.aliases.filter fun entry => entry.validFrom = t).countP
          (fun entry => entry.nativeId = item) := by
        rw [(hholds.aliases item hitem).countP_eq, List.countP_filter, List.countP_filter]
        exact List.countP_congr fun entry _ => by rw [Bool.and_comm]
    _ = [item].countP (fun other => other = item) := by
        rw [← honce, List.countP_map]
        rfl
    _ = 1 := by simp

omit h htimes hholds in
/-- What is not at the item's mint and no closing is of a later alias. -/
theorem count_item_later {item : Nat} {mint : Instant} (hmint : rows.mint item = some mint)
    (p : Event → Bool) (hminted : ∀ providers, ¬p (.recorded mint (.minted item providers)))
    (hclosed : ∀ t provider, ¬p (.recorded t (.aliasClosed provider))) :
    ∃ discogsAt, (rows.itemEvents item).countP p =
      (laterEvents item discogsAt false (rows.laterAliases item mint)).countP p := by
  have hzero : (rows.closeEvents item).countP p = 0 := by
    refine List.countP_eq_zero.mpr fun event hevent => ?_
    obtain ⟨entry, -, hevent⟩ := List.mem_filterMap.mp hevent
    split at hevent
    · cases hevent
    · obtain ⟨t, -, rfl⟩ := Option.map_eq_some_iff.mp hevent
      exact hclosed t entry.provider
  refine ⟨((((rows.byItem item).filter fun entry => entry.provider = "discogs").map
    (·.validFrom)).min?), ?_⟩
  unfold LedgerRows.itemEvents
  rw [hmint]
  dsimp only
  rw [List.countP_cons_of_neg (hminted _), List.countP_append, hzero, Nat.add_zero]

/-- An alias a loader attached after its item's mint is reported once. -/
theorem count_attached {asOf : Option Instant} {kind : String} (hnodup : group.Nodup) {item : Nat}
    (hitem : item ∈ group) {t mint : Instant} (hattached : AttachedAt trace t item)
    (hmint : rows.mint item = some mint) (hlater : mint < t) (hvisible : visible t asOf) :
    (rows.events group asOf kind).countP
      (fun event => event.1.instant = t ∧ event.1.detail.type ∈ attachTypes) = 1 := by
  have hshown : ∀ event : Event, (decide (event.instant = t ∧ event.detail.type ∈ attachTypes) &&
      decide (visible event.instant asOf)) =
      decide (event.instant = t ∧ event.detail.type ∈ attachTypes) := by
    intro event
    by_cases hinstant : event.instant = t
    · simp [hinstant, hvisible]
    · simp [hinstant]
  have hsupersession : ∀ row, ∀ event ∈ rows.supersessionEvents row,
      ¬decide (event.instant = t ∧ event.detail.type ∈ attachTypes) = true := by
    intro row event hevent htype
    have htype := (of_decide_eq_true htype).2
    rcases supersession_event_type hevent with ⟨cause, _, _, _, _, _, hdetail⟩ | hdetail
    · rw [hdetail] at htype
      cases cause <;> simp [Detail.type, attachTypes] at htype
    · rw [hdetail] at htype
      simp [Detail.type, attachTypes] at htype
  have hlink : ∀ event ∈ rows.linkEventsOf group kind,
      ¬decide (event.instant = t ∧ event.detail.type ∈ attachTypes) = true := by
    intro event hevent htype
    have htype := (of_decide_eq_true htype).2
    obtain ⟨change, _, _, _, _, _, _, hdetail⟩ := link_event_type hevent
    rw [hdetail] at htype
    cases change <;> simp [Detail.type, attachTypes] at htype
  have hother : ∀ other ∈ group, other ≠ item → ∀ event ∈ rows.itemEvents other,
      ¬decide (event.instant = t ∧ event.detail.type ∈ attachTypes) = true := by
    intro other hmember hne event hevent htype
    obtain ⟨rfl, hattach⟩ := of_decide_eq_true htype
    exact hne (attached_item_unique htimes hattached
      ((reported_attach h htimes hholds hmember hevent).2 hattach))
  obtain ⟨discogsAt, hcount⟩ := count_item_later hmint
    (fun event => decide (event.instant = t ∧ event.detail.type ∈ attachTypes))
    (by simp [Event.recorded, Detail.type, attachTypes])
    (by simp [Event.recorded, Detail.type, attachTypes])
  rw [count_events fun event => decide (event.instant = t ∧ event.detail.type ∈ attachTypes),
    List.countP_filter]
  simp only [hshown]
  rw [count_item_events hsupersession hlink, count_flat_map_of_unique hnodup hitem hother, hcount,
    count_later_events, count_later_aliases h htimes hholds hitem hattached hlater]

end Reports

/-- At most one link at ingest is reported for an item. -/
theorem count_linked {rows : LedgerRows} {group : List Nat} (hnodup : group.Nodup)
    (asOf : Option Instant) (kind : String) (item : Nat) :
    (rows.events group asOf kind).countP (fun event => event.1.detail = .linkedAtIngest item) ≤
      1 := by
  have hmember : ∀ other, ∀ event ∈ rows.itemEvents other,
      event.detail = .linkedAtIngest item → other = item := by
    intro other event hevent hdetail
    obtain ⟨mint, -, ⟨providers, rfl⟩ | ⟨entry, -, -, hlater | hlater⟩ |
      ⟨entry, -, -, t, -, rfl⟩⟩ := mem_item_events hevent
    · cases hdetail
    · rw [hlater] at hdetail
      exact Detail.linkedAtIngest.inj hdetail
    · rw [hlater] at hdetail
      cases hdetail
    · cases hdetail
  have hsupersession : ∀ row, ∀ event ∈ rows.supersessionEvents row,
      ¬decide (event.detail = .linkedAtIngest item) = true := by
    intro row event hevent htype
    have htype := of_decide_eq_true htype
    rcases supersession_event_type hevent with ⟨_, _, _, _, _, _, hdetail⟩ | hdetail
    · cases hdetail.symm.trans htype
    · cases hdetail.symm.trans htype
  have hlink : ∀ event ∈ rows.linkEventsOf group kind,
      ¬decide (event.detail = .linkedAtIngest item) = true := by
    intro event hevent htype
    obtain ⟨_, _, _, _, _, _, _, hdetail⟩ := link_event_type hevent
    cases hdetail.symm.trans (of_decide_eq_true htype)
  have hall : (rows.allEvents group kind).countP (fun event => event.detail = .linkedAtIngest item) ≤
      1 := by
    rw [count_item_events hsupersession hlink]
    by_cases hitem : item ∈ group
    · rw [count_flat_map_of_unique hnodup hitem fun other _ hne event hevent htype =>
        hne (hmember other event hevent (of_decide_eq_true htype))]
      cases hmint : rows.mint item with
      | none =>
          unfold LedgerRows.itemEvents
          rw [hmint]
          exact Nat.zero_le 1
      | some mint =>
          obtain ⟨discogsAt, hcount⟩ := count_item_later hmint
            (fun event => decide (event.detail = .linkedAtIngest item))
            (by simp [Event.recorded]) (by simp [Event.recorded])
          rw [hcount]
          exact count_linked_events item discogsAt false _
    · refine (List.countP_eq_zero.mpr fun event hevent htype => ?_).trans_le (Nat.zero_le 1)
      obtain ⟨other, hother, hevent⟩ := List.mem_flatMap.mp hevent
      exact hitem (hmember other event hevent (of_decide_eq_true htype) ▸ hother)
  rw [count_events fun event => decide (event.detail = .linkedAtIngest item)]
  exact (List.filter_sublist.countP_le).trans hall

/-- A repair's alias moves are never reported as evidence. In every run whose re-attachments move
no alias under a supersession that is open already: no event at the instant of a re-attachment or
a revert is evidence, a link at ingest or a closing; each alias a loader attached after its item's
mint is reported once as evidence or a link at ingest; and an item has one link at ingest at
most. -/
theorem repairs_not_evidence (start db : Db) (trace : List Repair) (rows : LedgerRows)
    (edition : Nat) (asOf : Option Instant) (kind : String) (hrows : start.supersessions = [])
    (haliases : start.aliases = []) (htimes : (trace.map Repair.now).Nodup)
    (hrun : execute Repair.apply start trace = .ok db)
    (hopens : Along Repair.apply Opens start trace)
    (hholds : HoldsItems rows db (rows.group edition)) :
    (∀ event ∈ rows.events (rows.group edition) asOf kind,
      ReattachedAt trace event.1.instant ∨ RevertedAt trace event.1.instant →
      event.1.detail.type ∉ ["alias_closed", "evidence_attached", "linked_at_ingest"]) ∧
    (∀ t item mint, AttachedAt trace t item → item ∈ rows.group edition →
      rows.mint item = some mint → mint < t → visible t asOf →
      (rows.events (rows.group edition) asOf kind).countP (fun event => event.1.instant = t ∧
        event.1.detail.type ∈ ["evidence_attached", "linked_at_ingest"]) = 1) ∧
    ∀ item, (rows.events (rows.group edition) asOf kind).countP
      (fun event => event.1.detail = .linkedAtIngest item) ≤ 1 := by
  obtain ⟨h, -⟩ := run_explained hrows haliases htimes hrun hopens
  have hnodup := group_nodup h.chained hholds.supersessions
  refine ⟨fun event hevent hrepair => repaired_type h htimes hholds hevent hrepair, ?_,
    count_linked hnodup asOf kind⟩
  intro t item mint hattached hitem hmint hlater hvisible
  exact count_attached h htimes hholds hnodup hitem hattached hmint hlater hvisible

/-- The MusicBrainz row of the runs below, with its cache. -/
def cachedRow (item : Nat) : CachedRow :=
  { table := "musicbrainz.releases", key := "m1", gmItemId := some item }

/-- A loader attaches a release alias and leaves the row's cache at the item. -/
def loaded (now : Instant) (provider externalId : String) (item cached : Nat) : Repair :=
  .attach now provider "release" externalId item "catalog" none [cachedRow cached]

/-- A release is loaded as two items, then re-attached. -/
def splitRun : List Repair :=
  [loaded 1 "discogs" "d1" 2 1, loaded 2 "musicbrainz" "m1" 1 1, loaded 3 "barcode" "b1" 1 1,
    .reattach 4 (fun _ _ => some "d1") releaseKind "m1" 50]

/-- The barcode, attached after the mint of its item, is reported once. -/
theorem split_run_reported : ∃ db, execute Repair.apply unmerged splitRun = .ok db ∧
    ((wholeTables db).events ((wholeTables db).group 2) none "release").countP (fun event =>
      event.1.instant = 3 ∧ event.1.detail.type ∈ ["evidence_attached", "linked_at_ingest"]) = 1 := by
  have hattached : AttachedAt splitRun 3 1 :=
    ⟨_, _, _, _, _, _, List.mem_cons_of_mem _ (List.mem_cons_of_mem _ List.mem_cons_self)⟩
  refine ⟨_, rfl, (repairs_not_evidence unmerged _ splitRun (wholeTables _) 2 none "release" rfl rfl
    (by decide) rfl ⟨trivial, trivial, trivial, ?_, trivial⟩
    ⟨whole_tables_hold _ _, fun _ _ => List.Perm.refl _⟩).2.1 3 1 2 hattached ?_ rfl (by decide)
    nofun⟩
  · rintro ⟨splitId, discogsNativeId, -, -, hopen, -⟩
    exact hopen rfl
  · decide

/-- A loader attaches a barcode to the item after its re-attachment; a second run moves it. -/
def rerun : List Repair :=
  [loaded 1 "discogs" "d1" 2 1, loaded 2 "musicbrainz" "m1" 1 1,
    .reattach 3 (fun _ _ => some "d1") releaseKind "m1" 50, loaded 4 "barcode" "b1" 1 1,
    .reattach 5 (fun _ _ => some "d1") releaseKind "m1" 51]

/-- The barcode's move is reported as evidence and as a closing. -/
theorem rerun_reported : ∃ db, execute Repair.apply unmerged rerun = .ok db ∧
    ReattachedAt rerun 5 ∧ (wholeTables db).group 2 = [2, 1] ∧
    (∃ event ∈ (wholeTables db).events [2, 1] none "release",
      event.1.instant = 5 ∧ event.1.detail.type = "evidence_attached") ∧
    ∃ event ∈ (wholeTables db).events [2, 1] none "release",
      event.1.instant = 5 ∧ event.1.detail.type = "alias_closed" := by
  have hat : ReattachedAt rerun 5 := ⟨_, _, _, _, List.mem_of_getLast? rfl⟩
  refine ⟨_, rfl, hat, by decide,
    ⟨(.recorded 5 (.evidenceAttached "barcode" "catalog"), _), mem_events.mpr ⟨?_, nofun, rfl⟩, rfl,
      rfl⟩,
    ⟨(.recorded 5 (.aliasClosed "barcode"), _), mem_events.mpr ⟨?_, nofun, rfl⟩, rfl, rfl⟩⟩
  · decide
  · decide

end CatalogApi.IdentityLedger
