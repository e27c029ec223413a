import CatalogApi.IdentityLedger.Events
import Mathlib.Data.List.Pairwise

/-!
# Reversals

`_Ledger.events` reports a `reverted` event for every closed supersession row. A row is closed by
the revert of a merge, and also by the merge that compresses its chain until that merge is
reverted; the reader cannot tell the two apart. So the reported reversals are the reverts that
happened exactly when no row of the group is closed by a merge (`reversals_reported_iff`).
-/

namespace CatalogApi.IdentityLedger

open CatalogMerge ByKey Runs

/-! ## What happened -/

/-- A merge of the trace started then. -/
def MergedAt (trace : List Action) (t : Instant) : Prop :=
  ∃ superseded survivor cause decisionRef,
    Action.merge t superseded survivor cause decisionRef ∈ trace

/-- A revert that started then closed an open row of the pair. -/
def ClosedByRevert (start : Db) (trace : List Action) (superseded survivor : Nat) (t : Instant) :
    Prop :=
  ∃ before after id db next, trace = before ++ .revert t id :: after ∧
    execute Action.apply start before = .ok db ∧ Action.apply db (.revert t id) = .ok next ∧
      ∃ row ∈ db.supersessions, row.supersededId = superseded ∧ row.survivorId = survivor ∧
        row.validTo = none ∧ ∃ closed ∈ next.supersessions, closed.id = row.id ∧
          closed.validTo = some t

section Trace

variable {start : Db} {trace : List Action} {action : Action} {t : Instant}

theorem MergedAt.snoc (h : MergedAt trace t) : MergedAt (trace ++ [action]) t := by
  obtain ⟨superseded, survivor, cause, decisionRef, hmem⟩ := h
  exact ⟨superseded, survivor, cause, decisionRef, List.mem_append_left _ hmem⟩

theorem ClosedByRevert.snoc {superseded survivor : Nat}
    (h : ClosedByRevert start trace superseded survivor t) :
    ClosedByRevert start (trace ++ [action]) superseded survivor t := by
  obtain ⟨before, after, id, db, next, rfl, hrest⟩ := h
  exact ⟨before, after ++ [action], id, db, next, by rw [List.append_assoc, List.cons_append], hrest⟩

/-- A row closed by a revert was closed before the last transaction, or by it. -/
theorem closed_by_revert_snoc {db next : Db} {superseded survivor : Nat}
    (hrun : execute Action.apply start trace = .ok db) (hstep : action.apply db = .ok next)
    (h : ClosedByRevert start (trace ++ [action]) superseded survivor t) :
    ClosedByRevert start trace superseded survivor t ∨
      ∃ id, action = .revert t id ∧ ∃ row ∈ db.supersessions, row.supersededId = superseded ∧
        row.survivorId = survivor ∧ row.validTo = none ∧ ∃ closed ∈ next.supersessions,
          closed.id = row.id ∧ closed.validTo = some t := by
  obtain ⟨before, after, id, db', next', htrace, hbefore, hrevert, hrow⟩ := h
  rcases List.eq_nil_or_concat after with rfl | ⟨rest, last, rfl⟩
  · obtain ⟨rfl, hlast⟩ := List.append_inj' htrace rfl
    obtain rfl : action = .revert t id := (List.cons.inj hlast).1
    obtain rfl : db = db' := Except.ok.inj (hrun.symm.trans hbefore)
    obtain rfl : next = next' := Except.ok.inj (hstep.symm.trans hrevert)
    exact Or.inr ⟨id, rfl, hrow⟩
  · rw [List.concat_eq_append, ← List.cons_append, ← List.append_assoc] at htrace
    obtain ⟨rfl, -⟩ := List.append_inj' htrace rfl
    exact Or.inl ⟨before, rest, id, db', next', rfl, hbefore, hrevert, hrow⟩

/-- Two transactions of a trace at distinct instants do not start together. -/
theorem merge_revert_apart (htimes : (instants trace).Nodup) (hmerge : MergedAt trace t) {id : Nat}
    (hrevert : Action.revert t id ∈ trace) : False := by
  obtain ⟨superseded, survivor, cause, decisionRef, hmerge⟩ := hmerge
  rw [instants, List.Nodup, List.pairwise_filterMap] at htimes
  have hsymm : Std.Symm fun first second : Action => ∀ x, first.now? = some x →
      ∀ y, second.now? = some y → x ≠ y :=
    ⟨fun first second hapart x hx y hy hxy => hapart y hy x hx hxy.symm⟩
  exact htimes.forall hmerge hrevert nofun t rfl t rfl rfl

end Trace

/-! ## What a transaction does to the rows -/

/-- A committed transaction leaves the supersession rows, opens and compresses, or restores. -/
theorem apply_rows {db next : Db} {used : Set Instant} {action : Action}
    (h : Chained db.supersessions db.nextId used)
    (hnow : ∀ now, action.now? = some now → now ∉ used) (happly : action.apply db = .ok next) :
    next.supersessions = db.supersessions ∨
      (∃ now superseded survivor cause decisionRef,
        action = .merge now superseded survivor cause decisionRef ∧ superseded ≠ survivor ∧
          next.supersessions = openAndCompress db.supersessions db.nextId superseded survivor cause
            decisionRef now) ∨
      ∃ now, ∃ opened ∈ db.supersessions, action = .revert now opened.id ∧ opened.validTo = none ∧
        opened.viaId = none ∧ next.supersessions = db.supersessions.map (restoreRow opened now) := by
  cases action with
  | merge now superseded survivor cause decisionRef =>
      obtain ⟨outcome, hmerge⟩ := apply_merge_ok happly
      obtain ⟨hne, -, -, -, ⟨row, -, -, hrows, -⟩ | ⟨-, hrows, -⟩⟩ := merge_pair_cases hmerge
      · exact Or.inl hrows
      · exact Or.inr (Or.inl ⟨now, superseded, survivor, cause, decisionRef, rfl, hne, hrows⟩)
  | revert now id =>
      obtain ⟨outcome, hrevert⟩ := apply_revert_ok happly
      obtain ⟨opened, hmem, rfl, hopen, hvia, rows, reopened, hchains, hrows, -⟩ :=
        revert_cases hrevert
      obtain ⟨count, heq⟩ := revert_chains_eq h (hnow now rfl) hmem hopen hvia
      obtain ⟨rfl, -⟩ := Prod.mk.inj (Except.ok.inj (hchains.symm.trans heq))
      exact Or.inr (Or.inr ⟨now, opened, hmem, rfl, hopen, hvia, hrows⟩)
  | create table id item owner =>
      obtain ⟨-, rfl⟩ := apply_create_ok happly
      exact Or.inl rfl

/-! ## When a row was opened and closed -/

/-- Every row was opened by a merge; a closed one was closed by a merge or a revert, and the
closing of a revert stands. -/
structure Dated (start : Db) (trace : List Action) (rows : List Supersession) : Prop where
  opened : ∀ row ∈ rows, MergedAt trace row.validFrom
  closed : ∀ row ∈ rows, ∀ t, row.validTo = some t →
    MergedAt trace t ∨ ClosedByRevert start trace row.supersededId row.survivorId t
  kept : ∀ superseded survivor t, ClosedByRevert start trace superseded survivor t →
    ∃ row ∈ rows, row.supersededId = superseded ∧ row.survivorId = survivor ∧
      row.validTo = some t

section Steps

variable {start db next : Db} {trace : List Action}

/-- A fresh merge keeps the rows dated. -/
theorem dated_merge {now : Instant} {superseded survivor decisionRef : Nat} {cause : Cause}
    (h : Dated start trace db.supersessions) (hne : superseded ≠ survivor)
    (hrun : execute Action.apply start trace = .ok db)
    (hstep : Action.apply db (.merge now superseded survivor cause decisionRef) = .ok next)
    (hrows : next.supersessions =
      openAndCompress db.supersessions db.nextId superseded survivor cause decisionRef now) :
    Dated start (trace ++ [.merge now superseded survivor cause decisionRef])
      next.supersessions := by
  have hnow : MergedAt (trace ++ [.merge now superseded survivor cause decisionRef]) now :=
    ⟨superseded, survivor, cause, decisionRef, List.mem_append_right _ (List.mem_singleton.mpr rfl)⟩
  have hmem := @mem_open_and_compress db.supersessions db.nextId superseded survivor now cause
    decisionRef hne
  rw [hrows]
  constructor
  case opened =>
    intro row hrow
    rcases hmem.mp hrow with ⟨old, hold, rfl⟩ | rfl | ⟨old, k, -, rfl⟩
    · rw [close_survived_from]
      exact (h.opened old hold).snoc
    · exact hnow
    · exact hnow
  case closed =>
    intro row hrow t hto
    rcases hmem.mp hrow with ⟨old, hold, rfl⟩ | rfl | ⟨old, k, -, rfl⟩
    · rw [close_survived_superseded, close_survived_survivor]
      rw [close_survived_to] at hto
      split_ifs at hto with hcond
      · obtain rfl := Option.some.inj hto
        exact Or.inl hnow
      · exact (h.closed old hold t hto).imp MergedAt.snoc ClosedByRevert.snoc
    · cases hto
    · cases hto
  case kept =>
    intro item target t hclosed
    rcases closed_by_revert_snoc hrun hstep hclosed with hclosed | ⟨id, haction, -⟩
    · obtain ⟨row, hrow, hitem, htarget, hto⟩ := h.kept item target t hclosed
      refine ⟨closeSurvived superseded now row, hmem.mpr (Or.inl ⟨row, hrow, rfl⟩), ?_, ?_, ?_⟩
      · rw [close_survived_superseded, hitem]
      · rw [close_survived_survivor, htarget]
      · rw [close_survived_to, if_neg, hto]
        rintro ⟨-, hopen⟩
        rw [hto] at hopen
        cases hopen
    · cases haction

/-- A revert keeps the rows dated. -/
theorem dated_revert {now : Instant} {opened : Supersession} {used : Set Instant}
    (h : Dated start trace db.supersessions) (hchained : Chained db.supersessions db.nextId used)
    (htimes : (instants trace).Nodup) (hmem : opened ∈ db.supersessions)
    (hopen : opened.validTo = none) (hrun : execute Action.apply start trace = .ok db)
    (hstep : Action.apply db (.revert now opened.id) = .ok next)
    (hrows : next.supersessions = db.supersessions.map (restoreRow opened now)) :
    Dated start (trace ++ [.revert now opened.id]) next.supersessions := by
  constructor
  case opened =>
    rw [hrows]
    intro row hrow
    obtain ⟨old, hold, rfl⟩ := List.mem_map.mp hrow
    rw [restore_row_from]
    exact (h.opened old hold).snoc
  case closed =>
    intro row hrow t hto
    rw [hrows] at hrow
    obtain ⟨old, hold, rfl⟩ := List.mem_map.mp hrow
    rw [restore_row_superseded, restore_row_survivor]
    rcases restore_row_cases opened now old with ⟨hclass, hclosed⟩ | ⟨-, -, hreopened⟩ | ⟨-, hsame⟩
    · obtain rfl := Option.some.inj (hclosed.symm.trans hto)
      have hin : restoreRow opened now old ∈ next.supersessions := hrows ▸ hrow
      exact Or.inr ⟨trace, [], opened.id, db, next, rfl, hrun, hstep, old, hold, rfl, rfl,
        class_open hchained hmem hopen hold hclass, _, hin, restore_row_id old, hclosed⟩
    · rw [hto] at hreopened
      cases hreopened
    · exact (h.closed old hold t (hsame.symm.trans hto)).imp MergedAt.snoc ClosedByRevert.snoc
  case kept =>
    intro item target t hclosed
    rcases closed_by_revert_snoc hrun hstep hclosed with hbefore |
      ⟨id, -, row, hrow, rfl, rfl, -, closed, hin, hid, hto⟩
    · obtain ⟨row, hrow, rfl, rfl, hto⟩ := h.kept item target t hbefore
      refine ⟨restoreRow opened now row, hrows ▸ List.mem_map_of_mem hrow,
        restore_row_superseded row, restore_row_survivor row, ?_⟩
      rcases restore_row_cases opened now row with ⟨hclass, -⟩ | ⟨-, hmerged, -⟩ | ⟨-, hsame⟩
      · have hnone := class_open hchained hmem hopen hrow hclass
        rw [hto] at hnone
        cases hnone
      · -- only rows a merge closed are reopened
        obtain ⟨before, after, id, -, -, htrace, -⟩ := hbefore
        have hsame : t = opened.validFrom := Option.some.inj (hto.symm.trans hmerged)
        have hrevert : Action.revert t id ∈ trace := by
          rw [htrace]
          exact List.mem_append_right _ List.mem_cons_self
        exact (merge_revert_apart htimes (hsame ▸ h.opened opened hmem) hrevert).elim
      · rw [hsame, hto]
    · rw [hrows] at hin
      obtain ⟨old, hold, rfl⟩ := List.mem_map.mp hin
      rw [restore_row_id] at hid
      obtain rfl := hchained.eq_of_id hold hrow hid
      exact ⟨_, hrows ▸ hin, restore_row_superseded old, restore_row_survivor old, hto⟩

end Steps

/-- Every run of transactions at distinct instants dates its rows. -/
theorem run_dated {start db : Db} {trace : List Action} (hempty : start.supersessions = [])
    (htimes : (instants trace).Nodup) (hrun : execute Action.apply start trace = .ok db) :
    Dated start trace db.supersessions := by
  refine execute_induction (motive := fun trace db => (instants trace).Nodup →
    Dated start trace db.supersessions) ?_ ?_ hrun htimes
  · intro _
    rw [hempty]
    refine ⟨nofun, nofun, ?_⟩
    rintro superseded survivor t ⟨before, after, id, -, -, htrace, -⟩
    exact absurd htrace.symm (List.append_ne_nil_of_right_ne_nil _ (List.cons_ne_nil _ _))
  · intro trace action db next hrun ih hstep hnodup
    obtain ⟨hbefore, hnow, -⟩ := instants_snoc hnodup
    have hdated := ih hbefore
    have hchained := run_chained hempty hbefore hrun
    rcases apply_rows hchained hnow hstep with hrows |
      ⟨now, superseded, survivor, cause, decisionRef, rfl, hne, hrows⟩ |
      ⟨now, opened, hmem, rfl, hopen, -, hrows⟩
    · rw [hrows]
      refine ⟨fun row hrow => (hdated.opened row hrow).snoc, fun row hrow t hto =>
        (hdated.closed row hrow t hto).imp MergedAt.snoc ClosedByRevert.snoc, ?_⟩
      intro superseded survivor t hclosed
      rcases closed_by_revert_snoc hrun hstep hclosed with hclosed |
        ⟨id, -, row, hrow, hitem, htarget, hopen, closed, hin, hid, hto⟩
      · exact hdated.kept superseded survivor t hclosed
      · rw [hrows] at hin
        obtain rfl := hchained.eq_of_id hin hrow hid
        rw [hopen] at hto
        cases hto
    · exact dated_merge hdated hne hrun hstep hrows
    · exact dated_revert hdated hchained hbefore hmem hopen hrun hstep hrows

/-! ## What is reported -/

section Report

variable {rows : LedgerRows} {group : List Nat} {asOf : Option Instant} {kind : String}

theorem mem_events {event : Event} {rule : String} :
    (event, rule) ∈ rows.events group asOf kind ↔ event ∈ rows.allEvents group kind ∧
      visible event.instant asOf ∧ rule = event.detail.rule := by
  rw [LedgerRows.events, List.mem_map]
  constructor
  · rintro ⟨found, hfound, heq⟩
    obtain ⟨rfl, rfl⟩ := Prod.mk.inj heq
    obtain ⟨hall, hvisible⟩ := List.mem_filter.mp (mem_sort_by.mp hfound)
    rw [decide_eq_true_eq] at hvisible
    exact ⟨hall, hvisible, rfl⟩
  · rintro ⟨hall, hvisible, rfl⟩
    exact ⟨event, mem_sort_by.mpr (List.mem_filter.mpr ⟨hall, decide_eq_true hvisible⟩), rfl⟩

theorem mem_later_events {item : Nat} {discogsAt : Option Instant} {linked : Bool}
    {entries : List Alias} {event : Event} (h : event ∈ laterEvents item discogsAt linked entries) :
    ∃ entry ∈ entries, event.instant = entry.validFrom ∧
      (event.detail = .linkedAtIngest item ∨
        event.detail = .evidenceAttached entry.provider entry.source) := by
  induction entries generalizing linked with
  | nil => exact absurd h List.not_mem_nil
  | cons entry entries ih =>
      have hrest : ∀ {linked}, event ∈ laterEvents item discogsAt linked entries →
          ∃ entry' ∈ entry :: entries, event.instant = entry'.validFrom ∧
            (event.detail = .linkedAtIngest item ∨
              event.detail = .evidenceAttached entry'.provider entry'.source) := by
        intro linked hin
        obtain ⟨found, hfound, hevent⟩ := ih hin
        exact ⟨found, List.mem_cons_of_mem _ hfound, hevent⟩
      unfold laterEvents at h
      split at h
      · rcases List.mem_cons.mp h with rfl | hin
        · exact ⟨entry, List.mem_cons_self, rfl, Or.inl rfl⟩
        · exact hrest hin
      · rcases List.mem_cons.mp h with rfl | hin
        · exact ⟨entry, List.mem_cons_self, rfl, Or.inr rfl⟩
        · exact hrest hin

/-- An item reports its mint, its later aliases and the closings of its aliases. -/
theorem mem_item_events {item : Nat} {event : Event} (h : event ∈ rows.itemEvents item) :
    ∃ mint, rows.mint item = some mint ∧
      ((∃ providers, event = .recorded mint (.minted item providers)) ∨
        (∃ entry ∈ rows.laterAliases item mint, event.instant = entry.validFrom ∧
          (event.detail = .linkedAtIngest item ∨
            event.detail = .evidenceAttached entry.provider entry.source)) ∨
        ∃ entry ∈ rows.byItem item, ¬rows.closedBySupersession entry ∧ ∃ t,
          entry.validTo = some t ∧ event = .recorded t (.aliasClosed entry.provider)) := by
  unfold LedgerRows.itemEvents at h
  split at h
  · exact absurd h List.not_mem_nil
  · rename_i mint hmint
    refine ⟨mint, hmint, ?_⟩
    rcases List.mem_cons.mp h with rfl | h
    · exact Or.inl ⟨_, rfl⟩
    · rcases List.mem_append.mp h with h | h
      · exact Or.inr (Or.inl (mem_later_events h))
      · obtain ⟨entry, hentry, hevent⟩ := List.mem_filterMap.mp h
        split at hevent
        · cases hevent
        · rename_i hopen
          obtain ⟨t, hto, rfl⟩ := Option.map_eq_some_iff.mp hevent
          exact Or.inr (Or.inr ⟨entry, hentry, hopen, t, hto, rfl⟩)

/-- The ledger reports a reversal of the pair at this instant. -/
def ReportsReversal (rows : LedgerRows) (group : List Nat) (kind : String)
    (superseded survivor : Nat) (t : Instant) : Prop :=
  ∃ event ∈ rows.events group none kind,
    event.1.instant = t ∧ event.1.detail = .reverted superseded survivor

/-- A reversal is reported for every closed row of the group. -/
theorem reports_reversal_iff {superseded survivor : Nat} {t : Instant} :
    ReportsReversal rows group kind superseded survivor t ↔
      ∃ row ∈ rows.supersessions, touches group row ∧ row.supersededId = superseded ∧
        row.survivorId = survivor ∧ row.validTo = some t := by
  constructor
  · rintro ⟨⟨event, rule⟩, hin, rfl, hdetail⟩
    obtain ⟨hall, -⟩ := mem_events.mp hin
    rw [LedgerRows.allEvents, List.mem_append, List.mem_append] at hall
    rcases hall with (hitem | hrow) | hlink
    · obtain ⟨item, -, hitem⟩ := List.mem_flatMap.mp hitem
      obtain ⟨mint, -, ⟨providers, rfl⟩ | ⟨entry, -, -, hlater | hlater⟩ |
        ⟨entry, -, -, t, -, rfl⟩⟩ := mem_item_events hitem
      · cases hdetail
      · rw [hlater] at hdetail
        cases hdetail
      · rw [hlater] at hdetail
        cases hdetail
      · cases hdetail
    · obtain ⟨row, hrow, hevent⟩ := List.mem_flatMap.mp hrow
      obtain ⟨hmem, htouches⟩ := List.mem_filter.mp hrow
      rw [decide_eq_true_eq] at htouches
      rcases List.mem_cons.mp hevent with rfl | hevent
      · cases hdetail
      · obtain ⟨t, hto, rfl⟩ := Option.map_eq_some_iff.mp (Option.mem_toList.mp hevent)
        cases hdetail
        exact ⟨row, hmem, htouches, rfl, rfl, hto⟩
    · obtain ⟨change, -, rfl⟩ := List.mem_map.mp hlink
      cases hdetail
  · rintro ⟨row, hmem, htouches, rfl, rfl, hto⟩
    refine ⟨(.recorded t (.reverted row.supersededId row.survivorId), _), mem_events.mpr
      ⟨?_, nofun, rfl⟩, rfl, rfl⟩
    refine List.mem_append_left _ (List.mem_append_right _ (List.mem_flatMap.mpr
      ⟨row, List.mem_filter.mpr ⟨hmem, decide_eq_true htouches⟩, List.mem_cons_of_mem _ ?_⟩))
    rw [hto]
    exact List.mem_singleton.mpr rfl

end Report

/-- The rows of the ledger hold every supersession of the group's items. -/
def HoldsSupersessions (rows : LedgerRows) (db : Db) (group : List Nat) : Prop :=
  ∀ row, touches group row → (row ∈ rows.supersessions ↔ row ∈ db.supersessions)

/-- The ledger reports exactly the reverts of a history when, and only when, no row of the group
is closed by a merge. -/
theorem reversals_reported_iff (start db : Db) (trace : List Action) (rows : LedgerRows)
    (group : List Nat) (kind : String) (hempty : start.supersessions = [])
    (htimes : (instants trace).Nodup) (hrun : execute Action.apply start trace = .ok db)
    (hrows : HoldsSupersessions rows db group) :
    (∀ superseded survivor t, superseded ∈ group ∨ survivor ∈ group →
      (ReportsReversal rows group kind superseded survivor t ↔
        ClosedByRevert start trace superseded survivor t)) ↔
      ∀ row ∈ db.supersessions, touches group row →
        ∀ t, row.validTo = some t → ¬MergedAt trace t := by
  have hdated := run_dated hempty htimes hrun
  constructor
  · intro hexact row hrow htouches t hto hmerged
    have hreport : ReportsReversal rows group kind row.supersededId row.survivorId t :=
      reports_reversal_iff.mpr ⟨row, (hrows row htouches).mpr hrow, htouches, rfl, rfl, hto⟩
    obtain ⟨before, after, id, -, -, htrace, -⟩ :=
      (hexact row.supersededId row.survivorId t htouches.symm).mp hreport
    have hrevert : Action.revert t id ∈ trace := by
      rw [htrace]
      exact List.mem_append_right _ List.mem_cons_self
    exact merge_revert_apart htimes hmerged hrevert
  · intro hcondition superseded survivor t hgroup
    rw [reports_reversal_iff]
    constructor
    · rintro ⟨row, hrow, htouches, rfl, rfl, hto⟩
      have hin := (hrows row htouches).mp hrow
      exact (hdated.closed row hin t hto).resolve_left (hcondition row hin htouches t hto)
    · intro hclosed
      obtain ⟨row, hin, rfl, rfl, hto⟩ := hdated.kept superseded survivor t hclosed
      exact ⟨row, (hrows row hgroup.symm).mpr hin, hgroup.symm, rfl, rfl, hto⟩

/-- Ledger rows that hold the alias and supersession tables whole. -/
def wholeTables (db : Db) : LedgerRows :=
  { aliases := db.aliases, supersessions := db.supersessions, moveCounts := fun _ _ => none,
    discogsReleases := [], musicbrainzReleases := [], masterWorks := fun _ _ => none,
    linkEvents := [] }

theorem whole_tables_hold (db : Db) (group : List Nat) :
    HoldsSupersessions (wholeTables db) db group :=
  fun _ _ => Iff.rfl

/-- A merge and its revert. -/
def mergeReverted : List Action := [.merge 1 1 2 .catalogReattachment 50, .revert 2 100]

theorem merge_reverted_reported : ∃ db, execute Action.apply unmerged mergeReverted = .ok db ∧
    ∀ superseded survivor t, superseded ∈ [2] ∨ survivor ∈ [2] →
      (ReportsReversal (wholeTables db) [2] "release" superseded survivor t ↔
        ClosedByRevert unmerged mergeReverted superseded survivor t) := by
  refine ⟨_, rfl, (reversals_reported_iff unmerged _ mergeReverted _ [2] "release" rfl (by decide)
    rfl (whole_tables_hold _ _)).mpr ?_⟩
  rintro row hrow - t hto ⟨superseded, survivor, cause, decisionRef, hmerge⟩
  obtain rfl := List.mem_singleton.mp hrow
  cases hto
  simp [mergeReverted] at hmerge

/-- The row of the first merge of a chain, closed by the second. -/
def compressedChain : Supersession :=
  { id := 100, supersededId := 1, survivorId := 2, cause := .catalogReattachment, decisionRef := 50,
    validFrom := 1, validTo := some 2, viaId := none }

/-- The first merge of a chain is reported as reversed when the second compresses it. -/
theorem compressed_reported_reversed : ∃ db, execute Action.apply unmerged chainedMerges = .ok db ∧
    (wholeTables db).group 3 = [3, 1, 2] ∧
      ReportsReversal (wholeTables db) ((wholeTables db).group 3) "release" 1 2 2 ∧
        ¬ClosedByRevert unmerged chainedMerges 1 2 2 := by
  refine ⟨_, rfl, by decide, reports_reversal_iff.mpr
    ⟨compressedChain, by decide, by decide, rfl, rfl, rfl⟩, ?_⟩
  rintro ⟨before, after, id, -, -, htrace, -⟩
  have hmem : Action.revert 2 id ∈ chainedMerges := by
    rw [htrace]
    exact List.mem_append_right _ List.mem_cons_self
  simp [chainedMerges] at hmem

end CatalogApi.IdentityLedger
