import CatalogApi.IdentityLedger.Selection

/-!
# When the selected rows are enough

With the selected rows a holder is seen only among the fetched items, so a MusicBrainz row of an
edition can look unresolved whose Discogs release another item held then. The payload is the one all
rows give exactly when this changes no state (`selection_enough_iff`). It changes none where the
holders at the time are all fetched (`selection_enough_of_holders`), as they always are now
(`current_selection_enough`).
-/

namespace CatalogApi.IdentityLedger

open CatalogMerge ByKey

variable {rows : LedgerRows}

/-! ## Holders among some items -/

/-- The row's own item is among these, and none of them had the Discogs release it names. -/
def DanglingSeen (rows : LedgerRows) (seen : List Nat) (t : Option Instant)
    (row : MusicbrainzRelease) : Prop :=
  ∃ discogsId ∈ row.discogsReleaseId, ∃ item ∈ rows.holder "musicbrainz" "release" row.mbid t,
    item ∈ seen ∧
      ∀ other ∈ rows.holder "discogs" "release" (toString discogsId) t, other ∉ seen

/-- The row's own item is among these, and another of them had the Discogs release it names. -/
def ApartSeen (rows : LedgerRows) (seen : List Nat) (t : Option Instant)
    (row : MusicbrainzRelease) : Prop :=
  ∃ discogsId ∈ row.discogsReleaseId, ∃ item ∈ rows.holder "musicbrainz" "release" row.mbid t,
    item ∈ seen ∧
      ∃ other ∈ rows.holder "discogs" "release" (toString discogsId) t, other ∈ seen ∧ other ≠ item

instance (rows : LedgerRows) (seen : List Nat) (t : Option Instant) (row : MusicbrainzRelease) :
    Decidable (DanglingSeen rows seen t row) :=
  inferInstanceAs (Decidable (∃ _ ∈ _, ∃ _ ∈ _, _ ∧ ∀ _ ∈ _, _))

instance (rows : LedgerRows) (seen : List Nat) (t : Option Instant) (row : MusicbrainzRelease) :
    Decidable (ApartSeen rows seen t row) :=
  inferInstanceAs (Decidable (∃ _ ∈ _, ∃ _ ∈ _, _ ∧ ∃ _ ∈ _, _ ∧ _))

/-- The edition was linked, or the first of its MusicBrainz rows that is in either situation is in
the situation of the first that is among the items seen. -/
def StateCovered (rows : LedgerRows) (seen : List Nat) (edition : Nat) (t : Option Instant) : Prop :=
  (rows.held edition t "release" "discogs" ∧ rows.held edition t "release" "musicbrainz") ∨
    ((rows.musicbrainzRows edition).find? fun row => Dangling rows t row ∨ Apart rows t row).map
        (fun row => decide (Dangling rows t row)) =
      ((rows.musicbrainzRows edition).find? fun row =>
        DanglingSeen rows seen t row ∨ ApartSeen rows seen t row).map
          fun row => decide (DanglingSeen rows seen t row)

instance (rows : LedgerRows) (seen : List Nat) (edition : Nat) (t : Option Instant) :
    Decidable (StateCovered rows seen edition t) :=
  inferInstanceAs (Decidable (_ ∨ _))

/-! ## A state from its rows -/

/-- The state a dangling row and any other row in a situation says. -/
def namedState (dangling : Bool) : EditionState := if dangling then .unresolved else .split

/-- The two named states differ. -/
theorem named_state_inj {dangling dangling' : Bool}
    (h : namedState dangling = namedState dangling') : dangling = dangling' := by
  revert h
  revert dangling dangling'
  decide

theorem row_state_eq (t : Option Instant) (row : MusicbrainzRelease) :
    rows.rowState t row =
      if Dangling rows t row ∨ Apart rows t row then
        some (namedState (decide (Dangling rows t row)))
      else none := by
  by_cases hdangling : Dangling rows t row
  · rw [if_pos (Or.inl hdangling), row_state_iff.1.mpr hdangling, decide_eq_true hdangling]
    rfl
  · by_cases hapart : Apart rows t row
    · rw [if_pos (Or.inr hapart), row_state_iff.2.mpr hapart, decide_eq_false hdangling]
      rfl
    · rw [if_neg (not_or.mpr ⟨hdangling, hapart⟩)]
      refine Option.eq_none_iff_forall_not_mem.mpr fun state hstate => ?_
      rcases row_state_some hstate with rfl | rfl
      · exact hdangling (row_state_iff.1.mp hstate)
      · exact hapart (row_state_iff.2.mp hstate)

/-- The first row in a situation decides. -/
theorem find_row_state (t : Option Instant) (releases : List MusicbrainzRelease) :
    releases.findSome? (rows.rowState t) =
      ((releases.find? fun row => Dangling rows t row ∨ Apart rows t row).map
        fun row => decide (Dangling rows t row)).map namedState := by
  induction releases with
  | nil => rfl
  | cons row releases ih =>
      rw [List.findSome?_cons, List.find?_cons, row_state_eq]
      by_cases hrow : Dangling rows t row ∨ Apart rows t row
      · rw [if_pos hrow, decide_eq_true hrow]
        rfl
      · rw [if_neg hrow, decide_eq_false hrow]
        exact ih

/-- The state of an item none of whose MusicBrainz rows decides. -/
def plainState (rows : LedgerRows) (item : Nat) (group : List Nat) (t : Option Instant) :
    EditionState :=
  if rows.held item t "release" "discogs" then .discogsOnly
  else if rows.held item t "release" "musicbrainz" ∨ rows.groupHeld group t then .musicbrainzOnly
  else .notRecorded

theorem plain_state_ne (item : Nat) (group : List Nat) (t : Option Instant) (dangling : Bool) :
    namedState dangling ≠ plainState rows item group t := by
  rw [plainState]
  cases dangling with
  | false => split <;> [skip; split] <;> nofun
  | true => split <;> [skip; split] <;> nofun

theorem elim_named_iff {plain : EditionState} (hplain : ∀ dangling, namedState dangling ≠ plain)
    {named named' : Option Bool} :
    named.elim plain namedState = named'.elim plain namedState ↔ named' = named := by
  cases named with
  | none =>
      cases named' with
      | none => exact iff_of_true rfl rfl
      | some dangling => exact iff_of_false (fun heq => hplain dangling heq.symm) nofun
  | some dangling =>
      cases named' with
      | none => exact iff_of_false (hplain dangling) nofun
      | some dangling' =>
          exact ⟨fun heq => congrArg some (named_state_inj heq).symm,
            fun heq => by rw [Option.some.inj heq]⟩

/-- The state of an edition that is not linked. -/
theorem state_unlinked {edition : Nat} {t : Option Instant}
    (h : ¬(rows.held edition t "release" "discogs" ∧ rows.held edition t "release" "musicbrainz")) :
    rows.state edition (rows.group edition) t "release" =
      (((rows.musicbrainzRows edition).find? fun row =>
        Dangling rows t row ∨ Apart rows t row).map
          fun row => decide (Dangling rows t row)).elim
            (plainState rows edition (rows.group edition) t) namedState := by
  have hhead : (rows.group edition).headD edition = edition := rfl
  rw [LedgerRows.state, if_neg h]
  simp only [if_true, hhead, find_row_state]
  cases ((rows.musicbrainzRows edition).find? fun row =>
    Dangling rows t row ∨ Apart rows t row).map fun row => decide (Dangling rows t row) with
  | none => rfl
  | some dangling => rfl

/-- Whoever held the release of a MusicBrainz row of an edition, or the Discogs release the row
names, is seen. -/
structure HoldersSeen (rows : LedgerRows) (seen : List Nat) (edition : Nat) (t : Option Instant) :
    Prop where
  own : ∀ row ∈ rows.musicbrainzRows edition,
    ∀ item ∈ rows.holder "musicbrainz" "release" row.mbid t, item ∈ seen
  named : ∀ row ∈ rows.musicbrainzRows edition, ∀ discogsId ∈ row.discogsReleaseId,
    ∀ item ∈ rows.holder "discogs" "release" (toString discogsId) t, item ∈ seen

/-- An edition whose rows' holders are all seen is covered. -/
theorem covered_of_seen {seen : List Nat} {edition : Nat} {t : Option Instant}
    (h : HoldersSeen rows seen edition t) : StateCovered rows seen edition t := by
  obtain ⟨hown, hnamed⟩ := h
  have hdangling : ∀ row ∈ rows.musicbrainzRows edition,
      (DanglingSeen rows seen t row ↔ Dangling rows t row) := by
    intro row hrow
    constructor
    · rintro ⟨discogsId, hid, item, hitem, -, hnone⟩
      refine ⟨discogsId, hid, item, hitem, ?_⟩
      exact Option.eq_none_iff_forall_not_mem.mpr fun other hother =>
        hnone other hother (hnamed row hrow discogsId hid other hother)
    · rintro ⟨discogsId, hid, item, hitem, hnone⟩
      exact ⟨discogsId, hid, item, hitem, hown row hrow item hitem, by rw [hnone]; nofun⟩
  have hapart : ∀ row ∈ rows.musicbrainzRows edition,
      (ApartSeen rows seen t row ↔ Apart rows t row) := by
    intro row hrow
    constructor
    · rintro ⟨discogsId, hid, item, hitem, -, other, hother, -, hne⟩
      exact ⟨discogsId, hid, item, hitem, other, hother, hne⟩
    · rintro ⟨discogsId, hid, item, hitem, other, hother, hne⟩
      exact ⟨discogsId, hid, item, hitem, hown row hrow item hitem, other, hother,
        hnamed row hrow discogsId hid other hother, hne⟩
  refine Or.inr ?_
  generalize rows.musicbrainzRows edition = releases at hdangling hapart
  induction releases with
  | nil => rfl
  | cons row releases ih =>
      have hsame := hdangling row List.mem_cons_self
      have hsame' := hapart row List.mem_cons_self
      rw [List.find?_cons, List.find?_cons]
      simp only [hsame, hsame']
      split
      · simp only [Option.map_some, hsame]
      · exact ih (fun other hother => hdangling other (List.mem_cons_of_mem _ hother))
          fun other hother => hapart other (List.mem_cons_of_mem _ hother)

/-! ## The states of the selected rows -/

section Selection

variable (tables : LedgerTables) (work : Nat) (shown : List Nat)
  (hvalid : SingleValid tables.aliases)
include hvalid

/-- A holder is seen when it is one of the fetched items. -/
theorem selected_holder (provider kind externalId : String) (t : Option Instant) (item : Nat) :
    (tables.selectRows work shown).holder provider kind externalId t = some item ↔
      tables.allRows.holder provider kind externalId t = some item ∧
        item ∈ fetchedItems tables work shown := by
  rw [holder_iff _ (selected_valid tables work shown hvalid), holder_iff tables.allRows hvalid]
  constructor
  · rintro ⟨entry, hentry, hkey, hval, rfl⟩
    obtain ⟨hentry, hfetched⟩ := (mem_selected_aliases tables work shown).mp hentry
    exact ⟨⟨entry, hentry, hkey, hval, rfl⟩, hfetched⟩
  · rintro ⟨⟨entry, hentry, hkey, hval, rfl⟩, hfetched⟩
    exact ⟨entry, (mem_selected_aliases tables work shown).mpr ⟨hentry, hfetched⟩, hkey, hval, rfl⟩

theorem selected_dangling (t : Option Instant) (row : MusicbrainzRelease) :
    Dangling (tables.selectRows work shown) t row ↔
      DanglingSeen tables.allRows (fetchedItems tables work shown) t row := by
  simp only [Dangling, DanglingSeen, Option.mem_def, Option.eq_none_iff_forall_not_mem,
    selected_holder tables work shown hvalid, not_and, and_assoc]

/-- The selected rows tell apart what all rows do, as far as the holders were seen. -/
theorem selected_apart (t : Option Instant) (row : MusicbrainzRelease) :
    Apart (tables.selectRows work shown) t row ↔
      ApartSeen tables.allRows (fetchedItems tables work shown) t row := by
  simp only [Apart, ApartSeen, Option.mem_def, selected_holder tables work shown hvalid, and_assoc]

/-- A shown edition has the state all rows give exactly when it is covered. -/
theorem selected_state_iff {edition : Nat} (hedition : edition ∈ work :: shown)
    (t : Option Instant) :
    (tables.selectRows work shown).state edition ((tables.selectRows work shown).group edition) t
        "release" =
      tables.allRows.state edition (tables.allRows.group edition) t "release" ↔
        StateCovered tables.allRows (fetchedItems tables work shown) edition t := by
  have hcovers := select_covers tables work shown
  have hitem := root_selected tables work shown hedition
  have hgroup := root_group tables work shown hedition
  by_cases hlinked : tables.allRows.held edition t "release" "discogs" ∧
      tables.allRows.held edition t "release" "musicbrainz"
  · have hselected : (tables.selectRows work shown).held edition t "release" "discogs" ∧
        (tables.selectRows work shown).held edition t "release" "musicbrainz" := by
      rw [hcovers.held hitem, hcovers.held hitem]
      exact hlinked
    rw [LedgerRows.state, LedgerRows.state, if_pos hlinked, if_pos hselected]
    exact ⟨fun _ => Or.inl hlinked, fun _ => rfl⟩
  · have hselected : ¬((tables.selectRows work shown).held edition t "release" "discogs" ∧
        (tables.selectRows work shown).held edition t "release" "musicbrainz") := by
      rw [hcovers.held hitem, hcovers.held hitem]
      exact hlinked
    have hplain : plainState (tables.selectRows work shown) edition
          ((tables.selectRows work shown).group edition) t =
        plainState tables.allRows edition (tables.allRows.group edition) t := by
      rw [hcovers.group hitem]
      simp only [plainState, hcovers.held hitem, hcovers.group_held hgroup]
    rw [state_unlinked hlinked, state_unlinked hselected, hplain, StateCovered,
      or_iff_right hlinked, selected_musicbrainz_rows tables work shown hvalid hedition]
    simp only [selected_dangling tables work shown hvalid, selected_apart tables work shown hvalid]
    exact elim_named_iff (plain_state_ne edition (tables.allRows.group edition) t)

/-! ## The payload -/

/-- An edition has the planes all rows give exactly when its state is covered. -/
theorem selected_edition_iff {edition : Nat} (hedition : edition ∈ work :: shown)
    (asOf : Option Instant) :
    SameEdition ((tables.selectRows work shown).editionPayload asOf edition)
        (tables.allRows.editionPayload asOf edition) ↔
      StateCovered tables.allRows (fetchedItems tables work shown) edition asOf := by
  have hcovers := select_covers tables work shown
  have hitem := root_selected tables work shown hedition
  have hgroup := root_group tables work shown hedition
  rw [← selected_state_iff tables work shown hvalid hedition]
  constructor
  · exact fun h => (congrArg Edition.state h.planes).symm
  · intro hstate
    rw [hcovers.group hitem] at hstate
    constructor
    · simp only [LedgerRows.editionPayload, hcovers.group hitem, hstate,
        selected_works tables work shown hvalid hedition, hcovers.former_items hitem,
        hcovers.evidence hgroup]
    · rw [LedgerRows.editionPayload, LedgerRows.editionPayload]
      exact List.Perm.of_eq (selected_provider_rows tables work shown hvalid hedition)
    · simp only [LedgerRows.editionPayload, hcovers.group hitem]
      exact selected_events tables work shown hgroup (Or.inl rfl) asOf

/-- A payload of the selected rows is the one all rows give exactly when the state of every shown
edition is covered. -/
theorem selected_payload_iff (editions : List (Nat × Instant)) (requestedId : Option Nat)
    (asOf : Option Instant) (editionLimit : Nat) (refreshedAt : Option Instant)
    (hshown : (visibleEditions editions asOf).take editionLimit = shown) :
    SamePayload
        (buildWork (tables.selectRows work shown) work editions requestedId asOf editionLimit
          refreshedAt)
        (buildWork tables.allRows work editions requestedId asOf editionLimit refreshedAt) ↔
      ∀ edition ∈ shown,
        StateCovered tables.allRows (fetchedItems tables work shown) edition asOf := by
  have hcovers := select_covers tables work shown
  have hwork : work ∈ work :: shown := List.mem_cons_self
  have hitem := root_selected tables work shown hwork
  constructor
  · intro h edition hedition
    have heditions := h.editions
    rw [buildWork, buildWork, hshown] at heditions
    exact (selected_edition_iff tables work shown hvalid (List.mem_cons_of_mem _ hedition) asOf).mp
      (same_editions_iff.mp heditions edition hedition)
  · intro h
    constructor
    · simp only [buildWork, hcovers.master_state hitem, hcovers.work_providers hitem]
    · simp only [buildWork, hcovers.group hitem]
      exact selected_events tables work shown (root_group tables work shown hwork) (Or.inr rfl) asOf
    · rw [buildWork, buildWork, hshown]
      refine same_editions_iff.mpr fun edition hedition => ?_
      exact (selected_edition_iff tables work shown hvalid (List.mem_cons_of_mem _ hedition)
        asOf).mpr (h edition hedition)

/-- Now, the holders of every shown edition are fetched. -/
theorem seen_now {edition : Nat} (hedition : edition ∈ work :: shown) :
    HoldersSeen tables.allRows (fetchedItems tables work shown) edition none := by
  constructor
  · intro row hrow item hitem
    obtain ⟨current, hcurrent, hresolve⟩ := of_decide_eq_true (List.mem_filter.mp hrow).2
    obtain ⟨entry, hentry, hkey, hopen, rfl⟩ := (holder_iff tables.allRows hvalid).mp hitem
    have hsame := (current_alias_iff tables.allRows hvalid).mpr ⟨entry, hentry, hkey, hopen, rfl⟩
    rw [Option.mem_def, hsame] at hcurrent
    rw [← Option.some.inj hcurrent] at hresolve
    exact List.mem_append_left _
      (root_group tables work shown hedition _ (mem_group_of_resolve hresolve))
  · intro row hrow discogsId hid item hitem
    rw [← selected_musicbrainz_rows tables work shown hvalid hedition] at hrow
    obtain ⟨entry, hentry, hkey, hopen, rfl⟩ := (holder_iff tables.allRows hvalid).mp hitem
    obtain ⟨hprovider, hrest⟩ := Prod.mk.inj hkey
    obtain ⟨hkind, hexternal⟩ := Prod.mk.inj hrest
    rw [fetchedItems, List.mem_append]
    by_cases hselected : entry.nativeId ∈ tables.selectItems (work :: shown)
    · exact Or.inl hselected
    · refine Or.inr (mem_sorted_set.mpr (List.mem_filter.mpr ⟨List.mem_map.mpr ⟨entry, ?_, rfl⟩, ?_⟩))
      · rw [List.mem_filter, decide_eq_true_eq]
        refine ⟨hentry, hprovider, hkind, hopen, List.mem_filterMap.mpr ⟨row, ?_, ?_⟩⟩
        · exact List.mem_of_mem_filter hrow
        · rw [Option.mem_def.mp hid, hexternal]
          rfl
      · rw [decide_eq_true_eq]
        exact hselected

end Selection

section Payload

variable (tables : LedgerTables) (workId : Nat) (asOf : Option Instant) (editionLimit : Nat)

/-- The editions `get_ledger_work` shows. -/
def shownEditions : List Nat :=
  (visibleEditions (tables.editions (resolveItem tables.supersessions workId)) asOf).take
    editionLimit

/-- The items whose aliases `get_ledger_work` reads. -/
def readItems : List Nat :=
  fetchedItems tables (resolveItem tables.supersessions workId)
    (shownEditions tables workId asOf editionLimit)

/-- `build_work` of every row of the tables, with the same edition list. -/
def fullPayload : WorkPayload :=
  buildWork tables.allRows (resolveItem tables.supersessions workId)
    (tables.editions (resolveItem tables.supersessions workId)) (some workId) asOf editionLimit
    tables.refreshedAt

/-- The answer for a work is built from the selected rows. -/
theorem get_ledger_work_eq {payload : WorkPayload}
    (hpayload : tables.getLedgerWork workId asOf editionLimit = some payload) :
    payload = buildWork (tables.selectRows (resolveItem tables.supersessions workId)
        (shownEditions tables workId asOf editionLimit))
      (resolveItem tables.supersessions workId)
      (tables.editions (resolveItem tables.supersessions workId)) (some workId) asOf editionLimit
      tables.refreshedAt := by
  rw [LedgerTables.getLedgerWork] at hpayload
  split at hpayload
  case isFalse => cases hpayload
  case isTrue hkind => exact (Option.some.inj hpayload).symm

/-- The payload of a work is the one all rows give exactly when the state of every shown edition is
covered by the items read. -/
theorem selection_enough_iff (hvalid : SingleValid tables.aliases) {payload : WorkPayload}
    (hpayload : tables.getLedgerWork workId asOf editionLimit = some payload) :
    SamePayload payload (fullPayload tables workId asOf editionLimit) ↔
      ∀ edition ∈ shownEditions tables workId asOf editionLimit,
        StateCovered tables.allRows (readItems tables workId asOf editionLimit) edition asOf := by
  rw [get_ledger_work_eq tables workId asOf editionLimit hpayload]
  exact selected_payload_iff tables _ _ hvalid _ _ _ _ _ rfl

/-- Where all holders at the time are read, the selected rows are enough. -/
theorem selection_enough_of_holders (hvalid : SingleValid tables.aliases) {payload : WorkPayload}
    (hpayload : tables.getLedgerWork workId asOf editionLimit = some payload)
    (hseen : ∀ edition ∈ shownEditions tables workId asOf editionLimit,
      HoldersSeen tables.allRows (readItems tables workId asOf editionLimit) edition asOf) :
    SamePayload payload (fullPayload tables workId asOf editionLimit) := by
  rw [get_ledger_work_eq tables workId asOf editionLimit hpayload]
  exact (selected_payload_iff tables _ _ hvalid _ _ _ _ _ rfl).mpr fun edition hedition =>
    covered_of_seen (hseen edition hedition)

/-- Now, the selected rows are enough. -/
theorem current_selection_enough (hvalid : SingleValid tables.aliases) {payload : WorkPayload}
    (hpayload : tables.getLedgerWork workId none editionLimit = some payload) :
    SamePayload payload (fullPayload tables workId none editionLimit) :=
  selection_enough_of_holders tables workId none editionLimit hvalid hpayload fun _ hedition =>
    seen_now tables _ _ hvalid (List.mem_cons_of_mem _ hedition)

end Payload

/-! ## A Discogs release that moved -/

/-- A MusicBrainz release id. -/
def sampleMbid : String := "00000000-0000-0000-0000-000000000001"

/-- Work 9 with edition 1, whose MusicBrainz row names Discogs release 5; items 3 and 4 held that
release, one after the other. -/
def movedAliases : List Alias :=
  [{ provider := "musicbrainz", entityKind := "release", externalId := sampleMbid, nativeId := 1,
     source := "ingest", confidence := none, validFrom := 0, validTo := none },
   { provider := "discogs", entityKind := "release", externalId := "5", nativeId := 3,
     source := "ingest", confidence := none, validFrom := 0, validTo := some 10 },
   { provider := "discogs", entityKind := "release", externalId := "5", nativeId := 4,
     source := "ingest", confidence := none, validFrom := 10, validTo := none }]

def crossedTables : LedgerTables where
  kinds item := if item = 9 then some .master else none
  aliases := movedAliases
  supersessions := []
  moves := []
  releases := []
  derivedFrom := []
  musicbrainzReleases := [⟨sampleMbid, none, some 5⟩]
  linkEvents := []
  editions _ := [(1, 0)]
  refreshedAt := none
  mbids := by decide

theorem moved_aliases_valid : SingleValid movedAliases := by
  intro t a ha b hb hkey hva hvb
  simp only [movedAliases, List.mem_cons, List.not_mem_nil, or_false] at ha hb
  rcases ha with rfl | rfl | rfl
  · rcases hb with rfl | rfl | rfl
    · rfl
    · exact absurd hkey (by decide)
    · exact absurd hkey (by decide)
  · rcases hb with rfl | rfl | rfl
    · exact absurd hkey (by decide)
    · rfl
    · exact absurd hvb.1 (not_le.mpr (hva.2 10 rfl))
  · rcases hb with rfl | rfl | rfl
    · exact absurd hkey (by decide)
    · exact absurd hva.1 (not_le.mpr (hvb.2 10 rfl))
    · rfl

/-- Once the release has moved, the item it was moved to is read. -/
theorem later_selection_enough :
    ∃ payload, crossedTables.getLedgerWork 9 (some 12) 10 = some payload ∧
      SamePayload payload (fullPayload crossedTables 9 (some 12) 10) :=
  ⟨_, rfl, (selection_enough_iff crossedTables 9 (some 12) 10 moved_aliases_valid rfl).mpr
    (by decide)⟩

/-- Before it moved, the item that held the release is not read, and the split edition looks
unresolved. -/
theorem past_holder_missed :
    (SingleValid crossedTables.aliases ∧ crossedTables.supersessions = []) ∧
      ∃ payload, crossedTables.getLedgerWork 9 (some 5) 10 = some payload ∧
        payload.editions.map Edition.state = [.unresolved] ∧
        (fullPayload crossedTables 9 (some 5) 10).editions.map Edition.state = [.split] ∧
        ¬SamePayload payload (fullPayload crossedTables 9 (some 5) 10) := by
  refine ⟨⟨moved_aliases_valid, rfl⟩, _, rfl, by decide, by decide, fun h => ?_⟩
  have hstates := h.states
  revert hstates
  decide

end CatalogApi.IdentityLedger
