import CatalogApi.IdentityLedger.Reordered

/-!
# Where the order of the rows shows

Each list of the payload is sorted, so an order of the rows shows where two rows tie and say
different things. For each plane the rows of which do so are named (`FormerSettled`,
`EvidenceSettled`, `ProvidersSettled`, `LinkSettled`, `StateSettled`), and a plane is the same in
every order exactly when they are settled.
-/

namespace CatalogApi.IdentityLedger

open CatalogMerge ByKey

variable {rows rows' : LedgerRows}

/-! ## Rows with one of them first -/

namespace LedgerRows

/-- The rows with this alias first. -/
def aliasFirst (rows : LedgerRows) (entry : Alias) : LedgerRows :=
  { rows with aliases := front entry rows.aliases }

/-- The rows with this supersession first. -/
def supersessionFirst (rows : LedgerRows) (row : Supersession) : LedgerRows :=
  { rows with supersessions := front row rows.supersessions }

/-- The rows with this MusicBrainz row first. -/
def musicbrainzFirst (rows : LedgerRows) (row : MusicbrainzRelease) : LedgerRows :=
  { rows with musicbrainzReleases := front row rows.musicbrainzReleases }

end LedgerRows

theorem alias_first_reordered {entry : Alias} (hentry : entry ∈ rows.aliases) :
    Reordered rows (rows.aliasFirst entry) where
  aliases := front_perm hentry
  supersessions := List.Perm.refl _
  moveCounts := rfl
  discogsReleases := List.Perm.refl _
  musicbrainzReleases := List.Perm.refl _
  masterWorks := rfl
  linkEvents := List.Perm.refl _

theorem supersession_first_reordered {row : Supersession} (hrow : row ∈ rows.supersessions) :
    Reordered rows (rows.supersessionFirst row) where
  aliases := List.Perm.refl _
  supersessions := front_perm hrow
  moveCounts := rfl
  discogsReleases := List.Perm.refl _
  musicbrainzReleases := List.Perm.refl _
  masterWorks := rfl
  linkEvents := List.Perm.refl _

theorem musicbrainz_first_reordered {row : MusicbrainzRelease}
    (hrow : row ∈ rows.musicbrainzReleases) : Reordered rows (rows.musicbrainzFirst row) where
  aliases := List.Perm.refl _
  supersessions := List.Perm.refl _
  moveCounts := rfl
  discogsReleases := List.Perm.refl _
  musicbrainzReleases := front_perm hrow
  masterWorks := rfl
  linkEvents := List.Perm.refl _

/-- The aliases of an item with its first one first, those of other items as they were. -/
theorem by_item_first (entry : Alias) :
    (rows.aliasFirst entry).byItem entry.nativeId =
      entry :: (rows.aliases.erase entry).filter fun other => other.nativeId = entry.nativeId :=
  filter_front_of_pos (by simp) rows.aliases

theorem by_item_other {entry : Alias} {item : Nat} (hne : entry.nativeId ≠ item) :
    (rows.aliasFirst entry).byItem item = rows.byItem item :=
  filter_front_of_neg (by simpa using hne) rows.aliases

theorem mem_by_item {item : Nat} {entry : Alias} :
    entry ∈ rows.byItem item ↔ entry ∈ rows.aliases ∧ entry.nativeId = item := by
  simp [LedgerRows.byItem]

/-! ## Former items -/

/-- The supersessions of the former items of an edition. -/
def Former (rows : LedgerRows) (edition : Nat) (asOf : Option Instant) (row : Supersession) : Prop :=
  row.survivorId = edition ∧ row.supersededId ∈ rows.group edition ∧ visible row.validFrom asOf

instance (rows : LedgerRows) (edition : Nat) (asOf : Option Instant) (row : Supersession) :
    Decidable (Former rows edition asOf row) :=
  inferInstanceAs (Decidable (_ ∧ _ ∧ _))

/-- Supersessions of one item into the edition that opened at one instant have one cause and one
decision. -/
def FormerSettled (rows : LedgerRows) (edition : Nat) (asOf : Option Instant) : Prop :=
  ∀ r ∈ rows.supersessions, ∀ s ∈ rows.supersessions, Former rows edition asOf r →
    Former rows edition asOf s → formerOrder r = formerOrder s →
      r.cause = s.cause ∧ r.decisionRef = s.decisionRef

instance (rows : LedgerRows) (edition : Nat) (asOf : Option Instant) :
    Decidable (FormerSettled rows edition asOf) :=
  inferInstanceAs (Decidable (∀ r ∈ _, ∀ s ∈ _, _ → _ → _ → _ ∧ _))

/-- The former item of a supersession. -/
def formerItem (row : Supersession) : FormerItem :=
  { gmId := row.supersededId, supersededAt := row.validFrom, cause := row.cause,
    decisionRef := row.decisionRef }

/-- The order of the former items of the payload. -/
def formerItemOrder (item : FormerItem) : Instant ×ₗ Nat := toLex (item.supersededAt, item.gmId)

theorem former_items_eq (edition : Nat) (asOf : Option Instant) :
    rows.formerItems edition asOf = sortBy formerItemOrder
      ((rows.supersessions.filter fun row => Former rows edition asOf row).map formerItem) := by
  calc rows.formerItems edition asOf
      = ((sortBy formerOrder rows.supersessions).filter fun row =>
          Former rows edition asOf row).map formerItem := rfl
    _ = (sortBy formerOrder (rows.supersessions.filter fun row =>
          Former rows edition asOf row)).map formerItem := by rw [filter_sort_by]
    _ = _ := by
        refine map_sort_by (fun row => ?_) _
        rfl

theorem former_item_eq_iff {r s : Supersession} (horder : formerOrder r = formerOrder s) :
    formerItem r = formerItem s ↔ r.cause = s.cause ∧ r.decisionRef = s.decisionRef := by
  obtain ⟨hfrom, hitem⟩ := Prod.mk.inj (toLex.injective horder)
  simp [formerItem, hfrom, hitem]

theorem Reordered.former_items (h : Reordered rows rows') {edition : Nat} {asOf : Option Instant}
    (hsettled : FormerSettled rows edition asOf) :
    rows.formerItems edition asOf = rows'.formerItems edition asOf := by
  have hformer : (rows'.supersessions.filter fun row => Former rows' edition asOf row) =
      rows'.supersessions.filter fun row => Former rows edition asOf row := by
    refine List.filter_congr fun row _ => ?_
    rw [decide_eq_decide, Former, Former, h.group]
  rw [former_items_eq, former_items_eq, hformer]
  refine sort_by_congr fun k => filter_eq_of_perm ((h.supersessions.filter _).map _) ?_
  intro x hx y hy hxk hyk
  obtain ⟨r, hr, rfl⟩ := List.mem_map.mp hx
  obtain ⟨s, hs, rfl⟩ := List.mem_map.mp hy
  obtain ⟨hr, hfr⟩ := List.mem_filter.mp hr
  obtain ⟨hs, hfs⟩ := List.mem_filter.mp hs
  rw [decide_eq_true_eq] at hxk hyk hfr hfs
  have horder : formerOrder r = formerOrder s := hxk.trans hyk.symm
  exact (former_item_eq_iff horder).mpr (hsettled r hr s hs hfr hfs horder)

/-- With a supersession first, its former item is the first of its class. -/
theorem find_former_first {edition : Nat} {asOf : Option Instant} {row : Supersession}
    (hrow : row ∈ rows.supersessions) (hformer : Former rows edition asOf row) :
    ((rows.supersessionFirst row).formerItems edition asOf).find?
      (fun item => formerItemOrder item = formerOrder row ∧ true) = some (formerItem row) := by
  have hfirst : Former (rows.supersessionFirst row) edition asOf row := by
    rw [Former, ← (supersession_first_reordered hrow).group]
    exact hformer
  have hcons : (rows.supersessionFirst row).supersessions =
      row :: rows.supersessions.erase row := rfl
  rw [former_items_eq, find_sort_by _ (fun _ => true), List.find?_map, hcons,
    List.filter_cons_of_pos (by simpa using hfirst), List.find?_cons_of_pos]
  · rfl
  · simp only [Function.comp_apply, and_true, decide_eq_true_eq]
    rfl

theorem former_settled_of_eq {edition : Nat} {asOf : Option Instant}
    (hsame : ∀ rows', Reordered rows rows' →
      rows.formerItems edition asOf = rows'.formerItems edition asOf) :
    FormerSettled rows edition asOf := by
  intro r hr s hs hfr hfs horder
  have hfindr := find_former_first hr hfr
  have hfinds := find_former_first hs hfs
  rw [← hsame _ (supersession_first_reordered hr)] at hfindr
  rw [← hsame _ (supersession_first_reordered hs), ← horder, hfindr] at hfinds
  exact (former_item_eq_iff horder).mp (Option.some.inj hfinds)

/-! ## Evidence -/

/-- The visible alias rows of one member of a group that tie in the payload's order have one source
and one visible closing. -/
def EvidenceSettled (rows : LedgerRows) (group : List Nat) (asOf : Option Instant) : Prop :=
  ∀ member ∈ group, ∀ a ∈ rows.byItem member, ∀ b ∈ rows.byItem member,
    visible a.validFrom asOf → aliasOrder a = aliasOrder b →
      a.source = b.source ∧ visibleClose a asOf = visibleClose b asOf

instance (rows : LedgerRows) (group : List Nat) (asOf : Option Instant) :
    Decidable (EvidenceSettled rows group asOf) :=
  inferInstanceAs (Decidable (∀ member ∈ _, ∀ a ∈ _, ∀ b ∈ _, _ → _ → _ ∧ _))

/-- The order of the evidence rows of the payload. -/
def evidenceOrder (row : Evidence) : Instant ×ₗ String ×ₗ String :=
  toLex (row.validFrom, toLex (row.provider, row.externalId))

theorem alias_order_eq {a b : Alias} (horder : aliasOrder a = aliasOrder b) :
    a.validFrom = b.validFrom ∧ a.provider = b.provider ∧ a.externalId = b.externalId := by
  obtain ⟨hfrom, hrest⟩ := Prod.mk.inj (toLex.injective horder)
  exact ⟨hfrom, Prod.mk.inj (toLex.injective hrest)⟩

theorem evidence_eq (group : List Nat) (asOf : Option Instant) :
    rows.evidence group asOf = sortBy evidenceOrder (group.flatMap fun member =>
      ((rows.byItem member).filter fun entry => visible entry.validFrom asOf).map
        (rows.evidenceRow asOf)) := by
  rw [LedgerRows.evidence, filter_sort_by, List.filter_flatMap, ← List.map_flatMap]
  refine map_sort_by (fun entry => ?_) _
  rfl

theorem visible_close_some {entry : Alias} {asOf : Option Instant} {t : Instant}
    (h : visibleClose entry asOf = some t) : entry.validTo = some t :=
  (Option.filter_eq_some_iff.mp h).1

/-- Alias rows of one item that tie have the same evidence row when they agree. -/
theorem evidence_row_eq_iff {a b : Alias} {asOf : Option Instant} (hitem : a.nativeId = b.nativeId)
    (horder : aliasOrder a = aliasOrder b) :
    rows.evidenceRow asOf a = rows.evidenceRow asOf b ↔
      a.source = b.source ∧ visibleClose a asOf = visibleClose b asOf := by
  obtain ⟨hfrom, hprovider, hexternal⟩ := alias_order_eq horder
  constructor
  · intro heq
    exact ⟨congrArg Evidence.source heq, congrArg Evidence.validTo heq⟩
  · rintro ⟨hsource, hclose⟩
    have hopened : rows.openedBySupersession a ↔ rows.openedBySupersession b := by
      rw [LedgerRows.openedBySupersession, LedgerRows.openedBySupersession, hitem, hfrom]
    have hclosed : (visibleClose b asOf).map (fun _ =>
          if rows.closedBySupersession a then ClosedBy.supersession else .other) =
        (visibleClose b asOf).map fun _ =>
          if rows.closedBySupersession b then ClosedBy.supersession else .other := by
      cases hb : visibleClose b asOf with
      | none => rfl
      | some t =>
          have hta := visible_close_some (hclose.trans hb)
          have htb := visible_close_some hb
          simp only [LedgerRows.closedBySupersession, hitem, hta, htb]
    simp only [LedgerRows.evidenceRow, hitem, hfrom, hprovider, hexternal, hsource, hclose, hclosed,
      hopened]

theorem Reordered.evidence_row (h : Reordered rows rows') (asOf : Option Instant) :
    rows.evidenceRow asOf = rows'.evidenceRow asOf := by
  funext entry
  simp only [LedgerRows.evidenceRow, h.mint, h.opened_by_supersession, h.closed_by_supersession]

theorem Reordered.evidence (h : Reordered rows rows') {group : List Nat} {asOf : Option Instant}
    (hsettled : EvidenceSettled rows group asOf) :
    rows.evidence group asOf = rows'.evidence group asOf := by
  rw [evidence_eq, evidence_eq, ← h.evidence_row]
  refine sort_by_congr fun k => ?_
  rw [List.filter_flatMap, List.filter_flatMap]
  refine List.flatMap_congr fun member hmember => ?_
  refine filter_eq_of_perm (((h.by_item member).filter _).map _) ?_
  intro x hx y hy hxk hyk
  obtain ⟨a, ha, rfl⟩ := List.mem_map.mp hx
  obtain ⟨b, hb, rfl⟩ := List.mem_map.mp hy
  obtain ⟨ha, hvisible⟩ := List.mem_filter.mp ha
  have hb := List.mem_of_mem_filter hb
  rw [decide_eq_true_eq] at hxk hyk hvisible
  have horder : aliasOrder a = aliasOrder b := hxk.trans hyk.symm
  have hitem : a.nativeId = b.nativeId := (mem_by_item.mp ha).2.trans (mem_by_item.mp hb).2.symm
  exact (evidence_row_eq_iff hitem horder).mpr (hsettled member hmember a ha b hb hvisible horder)

/-- With an alias first, its evidence row is the first of its item in its class. -/
theorem find_evidence_first {group : List Nat} {asOf : Option Instant} {entry : Alias}
    (hentry : entry ∈ rows.aliases) (hmember : entry.nativeId ∈ group)
    (hvisible : visible entry.validFrom asOf) :
    ((rows.aliasFirst entry).evidence group asOf).find?
      (fun row => evidenceOrder row = aliasOrder entry ∧ row.heldBy = entry.nativeId) =
        some (rows.evidenceRow asOf entry) := by
  have hfind := find_sort_by evidenceOrder (fun row => row.heldBy = entry.nativeId)
  simp only [decide_eq_true_eq] at hfind
  rw [evidence_eq, hfind, List.find?_flatMap, ← (alias_first_reordered hentry).evidence_row]
  refine find_some_eq hmember ?_ fun member _ row hrow => ?_
  · rw [by_item_first, List.filter_cons_of_pos (by simpa using hvisible), List.map_cons,
      List.find?_cons_of_pos]
    rw [decide_eq_true_eq]
    exact ⟨rfl, rfl⟩
  · have hmem := List.mem_of_find?_eq_some hrow
    have hprop := List.find?_some hrow
    rw [decide_eq_true_eq] at hprop
    obtain ⟨other, hother, rfl⟩ := List.mem_map.mp hmem
    have hitem := (mem_by_item.mp (List.mem_of_mem_filter hother)).2
    have hsame : member = entry.nativeId := hitem.symm.trans hprop.2
    subst hsame
    rw [by_item_first, List.filter_cons_of_pos (by simpa using hvisible), List.map_cons,
      List.find?_cons_of_pos] at hrow
    · exact (Option.some.inj hrow).symm
    · rw [decide_eq_true_eq]
      exact ⟨rfl, rfl⟩

theorem evidence_settled_of_eq {group : List Nat} {asOf : Option Instant}
    (hsame : ∀ rows', Reordered rows rows' →
      rows.evidence group asOf = rows'.evidence group asOf) :
    EvidenceSettled rows group asOf := by
  intro member hmember a hown b hother hvisible horder
  obtain ⟨ha, rfl⟩ := mem_by_item.mp hown
  obtain ⟨hb, hitem⟩ := mem_by_item.mp hother
  have hvisibleb : visible b.validFrom asOf := (alias_order_eq horder).1 ▸ hvisible
  have hfinda := find_evidence_first ha hmember hvisible
  have hfindb := find_evidence_first hb (hitem ▸ hmember) hvisibleb
  rw [← hsame _ (alias_first_reordered ha)] at hfinda
  rw [← hsame _ (alias_first_reordered hb), ← horder, hitem, hfinda] at hfindb
  exact (evidence_row_eq_iff hitem.symm horder).mp (Option.some.inj hfindb)

/-! ## Provider ids of the work -/

/-- The visible alias rows of the work that tie in the payload's order have one visible closing. -/
def ProvidersSettled (rows : LedgerRows) (work : Nat) (asOf : Option Instant) : Prop :=
  ∀ a ∈ rows.byItem work, ∀ b ∈ rows.byItem work, visible a.validFrom asOf →
    aliasOrder a = aliasOrder b → visibleClose a asOf = visibleClose b asOf

instance (rows : LedgerRows) (work : Nat) (asOf : Option Instant) :
    Decidable (ProvidersSettled rows work asOf) :=
  inferInstanceAs (Decidable (∀ a ∈ _, ∀ b ∈ _, _ → _ → _))

/-- The provider id of an alias row. -/
def workProvider (asOf : Option Instant) (entry : Alias) : WorkProvider :=
  { provider := entry.provider, externalId := entry.externalId, validFrom := entry.validFrom,
    validTo := visibleClose entry asOf }

/-- The order of the provider ids of the payload. -/
def workProviderOrder (row : WorkProvider) : Instant ×ₗ String ×ₗ String :=
  toLex (row.validFrom, toLex (row.provider, row.externalId))

theorem work_providers_eq (work : Nat) (asOf : Option Instant) :
    rows.workProviders work asOf = sortBy workProviderOrder
      (((rows.byItem work).filter fun entry => visible entry.validFrom asOf).map
        (workProvider asOf)) := by
  refine map_sort_by (fun entry => ?_) _
  rfl

theorem work_provider_eq_iff {a b : Alias} {asOf : Option Instant}
    (horder : aliasOrder a = aliasOrder b) :
    workProvider asOf a = workProvider asOf b ↔ visibleClose a asOf = visibleClose b asOf := by
  obtain ⟨hfrom, hprovider, hexternal⟩ := alias_order_eq horder
  simp [workProvider, hfrom, hprovider, hexternal]

theorem Reordered.work_providers (h : Reordered rows rows') {work : Nat} {asOf : Option Instant}
    (hsettled : ProvidersSettled rows work asOf) :
    rows.workProviders work asOf = rows'.workProviders work asOf := by
  rw [work_providers_eq, work_providers_eq]
  refine sort_by_congr fun k => filter_eq_of_perm (((h.by_item work).filter _).map _) ?_
  intro x hx y hy hxk hyk
  obtain ⟨a, ha, rfl⟩ := List.mem_map.mp hx
  obtain ⟨b, hb, rfl⟩ := List.mem_map.mp hy
  obtain ⟨ha, hvisible⟩ := List.mem_filter.mp ha
  have hb := List.mem_of_mem_filter hb
  rw [decide_eq_true_eq] at hxk hyk hvisible
  have horder : aliasOrder a = aliasOrder b := hxk.trans hyk.symm
  exact (work_provider_eq_iff horder).mpr (hsettled a ha b hb hvisible horder)

variable (rows) in
/-- With an alias of the work first, its provider id is the first of its class. -/
theorem find_provider_first {asOf : Option Instant} {entry : Alias}
    (hvisible : visible entry.validFrom asOf) :
    ((rows.aliasFirst entry).workProviders entry.nativeId asOf).find?
      (fun row => workProviderOrder row = aliasOrder entry ∧ true) =
        some (workProvider asOf entry) := by
  rw [work_providers_eq, find_sort_by _ (fun _ => true), by_item_first,
    List.filter_cons_of_pos (by simpa using hvisible), List.map_cons, List.find?_cons_of_pos]
  simp only [and_true, decide_eq_true_eq]
  rfl

theorem providers_settled_of_eq {work : Nat} {asOf : Option Instant}
    (hsame : ∀ rows', Reordered rows rows' →
      rows.workProviders work asOf = rows'.workProviders work asOf) :
    ProvidersSettled rows work asOf := by
  intro a hown b hother hvisible horder
  obtain ⟨ha, rfl⟩ := mem_by_item.mp hown
  obtain ⟨hb, hitem⟩ := mem_by_item.mp hother
  have hvisibleb : visible b.validFrom asOf := (alias_order_eq horder).1 ▸ hvisible
  have hfinda := find_provider_first rows hvisible
  have hfindb := find_provider_first rows hvisibleb
  rw [← hsame _ (alias_first_reordered ha)] at hfinda
  rw [hitem, ← hsame _ (alias_first_reordered hb), ← horder, hfinda] at hfindb
  exact (work_provider_eq_iff horder).mp (Option.some.inj hfindb)

/-! ## States -/

/-- The Discogs release the MusicBrainz row names had no item then. -/
def Dangling (rows : LedgerRows) (t : Option Instant) (row : MusicbrainzRelease) : Prop :=
  ∃ discogsId ∈ row.discogsReleaseId, ∃ _item ∈ rows.holder "musicbrainz" "release" row.mbid t,
    rows.holder "discogs" "release" (toString discogsId) t = none

/-- The Discogs release the MusicBrainz row names had another item then. -/
def Apart (rows : LedgerRows) (t : Option Instant) (row : MusicbrainzRelease) : Prop :=
  ∃ discogsId ∈ row.discogsReleaseId, ∃ item ∈ rows.holder "musicbrainz" "release" row.mbid t,
    ∃ other ∈ rows.holder "discogs" "release" (toString discogsId) t, other ≠ item

instance (rows : LedgerRows) (t : Option Instant) (row : MusicbrainzRelease) :
    Decidable (Dangling rows t row) :=
  inferInstanceAs (Decidable (∃ _ ∈ _, ∃ _ ∈ _, _))

instance (rows : LedgerRows) (t : Option Instant) (row : MusicbrainzRelease) :
    Decidable (Apart rows t row) :=
  inferInstanceAs (Decidable (∃ _ ∈ _, ∃ _ ∈ _, ∃ _ ∈ _, _))

/-- The edition was linked, or not both in the situation of an unresolved and of a split one. -/
def StateSettled (rows : LedgerRows) (edition : Nat) (asOf : Option Instant) : Prop :=
  (rows.held edition asOf "release" "discogs" ∧ rows.held edition asOf "release" "musicbrainz") ∨
    ¬((∃ row ∈ rows.musicbrainzRows edition, Dangling rows asOf row) ∧
      ∃ row ∈ rows.musicbrainzRows edition, Apart rows asOf row)

instance (rows : LedgerRows) (edition : Nat) (asOf : Option Instant) :
    Decidable (StateSettled rows edition asOf) :=
  inferInstanceAs (Decidable (_ ∨ ¬((∃ _ ∈ _, _) ∧ ∃ _ ∈ _, _)))

theorem row_state_iff {t : Option Instant} {row : MusicbrainzRelease} :
    (rows.rowState t row = some .unresolved ↔ Dangling rows t row) ∧
      (rows.rowState t row = some .split ↔ Apart rows t row) := by
  rw [LedgerRows.rowState, Dangling, Apart]
  cases row.discogsReleaseId with
  | none => simp
  | some discogsId =>
      simp only [Option.mem_def, Option.some.injEq, exists_eq_left']
      generalize rows.holder "discogs" "release" (toString discogsId) t = other
      cases rows.holder "musicbrainz" "release" row.mbid t with
      | none => simp
      | some item => cases other <;> simp

theorem row_state_some {t : Option Instant} {row : MusicbrainzRelease} {state : EditionState}
    (h : rows.rowState t row = some state) : state = .unresolved ∨ state = .split := by
  rw [LedgerRows.rowState] at h
  split at h
  · cases h
  · split at h
    · cases h
    · exact Or.inl (Option.some.inj h).symm
    · split at h
      · exact Or.inr (Option.some.inj h).symm
      · cases h

theorem Reordered.state (h : Reordered rows rows') (hvalid : SingleValid rows.aliases)
    (hopen : SingleOpen rows.supersessions) {edition : Nat} {asOf : Option Instant}
    (hsettled : StateSettled rows edition asOf) :
    rows.state edition (rows.group edition) asOf "release" =
      rows'.state edition (rows'.group edition) asOf "release" := by
  have hhead : (rows.group edition).headD edition = edition := rfl
  by_cases hlinked : rows.held edition asOf "release" "discogs" ∧
      rows.held edition asOf "release" "musicbrainz"
  · rw [LedgerRows.state, LedgerRows.state, if_pos hlinked, if_pos]
    rw [← h.held, ← h.held]
    exact hlinked
  · have hnot := hsettled.resolve_left hlinked
    have hrow : rows'.rowState asOf = rows.rowState asOf :=
      funext fun row => (h.row_state hvalid asOf row).symm
    have hnamed : (rows.musicbrainzRows edition).findSome? (rows.rowState asOf) =
        (rows'.musicbrainzRows edition).findSome? (rows.rowState asOf) := by
      refine find_some_of_perm (h.musicbrainz_rows hvalid hopen edition) ?_
      intro r hr s hs x y hx hy
      rcases row_state_some hx with rfl | rfl <;> rcases row_state_some hy with rfl | rfl
      · rfl
      · exact absurd ⟨⟨r, hr, row_state_iff.1.mp hx⟩, s, hs, row_state_iff.2.mp hy⟩ hnot
      · exact absurd ⟨⟨s, hs, row_state_iff.1.mp hy⟩, r, hr, row_state_iff.2.mp hx⟩ hnot
      · rfl
    simp only [LedgerRows.state, ← h.group, ← h.held, ← h.group_held, hhead, hrow, hnamed]

/-- The state of an item of another kind reads no MusicBrainz row. -/
theorem Reordered.master_state (h : Reordered rows rows') (item : Nat) (group : List Nat)
    (asOf : Option Instant) :
    rows.state item group asOf "master" = rows'.state item group asOf "master" := by
  have hkind : ¬("master" = "release") := by decide
  simp only [LedgerRows.state, ← h.held, ← h.group_held, if_neg hkind]

/-- With a MusicBrainz row of the edition first, what it says is the state. -/
theorem state_row_first {edition : Nat} {asOf : Option Instant} {row : MusicbrainzRelease}
    {state : EditionState} (hrow : row ∈ rows.musicbrainzRows edition)
    (hlinked : ¬(rows.held edition asOf "release" "discogs" ∧
      rows.held edition asOf "release" "musicbrainz"))
    (hstate : rows.rowState asOf row = some state) :
    (rows.musicbrainzFirst row).state edition ((rows.musicbrainzFirst row).group edition) asOf
      "release" = state := by
  have hresolves := (List.mem_filter.mp hrow).2
  have hrows : (rows.musicbrainzFirst row).musicbrainzRows edition =
      row :: (rows.musicbrainzReleases.erase row).filter fun row =>
        rows.resolvesTo ("musicbrainz", "release", row.mbid) edition :=
    List.filter_cons_of_pos hresolves
  have hnamed : ((rows.musicbrainzFirst row).musicbrainzRows edition).findSome?
      ((rows.musicbrainzFirst row).rowState asOf) = some state := by
    rw [hrows, List.findSome?_cons]
    have hfirst : (rows.musicbrainzFirst row).rowState asOf row = some state := hstate
    rw [hfirst]
  have hhead : ((rows.musicbrainzFirst row).group edition).headD edition = edition := rfl
  have hnot : ¬((rows.musicbrainzFirst row).held edition asOf "release" "discogs" ∧
      (rows.musicbrainzFirst row).held edition asOf "release" "musicbrainz") := hlinked
  rw [LedgerRows.state, if_neg hnot]
  simp only [if_true, hhead, hnamed]

theorem state_settled_of_eq {edition : Nat} {asOf : Option Instant}
    (hsame : ∀ rows', Reordered rows rows' →
      rows.state edition (rows.group edition) asOf "release" =
        rows'.state edition (rows'.group edition) asOf "release") :
    StateSettled rows edition asOf := by
  by_cases hlinked : rows.held edition asOf "release" "discogs" ∧
      rows.held edition asOf "release" "musicbrainz"
  · exact Or.inl hlinked
  · refine Or.inr ?_
    rintro ⟨⟨r, hr, hdangling⟩, s, hs, hapart⟩
    have hunresolved := state_row_first hr hlinked (row_state_iff.1.mpr hdangling)
    have hsplit := state_row_first hs hlinked (row_state_iff.2.mpr hapart)
    rw [← hsame _ (musicbrainz_first_reordered (List.mem_of_mem_filter hr))] at hunresolved
    rw [← hsame _ (musicbrainz_first_reordered (List.mem_of_mem_filter hs)), hunresolved] at hsplit
    cases hsplit

end CatalogApi.IdentityLedger
