import CatalogApi.IdentityLedger.Work
import CatalogApi.Lib.Stable

/-!
# The same rows in another order

What the lookups read does not depend on the order of the rows while at most one alias of a key is
valid at any instant and at most one supersession of an item is open: `Reordered` rows have the same
holders, groups, works and provider rows.
-/

namespace CatalogApi.IdentityLedger

open CatalogMerge ByKey

/-- The same rows, each list in another order. -/
structure Reordered (rows rows' : LedgerRows) : Prop where
  aliases : rows.aliases.Perm rows'.aliases
  supersessions : rows.supersessions.Perm rows'.supersessions
  moveCounts : rows.moveCounts = rows'.moveCounts
  discogsReleases : rows.discogsReleases.Perm rows'.discogsReleases
  musicbrainzReleases : rows.musicbrainzReleases.Perm rows'.musicbrainzReleases
  masterWorks : rows.masterWorks = rows'.masterWorks
  linkEvents : rows.linkEvents.Perm rows'.linkEvents

/-- At most one alias of a key is valid at any instant. -/
def SingleValid (aliases : List Alias) : Prop :=
  ∀ t, ∀ a ∈ aliases, ∀ b ∈ aliases, a.key = b.key → valid a (some t) → valid b (some t) → a = b

/-- At most one supersession of an item is open. -/
def SingleOpen (supersessions : List Supersession) : Prop :=
  ∀ r ∈ supersessions, ∀ s ∈ supersessions, r.validTo = none → s.validTo = none →
    r.supersededId = s.supersededId → r = s

/-- Two open aliases are both valid when the later one opens. -/
theorem SingleValid.valid_unique {aliases : List Alias} (h : SingleValid aliases)
    (t : Option Instant) {a b : Alias} (ha : a ∈ aliases) (hb : b ∈ aliases) (hkey : a.key = b.key)
    (hva : valid a t) (hvb : valid b t) : a = b := by
  cases t with
  | some t => exact h t a ha b hb hkey hva hvb
  | none =>
      have hopen : ∀ entry : Alias, valid entry none → entry.validTo = none := fun _ hv => hv
      refine h (max a.validFrom b.validFrom) a ha b hb hkey ⟨le_max_left _ _, ?_⟩
        ⟨le_max_right _ _, ?_⟩
      · rw [hopen a hva]
        nofun
      · rw [hopen b hvb]
        nofun

namespace Reordered

variable {rows rows' : LedgerRows} (h : Reordered rows rows')
include h

theorem by_item (item : Nat) : (rows.byItem item).Perm (rows'.byItem item) := h.aliases.filter _

theorem mint (item : Nat) : rows.mint item = rows'.mint item := by
  rw [LedgerRows.mint, LedgerRows.mint, min_of_perm ((h.by_item item).map (·.validFrom))]

theorem opened_instant (item : Nat) (instant : Instant) :
    rows.openedInstant item instant ↔ rows'.openedInstant item instant := by
  simp only [LedgerRows.openedInstant, h.supersessions.mem_iff]

theorem closed_instant (item : Nat) (instant : Instant) :
    rows.closedInstant item instant ↔ rows'.closedInstant item instant := by
  simp only [LedgerRows.closedInstant, h.supersessions.mem_iff]

theorem opened_by_supersession (entry : Alias) :
    rows.openedBySupersession entry ↔ rows'.openedBySupersession entry := h.opened_instant _ _

theorem closed_by_supersession (entry : Alias) :
    rows.closedBySupersession entry ↔ rows'.closedBySupersession entry := by
  simp only [LedgerRows.closedBySupersession, h.closed_instant]

theorem group (item : Nat) : rows.group item = rows'.group item := by
  rw [LedgerRows.group, LedgerRows.group]
  refine congrArg _ (sorted_set_congr fun other => ?_)
  exact ((h.supersessions.filter _).map _).mem_iff

theorem held (item : Nat) (t : Option Instant) (kind provider : String) :
    rows.held item t kind provider ↔ rows'.held item t kind provider := by
  simp only [LedgerRows.held, (h.by_item item).mem_iff]

theorem group_held (group : List Nat) (t : Option Instant) :
    rows.groupHeld group t ↔ rows'.groupHeld group t := by
  simp only [LedgerRows.groupHeld, (h.by_item _).mem_iff]

theorem current_alias (hvalid : SingleValid rows.aliases) (key : AliasKey) :
    rows.currentAlias key = rows'.currentAlias key := by
  have hperm := (rows.aliases.reverse_perm.trans h.aliases).trans rows'.aliases.reverse_perm.symm
  rw [LedgerRows.currentAlias, LedgerRows.currentAlias]
  refine congrArg _ (find_eq_of_perm hperm fun a ha b hb hpa hpb => ?_)
  rw [decide_eq_true_eq] at hpa hpb
  exact hvalid.valid_unique none (List.mem_reverse.mp ha) (List.mem_reverse.mp hb)
    (hpa.1.trans hpb.1.symm) hpa.2 hpb.2

theorem resolve (hopen : SingleOpen rows.supersessions) (item : Nat) :
    rows.resolve item = rows'.resolve item := by
  have hperm := (rows.supersessions.reverse_perm.trans h.supersessions).trans
    rows'.supersessions.reverse_perm.symm
  have hrow : openRow rows.supersessions item = openRow rows'.supersessions item := by
    refine find_eq_of_perm hperm fun r hr s hs hpr hps => ?_
    rw [decide_eq_true_eq] at hpr hps
    exact hopen r (List.mem_reverse.mp hr) s (List.mem_reverse.mp hs) hpr.2 hps.2
      (hpr.1.trans hps.1.symm)
  rw [LedgerRows.resolve, LedgerRows.resolve, resolveItem, resolveItem, openTarget, openTarget, hrow]

theorem resolves_to (hvalid : SingleValid rows.aliases) (hopen : SingleOpen rows.supersessions)
    (key : AliasKey) (edition : Nat) :
    rows.resolvesTo key edition ↔ rows'.resolvesTo key edition := by
  simp only [LedgerRows.resolvesTo, h.current_alias hvalid, h.resolve hopen]

theorem holder (hvalid : SingleValid rows.aliases) (provider kind externalId : String)
    (t : Option Instant) :
    rows.holder provider kind externalId t = rows'.holder provider kind externalId t := by
  rw [LedgerRows.holder, LedgerRows.holder]
  refine congrArg _ (find_eq_of_perm (h.aliases.filter _) fun a ha b hb hpa hpb => ?_)
  obtain ⟨ha, hka⟩ := List.mem_filter.mp ha
  obtain ⟨hb, hkb⟩ := List.mem_filter.mp hb
  rw [decide_eq_true_eq] at hka hkb hpa hpb
  exact hvalid.valid_unique t ha hb (hka.trans hkb.symm) hpa hpb

theorem row_state (hvalid : SingleValid rows.aliases) (t : Option Instant)
    (row : MusicbrainzRelease) : rows.rowState t row = rows'.rowState t row := by
  simp only [LedgerRows.rowState, h.holder hvalid]

section Rows

variable (hvalid : SingleValid rows.aliases) (hopen : SingleOpen rows.supersessions)
include hvalid hopen

theorem musicbrainz_rows (edition : Nat) :
    (rows.musicbrainzRows edition).Perm (rows'.musicbrainzRows edition) := by
  have hsame : rows'.musicbrainzRows edition = rows'.musicbrainzReleases.filter fun row =>
      rows.resolvesTo ("musicbrainz", "release", row.mbid) edition := by
    refine List.filter_congr fun row _ => ?_
    rw [decide_eq_decide, h.resolves_to hvalid hopen]
  rw [hsame]
  exact h.musicbrainzReleases.filter _

theorem discogs_rows (edition : Nat) :
    (rows.discogsRows edition).Perm (rows'.discogsRows edition) := by
  have hsame : rows'.discogsRows edition = rows'.discogsReleases.filter fun row =>
      rows.resolvesTo ("discogs", "release", row.dataId) edition := by
    refine List.filter_congr fun row _ => ?_
    rw [decide_eq_decide, h.resolves_to hvalid hopen]
  rw [hsame]
  exact h.discogsReleases.filter _

theorem works (edition : Nat) : rows.works edition = rows'.works edition := by
  have hdiscogs := (h.discogs_rows hvalid hopen edition).filterMap fun row =>
    row.masterId.bind fun master => rows.masterWorks "discogs" (strip master)
  have hmusicbrainz := (h.musicbrainz_rows hvalid hopen edition).filterMap fun row =>
    row.releaseGroupMbid.bind fun group => rows.masterWorks "musicbrainz" group
  rw [LedgerRows.works, LedgerRows.works, ← h.masterWorks,
    sorted_set_congr fun _ => hdiscogs.mem_iff, sorted_set_congr fun _ => hmusicbrainz.mem_iff]

theorem provider_rows (edition : Nat) :
    (rows.providerRows edition).Perm (rows'.providerRows edition) :=
  ((h.discogs_rows hvalid hopen edition).map _).append
    ((h.musicbrainz_rows hvalid hopen edition).map _)

end Rows

end Reordered

end CatalogApi.IdentityLedger
