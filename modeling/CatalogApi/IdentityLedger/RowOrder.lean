import CatalogApi.IdentityLedger.EventTies

/-!
# The payload and the order of its rows

The payload of the rows in another order is the same payload, up to the order of provider rows and
of events with equal time and type, exactly when the rows are `Unambiguous`
(`payload_row_order_iff`).
-/

namespace CatalogApi.IdentityLedger

open CatalogMerge ByKey

/-- The same edition, up to the order of provider rows and of tied events. -/
structure SameEdition (edition edition' : Edition) : Prop where
  planes : edition' =
    { edition with providerRows := edition'.providerRows, events := edition'.events }
  providerRows : edition.providerRows.Perm edition'.providerRows
  events : SameEvents edition.events edition'.events

/-- The same payload, up to the order of provider rows and of tied events. -/
structure SamePayload (payload payload' : WorkPayload) : Prop where
  planes : payload' = { payload with events := payload'.events, editions := payload'.editions }
  events : SameEvents payload.events payload'.events
  editions : List.Forall₂ SameEdition payload.editions payload'.editions

/-- The same payload has the same states. -/
theorem SamePayload.states {payload payload' : WorkPayload} (h : SamePayload payload payload') :
    payload.editions.map Edition.state = payload'.editions.map Edition.state := by
  have hstates : List.Forall₂ Eq (payload.editions.map Edition.state)
      (payload'.editions.map Edition.state) := by
    rw [List.forall₂_map_left_iff, List.forall₂_map_right_iff]
    refine h.editions.imp fun edition edition' hsame => ?_
    have hplanes := congrArg Edition.state hsame.planes
    exact hplanes.symm
  rwa [List.forall₂_eq_eq_eq] at hstates

/-- No two rows that the payload takes in the order of the lists say different things. -/
structure Unambiguous (rows : LedgerRows) (work : Nat) (shown : List Nat) (asOf : Option Instant) :
    Prop where
  states : ∀ edition ∈ shown, StateSettled rows edition asOf
  former : ∀ edition ∈ shown, FormerSettled rows edition asOf
  evidence : ∀ edition ∈ shown, EvidenceSettled rows (rows.group edition) asOf
  providers : ProvidersSettled rows work asOf
  links : ∀ item ∈ rows.group work, LinkSettled rows asOf item

/-- Settled evidence settles the links. -/
theorem EvidenceSettled.links {rows : LedgerRows} {group : List Nat} {asOf : Option Instant}
    (h : EvidenceSettled rows group asOf) : ∀ item ∈ group, LinkSettled rows asOf item := by
  intro item hitem _ mint _ a b ha hb hvisible
  have hmem : ∀ entry, IsFirstLink rows item mint entry → entry ∈ rows.byItem item :=
    fun entry hentry => List.mem_of_mem_filter (mem_sort_by.mp hentry.1)
  exact (h item hitem a (hmem a ha) b (hmem b hb) hvisible (ha.order_eq hb)).1

section Payload

variable {rows : LedgerRows} {work edition : Nat} {editions : List (Nat × Instant)}
  {requestedId : Option Nat} {asOf : Option Instant} {editionLimit : Nat}
  {refreshedAt : Option Instant}

/-- The editions of the payloads, one by one. -/
theorem same_editions_iff {rows' : LedgerRows} {shown : List Nat} :
    List.Forall₂ SameEdition (shown.map (rows.editionPayload asOf))
        (shown.map (rows'.editionPayload asOf)) ↔
      ∀ edition ∈ shown,
        SameEdition (rows.editionPayload asOf edition) (rows'.editionPayload asOf edition) := by
  rw [List.forall₂_map_left_iff, List.forall₂_map_right_iff, List.forall₂_same]

theorem Reordered.edition_payload {rows' : LedgerRows} (h : Reordered rows rows')
    (hvalid : SingleValid rows.aliases) (hopen : SingleOpen rows.supersessions)
    (hstate : StateSettled rows edition asOf) (hformer : FormerSettled rows edition asOf)
    (hevidence : EvidenceSettled rows (rows.group edition) asOf) :
    SameEdition (rows.editionPayload asOf edition) (rows'.editionPayload asOf edition) where
  planes := by
    have hstates := h.state hvalid hopen hstate
    rw [← h.group] at hstates
    simp only [LedgerRows.editionPayload, ← h.works hvalid hopen, ← h.former_items hformer,
      ← h.group, ← h.evidence hevidence, hstates]
  providerRows := h.provider_rows hvalid hopen edition
  events := by
    simp only [LedgerRows.editionPayload, ← h.group]
    exact h.events "release" hevidence.links

/-- An edition that is the same in every order has settled planes. -/
theorem edition_settled
    (h : ∀ rows', Reordered rows rows' →
      SameEdition (rows.editionPayload asOf edition) (rows'.editionPayload asOf edition)) :
    StateSettled rows edition asOf ∧ FormerSettled rows edition asOf ∧
      EvidenceSettled rows (rows.group edition) asOf := by
  refine ⟨state_settled_of_eq fun rows' hrows => ?_, former_settled_of_eq fun rows' hrows => ?_,
    evidence_settled_of_eq fun rows' hrows => ?_⟩
  · exact (congrArg Edition.state (h rows' hrows).planes).symm
  · exact (congrArg Edition.formerItems (h rows' hrows).planes).symm
  · have hevidence := (congrArg Edition.evidence (h rows' hrows).planes).symm
    rwa [LedgerRows.editionPayload, LedgerRows.editionPayload, ← hrows.group] at hevidence

variable (work editions requestedId asOf editionLimit refreshedAt)

/-- The payload does not depend on the order of the rows exactly when the rows are unambiguous. -/
theorem payload_row_order_iff (hvalid : SingleValid rows.aliases)
    (hopen : SingleOpen rows.supersessions) :
    (∀ rows', Reordered rows rows' →
        SamePayload (buildWork rows work editions requestedId asOf editionLimit refreshedAt)
          (buildWork rows' work editions requestedId asOf editionLimit refreshedAt)) ↔
      Unambiguous rows work ((visibleEditions editions asOf).take editionLimit) asOf := by
  constructor
  · intro h
    have hedition : ∀ edition ∈ (visibleEditions editions asOf).take editionLimit,
        StateSettled rows edition asOf ∧ FormerSettled rows edition asOf ∧
          EvidenceSettled rows (rows.group edition) asOf := fun edition hmem =>
      edition_settled fun rows' hrows => same_editions_iff.mp (h rows' hrows).editions edition hmem
    refine
      { states := fun edition hmem => (hedition edition hmem).1
        former := fun edition hmem => (hedition edition hmem).2.1
        evidence := fun edition hmem => (hedition edition hmem).2.2
        providers := ?_
        links := ?_ }
    · refine providers_settled_of_eq fun rows' hrows => ?_
      exact (congrArg WorkPayload.providers (h rows' hrows).planes).symm
    · have hevents : ∀ rows', Reordered rows rows' →
          SameEvents (rows.events (rows.group work) asOf "master")
            (rows'.events (rows.group work) asOf "master") := by
        intro rows' hrows
        have hsame := (h rows' hrows).events
        rwa [buildWork, buildWork, ← hrows.group] at hsame
      exact fun item hitem => link_settled_of_same hevents hitem
  · intro h rows' hrows
    constructor
    · simp only [buildWork, ← hrows.master_state, ← hrows.work_providers h.providers]
    · simp only [buildWork, ← hrows.group]
      exact hrows.events "master" h.links
    · refine same_editions_iff.mpr fun edition hmem => ?_
      exact hrows.edition_payload hvalid hopen (h.states edition hmem) (h.former edition hmem)
        (h.evidence edition hmem)

end Payload

/-- A current alias that opened at instant 0. -/
def openedAlias (provider externalId : String) (nativeId : Nat) : Alias :=
  { provider, entityKind := "release", externalId, nativeId, source := "ingest",
    confidence := none, validFrom := 0, validTo := none }

/-- An edition 1 that holds these MusicBrainz aliases, and an item 2 that holds the Discogs release
the second of the rows names. -/
def twoRows (musicbrainzReleases : List MusicbrainzRelease) : LedgerRows where
  aliases := [openedAlias "musicbrainz" "m1" 1, openedAlias "musicbrainz" "m2" 1,
    openedAlias "discogs" "6" 2]
  supersessions := []
  moveCounts _ _ := none
  discogsReleases := []
  musicbrainzReleases
  masterWorks _ _ := none
  linkEvents := []

/-- A row that names a Discogs release no item holds, and one that names the release of item 2. -/
def unresolvedRow : MusicbrainzRelease := ⟨"m1", none, some 5⟩

def splitRow : MusicbrainzRelease := ⟨"m2", none, some 6⟩

/-- Another row that names a Discogs release no item holds. -/
def strayRow : MusicbrainzRelease := ⟨"m2", none, some 7⟩

theorem two_rows_valid (releases : List MusicbrainzRelease) :
    SingleValid (twoRows releases).aliases ∧ SingleOpen (twoRows releases).supersessions := by
  constructor
  · intro t a ha b hb hkey _ _
    have hdistinct : ∀ a ∈ (twoRows releases).aliases, ∀ b ∈ (twoRows releases).aliases,
        a.key = b.key → a = b := by
      change ∀ a ∈ [openedAlias "musicbrainz" "m1" 1, openedAlias "musicbrainz" "m2" 1,
        openedAlias "discogs" "6" 2], ∀ b ∈ [openedAlias "musicbrainz" "m1" 1,
        openedAlias "musicbrainz" "m2" 1, openedAlias "discogs" "6" 2], a.key = b.key → a = b
      decide
    exact hdistinct a ha b hb hkey
  · nofun

theorem two_rows_reordered {releases releases' : List MusicbrainzRelease}
    (h : releases.Perm releases') : Reordered (twoRows releases) (twoRows releases') where
  aliases := List.Perm.refl _
  supersessions := List.Perm.refl _
  moveCounts := rfl
  discogsReleases := List.Perm.refl _
  musicbrainzReleases := h
  masterWorks := rfl
  linkEvents := List.Perm.refl _

/-- Two MusicBrainz rows in different situations: the first of them decides the state. -/
theorem first_row_decides :
    (SingleValid (twoRows [unresolvedRow, splitRow]).aliases ∧
      SingleOpen (twoRows [unresolvedRow, splitRow]).supersessions ∧
      Reordered (twoRows [unresolvedRow, splitRow]) (twoRows [splitRow, unresolvedRow])) ∧
    ((buildWork (twoRows [unresolvedRow, splitRow]) 9 [(1, 0)] none none 10 none).editions.map
        Edition.state = [.unresolved] ∧
      (buildWork (twoRows [splitRow, unresolvedRow]) 9 [(1, 0)] none none 10 none).editions.map
        Edition.state = [.split]) ∧
    ¬SamePayload (buildWork (twoRows [unresolvedRow, splitRow]) 9 [(1, 0)] none none 10 none)
      (buildWork (twoRows [splitRow, unresolvedRow]) 9 [(1, 0)] none none 10 none) := by
  refine ⟨⟨(two_rows_valid _).1, (two_rows_valid _).2,
    two_rows_reordered (List.Perm.swap _ _ _)⟩, ⟨by decide, by decide⟩, fun h => ?_⟩
  have hstates := h.states
  revert hstates
  decide

/-- Two rows in one situation: their order does not show. -/
theorem one_situation_order_free :
    SamePayload (buildWork (twoRows [unresolvedRow, strayRow]) 9 [(1, 0)] none none 10 none)
      (buildWork (twoRows [strayRow, unresolvedRow]) 9 [(1, 0)] none none 10 none) := by
  refine (payload_row_order_iff 9 [(1, 0)] none none 10 none (two_rows_valid _).1
    (two_rows_valid _).2).mpr ?_ _ (two_rows_reordered (List.Perm.swap _ _ _))
  refine
    { states := by decide
      former := by decide
      evidence := by decide
      providers := by decide
      links := fun item hitem hdiscogs => ?_ }
  have hnone : ∀ item ∈ (twoRows [unresolvedRow, strayRow]).group 9,
      ¬∃ entry ∈ (twoRows [unresolvedRow, strayRow]).byItem item, entry.provider = "discogs" := by
    decide
  exact absurd hdiscogs (hnone item hitem)

end CatalogApi.IdentityLedger
