import CatalogApi.CatalogMerge.Undo
import CatalogApi.IdentityLedger.Reversals
import CatalogApi.Reattach.Item

/-!
# Repairs and evidence

`_Ledger.events` takes an alias row for moved when a supersession of its item opened or closed at
the same instant. Re-attachments and reverts move aliases, loaders attach them. As long as no
re-attachment reuses an open supersession to move an alias, each moved alias has its supersession
(`Explained`), so a repair is never reported as evidence (`repairs_not_evidence`).
-/

namespace CatalogApi.IdentityLedger

open CatalogMerge ByKey Runs Reattach

/-! ## Transactions that write aliases -/

/-- A current alias of the item under one of the keys. -/
def currentUnder (keys : List AliasKey) (item : Nat) (entry : Alias) : Prop :=
  entry.nativeId = item ∧ entry.validTo = none ∧ entry.key ∈ keys

instance (keys : List AliasKey) (item : Nat) : DecidablePred (currentUnder keys item) :=
  fun _ => inferInstanceAs (Decidable (_ ∧ _ ∧ _))

/-- A transaction: a loader attaches one new alias and writes its own rows, a re-attachment of one
MusicBrainz row, or a revert with the aliases under some keys moved back. -/
inductive Repair where
  | attach (now : Instant) (provider entityKind externalId : String) (item : Nat)
      (source : String) (confidence : Option Rat) (caches : List CachedRow)
  | reattach (now : Instant) (discogsIds : String → String → Option String) (kind : SplitKind)
      (mbid : String) (decisionRef : Nat)
  | revert (now : Instant) (id : Nat) (keys : List AliasKey)

/-- The start of a transaction. -/
def Repair.now : Repair → Instant
  | .attach now .. | .reattach now .. | .revert now .. => now

/-- Why a transaction did not commit. -/
inductive RepairFailure where
  | alreadyHeld (key : AliasKey)
  | reattach (reason : Conflict)
  | revert (reason : MergeConflict)

/-- The row a loader attaches. -/
def attachedRow (now : Instant) (provider entityKind externalId : String) (item : Nat)
    (source : String) (confidence : Option Rat) : Alias :=
  { provider, entityKind, externalId, nativeId := item, source, confidence, validFrom := now,
    validTo := none }

/-- A revert with the aliases under these keys moved back first. -/
def revertWithAliases (db : Db) (id : Nat) (keys : List AliasKey) (now : Instant) :
    Except MergeConflict (Db × RevertOutcome) := do
  let row ← findSupersession db id
  let aliases := shiftAliases (currentUnder keys row.survivorId) row.supersededId now db.aliases
  revertSupersession { db with aliases } id now

/-- Commit one transaction. -/
def Repair.apply (db : Db) : Repair → Except RepairFailure Db
  | .attach now provider entityKind externalId item source confidence caches =>
      let entry := attachedRow now provider entityKind externalId item source confidence
      if ∃ row ∈ db.aliases, row.key = entry.key ∧ row.validTo = none then
        .error (.alreadyHeld entry.key)
      else .ok { db with aliases := db.aliases ++ [entry], caches }
  | .reattach now discogsIds kind mbid decisionRef =>
      match reattachItem db discogsIds kind mbid decisionRef now with
      | .ok (next, _) => .ok next
      | .error reason => .error (.reattach reason)
  | .revert now id keys =>
      match revertWithAliases db id keys now with
      | .ok (next, _) => .ok next
      | .error reason => .error (.revert reason)

/-- A re-attachment of this row would move an alias under a supersession that is open already. -/
def MovesUnderOpen (db : Db) (discogsIds : String → String → Option String) (kind : SplitKind)
    (mbid : String) : Prop :=
  ∃ splitId discogsNativeId, splitOf db discogsIds kind mbid = some (splitId, discogsNativeId) ∧
    guardReasons db.aliases kind mbid splitId = [] ∧ openRow db.supersessions splitId ≠ none ∧
    heldAliases splitId db.aliases ≠ []

/-- No transaction moves an alias under a supersession that is open already. -/
def Opens (db : Db) : Repair → Prop
  | .reattach _ discogsIds kind mbid _ => ¬MovesUnderOpen db discogsIds kind mbid
  | .attach .. | .revert .. => True

/-! ## The transactions of a trace -/

def AttachedAt (trace : List Repair) (t : Instant) (item : Nat) : Prop :=
  ∃ provider entityKind externalId source confidence caches,
    Repair.attach t provider entityKind externalId item source confidence caches ∈ trace

def ReattachedAt (trace : List Repair) (t : Instant) : Prop :=
  ∃ discogsIds kind mbid decisionRef, Repair.reattach t discogsIds kind mbid decisionRef ∈ trace

def RevertedAt (trace : List Repair) (t : Instant) : Prop :=
  ∃ id keys, Repair.revert t id keys ∈ trace

section Trace

variable {trace : List Repair} {action : Repair} {t : Instant} {item : Nat}

theorem AttachedAt.snoc (h : AttachedAt trace t item) : AttachedAt (trace ++ [action]) t item := by
  obtain ⟨provider, entityKind, externalId, source, confidence, caches, hmem⟩ := h
  exact ⟨provider, entityKind, externalId, source, confidence, caches, List.mem_append_left _ hmem⟩

theorem ReattachedAt.snoc (h : ReattachedAt trace t) : ReattachedAt (trace ++ [action]) t := by
  obtain ⟨discogsIds, kind, mbid, decisionRef, hmem⟩ := h
  exact ⟨discogsIds, kind, mbid, decisionRef, List.mem_append_left _ hmem⟩

theorem RevertedAt.snoc (h : RevertedAt trace t) : RevertedAt (trace ++ [action]) t := by
  obtain ⟨id, keys, hmem⟩ := h
  exact ⟨id, keys, List.mem_append_left _ hmem⟩

theorem AttachedAt.time (h : AttachedAt trace t item) : t ∈ trace.map Repair.now := by
  obtain ⟨provider, entityKind, externalId, source, confidence, caches, hmem⟩ := h
  exact List.mem_map.mpr ⟨_, hmem, rfl⟩

theorem reverted_reattached_apart (htimes : (trace.map Repair.now).Nodup) (h : RevertedAt trace t)
    (h' : ReattachedAt trace t) : False := by
  obtain ⟨id, keys, hmem⟩ := h
  obtain ⟨discogsIds, kind, mbid, decisionRef, hmem'⟩ := h'
  cases List.inj_on_of_nodup_map htimes hmem hmem' rfl

/-- A loader's transaction is at another instant than a repair. -/
theorem attached_apart (htimes : (trace.map Repair.now).Nodup) (h : AttachedAt trace t item)
    (h' : ReattachedAt trace t ∨ RevertedAt trace t) : False := by
  obtain ⟨provider, entityKind, externalId, source, confidence, caches, hmem⟩ := h
  rcases h' with ⟨discogsIds, kind, mbid, decisionRef, hmem'⟩ | ⟨id, keys, hmem'⟩
  · cases List.inj_on_of_nodup_map htimes hmem hmem' rfl
  · cases List.inj_on_of_nodup_map htimes hmem hmem' rfl

end Trace

/-! ## Every moved alias has its supersession -/

/-- A supersession into the item opened then, or a revert then closed one out of it. -/
def OpenedThen (trace : List Repair) (rows : List Supersession) (item : Nat) (t : Instant) : Prop :=
  ∃ row ∈ rows, (row.survivorId = item ∧ row.validFrom = t) ∨
    (row.supersededId = item ∧ row.validTo = some t ∧ RevertedAt trace t)

/-- A supersession out of the item opened then, or a revert then closed one into it. -/
def ClosedThen (trace : List Repair) (rows : List Supersession) (item : Nat) (t : Instant) : Prop :=
  ∃ row ∈ rows, (row.supersededId = item ∧ row.validFrom = t) ∨
    (row.survivorId = item ∧ row.validTo = some t ∧ RevertedAt trace t)

/-- What every run keeps that moves no alias under an open supersession. -/
structure Explained (trace : List Repair) (db : Db) : Prop where
  chained : Chained db.supersessions db.nextId {t | t ∈ trace.map Repair.now}
  merged : ∀ row ∈ db.supersessions, ReattachedAt trace row.validFrom
  repaired : ∀ row ∈ db.supersessions, ∀ t, row.validTo = some t →
    ReattachedAt trace t ∨ RevertedAt trace t
  opened : ∀ entry ∈ db.aliases, AttachedAt trace entry.validFrom entry.nativeId ∨
    OpenedThen trace db.supersessions entry.nativeId entry.validFrom
  closed : ∀ entry ∈ db.aliases, ∀ t, entry.validTo = some t →
    ClosedThen trace db.supersessions entry.nativeId t
  once : ∀ t item, AttachedAt trace t item →
    (db.aliases.filter fun entry => entry.validFrom = t).map (·.nativeId) = [item]

/-- The rows after a transaction keep their items, their openings and the closings of reverts. -/
def KeepsRows (trace : List Repair) (before after : List Supersession) : Prop :=
  ∀ row ∈ before, ∃ kept ∈ after, kept.supersededId = row.supersededId ∧
    kept.survivorId = row.survivorId ∧ kept.validFrom = row.validFrom ∧
    ∀ t, row.validTo = some t → RevertedAt trace t → kept.validTo = some t

section Keep

variable {trace : List Repair} {action : Repair} {before after : List Supersession} {item : Nat}
  {t : Instant}

theorem OpenedThen.keep (h : OpenedThen trace before item t) (hkeep : KeepsRows trace before after) :
    OpenedThen (trace ++ [action]) after item t := by
  obtain ⟨row, hrow, hcases⟩ := h
  obtain ⟨kept, hkept, hsuperseded, hsurvivor, hfrom, hto⟩ := hkeep row hrow
  refine ⟨kept, hkept, ?_⟩
  rcases hcases with ⟨hitem, hthen⟩ | ⟨hitem, hthen, hreverted⟩
  · exact Or.inl ⟨hsurvivor.trans hitem, hfrom.trans hthen⟩
  · exact Or.inr ⟨hsuperseded.trans hitem, hto t hthen hreverted, hreverted.snoc⟩

theorem ClosedThen.keep (h : ClosedThen trace before item t) (hkeep : KeepsRows trace before after) :
    ClosedThen (trace ++ [action]) after item t := by
  obtain ⟨row, hrow, hcases⟩ := h
  obtain ⟨kept, hkept, hsuperseded, hsurvivor, hfrom, hto⟩ := hkeep row hrow
  refine ⟨kept, hkept, ?_⟩
  rcases hcases with ⟨hitem, hthen⟩ | ⟨hitem, hthen, hreverted⟩
  · exact Or.inl ⟨hsuperseded.trans hitem, hfrom.trans hthen⟩
  · exact Or.inr ⟨hsurvivor.trans hitem, hto t hthen hreverted, hreverted.snoc⟩

theorem keeps_rows_refl (trace : List Repair) (rows : List Supersession) :
    KeepsRows trace rows rows :=
  fun row hrow => ⟨row, hrow, rfl, rfl, rfl, fun _ hto _ => hto⟩

theorem keeps_rows_merge {nextId superseded survivor decisionRef : Nat} {cause : Cause}
    {now : Instant} (hne : superseded ≠ survivor) :
    KeepsRows trace before
      (openAndCompress before nextId superseded survivor cause decisionRef now) := by
  intro row hrow
  refine ⟨closeSurvived superseded now row, (mem_open_and_compress hne).mpr (Or.inl ⟨row, hrow, rfl⟩),
    close_survived_superseded row, close_survived_survivor row, close_survived_from row, ?_⟩
  intro t hto _
  rw [close_survived_to, if_neg, hto]
  rintro ⟨-, hopen⟩
  rw [hto] at hopen
  cases hopen

/-- A revert re-opens only rows that a merge closed. -/
theorem keeps_rows_revert {nextId : Nat} {used : Set Instant} {opened : Supersession}
    {now : Instant} (hchained : Chained before nextId used) (hmem : opened ∈ before)
    (hopen : opened.validTo = none) (htimes : (trace.map Repair.now).Nodup)
    (hmerged : ReattachedAt trace opened.validFrom) :
    KeepsRows trace before (before.map (restoreRow opened now)) := by
  intro row hrow
  refine ⟨restoreRow opened now row, List.mem_map_of_mem hrow, restore_row_superseded row,
    restore_row_survivor row, restore_row_from row, fun t hto hreverted => ?_⟩
  rcases restore_row_cases opened now row with ⟨hclass, -⟩ | ⟨-, hclosed, -⟩ | ⟨-, hsame⟩
  · have hnone := class_open hchained hmem hopen hrow hclass
    rw [hto] at hnone
    cases hnone
  · obtain rfl : t = opened.validFrom := Option.some.inj (hto.symm.trans hclosed)
    exact (reverted_reattached_apart htimes hreverted hmerged).elim
  · rw [hsame, hto]

end Keep

/-! ## What a shift leaves of the aliases -/

section Shift

variable {selected : Alias → Prop} [DecidablePred selected] {target : Nat} {now : Instant}
  {aliases : List Alias}

/-- A row after a shift was there before, was closed by it, or was opened by it. -/
theorem mem_shift {entry : Alias} (h : entry ∈ shiftAliases selected target now aliases) :
    entry ∈ aliases ∨
      (∃ old ∈ aliases, selected old ∧ entry = { old with validTo := some now }) ∨
      ∃ old ∈ aliases, selected old ∧ entry = reinsertAlias target now old := by
  rcases List.mem_append.mp h with h | h
  · obtain ⟨old, hold, rfl⟩ := List.mem_map.mp h
    by_cases hselected : selected old
    · rw [if_pos hselected]
      exact Or.inr (Or.inl ⟨old, hold, hselected, rfl⟩)
    · rw [if_neg hselected]
      exact Or.inl hold
  · obtain ⟨old, hold, rfl⟩ := List.mem_map.mp h
    obtain ⟨hin, hselected⟩ := List.mem_filter.mp hold
    exact Or.inr (Or.inr ⟨old, hin, of_decide_eq_true hselected, rfl⟩)

/-- A shift opens no row at another instant. -/
theorem shift_opened_at {t : Instant} (ht : t ≠ now) :
    ((shiftAliases selected target now aliases).filter fun entry => entry.validFrom = t).map
        (·.nativeId) =
      (aliases.filter fun entry => entry.validFrom = t).map (·.nativeId) := by
  have hnone : ((aliases.filter fun entry => selected entry).map (reinsertAlias target now)).filter
      (fun entry => entry.validFrom = t) = [] := by
    refine List.filter_eq_nil_iff.mpr fun entry hentry hfrom => ?_
    obtain ⟨old, -, rfl⟩ := List.mem_map.mp hentry
    exact ht (of_decide_eq_true hfrom).symm
  rw [shiftAliases, List.filter_append, hnone, List.append_nil]
  induction aliases with
  | nil => rfl
  | cons entry aliases ih =>
      have hrest := ih (List.filter_eq_nil_iff.mpr fun entry hentry hfrom => by
        obtain ⟨old, -, rfl⟩ := List.mem_map.mp hentry
        exact ht (of_decide_eq_true hfrom).symm)
      rw [List.map_cons, List.filter_cons, List.filter_cons]
      by_cases hselected : selected entry <;> by_cases hfrom : entry.validFrom = t <;>
        simp [hselected, hfrom, hrest]

end Shift

/-! ## The invariant rule -/

section Steps

variable {trace : List Repair} {db next : Db} {action : Repair}

theorem times_snoc (trace : List Repair) (action : Repair) :
    {t | t ∈ trace.map Repair.now} ⊆ {t | t ∈ (trace ++ [action]).map Repair.now} := by
  intro t ht
  rw [Set.mem_ofPred_eq, List.map_append]
  exact List.mem_append_left _ ht

/-- The merge or revert of a transaction keeps the supersessions chained. -/
theorem chained_snoc (action : Repair) {before : Db} {step : Action} {used : Set Instant}
    (h : Chained before.supersessions before.nextId used)
    (hused : used = {t | t ∈ trace.map Repair.now}) (hstep : step.now? = some action.now)
    (hnow : action.now ∉ trace.map Repair.now) (happly : step.apply before = .ok next) :
    Chained next.supersessions next.nextId {t | t ∈ (trace ++ [action]).map Repair.now} := by
  subst hused
  refine (apply_chained h (fun t ht => ?_) happly).mono ?_
  · rw [hstep] at ht
    rw [← Option.some.inj ht]
    exact hnow
  · rintro t (ht | ht)
    · exact times_snoc trace action ht
    · rw [Set.mem_ofPred_eq, hstep] at ht
      rw [Set.mem_ofPred_eq, ← Option.some.inj ht, List.map_append]
      exact List.mem_append_right _ (List.mem_singleton.mpr rfl)

/-- An alias was opened by an earlier transaction. -/
theorem Explained.past (h : Explained trace db) {entry : Alias} (hentry : entry ∈ db.aliases) :
    entry.validFrom ∈ trace.map Repair.now := by
  rcases h.opened entry hentry with hattached | ⟨row, hrow, ⟨-, hfrom⟩ | ⟨-, hto, -⟩⟩
  · exact hattached.time
  · exact hfrom ▸ (h.chained.past row hrow).1
  · exact (h.chained.past row hrow).2 _ hto

/-- A transaction that is no attach attaches nothing. -/
theorem attached_snoc (haction : ∀ now provider entityKind externalId item source confidence caches,
    action ≠ .attach now provider entityKind externalId item source confidence caches)
    {t : Instant} {item : Nat} (h : AttachedAt (trace ++ [action]) t item) :
    AttachedAt trace t item := by
  obtain ⟨provider, entityKind, externalId, source, confidence, caches, hmem⟩ := h
  rcases List.mem_append.mp hmem with hmem | hmem
  · exact ⟨provider, entityKind, externalId, source, confidence, caches, hmem⟩
  · exact absurd (List.mem_singleton.mp hmem).symm (haction _ _ _ _ _ _ _ _)

/-- A transaction without a write keeps the invariant. -/
theorem explained_idle (h : Explained trace db)
    (haction : ∀ now provider entityKind externalId item source confidence caches,
      action ≠ .attach now provider entityKind externalId item source confidence caches) :
    Explained (trace ++ [action]) db where
  chained := h.chained.mono (times_snoc trace action)
  merged row hrow := (h.merged row hrow).snoc
  repaired row hrow t hto := (h.repaired row hrow t hto).imp ReattachedAt.snoc RevertedAt.snoc
  opened entry hentry :=
    (h.opened entry hentry).imp AttachedAt.snoc fun hthen => hthen.keep (keeps_rows_refl _ _)
  closed entry hentry t hto := (h.closed entry hentry t hto).keep (keeps_rows_refl _ _)
  once t item hattached := h.once t item (attached_snoc haction hattached)

/-- A loader's attach keeps the invariant. -/
theorem explained_attach {now : Instant} {provider entityKind externalId source : String}
    {item : Nat} {confidence : Option Rat} {caches : List CachedRow} (h : Explained trace db)
    (hnow : now ∉ trace.map Repair.now) :
    Explained
      (trace ++ [.attach now provider entityKind externalId item source confidence caches])
      { db with
        aliases := db.aliases ++
          [attachedRow now provider entityKind externalId item source confidence]
        caches } := by
  constructor
  case chained => exact h.chained.mono (times_snoc trace _)
  case merged => exact fun row hrow => (h.merged row hrow).snoc
  case repaired =>
    exact fun row hrow t hto => (h.repaired row hrow t hto).imp ReattachedAt.snoc RevertedAt.snoc
  case opened =>
    intro entry hentry
    rcases List.mem_append.mp hentry with hentry | hentry
    · exact (h.opened entry hentry).imp AttachedAt.snoc fun hthen =>
        hthen.keep (keeps_rows_refl _ _)
    · obtain rfl := List.mem_singleton.mp hentry
      exact Or.inl ⟨provider, entityKind, externalId, source, confidence, caches,
        List.mem_append_right _ (List.mem_singleton.mpr rfl)⟩
  case closed =>
    intro entry hentry t hto
    rcases List.mem_append.mp hentry with hentry | hentry
    · exact (h.closed entry hentry t hto).keep (keeps_rows_refl _ _)
    · obtain rfl := List.mem_singleton.mp hentry
      cases hto
  case once =>
    intro t target hattached
    rw [List.filter_append, List.map_append]
    obtain ⟨provider', entityKind', externalId', source', confidence', caches', hmem⟩ := hattached
    rcases List.mem_append.mp hmem with hmem | hmem
    · have hattached : AttachedAt trace t target :=
        ⟨provider', entityKind', externalId', source', confidence', caches', hmem⟩
      have hother : now ≠ t := by
        rintro rfl
        exact hnow hattached.time
      have hnone : [attachedRow now provider entityKind externalId item source confidence].filter
          (fun entry => entry.validFrom = t) = [] := by
        simp [attachedRow, hother]
      rw [h.once t target hattached, hnone, List.map_nil, List.append_nil]
    · cases List.mem_singleton.mp hmem
      have hnone : db.aliases.filter (fun entry => entry.validFrom = now) = [] := by
        refine List.filter_eq_nil_iff.mpr fun entry hentry hfrom => hnow ?_
        rw [← of_decide_eq_true hfrom]
        exact h.past hentry
      rw [hnone, List.filter_cons_of_pos (by simp [attachedRow])]
      rfl

/-- A transaction that shifts aliases and explains the shift keeps the invariant. -/
theorem explained_shift {selected : Alias → Prop} [DecidablePred selected] {source target : Nat}
    {now : Instant} (h : Explained trace db) (hnow : now ∉ trace.map Repair.now)
    (haction : ∀ now provider entityKind externalId item source confidence caches,
      action ≠ .attach now provider entityKind externalId item source confidence caches)
    (hchained : Chained next.supersessions next.nextId {t | t ∈ (trace ++ [action]).map Repair.now})
    (hmerged : ∀ row ∈ next.supersessions, ReattachedAt (trace ++ [action]) row.validFrom)
    (hrepaired : ∀ row ∈ next.supersessions, ∀ t, row.validTo = some t →
      ReattachedAt (trace ++ [action]) t ∨ RevertedAt (trace ++ [action]) t)
    (hkeep : KeepsRows trace db.supersessions next.supersessions)
    (haliases : next.aliases = shiftAliases selected target now db.aliases)
    (hsource : ∀ entry, selected entry → entry.nativeId = source)
    (hthen : ∀ entry ∈ db.aliases, selected entry →
      OpenedThen (trace ++ [action]) next.supersessions target now ∧
        ClosedThen (trace ++ [action]) next.supersessions source now) :
    Explained (trace ++ [action]) next := by
  constructor
  case chained => exact hchained
  case merged => exact hmerged
  case repaired => exact hrepaired
  case opened =>
    intro entry hentry
    rw [haliases] at hentry
    rcases mem_shift hentry with hold | ⟨old, hold, hselected, rfl⟩ | ⟨old, hold, hselected, rfl⟩
    · exact (h.opened entry hold).imp AttachedAt.snoc fun hthen => hthen.keep hkeep
    · exact (h.opened old hold).imp AttachedAt.snoc fun hthen => hthen.keep hkeep
    · exact Or.inr (hthen old hold hselected).1
  case closed =>
    intro entry hentry t hto
    rw [haliases] at hentry
    rcases mem_shift hentry with hold | ⟨old, hold, hselected, rfl⟩ | ⟨old, hold, hselected, rfl⟩
    · exact (h.closed entry hold t hto).keep hkeep
    · cases hto
      rw [← hsource old hselected] at hthen
      exact (hthen old hold hselected).2
    · cases hto
  case once =>
    intro t item hattached
    have hbefore := attached_snoc haction hattached
    have ht : t ≠ now := fun heq => hnow (heq ▸ hbefore.time)
    rw [haliases, shift_opened_at ht, h.once t item hbefore]

/-- A re-attachment that moves no alias under an open supersession keeps the invariant. -/
theorem explained_reattach {now : Instant} {discogsIds : String → String → Option String}
    {kind : SplitKind} {mbid : String} {decisionRef : Nat} {outcome : ItemOutcome}
    (h : Explained trace db) (hnow : now ∉ trace.map Repair.now) (hunique : UniqueCurrent db.aliases)
    (hopens : ¬MovesUnderOpen db discogsIds kind mbid)
    (hstep : reattachItem db discogsIds kind mbid decisionRef now = .ok (next, outcome)) :
    Explained (trace ++ [.reattach now discogsIds kind mbid decisionRef]) next ∧
      UniqueCurrent next.aliases := by
  have hidle : next = db → Explained (trace ++ [.reattach now discogsIds kind mbid decisionRef]) next ∧
      UniqueCurrent next.aliases := by
    rintro rfl
    exact ⟨explained_idle h nofun, hunique⟩
  rcases reattach_item_cases hstep with ⟨-, hsame⟩ | ⟨splitId, discogsNativeId, hsplitOf, hsplit⟩
  · exact hidle hsame
  rcases reattach_split_cases hunique hsplit with ⟨-, hsame⟩ |
    ⟨-, -, -, -, -, hguards, itemKind, existing, merge, hlock, hcurrent, hmerge⟩
  · exact hidle hsame
  have hne := lock_items_ne hlock
  have hat : ReattachedAt (trace ++ [.reattach now discogsIds kind mbid decisionRef]) now :=
    ⟨discogsIds, kind, mbid, decisionRef, List.mem_append_right _ (List.mem_singleton.mpr rfl)⟩
  obtain ⟨-, haliases, -, -, hsome, hnone⟩ := merge_items_tables _ hne _ _ _ _ _ hmerge
  dsimp only at haliases hsome hnone
  have happly := apply_merge_pair (committed_merge_pair hmerge hlock hcurrent)
  have hchained := chained_snoc (.reattach now discogsIds kind mbid decisionRef)
    (by exact h.chained) rfl rfl hnow happly
  have hmem := @mem_open_and_compress db.supersessions db.nextId splitId discogsNativeId now
    .catalogReattachment decisionRef hne
  obtain ⟨-, hexisting⟩ := current_supersession_cases hcurrent
  refine ⟨?_, haliases ▸ unique_moved hunique⟩
  rcases hexisting with ⟨rfl, -⟩ | ⟨row, hrow, -, rfl⟩
  · have hrows := hnone rfl
    have hopened : openedRow db.nextId splitId discogsNativeId .catalogReattachment decisionRef now ∈
        next.supersessions := by
      rw [hrows]
      exact hmem.mpr (Or.inr (Or.inl rfl))
    refine explained_shift h hnow nofun hchained ?merged ?repaired ?keep haliases
      (fun entry hentry => hentry.1) fun entry _ _ => ⟨⟨_, hopened, Or.inl ⟨rfl, rfl⟩⟩,
        ⟨_, hopened, Or.inl ⟨rfl, rfl⟩⟩⟩
    case merged =>
      rw [hrows]
      intro row hrow
      rcases hmem.mp hrow with ⟨old, hold, rfl⟩ | rfl | ⟨old, k, -, rfl⟩
      · rw [close_survived_from]
        exact (h.merged old hold).snoc
      · exact hat
      · exact hat
    case repaired =>
      rw [hrows]
      intro row hrow t hto
      rcases hmem.mp hrow with ⟨old, hold, rfl⟩ | rfl | ⟨old, k, -, rfl⟩
      · rcases close_survived_closed hto with hto | ⟨-, -, rfl⟩
        · exact (h.repaired old hold t hto).imp ReattachedAt.snoc RevertedAt.snoc
        · exact Or.inl hat
      · cases hto
      · cases hto
    case keep => exact hrows ▸ keeps_rows_merge hne
  · -- the row is open already, so the split item holds no alias to move
    have hrows := hsome (Option.some_ne_none _)
    have hempty : heldAliases splitId db.aliases = [] := by
      by_contra hheld
      exact hopens ⟨splitId, discogsNativeId, hsplitOf, hguards, by rw [hrow]; exact nofun, hheld⟩
    refine explained_shift h hnow nofun hchained ?merged ?repaired ?keep haliases
      (fun entry hentry => hentry.1) fun entry hentry hselected => ?none
    case merged => exact fun row hrow => (h.merged row (hrows ▸ hrow)).snoc
    case repaired => exact fun row hrow t hto =>
      (h.repaired row (hrows ▸ hrow) t hto).imp ReattachedAt.snoc RevertedAt.snoc
    case keep => exact hrows ▸ keeps_rows_refl _ _
    case none =>
      have hheld := mem_held.mpr ⟨hentry, hselected⟩
      rw [hempty] at hheld
      exact absurd hheld List.not_mem_nil

/-- A revert with its aliases moved back keeps the invariant. -/
theorem explained_revert {now : Instant} {id : Nat} {keys : List AliasKey} {outcome : RevertOutcome}
    (h : Explained trace db) (hnow : now ∉ trace.map Repair.now)
    (htimes : (trace.map Repair.now).Nodup)
    (hstep : revertWithAliases db id keys now = .ok (next, outcome)) :
    Explained (trace ++ [.revert now id keys]) next := by
  obtain ⟨row, hfind, hrevert⟩ := bind_ok hstep
  obtain ⟨opened, hmem, hopenedId, hopen, kind, rfl⟩ := revert_tables (by exact h.chained) hnow hrevert
  obtain ⟨hrow, hid⟩ := find_supersession_ok hfind
  obtain rfl : row = opened := h.chained.eq_of_id hrow hmem (hid.trans hopenedId.symm)
  have hchained := chained_snoc (.revert now id keys) (by exact h.chained) rfl rfl hnow
    (apply_revert_supersession hrevert)
  have hat : RevertedAt (trace ++ [.revert now id keys]) now :=
    ⟨id, keys, List.mem_append_right _ (List.mem_singleton.mpr rfl)⟩
  have hclosed : restoreRow row now row ∈ db.supersessions.map (restoreRow row now) :=
    List.mem_map_of_mem hmem
  have hto : (restoreRow row now row).validTo = some now := by
    rw [restore_row_to, if_pos (Or.inl rfl)]
  refine explained_shift h hnow nofun hchained ?merged ?repaired
    (keeps_rows_revert h.chained hmem hopen htimes (h.merged row hmem)) rfl
    (fun entry hentry => hentry.1) fun _ _ _ =>
      ⟨⟨_, hclosed, Or.inr ⟨restore_row_superseded row, hto, hat⟩⟩,
        ⟨_, hclosed, Or.inr ⟨restore_row_survivor row, hto, hat⟩⟩⟩
  case merged =>
    intro restored hrestored
    obtain ⟨old, hold, rfl⟩ := List.mem_map.mp hrestored
    rw [restore_row_from]
    exact (h.merged old hold).snoc
  case repaired =>
    intro restored hrestored t ht
    obtain ⟨old, hold, rfl⟩ := List.mem_map.mp hrestored
    rcases restore_row_cases row now old with ⟨-, hnow⟩ | ⟨-, -, hreopened⟩ | ⟨-, hsame⟩
    · obtain rfl := Option.some.inj (hnow.symm.trans ht)
      exact Or.inr hat
    · rw [ht] at hreopened
      cases hreopened
    · exact (h.repaired old hold t (hsame.symm.trans ht)).imp ReattachedAt.snoc RevertedAt.snoc

/-- A new current row under a free key keeps one current alias per key. -/
theorem unique_attach {aliases : List Alias} {entry : Alias} (hunique : UniqueCurrent aliases)
    (hopen : entry.validTo = none)
    (hfree : ∀ row ∈ aliases, row.validTo = none → row.key ≠ entry.key) :
    UniqueCurrent (aliases ++ [entry]) := by
  have hsingle : currentAliases [entry] = [entry] := by
    simp [currentAliases, hopen]
  rw [UniqueCurrent, current_append, hsingle, List.map_append, List.nodup_append]
  refine ⟨hunique, List.nodup_singleton _, fun key hkey other hother heq => ?_⟩
  obtain ⟨row, hrow, rfl⟩ := List.mem_map.mp hkey
  obtain ⟨hin, hcurrent⟩ := mem_current.mp hrow
  exact hfree row hin hcurrent (heq.trans (List.mem_singleton.mp hother))

/-- A revert keeps one current alias per key. -/
theorem revert_unique {now : Instant} {id : Nat} {keys : List AliasKey} {outcome : RevertOutcome}
    (h : Explained trace db) (hnow : now ∉ trace.map Repair.now) (hunique : UniqueCurrent db.aliases)
    (hstep : revertWithAliases db id keys now = .ok (next, outcome)) :
    UniqueCurrent next.aliases := by
  obtain ⟨row, -, hrevert⟩ := bind_ok hstep
  obtain ⟨opened, -, -, -, kind, rfl⟩ := revert_tables (by exact h.chained) hnow hrevert
  exact unique_shift (fun entry hentry => hentry.2.1) hunique

end Steps

/-- Every run that moves no alias under an open supersession explains its aliases. -/
theorem run_explained {start db : Db} {trace : List Repair} (hrows : start.supersessions = [])
    (haliases : start.aliases = []) (htimes : (trace.map Repair.now).Nodup)
    (hrun : execute Repair.apply start trace = .ok db)
    (hopens : Along Repair.apply Opens start trace) :
    Explained trace db ∧ UniqueCurrent db.aliases := by
  refine along_induction (motive := fun trace db => (trace.map Repair.now).Nodup →
    Explained trace db ∧ UniqueCurrent db.aliases) ?_ ?_ hrun hopens htimes
  · intro _
    refine ⟨⟨?_, ?_, ?_, ?_, ?_, ?_⟩, ?_⟩
    · rw [hrows]
      exact (chained_nil _).mono (Set.empty_subset _)
    · rw [hrows]
      exact nofun
    · rw [hrows]
      exact nofun
    · rw [haliases]
      exact nofun
    · rw [haliases]
      exact nofun
    · rintro t item ⟨provider, entityKind, externalId, source, confidence, caches, hmem⟩
      exact absurd hmem List.not_mem_nil
    · rw [haliases]
      exact List.nodup_nil
  · intro trace action db next ih hcondition hstep hnodup
    rw [List.map_append, List.nodup_append] at hnodup
    obtain ⟨hbefore, -, hapart⟩ := hnodup
    have hnow : action.now ∉ trace.map Repair.now := fun hin =>
      hapart _ hin _ (List.mem_singleton.mpr rfl) rfl
    obtain ⟨hexplained, hunique⟩ := ih hbefore
    cases action with
    | attach now provider entityKind externalId item source confidence caches =>
        simp only [Repair.apply] at hstep
        split at hstep
        · cases hstep
        · rename_i hfree
          obtain rfl := Except.ok.inj hstep
          exact ⟨explained_attach hexplained hnow, unique_attach hunique rfl
            fun row hrow hopen hkey => hfree ⟨row, hrow, hkey, hopen⟩⟩
    | reattach now discogsIds kind mbid decisionRef =>
        simp only [Repair.apply] at hstep
        split at hstep
        · rename_i found outcome hreattach
          obtain rfl := Except.ok.inj hstep
          exact explained_reattach hexplained hnow hunique hcondition hreattach
        · cases hstep
    | revert now id keys =>
        simp only [Repair.apply] at hstep
        split at hstep
        · rename_i found outcome hrevert
          obtain rfl := Except.ok.inj hstep
          exact ⟨explained_revert hexplained hnow hbefore hrevert,
            revert_unique hexplained hnow hunique hrevert⟩
        · cases hstep

end CatalogApi.IdentityLedger
