import CatalogApi.CatalogMerge.Caches
import CatalogApi.CatalogMerge.Dependents

/-!
# A revert undoes its merge

Merges and reverts nest: between a merge and its revert other pairs may be merged, if each is
reverted in turn (`Nested`). Such a sequence restores the database it started from (`Restores`):
it leaves closed supersession rows and ledger entries behind, and nothing else
(`nested_restores`). So does a merge with a nested sequence and its revert around it, whatever it
compressed (`revert_undoes_merge`).
-/

namespace CatalogApi.CatalogMerge

open Runs

/-! ## The two transactions in full -/

theorem lock_item_ok {db : Db} {item : Nat} {kind : EntityKind} (h : lockItem db item = .ok kind) :
    db.kinds item = some kind := by
  unfold lockItem at h
  split at h
  · rename_i found hfound
    rw [hfound, Except.ok.inj h]
  · cases h

/-- Items that are locked have one kind. -/
theorem lock_items_kinds {db : Db} {superseded survivor : Nat} {kind : EntityKind}
    (h : lockItems db superseded survivor = .ok kind) :
    db.kinds superseded = some kind ∧ db.kinds survivor = some kind := by
  have hne := lock_items_ne h
  unfold lockItems at h
  rw [if_neg hne] at h
  obtain ⟨first, hfirst, h⟩ := bind_ok h
  obtain ⟨second, hsecond, h⟩ := bind_ok h
  replace hfirst := lock_item_ok hfirst
  replace hsecond := lock_item_ok hsecond
  have hsame : ∀ {kind' other : EntityKind}, (do
      if kind' ≠ other then throw (.kindsDiffer superseded kind' survivor other)
      pure kind' : Except MergeConflict EntityKind) = .ok kind → kind' = kind ∧ other = kind := by
    intro kind' other h
    by_cases hkinds : kind' = other
    · rw [if_neg (not_not.mpr hkinds)] at h
      have hkind := Except.ok.inj h
      exact ⟨hkind, hkinds ▸ hkind⟩
    · rw [if_pos hkinds] at h
      cases h
  by_cases hle : superseded ≤ survivor
  · rw [if_pos hle] at h
    obtain ⟨rfl, rfl⟩ := hsame h
    rw [Nat.min_eq_left hle] at hfirst
    rw [Nat.max_eq_right hle] at hsecond
    exact ⟨hfirst, hsecond⟩
  · rw [if_neg hle] at h
    obtain ⟨rfl, rfl⟩ := hsame h
    rw [Nat.min_eq_right (Nat.le_of_not_le hle)] at hfirst
    rw [Nat.max_eq_left (Nat.le_of_not_le hle)] at hsecond
    exact ⟨hsecond, hfirst⟩

/-- The locks succeed on two items of one kind. -/
theorem lock_items_ok {db : Db} {superseded survivor : Nat} {kind : EntityKind}
    (hne : superseded ≠ survivor) (hsuperseded : db.kinds superseded = some kind)
    (hsurvivor : db.kinds survivor = some kind) : lockItems db superseded survivor = .ok kind := by
  have hlock : ∀ {item}, item = superseded ∨ item = survivor → lockItem db item = .ok kind := by
    intro item hitem
    have hkind : db.kinds item = some kind := by
      rcases hitem with rfl | rfl
      · exact hsuperseded
      · exact hsurvivor
    rw [lockItem, hkind]
    rfl
  rw [lockItems, if_neg hne, hlock (min_choice superseded survivor),
    hlock (max_choice superseded survivor)]
  simp [bind, Except.bind, pure, Except.pure]

/-- What a merge that opens a row leaves in every table. -/
structure Merged (db : Db) (superseded survivor : Nat) (cause : Cause) (decisionRef : Nat)
    (now : Instant) (next : Db) : Prop where
  ne : superseded ≠ survivor
  source : openRow db.supersessions superseded = none
  sink : openRow db.supersessions survivor = none
  kind : ∃ kind, db.kinds superseded = some kind ∧ db.kinds survivor = some kind ∧
    next.caches = db.caches.map (refresh db.aliases kind [superseded, survivor])
  kinds : next.kinds = db.kinds
  supersessions : next.supersessions =
    openAndCompress db.supersessions db.nextId superseded survivor cause decisionRef now
  nextId : next.nextId = db.nextId + 1 + (survived superseded db.supersessions).length
  dependents : next.dependents = db.dependents.map (repointed superseded survivor)
  moves : next.moves = ledgerAll superseded survivor db.nextId now db.dependents db.moves
  aliases : next.aliases = db.aliases

/-- A merge that opens a row numbers it next. -/
theorem merge_pair_opened {db next : Db} {superseded survivor : Nat} {cause : Cause}
    {decisionRef : Nat} {now : Instant} {outcome : MergeOutcome}
    (h : mergePair db superseded survivor cause decisionRef now = .ok (next, outcome))
    (hopened : outcome.opened = true) :
    outcome.supersessionId = db.nextId ∧
      Merged db superseded survivor cause decisionRef now next := by
  obtain ⟨kind, hlock, h⟩ := bind_ok h
  obtain ⟨existing, hcurrent, h⟩ := bind_ok h
  have hne := lock_items_ne hlock
  obtain ⟨hsuperseded, hsurvivor⟩ := lock_items_kinds hlock
  have hmerge : mergeItems db superseded survivor kind cause decisionRef existing now =
      (next, outcome) := Except.ok.inj h
  have hcounts : outcome = (mergeItems db superseded survivor kind cause decisionRef existing
      now).2 := (congrArg Prod.snd hmerge).symm
  have houtcome : outcome.opened = existing.isNone := by
    rw [hcounts]
    rfl
  rw [hopened] at houtcome
  obtain rfl := Option.isNone_iff_eq_none.mp houtcome.symm
  obtain ⟨hsink, ⟨-, hsource⟩ | ⟨row, -, -, hrow⟩⟩ := current_supersession_cases hcurrent
  · have hid : outcome.supersessionId = db.nextId := by
      rw [hcounts]
      rfl
    have hnext := congrArg Prod.fst hmerge
    simp only [mergeItems, repoint_all_eq _ _ _ _ _ hne, recompute_caches_eq] at hnext
    refine ⟨hid, ⟨hne, hsource, hsink, ⟨kind, hsuperseded, hsurvivor, ?_⟩, ?_, ?_, ?_, ?_, ?_,
      ?_⟩⟩ <;> rw [← hnext]
  · cases hrow

theorem find_supersession_ok {db : Db} {id : Nat} {row : Supersession}
    (h : findSupersession db id = .ok row) : row ∈ db.supersessions ∧ row.id = id := by
  unfold findSupersession at h
  split at h
  · rename_i found hfound
    have hid := List.find?_some hfound
    rw [decide_eq_true_eq] at hid
    obtain rfl := Except.ok.inj h
    exact ⟨List.mem_of_find?_eq_some hfound, hid⟩
  · cases h

/-- A revert of an open, uncompressed row commits, and what it leaves in every table. -/
theorem revert_open (db : Db) (kind : EntityKind) {used : Set Instant}
    (hchained : Chained db.supersessions db.nextId used) {now : Instant} (hnow : now ∉ used)
    {opened : Supersession} (hmem : opened ∈ db.supersessions) (hopen : opened.validTo = none)
    (hvia : opened.viaId = none)
    (hsuperseded : db.kinds opened.supersededId = some kind)
    (hsurvivor : db.kinds opened.survivorId = some kind) :
    ∃ outcome, revertSupersession db opened.id now = .ok
      ({ db with
         supersessions := db.supersessions.map (restoreRow opened now)
         dependents := db.dependents.map fun row => moveBackRow db.moves opened.id row.table row
         caches := db.caches.map
           (refresh db.aliases kind [opened.supersededId, opened.survivorId]) }, outcome) := by
  have hfind : findSupersession db opened.id = .ok opened := by
    cases hfound : db.supersessions.find? fun row => row.id = opened.id with
    | none =>
        exact absurd (decide_eq_true rfl) (List.find?_eq_none.mp hfound opened hmem)
    | some row =>
        have hid := List.find?_some hfound
        rw [decide_eq_true_eq] at hid
        obtain rfl := hchained.eq_of_id (List.mem_of_find?_eq_some hfound) hmem hid
        rw [findSupersession, hfound]
        rfl
  have hlock := lock_items_ok (hchained.irrefl opened hmem) hsuperseded hsurvivor
  obtain ⟨reopened, hchains⟩ := revert_chains_eq hchained hnow hmem hopen hvia
  refine ⟨?outcome, ?committed⟩
  case committed =>
    simp only [revertSupersession, hfind, hlock, hopen, hvia, hchains, bind, Except.bind, pure,
      Except.pure, ne_eq, not_true_eq_false, if_false, recompute_caches_eq, move_back_all_eq]
    rfl

/-- What a committed revert leaves in every table. -/
theorem revert_tables {db next : Db} {used : Set Instant}
    (hchained : Chained db.supersessions db.nextId used) {now : Instant} (hnow : now ∉ used)
    {id : Nat} {outcome : RevertOutcome}
    (h : revertSupersession db id now = .ok (next, outcome)) :
    ∃ opened ∈ db.supersessions, opened.id = id ∧ opened.validTo = none ∧ ∃ kind, next =
      { db with
        supersessions := db.supersessions.map (restoreRow opened now)
        dependents := db.dependents.map fun row => moveBackRow db.moves id row.table row
        caches := db.caches.map
          (refresh db.aliases kind [opened.supersededId, opened.survivorId]) } := by
  obtain ⟨opened, hmem, rfl, hopen, hvia, -⟩ := revert_cases h
  obtain ⟨row, hfind, hrest⟩ := bind_ok h
  obtain ⟨kind, hlock, -⟩ := bind_ok hrest
  obtain ⟨hrow, hid⟩ := find_supersession_ok hfind
  obtain rfl := hchained.eq_of_id hrow hmem hid
  obtain ⟨hsuperseded, hsurvivor⟩ := lock_items_kinds hlock
  obtain ⟨outcome', hrevert⟩ := revert_open db kind hchained hnow hmem hopen hvia hsuperseded
    hsurvivor
  rw [h] at hrevert
  exact ⟨row, hmem, rfl, hopen, kind, congrArg Prod.fst (Except.ok.inj hrevert)⟩

/-! ## Reachable databases -/

/-- Databases that committed transactions reach from an empty supersession table, with the start
of each merge and revert. Any other transaction may write everything but the supersessions and
their ledger, and keeps the primary keys of the moved tables. -/
inductive Reachable : Db → Set Instant → Prop where
  | start {db : Db} (hrows : db.supersessions = []) (hmoves : db.moves = [])
      (hkeys : (db.dependents.map fun row => (row.table, row.id)).Nodup) : Reachable db ∅
  | merge {db next : Db} {used : Set Instant} {now : Instant} {superseded survivor : Nat}
      {cause : Cause} {decisionRef : Nat} {outcome : MergeOutcome} (h : Reachable db used)
      (hnow : now ∉ used)
      (hmerge : mergePair db superseded survivor cause decisionRef now = .ok (next, outcome)) :
      Reachable next (insert now used)
  | revert {db next : Db} {used : Set Instant} {now : Instant} {id : Nat}
      {outcome : RevertOutcome} (h : Reachable db used) (hnow : now ∉ used)
      (hrevert : revertSupersession db id now = .ok (next, outcome)) :
      Reachable next (insert now used)
  | other {db next : Db} {used : Set Instant} (h : Reachable db used)
      (hrows : next.supersessions = db.supersessions) (hmoves : next.moves = db.moves)
      (hnext : next.nextId = db.nextId)
      (hkeys : (next.dependents.map fun row => (row.table, row.id)).Nodup) : Reachable next used

/-- What every reachable database satisfies. -/
structure Sound (db : Db) (used : Set Instant) : Prop where
  chained : Chained db.supersessions db.nextId used
  ledger : ∀ move ∈ db.moves, move.supersessionId < db.nextId
  keys : (db.dependents.map fun row => (row.table, row.id)).Nodup

theorem keys_map {rows : List Dependent} {f : Dependent → Dependent}
    (hf : ∀ row, (f row).table = row.table ∧ (f row).id = row.id)
    (hkeys : (rows.map fun row => (row.table, row.id)).Nodup) :
    ((rows.map f).map fun row => (row.table, row.id)).Nodup := by
  rw [List.map_map]
  have hsame : ((fun row : Dependent => (row.table, row.id)) ∘ f) =
      fun row => (row.table, row.id) :=
    funext fun row => Prod.ext (hf row).1 (hf row).2
  rw [hsame]
  exact hkeys

theorem ledger_bound {db : Db} {used : Set Instant} (h : Sound db used) {next : Db}
    {superseded survivor supersession : Nat} {now : Instant} (hid : supersession < next.nextId)
    (hnext : db.nextId ≤ next.nextId)
    (hmoves : next.moves = ledgerAll superseded survivor supersession now db.dependents db.moves) :
    ∀ move ∈ next.moves, move.supersessionId < next.nextId := by
  intro move hmove
  rw [hmoves] at hmove
  rcases mem_ledger_all hmove with hold | ⟨hsup, -⟩
  · exact Nat.lt_of_lt_of_le (h.ledger move hold) hnext
  · rw [hsup]
    exact hid

/-- A committed transaction leaves a sound table sound. -/
theorem reachable_sound {db : Db} {used : Set Instant} (h : Reachable db used) : Sound db used := by
  have hchain : ∀ {db next : Db} {used : Set Instant} {action : Action} {now : Instant},
      Sound db used → action.now? = some now → now ∉ used → action.apply db = .ok next →
      Chained next.supersessions next.nextId (insert now used) := by
    intro db next used action now hsound hat hnow happly
    refine (apply_chained hsound.chained (fun t ht => ?_) happly).mono ?_
    · rw [hat] at ht
      rw [← Option.some.inj ht]
      exact hnow
    · rintro t (ht | ht)
      · exact Or.inr ht
      · have hsame : action.now? = some t := ht
        rw [hat] at hsame
        exact Or.inl (Option.some.inj hsame).symm
  induction h with
  | start hrows hmoves hkeys =>
      refine ⟨?_, ?_, hkeys⟩
      · rw [hrows]
        exact chained_nil _
      · rw [hmoves]
        exact fun _ h => absurd h List.not_mem_nil
  | @merge db next used now superseded survivor cause decisionRef outcome _ hnow hmerge ih =>
      have hchained := hchain ih rfl hnow (apply_merge_pair hmerge)
      obtain ⟨-, -, -, hdeps, hcases⟩ := merge_pair_cases hmerge
      have hkeys : (next.dependents.map fun row => (row.table, row.id)).Nodup := by
        rw [hdeps]
        exact keys_map (fun row => ⟨repointed_table _ _ row, repointed_id _ _ row⟩) ih.keys
      rcases hcases with ⟨row, hrow, -, -, hnext, hmoves⟩ | ⟨-, -, hnext, hmoves⟩
      · refine ⟨hchained, ledger_bound ih ?_ hnext.ge hmoves, hkeys⟩
        rw [hnext]
        exact ih.chained.fresh row (open_row_some hrow).1
      · refine ⟨hchained, ledger_bound ih ?_ ?_ hmoves, hkeys⟩
        · omega
        · omega
  | @revert db next used now id outcome _ hnow hrevert ih =>
      have hchained := hchain ih rfl hnow (apply_revert_supersession hrevert)
      obtain ⟨opened, -, -, -, -, rows, reopened, -, -, -, hnext, hmoves, hdeps⟩ :=
        revert_cases hrevert
      refine ⟨hchained, ?_, ?_⟩
      · rw [hmoves, hnext]
        exact ih.ledger
      · rw [hdeps]
        exact keys_map (fun row => ⟨move_back_table _ _ row, move_back_id _ _ row⟩) ih.keys
  | other _ hrows hmoves hnext hkeys ih =>
      refine ⟨?_, ?_, hkeys⟩
      · rw [hrows, hnext]
        exact ih.chained
      · rw [hmoves, hnext]
        exact ih.ledger

/-- A merge that opens a row keeps the table sound. -/
theorem sound_merged {db next : Db} {used : Set Instant} (h : Sound db used) {now : Instant}
    (hnow : now ∉ used) {superseded survivor decisionRef : Nat} {cause : Cause}
    (hmerge : Merged db superseded survivor cause decisionRef now next) :
    Sound next (insert now used) where
  chained := by
    rw [hmerge.supersessions, hmerge.nextId]
    exact open_chained h.chained hnow hmerge.ne (fun r hr => open_row_none hmerge.source hr)
      fun r hr => open_row_none hmerge.sink hr
  ledger := ledger_bound h (by rw [hmerge.nextId]; omega) (by rw [hmerge.nextId]; omega)
    hmerge.moves
  keys := by
    rw [hmerge.dependents]
    exact keys_map (fun row => ⟨repointed_table _ _ row, repointed_id _ _ row⟩) h.keys

/-! ## What a sequence restores -/

/-- The database before, but for closed supersession rows and ledger entries of rows to come. -/
structure Restores (db : Db) (used : Set Instant) (next : Db) : Prop where
  kinds : next.kinds = db.kinds
  supersessions : ∃ closed, next.supersessions = db.supersessions ++ closed ∧
    ∀ row ∈ closed, ∃ t, row.validTo = some t ∧ t ∉ used
  dependents : next.dependents = db.dependents
  moves : ∀ move ∈ next.moves, move ∈ db.moves ∨ db.nextId ≤ move.supersessionId
  keep : ∀ move ∈ db.moves, move ∈ next.moves
  nextId : db.nextId ≤ next.nextId
  caches : next.caches = db.caches
  held : ∀ key item, HeldBy next.aliases key item ↔ HeldBy db.aliases key item

theorem restores_refl (db : Db) (used : Set Instant) : Restores db used db where
  kinds := rfl
  supersessions := ⟨[], (List.append_nil _).symm, fun _ h => absurd h List.not_mem_nil⟩
  dependents := rfl
  moves _ h := Or.inl h
  keep _ h := h
  nextId := le_rfl
  caches := rfl
  held _ _ := Iff.rfl

theorem Restores.trans {db next last : Db} {used later : Set Instant} (h : Restores db used next)
    (hsub : used ⊆ later) (h' : Restores next later last) : Restores db used last where
  kinds := h'.kinds.trans h.kinds
  supersessions := by
    obtain ⟨closed, hrows, hclosed⟩ := h.supersessions
    obtain ⟨closed', hrows', hclosed'⟩ := h'.supersessions
    refine ⟨closed ++ closed', by rw [hrows', hrows, List.append_assoc], fun row hrow => ?_⟩
    rcases List.mem_append.mp hrow with hrow | hrow
    · exact hclosed row hrow
    · obtain ⟨t, hto, ht⟩ := hclosed' row hrow
      exact ⟨t, hto, fun hused => ht (hsub hused)⟩
  dependents := h'.dependents.trans h.dependents
  moves := by
    intro move hmove
    rcases h'.moves move hmove with hmove | hid
    · exact h.moves move hmove
    · exact Or.inr (Nat.le_trans h.nextId hid)
  keep move hmove := h'.keep move (h.keep move hmove)
  nextId := Nat.le_trans h.nextId h'.nextId
  caches := h'.caches.trans h.caches
  held key item := (h'.held key item).trans (h.held key item)

theorem Restores.single {db next : Db} {used : Set Instant} (h : Restores db used next)
    (hsingle : SingleHolder db.aliases) : SingleHolder next.aliases :=
  fun key item other hitem hother =>
    hsingle key item other ((h.held key item).mp hitem) ((h.held key other).mp hother)

theorem Restores.coherent {db next : Db} {used : Set Instant} (h : Restores db used next)
    (hcoherent : Coherent db) : Coherent next := by
  intro row hrow item kind cache holder hitem hkind hcache htable hheld
  rw [h.caches] at hrow
  rw [h.kinds] at hkind
  exact hcoherent row hrow item kind cache holder hitem hkind hcache htable
    ((h.held _ _).mp hheld)

section Undo

variable {db merged inner : Db} {used later : Set Instant} {superseded survivor decisionRef : Nat}
  {cause : Cause} {now back : Instant}

/-- The rows that were there before the merge are restored as they were. -/
theorem restore_close_survived (h : Chained db.supersessions db.nextId used) (hnow : now ∉ used)
    {row : Supersession} (hrow : row ∈ db.supersessions) :
    restoreRow (openedRow db.nextId superseded survivor cause decisionRef now) back
      (closeSurvived superseded now row) = row := by
  have hid : row.id ≠ db.nextId := (h.fresh row hrow).ne
  have hvia : row.viaId ≠ some db.nextId := by
    intro hvia
    obtain ⟨opener, hopener, hsame, -⟩ := h.via row hrow _ hvia
    exact (h.fresh opener hopener).ne hsame
  have hclass : ¬((closeSurvived superseded now row).id = db.nextId ∨
      (closeSurvived superseded now row).viaId = some db.nextId) := by
    rw [close_survived_id, close_survived_via]
    exact fun hin => hin.elim hid hvia
  rw [restoreRow, openedRow, if_neg hclass]
  unfold closeSurvived
  by_cases hcond : row.survivorId = superseded ∧ row.validTo = none
  · rw [if_pos hcond, if_pos rfl, ← hcond.2]
  · rw [if_neg hcond, if_neg (h.validTo_ne hnow hrow)]

/-- The ledger of the opened row, whatever was ledgered since. -/
theorem inner_ledger (h : Sound db used)
    (hmerge : Merged db superseded survivor cause decisionRef now merged)
    (hinner : Restores merged (insert now used) inner) {move : Move} (hmove : move ∈ inner.moves)
    (hid : move.supersessionId = db.nextId) :
    move.fromItemId = superseded ∧ move.toItemId = survivor ∧ ∃ row ∈ db.dependents,
      row.table = move.tableName ∧ row.id = move.rowId ∧ row.itemId = superseded := by
  rcases hinner.moves move hmove with hold | hnew
  · rw [hmerge.moves] at hold
    rcases mem_ledger_all hold with hold | ⟨-, hfrom, hto, hrow⟩
    · exact absurd hid (h.ledger move hold).ne
    · exact ⟨hfrom, hto, hrow⟩
  · rw [hid, hmerge.nextId] at hnew
    omega

/-- Every row is moved back to the item it named before the merge. -/
theorem move_back_repointed (h : Sound db used)
    (hmerge : Merged db superseded survivor cause decisionRef now merged)
    (hinner : Restores merged (insert now used) inner) {row : Dependent}
    (hrow : row ∈ db.dependents) :
    moveBackRow inner.moves db.nextId (repointed superseded survivor row).table
      (repointed superseded survivor row) = row := by
  have hledger := fun (move : Move) (hmove : move ∈ inner.moves) hid =>
    inner_ledger h hmerge hinner hmove hid
  unfold moveBackRow moveBackEntry
  rw [if_pos rfl, repointed_table, repointed_id]
  split
  · rename_i move hfound
    have hmem := List.mem_of_find?_eq_some hfound
    have hcond := List.find?_some hfound
    rw [decide_eq_true_eq] at hcond
    obtain ⟨hid, htable, hrowId, -⟩ := hcond
    obtain ⟨hfrom, -, other, hother, hsameTable, hsameId, hitem⟩ := hledger move hmem hid
    obtain rfl : other = row := List.inj_on_of_nodup_map h.keys hother hrow
      (Prod.ext (hsameTable.trans htable) (hsameId.trans hrowId))
    rw [hfrom, repointed, if_pos hitem, ← hitem]
  · -- a row that named the merged item is ledgered, so it would have been found
    rename_i hnone
    have hitem : row.itemId ≠ superseded := by
      intro hitem
      have hledgered : ledgered (ledgerAll superseded survivor db.nextId now db.dependents db.moves)
          db.nextId row.table row.id := ledger_all_ledgered hrow hitem
      obtain ⟨move, hmove, hid, htable, hrowId⟩ := hledgered
      have hmem : move ∈ inner.moves := hinner.keep move (by rw [hmerge.moves]; exact hmove)
      obtain ⟨-, hto, -⟩ := hledger move hmem hid
      refine List.find?_eq_none.mp hnone move hmem (decide_eq_true ⟨hid, htable, hrowId, ?_⟩)
      rw [hto, repointed_item, if_pos hitem]
    rw [repointed, if_neg hitem]

/-- The rows the merge opened and those opened since are closed, the others as they were. -/
theorem restore_supersessions (h : Chained db.supersessions db.nextId used) (hnow : now ∉ used)
    (hback : back ∉ used) (hne : superseded ≠ survivor) {closed : List Supersession}
    (hclosed : ∀ row ∈ closed, ∃ t, row.validTo = some t ∧ t ∉ insert now used) :
    ∃ closed', (openAndCompress db.supersessions db.nextId superseded survivor cause decisionRef now
        ++ closed).map
          (restoreRow (openedRow db.nextId superseded survivor cause decisionRef now) back) =
        db.supersessions ++ closed' ∧ ∀ row ∈ closed', ∃ t, row.validTo = some t ∧ t ∉ used := by
  have hold : (db.supersessions.map (closeSurvived superseded now)).map
      (restoreRow (openedRow db.nextId superseded survivor cause decisionRef now) back) =
      db.supersessions := by
    rw [List.map_map]
    conv_rhs => rw [← List.map_id db.supersessions]
    exact List.map_congr_left fun row hrow => restore_close_survived h hnow hrow
  rw [open_and_compress_eq hne, List.append_assoc, List.map_append, hold]
  refine ⟨_, rfl, fun row' hrow' => ?_⟩
  obtain ⟨row, hrow, rfl⟩ := List.mem_map.mp hrow'
  have hshut : row.id = db.nextId ∨ row.viaId = some db.nextId ∨
      ∃ t, row.validTo = some t ∧ t ∉ insert now used := by
    rcases List.mem_append.mp hrow with hrow | hrow
    · rcases List.mem_cons.mp hrow with rfl | hrow
      · exact Or.inl rfl
      · obtain ⟨entry, -, rfl⟩ := List.mem_map.mp hrow
        exact Or.inr (Or.inl rfl)
    · exact Or.inr (Or.inr (hclosed row hrow))
  rw [restore_row_to]
  by_cases hclass : row.id = db.nextId ∨ row.viaId = some db.nextId
  · exact ⟨back, if_pos hclass, hback⟩
  · rcases hshut with hid | hvia | ⟨t, hto, ht⟩
    · exact absurd (Or.inl hid) hclass
    · exact absurd (Or.inr hvia) hclass
    · have hother : row.validTo ≠ some now := by
        rw [hto]
        exact fun heq => ht (Or.inl (Option.some.inj heq))
      refine ⟨t, ?_, fun hused => ht (Or.inr hused)⟩
      rw [openedRow, if_neg hclass, if_neg hother, hto]

/-- The revert of the row a merge opened restores the database before the merge, when what
happened in between restored the database after it. -/
theorem undo_restores {moved aliases : List Alias} (hsound : Sound db used) (hcoherent : Coherent db)
    (hsingle : SingleHolder db.aliases) (hnow : now ∉ used)
    (hmoved : AliasesMoved db.aliases moved (keysOf db.aliases superseded) superseded survivor)
    (hmerge : Merged { db with aliases := moved } superseded survivor cause decisionRef now merged)
    (hinner : Restores merged (insert now used) inner) (hsub : insert now used ⊆ later)
    (hlater : Sound inner later) (hback : back ∉ later)
    (haliases : AliasesMoved inner.aliases aliases (keysOf db.aliases superseded) survivor
      superseded) :
    ∃ reverted outcome,
      revertSupersession { inner with aliases } db.nextId back = .ok (reverted, outcome) ∧
        Restores db used reverted ∧ Sound reverted (insert back later) := by
  have hsound' : Sound { db with aliases := moved } used :=
    ⟨hsound.chained, hsound.ledger, hsound.keys⟩
  have hne := hmerge.ne
  obtain ⟨kind, hkindS, hkindT, hmergedCaches⟩ := hmerge.kind
  have hkinds : inner.kinds = db.kinds := hinner.kinds.trans hmerge.kinds
  obtain ⟨closed, hrows, hclosed⟩ := hinner.supersessions
  rw [hmerge.supersessions] at hrows
  have hmem : openedRow db.nextId superseded survivor cause decisionRef now ∈
      inner.supersessions := by
    rw [hrows]
    exact List.mem_append_left _ ((mem_open_and_compress hne).mpr (Or.inr (Or.inl rfl)))
  have hfresh : back ∉ used := fun hused => hback (hsub (Or.inr hused))
  obtain ⟨outcome, hrevert⟩ := revert_open { inner with aliases } kind hlater.chained hback hmem rfl
    rfl ((congrFun hkinds _).trans hkindS) ((congrFun hkinds _).trans hkindT)
  have hheld : ∀ key item, HeldBy inner.aliases key item ↔ HeldBy moved key item := by
    intro key item
    rw [hinner.held, hmerge.aliases]
  -- each part of the database then goes back on its own: holders, dependents, caches
  have hheldBack := moved_back hsingle hne hmoved hheld haliases
  have hdependents : inner.dependents.map (fun row =>
      moveBackRow inner.moves db.nextId row.table row) = db.dependents := by
    rw [hinner.dependents, hmerge.dependents, List.map_map]
    conv_rhs => rw [← List.map_id db.dependents]
    exact List.map_congr_left fun row hrow => move_back_repointed hsound' hmerge hinner hrow
  have hcaches : inner.caches.map (refresh aliases kind [superseded, survivor]) = db.caches := by
    rw [hinner.caches, hmergedCaches, List.map_map]
    conv_rhs => rw [← List.map_id db.caches]
    refine List.map_congr_left fun row hrow => ?_
    refine refresh_round_trip hsingle hne hmoved hheldBack fun item hitem cache holder hcached =>
      hcoherent row hrow item kind cache holder hcached ?_
    simp only [List.mem_cons, List.not_mem_nil, or_false] at hitem
    rcases hitem with rfl | rfl
    · exact hkindS
    · exact hkindT
  refine ⟨_, outcome, hrevert, ?_, ?_⟩
  · refine ⟨hkinds, ?_, hdependents, ?_, ?_, ?_, hcaches, hheldBack⟩
    · rw [hrows]
      exact restore_supersessions hsound.chained hnow hfresh hne hclosed
    · intro move hmove
      rcases hinner.moves move hmove with hold | hnew
      · rw [hmerge.moves] at hold
        rcases mem_ledger_all hold with hold | ⟨hid, -⟩
        · exact Or.inl hold
        · exact Or.inr hid.ge
      · rw [hmerge.nextId] at hnew
        exact Or.inr (by dsimp only at hnew; omega)
    · intro move hmove
      refine hinner.keep move ?_
      rw [hmerge.moves]
      exact ledger_all_keep hmove
    · have hnext := hinner.nextId
      rw [hmerge.nextId] at hnext
      dsimp only at hnext ⊢
      omega
  · refine ⟨revert_chained hlater.chained hback hmem rfl rfl, hlater.ledger, ?_⟩
    exact keys_map (fun row => ⟨move_back_table _ _ row, move_back_id _ _ row⟩) hlater.keys

end Undo

/-! ## Nested merges and reverts -/

/-- A transaction that moves the current aliases of one item to the other and merges the pair,
opening the row `id`. -/
def FreshMerge (db : Db) (superseded survivor : Nat) (now : Instant) (id : Nat) (next : Db) :
    Prop :=
  ∃ moved cause decisionRef outcome,
    AliasesMoved db.aliases moved (keysOf db.aliases superseded) superseded survivor ∧
      mergePair { db with aliases := moved } superseded survivor cause decisionRef now =
        .ok (next, outcome) ∧
      outcome.opened = true ∧ outcome.supersessionId = id

/-- A transaction that moves back the aliases of `before` and reverts the row. -/
def FreshRevert (before db : Db) (superseded survivor : Nat) (back : Instant) (id : Nat)
    (next : Db) : Prop :=
  ∃ aliases outcome,
    AliasesMoved db.aliases aliases (keysOf before.aliases superseded) survivor superseded ∧
      revertSupersession { db with aliases } id back = .ok (next, outcome)

/-- A properly nested sequence of fresh merges and their reverts, with the transaction starts. -/
inductive Nested : Db → Set Instant → Db → Set Instant → Prop where
  | nil {db : Db} {used : Set Instant} : Nested db used db used
  | undone {db merged inner reverted last : Db} {used between later : Set Instant}
      {superseded survivor id : Nat} {now back : Instant} (hnow : now ∉ used)
      (hmerge : FreshMerge db superseded survivor now id merged)
      (hinner : Nested merged (insert now used) inner between) (hback : back ∉ between)
      (hrevert : FreshRevert db inner superseded survivor back id reverted)
      (hrest : Nested reverted (insert back between) last later) : Nested db used last later

section Nesting

variable {db merged : Db} {used : Set Instant} {superseded survivor id : Nat} {now : Instant}

/-- What a fresh merge leaves satisfies what it started from. -/
theorem fresh_merge_merged (hsound : Sound db used) (hcoherent : Coherent db)
    (hsingle : SingleHolder db.aliases) (hnow : now ∉ used)
    (hmerge : FreshMerge db superseded survivor now id merged) :
    id = db.nextId ∧ Sound merged (insert now used) ∧ Coherent merged ∧
      SingleHolder merged.aliases ∧ ∃ moved cause decisionRef,
        AliasesMoved db.aliases moved (keysOf db.aliases superseded) superseded survivor ∧
          Merged { db with aliases := moved } superseded survivor cause decisionRef now merged := by
  obtain ⟨moved, cause, decisionRef, outcome, hmoved, hpair, hopened, rfl⟩ := hmerge
  obtain ⟨hid, hmerged⟩ := merge_pair_opened hpair hopened
  have hsound' : Sound { db with aliases := moved } used :=
    ⟨hsound.chained, hsound.ledger, hsound.keys⟩
  obtain ⟨kind, hkindS, hkindT, hcaches⟩ := hmerged.kind
  refine ⟨hid, sound_merged hsound' hnow hmerged, ?_, ?_, moved, cause, decisionRef, hmoved,
    hmerged⟩
  · exact coherent_merged hsingle hmerged.ne hmoved hcoherent rfl hkindS hkindT hmerged.kinds
      hmerged.aliases hcaches
  · rw [hmerged.aliases]
    exact moved_single hsingle hmoved

/-- A nested sequence restores the database it started from. -/
theorem nested_restores {next : Db} {later : Set Instant} (h : Nested db used next later)
    (hsound : Sound db used) (hcoherent : Coherent db) (hsingle : SingleHolder db.aliases) :
    Restores db used next ∧ Sound next later ∧ used ⊆ later := by
  induction h with
  | nil => exact ⟨restores_refl _ _, hsound, subset_rfl⟩
  | @undone db merged inner reverted last used between later superseded survivor id now back hnow
      hmerge hinner hback hrevert hrest ihInner ihRest =>
      obtain ⟨hid, hsoundMerged, hcoherentMerged, hsingleMerged, moved, cause, decisionRef, hmoved,
        hmerged⟩ := fresh_merge_merged hsound hcoherent hsingle hnow hmerge
      obtain ⟨hrestores, hsoundInner, hsub⟩ := ihInner hsoundMerged hcoherentMerged hsingleMerged
      obtain ⟨aliases, outcome, haliases, hback'⟩ := hrevert
      obtain ⟨reverted', outcome', hreverted, hundone, hsoundBack⟩ := undo_restores hsound hcoherent
        hsingle hnow hmoved hmerged hrestores hsub hsoundInner hback haliases
      rw [← hid, hback'] at hreverted
      obtain rfl : reverted = reverted' := congrArg Prod.fst (Except.ok.inj hreverted)
      have hgrown : used ⊆ insert back between := fun t ht => Or.inr (hsub (Or.inr ht))
      obtain ⟨hlast, hsoundLast, hsubLast⟩ := ihRest hsoundBack (hundone.coherent hcoherent)
        (hundone.single hsingle)
      exact ⟨hundone.trans hgrown hlast, hsoundLast, hgrown.trans hsubLast⟩

end Nesting

/-! ## The revert of a fresh merge -/

/-- The open (superseded, survivor) pairs. -/
def openPairs (rows : List Supersession) : List (Nat × Nat) :=
  (rows.filter fun row => row.validTo = none).map fun row => (row.supersededId, row.survivorId)

/-- The database after the caller's transaction: rolled back when the body raises. -/
def afterTransaction {α : Type} (db : Db) (body : Db → Except MergeConflict (Db × α)) : Db :=
  match body db with
  | .ok (next, _) => next
  | .error _ => db

theorem open_pairs_append {rows closed : List Supersession}
    (hclosed : ∀ row ∈ closed, ∃ t, row.validTo = some t) :
    openPairs (rows ++ closed) = openPairs rows := by
  have hnone : closed.filter (fun row => row.validTo = none) = [] := by
    refine List.filter_eq_nil_iff.mpr fun row hrow hopen => ?_
    obtain ⟨t, hto⟩ := hclosed row hrow
    rw [decide_eq_true_eq, hto] at hopen
    cases hopen
  rw [openPairs, List.filter_append, hnone, List.append_nil, openPairs]

/-- A revert undoes its merge, with nested merges and reverts in between: the open pairs, the
references of artifacts and owned copies and the caches are what they were. A transaction that
raises changes nothing. -/
theorem revert_undoes_merge :
    (∀ (db merged inner : Db) (used later : Set Instant) (superseded survivor id : Nat)
      (now back : Instant) (aliases : List Alias),
      Reachable db used → Coherent db → SingleHolder db.aliases → now ∉ used →
      FreshMerge db superseded survivor now id merged →
      Nested merged (insert now used) inner later → back ∉ later →
      AliasesMoved inner.aliases aliases (keysOf db.aliases superseded) survivor superseded →
      ∃ reverted outcome,
        revertSupersession { inner with aliases } id back = .ok (reverted, outcome) ∧
          openPairs reverted.supersessions = openPairs db.supersessions ∧
          reverted.dependents = db.dependents ∧ reverted.caches = db.caches) ∧
    (∀ (db : Db) (moved : List Alias) (superseded survivor decisionRef : Nat) (cause : Cause)
      (now : Instant) (reason : MergeConflict),
      mergePair { db with aliases := moved } superseded survivor cause decisionRef now =
        .error reason →
      afterTransaction db (fun db =>
        mergePair { db with aliases := moved } superseded survivor cause decisionRef now) = db) ∧
    (∀ (db : Db) (moved : List Alias) (id : Nat) (now : Instant) (reason : MergeConflict),
      revertSupersession { db with aliases := moved } id now = .error reason →
      afterTransaction db (fun db => revertSupersession { db with aliases := moved } id now) =
        db) := by
  refine ⟨?_, ?_, ?_⟩
  · intro db merged inner used later superseded survivor id now back aliases hreach hcoherent
      hsingle hnow hmerge hnested hback haliases
    have hsound := reachable_sound hreach
    obtain ⟨hid, hsoundMerged, hcoherentMerged, hsingleMerged, moved, cause, decisionRef, hmoved,
      hmerged⟩ := fresh_merge_merged hsound hcoherent hsingle hnow hmerge
    obtain ⟨hinner, hsoundInner, hsub⟩ := nested_restores hnested hsoundMerged hcoherentMerged
      hsingleMerged
    obtain ⟨reverted, outcome, hreverted, hrestores, -⟩ := undo_restores hsound hcoherent hsingle
      hnow hmoved hmerged hinner hsub hsoundInner hback haliases
    obtain ⟨closed, hrows, hclosed⟩ := hrestores.supersessions
    refine ⟨reverted, outcome, hid ▸ hreverted, ?_, hrestores.dependents, hrestores.caches⟩
    rw [hrows]
    exact open_pairs_append fun row hrow => (hclosed row hrow).imp fun _ h => h.1
  · intro db moved superseded survivor decisionRef cause now reason herror
    rw [afterTransaction, herror]
  · intro db moved id now reason herror
    rw [afterTransaction, herror]

/-- The MusicBrainz alias of the witness, held by the item. -/
def attachedAlias (item : Nat) : Alias :=
  { provider := "musicbrainz", entityKind := "release", externalId := "m1", nativeId := item,
    source := "catalog", confidence := none, validFrom := 0, validTo := none }

/-- A catalog with an alias, its cache and an owned copy, all of item 1. -/
def attached : Db :=
  { unmerged with
    dependents := [{ table := .ownedCopies, id := 7, itemId := 1, owner := none }]
    aliases := [attachedAlias 1]
    caches := [{ table := "musicbrainz.releases", key := "m1", gmItemId := some 1 }] }

theorem attached_alias_held {item other : Nat} {key : AliasKey} :
    HeldBy [attachedAlias item] key other ↔ key = (attachedAlias item).key ∧ other = item := by
  constructor
  · rintro ⟨entry, hentry, rfl, rfl, -⟩
    obtain rfl := List.mem_singleton.mp hentry
    exact ⟨rfl, rfl⟩
  · rintro ⟨rfl, rfl⟩
    exact ⟨attachedAlias other, List.mem_singleton.mpr rfl, rfl, rfl, rfl⟩

theorem attached_alias_moved {item target : Nat} {keys : Set AliasKey}
    (hkeys : (attachedAlias item).key ∈ keys) :
    AliasesMoved [attachedAlias item] [attachedAlias target] keys item target := by
  intro key other
  have hsame : (attachedAlias target).key = (attachedAlias item).key := rfl
  rw [attached_alias_held, attached_alias_held, attached_alias_held, hsame]
  constructor
  · rintro ⟨rfl, rfl⟩
    exact Or.inr ⟨rfl, hkeys, rfl, rfl⟩
  · rintro (⟨⟨rfl, rfl⟩, hnot⟩ | ⟨rfl, -, rfl, -⟩)
    · exact absurd ⟨hkeys, rfl⟩ hnot
    · exact ⟨rfl, rfl⟩

theorem attached_coherent : Coherent attached := by
  intro row hrow item kind cache holder hitem hkind hcache htable hheld
  obtain rfl := List.mem_singleton.mp hrow
  obtain ⟨-, rfl⟩ := attached_alias_held.mp hheld
  exact Option.some.inj hitem

/-- Item 1 merged into 2. -/
def onceMerged : Db :=
  afterTransaction { attached with aliases := [attachedAlias 2] } fun db =>
    mergePair db 1 2 .catalogReattachment 50 1

/-- Then item 2 merged into 3, which compresses the first merge. -/
def twiceMerged : Db :=
  afterTransaction { onceMerged with aliases := [attachedAlias 3] } fun db =>
    mergePair db 2 3 .catalogReattachment 51 2

/-- Then the second merge reverted. -/
def onceReverted : Db :=
  afterTransaction { twiceMerged with aliases := [attachedAlias 2] } fun db =>
    revertSupersession db 101 3

/-- With the first merge reverted too, the copy and the cache of item 1 are back. -/
theorem attached_merge_undone : ∃ reverted outcome,
    revertSupersession { onceReverted with aliases := [attachedAlias 1] } 100 4 =
        .ok (reverted, outcome) ∧
      openPairs reverted.supersessions = openPairs attached.supersessions ∧
      reverted.dependents = attached.dependents ∧ reverted.caches = attached.caches := by
  have hkeys : ∀ {item}, (attachedAlias item).key ∈ keysOf [attachedAlias item] item :=
    attached_alias_held.mpr ⟨rfl, rfl⟩
  have hsingle : SingleHolder attached.aliases := fun key item other hitem hother =>
    (attached_alias_held.mp hitem).2.trans (attached_alias_held.mp hother).2.symm
  have hmerge : FreshMerge attached 1 2 1 100 onceMerged :=
    ⟨[attachedAlias 2], .catalogReattachment, 50, _, attached_alias_moved hkeys, rfl, rfl, rfl⟩
  have hinner : FreshMerge onceMerged 2 3 2 101 twiceMerged :=
    ⟨[attachedAlias 3], .catalogReattachment, 51, _, attached_alias_moved hkeys, rfl, rfl, rfl⟩
  have hback : FreshRevert onceMerged twiceMerged 2 3 3 101 onceReverted :=
    ⟨[attachedAlias 2], _, attached_alias_moved hkeys, rfl⟩
  have hnested : Nested onceMerged (insert 1 ∅) onceReverted (insert 3 (insert 2 (insert 1 ∅))) :=
    .undone (by simp) hinner .nil (by simp) hback .nil
  exact revert_undoes_merge.1 attached onceMerged onceReverted _ _ 1 2 100 1 4 [attachedAlias 1]
    (.start rfl rfl (by decide)) attached_coherent hsingle (by simp) hmerge hnested (by simp)
    (attached_alias_moved hkeys)

end CatalogApi.CatalogMerge
