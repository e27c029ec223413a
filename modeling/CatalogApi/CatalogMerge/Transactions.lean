import CatalogApi.CatalogMerge.Chains

/-!
# What a transaction does to the tables

One inversion lemma for each transaction: `merge_pair_cases` and `revert_cases` say what a
committed merge or revert leaves in every table, guards included. With them the invariant of
`Chains` holds after every run, which is the one-hop property of the catalog.
-/

namespace CatalogApi.CatalogMerge

open Runs

/-! ## Caches are the only thing step 7 writes -/

section

variable (kind : EntityKind) (items : List Nat) (db : Db)

theorem recompute_caches_frame :
    ∃ caches, (recomputeCaches kind items db).1 = { db with caches } := by
  have hfold : ∀ (tables : List CacheTable) (state : Db × List (String × Nat)),
      ∃ caches, (tables.foldl (fun (state : Db × List (String × Nat)) cache =>
        let hits := state.1.caches.filter fun row =>
          (recomputeAlias state.1.aliases cache items row).isSome
        ({ state.1 with caches := state.1.caches.map (recomputeRow state.1.aliases cache items) },
         state.2 ++ [(cache.table, hits.length)])) state).1 = { state.1 with caches } := by
    intro tables
    induction tables with
    | nil => exact fun state => ⟨state.1.caches, rfl⟩
    | cons cache tables ih =>
        intro state
        obtain ⟨caches, hcaches⟩ := ih
          ({ state.1 with
             caches := state.1.caches.map (recomputeRow state.1.aliases cache items) },
           state.2 ++ [(cache.table, (state.1.caches.filter fun row =>
             (recomputeAlias state.1.aliases cache items row).isSome).length)])
        exact ⟨caches, by rw [List.foldl_cons, hcaches]⟩
  exact hfold (cacheTables kind) (db, [])

@[simp] theorem recompute_caches_kinds :
    (recomputeCaches kind items db).1.kinds = db.kinds := by
  obtain ⟨caches, h⟩ := recompute_caches_frame kind items db
  rw [h]

@[simp] theorem recompute_caches_supersessions :
    (recomputeCaches kind items db).1.supersessions = db.supersessions := by
  obtain ⟨caches, h⟩ := recompute_caches_frame kind items db
  rw [h]

@[simp] theorem recompute_caches_dependents :
    (recomputeCaches kind items db).1.dependents = db.dependents := by
  obtain ⟨caches, h⟩ := recompute_caches_frame kind items db
  rw [h]

@[simp] theorem recompute_caches_moves :
    (recomputeCaches kind items db).1.moves = db.moves := by
  obtain ⟨caches, h⟩ := recompute_caches_frame kind items db
  rw [h]

@[simp] theorem recompute_caches_next_id :
    (recomputeCaches kind items db).1.nextId = db.nextId := by
  obtain ⟨caches, h⟩ := recompute_caches_frame kind items db
  rw [h]

end

/-! ## Step 6 over both tables -/

/-- A row of either moved table after the re-point. -/
def repointed (superseded survivor : Nat) (row : Dependent) : Dependent :=
  if row.itemId = superseded then { row with itemId := survivor } else row

@[simp] theorem repointed_table (superseded survivor : Nat) (row : Dependent) :
    (repointed superseded survivor row).table = row.table := by
  unfold repointed
  split <;> rfl

@[simp] theorem repointed_id (superseded survivor : Nat) (row : Dependent) :
    (repointed superseded survivor row).id = row.id := by
  unfold repointed
  split <;> rfl

theorem repointed_item (superseded survivor : Nat) (row : Dependent) :
    (repointed superseded survivor row).itemId =
      if row.itemId = superseded then survivor else row.itemId := by
  unfold repointed
  split <;> rfl

/-- The ledger after step 6. -/
def ledgerAll (superseded survivor supersession : Nat) (now : Instant)
    (dependents : List Dependent) (moves : List Move) : List Move :=
  ledgerMoves .ownedCopies superseded survivor supersession now
    ((dependents.map (repointRow .artifacts superseded survivor)).filter fun row =>
      row.table = .ownedCopies ∧ row.itemId = superseded)
    (ledgerMoves .artifacts superseded survivor supersession now
      (dependents.filter fun row => row.table = .artifacts ∧ row.itemId = superseded) moves)

theorem repoint_all_eq (superseded survivor supersession : Nat) (now : Instant) (db : Db)
    (hne : superseded ≠ survivor) :
    (repointAll superseded survivor supersession now db).1 =
      { db with
        dependents := db.dependents.map (repointed superseded survivor)
        moves := ledgerAll superseded survivor supersession now db.dependents db.moves } := by
  have hrow : ∀ row, repointRow .ownedCopies superseded survivor
      (repointRow .artifacts superseded survivor row) = repointed superseded survivor row := by
    intro row
    unfold repointRow repointed
    cases htable : row.table <;> by_cases hitem : row.itemId = superseded <;>
      simp [htable, hitem, hne.symm]
  simp only [repointAll, movedTables, List.foldl_cons, List.foldl_nil, repoint, List.map_map,
    ledgerAll]
  congr 1
  exact List.map_congr_left fun row _ => hrow row

theorem mem_ledger_moves {table : MovedTable} {superseded survivor supersession : Nat}
    {now : Instant} {moved : List Dependent} {moves : List Move} {move : Move}
    (h : move ∈ ledgerMoves table superseded survivor supersession now moved moves) :
    move ∈ moves ∨ (move.supersessionId = supersession ∧ move.fromItemId = superseded ∧
      move.toItemId = survivor ∧ move.tableName = table ∧ ∃ row ∈ moved, row.id = move.rowId) := by
  induction moved generalizing moves with
  | nil => exact Or.inl h
  | cons row moved ih =>
      rw [ledgerMoves, List.foldl_cons] at h
      split at h
      · rcases ih h with hold | ⟨h1, h2, h3, h4, r, hr, hid⟩
        · exact Or.inl hold
        · exact Or.inr ⟨h1, h2, h3, h4, r, List.mem_cons_of_mem _ hr, hid⟩
      · rcases ih h with hold | ⟨h1, h2, h3, h4, r, hr, hid⟩
        · rcases List.mem_append.mp hold with hold | hnew
          · exact Or.inl hold
          · obtain rfl := List.mem_singleton.mp hnew
            exact Or.inr ⟨rfl, rfl, rfl, rfl, row, List.mem_cons_self, rfl⟩
        · exact Or.inr ⟨h1, h2, h3, h4, r, List.mem_cons_of_mem _ hr, hid⟩

theorem ledger_moves_keep {table : MovedTable} {superseded survivor supersession : Nat}
    {now : Instant} {moved : List Dependent} {moves : List Move} {move : Move} (h : move ∈ moves) :
    move ∈ ledgerMoves table superseded survivor supersession now moved moves := by
  induction moved generalizing moves with
  | nil => exact h
  | cons row moved ih =>
      rw [ledgerMoves, List.foldl_cons]
      split
      · exact ih h
      · exact ih (List.mem_append_left _ h)

/-- Every moved row is in the ledger afterwards. -/
theorem ledger_moves_ledgered {table : MovedTable} {superseded survivor supersession : Nat}
    {now : Instant} {moved : List Dependent} {moves : List Move} {row : Dependent}
    (h : row ∈ moved) :
    ledgered (ledgerMoves table superseded survivor supersession now moved moves) supersession
      table row.id := by
  induction moved generalizing moves with
  | nil => cases h
  | cons head moved ih =>
      rw [ledgerMoves, List.foldl_cons]
      rcases List.mem_cons.mp h with rfl | htail
      · split
        · rename_i hin
          obtain ⟨move, hmove, hkey⟩ := hin
          exact ⟨move, ledger_moves_keep hmove, hkey⟩
        · exact ⟨_, ledger_moves_keep (List.mem_append_right _ (List.mem_singleton.mpr rfl)),
            rfl, rfl, rfl⟩
      · exact ih htail

/-- A row the first pass leaves to the second is unchanged by the first. -/
theorem mem_second_pass {superseded survivor : Nat} {rows : List Dependent} {row : Dependent} :
    row ∈ ((rows.map (repointRow .artifacts superseded survivor)).filter fun row =>
        row.table = .ownedCopies ∧ row.itemId = superseded) ↔
      row ∈ rows ∧ row.table = .ownedCopies ∧ row.itemId = superseded := by
  simp only [List.mem_filter, List.mem_map, decide_eq_true_eq]
  constructor
  · rintro ⟨⟨r, hr, rfl⟩, htable, hitem⟩
    have hkeep : repointRow .artifacts superseded survivor r = r := by
      refine if_neg fun hcond => ?_
      rw [repointRow, if_pos hcond] at htable
      rw [hcond.1] at htable
      cases htable
    rw [hkeep] at htable hitem ⊢
    exact ⟨hr, htable, hitem⟩
  · rintro ⟨hr, htable, hitem⟩
    refine ⟨⟨row, hr, if_neg fun hcond => ?_⟩, htable, hitem⟩
    rw [htable] at hcond
    cases hcond.1

/-- An entry of the ledger after step 6 is old, or records a row moved by this step. -/
theorem mem_ledger_all {superseded survivor supersession : Nat} {now : Instant}
    {dependents : List Dependent} {moves : List Move} {move : Move}
    (h : move ∈ ledgerAll superseded survivor supersession now dependents moves) :
    move ∈ moves ∨ (move.supersessionId = supersession ∧ move.fromItemId = superseded ∧
      move.toItemId = survivor ∧ ∃ row ∈ dependents, row.table = move.tableName ∧
        row.id = move.rowId ∧ row.itemId = superseded) := by
  rcases mem_ledger_moves h with h | ⟨h1, h2, h3, h4, row, hrow, hid⟩
  · rcases mem_ledger_moves h with h | ⟨h1, h2, h3, h4, row, hrow, hid⟩
    · exact Or.inl h
    · simp only [List.mem_filter, decide_eq_true_eq] at hrow
      exact Or.inr ⟨h1, h2, h3, row, hrow.1, hrow.2.1.trans h4.symm, hid, hrow.2.2⟩
  · obtain ⟨hmem, htable, hitem⟩ := mem_second_pass.mp hrow
    exact Or.inr ⟨h1, h2, h3, row, hmem, htable.trans h4.symm, hid, hitem⟩

theorem ledger_all_keep {superseded survivor supersession : Nat} {now : Instant}
    {dependents : List Dependent} {moves : List Move} {move : Move} (h : move ∈ moves) :
    move ∈ ledgerAll superseded survivor supersession now dependents moves :=
  ledger_moves_keep (ledger_moves_keep h)

/-- Every row step 6 moves is in the ledger afterwards. -/
theorem ledger_all_ledgered {superseded survivor supersession : Nat} {now : Instant}
    {dependents : List Dependent} {moves : List Move} {row : Dependent} (hrow : row ∈ dependents)
    (hitem : row.itemId = superseded) :
    ledgered (ledgerAll superseded survivor supersession now dependents moves) supersession
      row.table row.id := by
  cases htable : row.table with
  | artifacts =>
      have hmem : row ∈ dependents.filter fun row =>
          row.table = .artifacts ∧ row.itemId = superseded :=
        List.mem_filter.mpr ⟨hrow, decide_eq_true ⟨htable, hitem⟩⟩
      obtain ⟨move, hmove, hkey⟩ := ledger_moves_ledgered hmem
      exact ⟨move, ledger_moves_keep hmove, hkey⟩
  | ownedCopies =>
      exact ledger_moves_ledgered (mem_second_pass.mpr ⟨hrow, htable, hitem⟩)

/-! ## The move-back over both tables -/

theorem move_back_all_eq (supersession : Nat) (db : Db) :
    (moveBackAll supersession db).1 =
      { db with dependents := db.dependents.map fun row =>
          moveBackRow db.moves supersession row.table row } := by
  have hrow : ∀ row, moveBackRow db.moves supersession .ownedCopies
      (moveBackRow db.moves supersession .artifacts row) =
      moveBackRow db.moves supersession row.table row := by
    intro row
    cases htable : row.table with
    | artifacts =>
        have hkeep : (moveBackRow db.moves supersession .artifacts row).table = .artifacts := by
          unfold moveBackRow
          split <;> exact htable
        conv_lhs => rw [moveBackRow, moveBackEntry, hkeep]
        simp
    | ownedCopies =>
        have hfirst : moveBackRow db.moves supersession .artifacts row = row := by
          simp [moveBackRow, moveBackEntry, htable]
        rw [hfirst]
  simp only [moveBackAll, movedTables, List.foldl_cons, List.foldl_nil, moveBack, List.map_map]
  congr 1
  exact List.map_congr_left fun row _ => hrow row

/-! ## The two transactions -/

theorem lock_items_ne {db : Db} {superseded survivor : Nat} {kind : EntityKind}
    (h : lockItems db superseded survivor = .ok kind) : superseded ≠ survivor := by
  rintro rfl
  simp [lockItems, throw, throwThe, MonadExceptOf.throw, bind, Except.bind] at h

/-- The locks fail on a missing item or a pair that cannot merge, never on a chain. -/
theorem lock_items_error {db : Db} {superseded survivor id compressed found : Nat}
    {reason : MergeConflict} (h : lockItems db superseded survivor = .error reason) :
    reason ≠ .predecessorsMissing id compressed found := by
  rintro rfl
  simp only [lockItems, lockItem] at h
  repeat' split at h
  all_goals simp_all [throw, throwThe, MonadExceptOf.throw, bind, Except.bind, pure, Except.pure]
  all_goals split at h <;> cases h

theorem current_supersession_cases {db : Db} {superseded survivor : Nat} {existing : Option Nat}
    (h : currentSupersession db superseded survivor = .ok existing) :
    openRow db.supersessions survivor = none ∧
      ((existing = none ∧ openRow db.supersessions superseded = none) ∨
        ∃ row, openRow db.supersessions superseded = some row ∧ row.survivorId = survivor ∧
          existing = some row.id) := by
  unfold currentSupersession at h
  split at h
  · cases h
  · rename_i hsurvivor
    refine ⟨hsurvivor, ?_⟩
    split at h
    · rename_i row hrow
      split at h
      · cases h
      · rename_i hto
        exact Or.inr ⟨row, hrow, not_not.mp hto, (Except.ok.inj h).symm⟩
    · rename_i hnone
      exact Or.inl ⟨(Except.ok.inj h).symm, hnone⟩

/-- A committed merge: the guards it passed, and every table it left. -/
theorem merge_pair_cases {db next : Db} {superseded survivor : Nat} {cause : Cause}
    {decisionRef : Nat} {now : Instant} {outcome : MergeOutcome}
    (h : mergePair db superseded survivor cause decisionRef now = .ok (next, outcome)) :
    superseded ≠ survivor ∧ openRow db.supersessions survivor = none ∧
      next.kinds = db.kinds ∧
      next.dependents = db.dependents.map (repointed superseded survivor) ∧
      ((∃ row, openRow db.supersessions superseded = some row ∧ row.survivorId = survivor ∧
          next.supersessions = db.supersessions ∧ next.nextId = db.nextId ∧
          next.moves = ledgerAll superseded survivor row.id now db.dependents db.moves) ∨
        (openRow db.supersessions superseded = none ∧
          next.supersessions = openAndCompress db.supersessions db.nextId superseded survivor
            cause decisionRef now ∧
          next.nextId = db.nextId + 1 + (survived superseded db.supersessions).length ∧
          next.moves = ledgerAll superseded survivor db.nextId now db.dependents db.moves)) := by
  unfold mergePair at h
  cases hlock : lockItems db superseded survivor with
  | error e => simp [hlock, bind, Except.bind] at h
  | ok kind =>
      cases hcurrent : currentSupersession db superseded survivor with
      | error e => simp [hlock, hcurrent, bind, Except.bind] at h
      | ok existing =>
          have hne := lock_items_ne hlock
          have hmerge : mergeItems db superseded survivor kind cause decisionRef existing now =
              (next, outcome) := by
            simpa [hlock, hcurrent, bind, Except.bind, pure, Except.pure] using h
          obtain ⟨hroot, hcases⟩ := current_supersession_cases hcurrent
          have hnext := congrArg Prod.fst hmerge
          rcases hcases with ⟨rfl, hnone⟩ | ⟨row, hrow, hto, rfl⟩
          · simp only [mergeItems, repoint_all_eq _ _ _ _ _ hne] at hnext
            refine ⟨hne, hroot, ?_, ?_, Or.inr ⟨hnone, ?_, ?_, ?_⟩⟩ <;> simp [← hnext]
          · simp only [mergeItems, repoint_all_eq _ _ _ _ _ hne] at hnext
            refine ⟨hne, hroot, ?_, ?_, Or.inl ⟨row, hrow, hto, ?_, ?_, ?_⟩⟩ <;> simp [← hnext]

/-- A revert fails at a guard, or is at an open, uncompressed row and ends as its chain
statements do. -/
theorem revert_outcome (db : Db) (id : Nat) (now : Instant) :
    (∃ reason, revertSupersession db id now = .error reason ∧
        ∀ compressed found, reason ≠ .predecessorsMissing id compressed found) ∨
      ∃ opened ∈ db.supersessions, opened.id = id ∧ opened.validTo = none ∧
        opened.viaId = none ∧
        ((∃ reason, revertChains db.supersessions id opened.supersededId now = .error reason ∧
            revertSupersession db id now = .error reason) ∨
          ∃ rows reopened next outcome,
            revertChains db.supersessions id opened.supersededId now = .ok (rows, reopened) ∧
            revertSupersession db id now = .ok (next, outcome) ∧
            next.supersessions = rows ∧ next.kinds = db.kinds ∧ next.nextId = db.nextId ∧
            next.moves = db.moves ∧ next.dependents = db.dependents.map fun row =>
              moveBackRow db.moves id row.table row) := by
  unfold revertSupersession
  cases hfind : findSupersession db id with
  | error e =>
      refine Or.inl ⟨e, by simp [bind, Except.bind], ?_⟩
      unfold findSupersession at hfind
      split at hfind
      · cases hfind
      · obtain rfl := Except.error.inj hfind
        simp
  | ok opened =>
      have hmem : opened ∈ db.supersessions ∧ opened.id = id := by
        unfold findSupersession at hfind
        split at hfind
        · rename_i row hrow
          obtain rfl := Except.ok.inj hfind
          exact ⟨List.mem_of_find?_eq_some hrow, by simpa using List.find?_some hrow⟩
        · cases hfind
      cases hlock : lockItems db opened.supersededId opened.survivorId with
      | error e =>
          refine Or.inl ⟨e, by simp [hlock, bind, Except.bind], fun compressed found heq => ?_⟩
          exact lock_items_error hlock heq
      | ok kind =>
          by_cases hopen : opened.validTo = none
          · cases hvia : opened.viaId with
            | some via =>
                refine Or.inl ⟨.compressedBy id via, ?_, by simp⟩
                simp [hlock, hopen, hvia, bind, Except.bind, throw, throwThe,
                  MonadExceptOf.throw]
            | none =>
                refine Or.inr ⟨opened, hmem.1, hmem.2, hopen, hvia, ?_⟩
                cases hchains : revertChains db.supersessions id opened.supersededId now with
                | error e =>
                    exact Or.inl ⟨e, rfl, by simp [hlock, hopen, hvia, hchains, bind, Except.bind]⟩
                | ok result =>
                    refine Or.inr ⟨result.1, result.2,
                      (recomputeCaches kind [opened.supersededId, opened.survivorId]
                        (moveBackAll id { db with supersessions := result.1 }).1).1,
                      ?outcome, rfl, ?run, ?frame⟩
                    case run =>
                      simp only [hlock, hopen, hvia, hchains, bind, Except.bind, pure, Except.pure,
                        ne_eq, not_true_eq_false, if_false]
                      rfl
                    case frame => simp [move_back_all_eq]
          · refine Or.inl ⟨.notCurrent id, ?_, by simp⟩
            simp [hlock, hopen, bind, Except.bind, throw, throwThe, MonadExceptOf.throw]

/-- A committed revert: the guards it passed, and every table it left. -/
theorem revert_cases {db next : Db} {id : Nat} {now : Instant} {outcome : RevertOutcome}
    (h : revertSupersession db id now = .ok (next, outcome)) :
    ∃ opened ∈ db.supersessions, opened.id = id ∧ opened.validTo = none ∧ opened.viaId = none ∧
      ∃ rows reopened, revertChains db.supersessions id opened.supersededId now =
          .ok (rows, reopened) ∧
        next.supersessions = rows ∧ next.kinds = db.kinds ∧ next.nextId = db.nextId ∧
        next.moves = db.moves ∧
        next.dependents = db.dependents.map fun row => moveBackRow db.moves id row.table row := by
  rcases revert_outcome db id now with ⟨reason, herr, -⟩ |
    ⟨opened, hmem, hid, hopen, hvia, ⟨reason, -, herr⟩ |
      ⟨rows, reopened, db', outcome', hchains, hok, hframe⟩⟩
  · rw [h] at herr
    cases herr
  · rw [h] at herr
    cases herr
  · obtain ⟨rfl, -⟩ := Prod.mk.inj (Except.ok.inj (h.symm.trans hok))
    exact ⟨opened, hmem, hid, hopen, hvia, rows, reopened, hchains, hframe⟩

/-! ## Runs -/

theorem apply_merge_ok {db next : Db} {now : Instant} {superseded survivor decisionRef : Nat}
    {cause : Cause}
    (h : Action.apply db (.merge now superseded survivor cause decisionRef) = .ok next) :
    ∃ outcome, mergePair db superseded survivor cause decisionRef now = .ok (next, outcome) := by
  cases hmerge : mergePair db superseded survivor cause decisionRef now with
  | error reason => simp [Action.apply, hmerge] at h
  | ok result => exact ⟨result.2, by simpa [Action.apply, hmerge, Prod.ext_iff] using h⟩

theorem apply_revert_ok {db next : Db} {now : Instant} {id : Nat}
    (h : Action.apply db (.revert now id) = .ok next) :
    ∃ outcome, revertSupersession db id now = .ok (next, outcome) := by
  cases hrevert : revertSupersession db id now with
  | error reason => simp [Action.apply, hrevert] at h
  | ok result => exact ⟨result.2, by simpa [Action.apply, hrevert, Prod.ext_iff] using h⟩

theorem apply_merge_pair {db next : Db} {now : Instant} {superseded survivor decisionRef : Nat}
    {cause : Cause} {outcome : MergeOutcome}
    (h : mergePair db superseded survivor cause decisionRef now = .ok (next, outcome)) :
    Action.apply db (.merge now superseded survivor cause decisionRef) = .ok next := by
  rw [Action.apply, h]

theorem apply_revert_supersession {db next : Db} {now : Instant} {id : Nat}
    {outcome : RevertOutcome} (h : revertSupersession db id now = .ok (next, outcome)) :
    Action.apply db (.revert now id) = .ok next := by
  rw [Action.apply, h]

theorem apply_create_ok {db next : Db} {table : MovedTable} {id item : Nat} {owner : Option Nat}
    (h : Action.apply db (.create table id item owner) = .ok next) :
    (∀ row ∈ db.dependents, ¬(row.table = table ∧ row.id = id)) ∧
      next = { db with dependents := db.dependents ++ [{ table, id, itemId := item, owner }] } := by
  simp only [Action.apply, createDependent] at h
  split at h
  · cases h
  · split at h
    · cases h
    · rename_i hnew
      push Not at hnew
      exact ⟨fun row hrow hkey => hnew row hrow hkey.1 hkey.2, (Except.ok.inj h).symm⟩

/-- A committed transaction at a new instant keeps the supersession table chained. -/
theorem apply_chained {db next : Db} {action : Action} {used : Set Instant}
    (h : Chained db.supersessions db.nextId used)
    (hnow : ∀ now, action.now? = some now → now ∉ used) (happly : action.apply db = .ok next) :
    Chained next.supersessions next.nextId (used ∪ {now | action.now? = some now}) := by
  cases action with
  | merge now superseded survivor cause decisionRef =>
      obtain ⟨outcome, hmerge⟩ := apply_merge_ok happly
      obtain ⟨hne, hroot, -, -, hcases⟩ := merge_pair_cases hmerge
      rcases hcases with ⟨row, -, -, hrows, hnext, -⟩ | ⟨hsource, hrows, hnext, -⟩
      · rw [hrows, hnext]
        exact h.mono Set.subset_union_left
      · rw [hrows, hnext]
        refine (open_chained h (hnow now rfl) hne (fun r hr => open_row_none hsource hr)
          (fun r hr => open_row_none hroot hr)).mono ?_
        rintro t (rfl | ht)
        · exact Or.inr rfl
        · exact Or.inl ht
  | revert now id =>
      obtain ⟨outcome, hrevert⟩ := apply_revert_ok happly
      obtain ⟨opened, hmem, rfl, hopen, hvia, rows, reopened, hchains, hrows, -, hnext, -⟩ :=
        revert_cases hrevert
      obtain ⟨count, heq⟩ := revert_chains_eq h (hnow now rfl) hmem hopen hvia
      obtain ⟨rfl, -⟩ := Prod.mk.inj (Except.ok.inj (hchains.symm.trans heq))
      rw [hrows, hnext]
      refine (revert_chained h (hnow now rfl) hmem hopen hvia).mono ?_
      rintro t (rfl | ht)
      · exact Or.inr rfl
      · exact Or.inl ht
  | create table id item owner =>
      obtain ⟨-, rfl⟩ := apply_create_ok happly
      exact h.mono Set.subset_union_left

/-- The start instants of the merges and reverts of a trace. -/
def instants (trace : List Action) : List Instant :=
  trace.filterMap Action.now?

/-- The last transaction of a run at distinct instants is at a new one. -/
theorem instants_snoc {trace : List Action} {action : Action}
    (hnodup : (instants (trace ++ [action])).Nodup) :
    (instants trace).Nodup ∧
      (∀ now, action.now? = some now → now ∉ {now | now ∈ instants trace}) ∧
      {now | now ∈ instants trace} ∪ {now | action.now? = some now} ⊆
        {now | now ∈ instants (trace ++ [action])} := by
  have hsplit : instants (trace ++ [action]) = instants trace ++ instants [action] :=
    List.filterMap_append
  have hlast : ∀ now, action.now? = some now → now ∈ instants [action] := fun now hnow =>
    List.mem_filterMap.mpr ⟨action, List.mem_singleton.mpr rfl, hnow⟩
  rw [hsplit] at hnodup ⊢
  obtain ⟨hbefore, -, hdisjoint⟩ := List.nodup_append.mp hnodup
  refine ⟨hbefore, fun now hnow hin => hdisjoint now hin now (hlast now hnow) rfl, ?_⟩
  rintro now (hin | hnow)
  · exact List.mem_append_left _ hin
  · exact List.mem_append_right _ (hlast now hnow)

/-- Every run of transactions at distinct instants keeps the supersession table chained. -/
theorem run_chained {start db : Db} {trace : List Action} (hempty : start.supersessions = [])
    (htimes : (instants trace).Nodup) (hrun : execute Action.apply start trace = .ok db) :
    Chained db.supersessions db.nextId {now | now ∈ instants trace} := by
  refine execute_induction (motive := fun trace db => (instants trace).Nodup →
    Chained db.supersessions db.nextId {now | now ∈ instants trace}) ?_ ?_ hrun htimes
  · intro _
    rw [hempty]
    exact (chained_nil _).mono (Set.empty_subset _)
  · intro trace action db next _ ih hstep hnodup
    obtain ⟨hbefore, hnow, hsub⟩ := instants_snoc hnodup
    exact (apply_chained (ih hbefore) hnow hstep).mono hsub

/-- In a chained table a revert never misses a predecessor of a row it closes. -/
theorem revert_finds_predecessors {db : Db} {used : Set Instant} {id : Nat} {now : Instant}
    (h : Chained db.supersessions db.nextId used) (hnow : now ∉ used) (compressed found : Nat) :
    revertSupersession db id now ≠ .error (.predecessorsMissing id compressed found) := by
  intro hmissing
  rcases revert_outcome db id now with ⟨reason, herr, hreason⟩ |
    ⟨opened, hmem, rfl, hopen, hvia, ⟨reason, hchains, -⟩ | ⟨rows, reopened, next, outcome, -, hok, -⟩⟩
  · exact hreason compressed found (Except.error.inj (herr.symm.trans hmissing))
  · obtain ⟨count, hfound⟩ := revert_chains_eq h hnow hmem hopen hvia
    rw [hfound] at hchains
    cases hchains
  · rw [hmissing] at hok
    cases hok

/-- Resolution of the catalog stays one hop. After any run of committed merges and reverts at
distinct instants, from an empty supersession table: an item has at most one open row, no open
row's survivor is itself superseded, no row names one item twice, a compressed row is open
together with the row that compressed it and has its closed predecessor, and no further revert
fails for want of predecessors. -/
theorem resolution_stays_one_hop (start db : Db) (trace : List Action)
    (hempty : start.supersessions = []) (htimes : (instants trace).Nodup)
    (hrun : execute Action.apply start trace = .ok db) :
    (∀ item, (db.supersessions.filter fun row =>
        row.supersededId = item ∧ row.validTo = none).length ≤ 1) ∧
      (∀ row ∈ db.supersessions, ∀ other ∈ db.supersessions, row.validTo = none →
        other.validTo = none → row.survivorId ≠ other.supersededId) ∧
      (∀ row ∈ db.supersessions, row.supersededId ≠ row.survivorId) ∧
      (∀ row ∈ db.supersessions, ∀ via, row.validTo = none → row.viaId = some via →
        ∃ opener ∈ db.supersessions, opener.id = via ∧ opener.validTo = none ∧
          opener.survivorId = row.survivorId ∧
          ∃ predecessor ∈ db.supersessions, predecessor.supersededId = row.supersededId ∧
            predecessor.survivorId = opener.supersededId ∧
            predecessor.validTo = some row.validFrom) ∧
      (∀ id now compressed found, now ∉ instants trace →
        revertSupersession db id now ≠ .error (.predecessorsMissing id compressed found)) := by
  have h := run_chained hempty htimes hrun
  refine ⟨open_rows_length h, h.oneHop, h.irrefl, fun row hrow via hopen hvia => ?_,
    fun id now compressed found hnow => revert_finds_predecessors h hnow compressed found⟩
  · obtain ⟨opener, hmem, rfl, -, hsurvivor, -, hto⟩ := h.via row hrow via hvia
    obtain ⟨p, hp, hitem, hfrom, hclosed⟩ :=
      h.predecessor row hrow opener hmem hvia (Or.inl hopen)
    exact ⟨opener, hmem, rfl, hto.trans hopen, hsurvivor, p, hp, hitem, hfrom, hclosed⟩

/-- A catalog of releases in which nothing is merged yet. -/
def unmerged : Db :=
  { kinds := fun item => if item < 10 then some .release else none, supersessions := [],
    dependents := [], moves := [], aliases := [], caches := [], nextId := 100 }

/-- A chain of two merges, the first compressed by the second. -/
def chainedMerges : List Action :=
  [.merge 1 1 2 .catalogReattachment 50, .merge 2 2 3 .catalogReattachment 51]

theorem chained_merges_one_hop : ∃ db, execute Action.apply unmerged chainedMerges = .ok db ∧
    ∀ item, (db.supersessions.filter fun row =>
      row.supersededId = item ∧ row.validTo = none).length ≤ 1 :=
  ⟨_, rfl, (resolution_stays_one_hop unmerged _ chainedMerges rfl (by decide) rfl).1⟩

end CatalogApi.CatalogMerge
