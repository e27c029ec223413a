import CatalogApi.CatalogMerge.Resolution

/-!
# Re-pointed rows and resolution

An artifact or owned copy names the item it was created against until a merge re-points it. The
rows agree with resolution as long as each resolves where the item it was created against does.
`Tracked` ties the ledger to the class of the merge that wrote it, and is kept by every
transaction except a revert that strands a row: the ledger is keyed by the open row a re-run
found, and when that row was a compressed one, the revert of the merge that compressed it does
not move the row back.
-/

namespace CatalogApi.CatalogMerge

open Runs

/-- The item a row was created against: the one its creation in the trace names. -/
def createdAgainst (trace : List Action) (table : MovedTable) (id : Nat) : Option Nat :=
  trace.reverse.findSome? fun action => match action with
    | .create table' id' item _ => if table' = table ∧ id' = id then some item else none
    | .merge .. | .revert .. => none

/-- The re-pointed rows agree with resolution: each resolves, in at most one hop, to the same
item as the item it was created against. -/
def Agrees (db : Db) (created : MovedTable → Nat → Option Nat) : Prop :=
  ∀ row ∈ db.dependents, ∃ item, created row.table row.id = some item ∧
    resolveItem db.supersessions row.itemId = resolveItem db.supersessions item

/-- A revert of `id` strands a row: some re-point was ledgered under a row that the merge `id`
compressed. -/
def Stranded (db : Db) (id : Nat) : Prop :=
  ∃ move ∈ db.moves, ∃ row ∈ db.supersessions,
    row.id = move.supersessionId ∧ row.viaId = some id

instance (db : Db) (id : Nat) : Decidable (Stranded db id) :=
  inferInstanceAs (Decidable (∃ _ ∈ db.moves, ∃ _ ∈ db.supersessions, _ ∧ _))

/-- The row was re-pointed under the supersession `id`. -/
def Ledgered (db : Db) (id : Nat) (row : Dependent) : Prop :=
  ledgered db.moves id row.table row.id

section Invariant

variable (db : Db) (created : MovedTable → Nat → Option Nat)

/-- The primary keys of the moved tables. -/
def DistinctKeys : Prop :=
  ∀ d ∈ db.dependents, ∀ e ∈ db.dependents, d.table = e.table → d.id = e.id → d = e

/-- A ledger entry is for a row of the tables and repeats the pair of its supersession. -/
def Entries : Prop :=
  ∀ move ∈ db.moves, (∃ d ∈ db.dependents, d.table = move.tableName ∧ d.id = move.rowId) ∧
    ∃ row ∈ db.supersessions, row.id = move.supersessionId ∧
      move.fromItemId = row.supersededId ∧ move.toItemId = row.survivorId

/-- A row that still names a superseded item was created against it. -/
def Unmoved : Prop :=
  ∀ d ∈ db.dependents, openTarget db.supersessions d.itemId ≠ none →
    created d.table d.id = some d.itemId

/-- A row moved under an open supersession is at its survivor. -/
def AtSurvivor : Prop :=
  ∀ r ∈ db.supersessions, r.validTo = none → ∀ d ∈ db.dependents,
    Ledgered db r.id d → d.itemId = r.survivorId

/-- A row moved under a supersession was moved on by the merge that closed it. -/
def MovedOn : Prop :=
  ∀ r ∈ db.supersessions, ∀ w ∈ db.supersessions, w.viaId = none →
    r.validTo = some w.validFrom → ∀ d ∈ db.dependents, Ledgered db r.id d → Ledgered db w.id d

/-- A row is moved under a supersession only from an item of its class. -/
def Origin : Prop :=
  ∀ r ∈ db.supersessions, ∀ d ∈ db.dependents, ∀ item, Ledgered db r.id d →
    created d.table d.id = some item → InClass db.supersessions r item ∧
      (r.viaId ≠ none → item = r.supersededId)

/-- A row created against an item of an open merge's class is untouched or moved under it. -/
def Accounted : Prop :=
  ∀ w ∈ db.supersessions, w.viaId = none → w.validTo = none →
    ∀ d ∈ db.dependents, ∀ item, created d.table d.id = some item →
      InClass db.supersessions w item → d.itemId = item ∨ Ledgered db w.id d ∨
        ∃ r ∈ db.supersessions, r.viaId = some w.id ∧ Ledgered db r.id d

/-- The same one level down: what the closing merge moved on, the closed merge had moved. -/
def AccountedBelow : Prop :=
  ∀ w ∈ db.supersessions, ∀ v ∈ db.supersessions, w.viaId = none →
    v.viaId = none → w.validTo = some v.validFrom → ∀ d ∈ db.dependents, ∀ item,
      created d.table d.id = some item → InClass db.supersessions w item → Ledgered db v.id d →
        Ledgered db w.id d ∨ ∃ r ∈ db.supersessions, r.viaId = some w.id ∧ Ledgered db r.id d

/-- A row is not moved both under a merge and under a row that merge compressed. -/
def Exclusive : Prop :=
  ∀ r ∈ db.supersessions, ∀ w ∈ db.supersessions, r.viaId = some w.id →
    ∀ d ∈ db.dependents, Ledgered db r.id d → ¬Ledgered db w.id d

/-- What the dependents, the ledger and the supersession rows satisfy between transactions. -/
structure Tracked (used : Set Instant) : Prop where
  chained : Chained db.supersessions db.nextId used
  keys : DistinctKeys db
  known : ∀ d ∈ db.dependents, ∃ item, created d.table d.id = some item
  entry : Entries db
  unmoved : Unmoved db created
  agrees : Agrees db created
  atSurvivor : AtSurvivor db
  movedOn : MovedOn db
  origin : Origin db created
  accounted : Accounted db created
  accountedBelow : AccountedBelow db created
  exclusive : Exclusive db

end Invariant

/-! ## The ledger after a merge and the rows after a revert -/

section Steps

variable {db next : Db} {used : Set Instant} {created : MovedTable → Nat → Option Nat}

/-- After step 6 a row is in the ledger if it was, or if this step moved it. -/
theorem ledgered_all_iff (h : Tracked db created used) {superseded survivor supersession : Nat}
    {now : Instant} (hmoves : next.moves =
      ledgerAll superseded survivor supersession now db.dependents db.moves)
    {d : Dependent} (hd : d ∈ db.dependents) {id : Nat} :
    Ledgered next id (repointed superseded survivor d) ↔
      Ledgered db id d ∨ (id = supersession ∧ d.itemId = superseded) := by
  unfold Ledgered
  rw [hmoves, repointed_table, repointed_id]
  constructor
  · rintro ⟨move, hmove, hid, htable, hrow⟩
    rcases mem_ledger_all hmove with hold | ⟨hsup, -, -, e, he, hetable, heid, hitem⟩
    · exact Or.inl ⟨move, hold, hid, htable, hrow⟩
    · obtain rfl := h.keys e he d hd (hetable.trans htable) (heid.trans hrow)
      exact Or.inr ⟨hid.symm.trans hsup, hitem⟩
  · rintro (⟨move, hmove, hkey⟩ | ⟨rfl, hitem⟩)
    · exact ⟨move, ledger_all_keep hmove, hkey⟩
    · exact ledger_all_ledgered hd hitem

theorem move_back_table (moves : List Move) (id : Nat) (d : Dependent) :
    (moveBackRow moves id d.table d).table = d.table := by
  unfold moveBackRow
  split <;> rfl

theorem move_back_id (moves : List Move) (id : Nat) (d : Dependent) :
    (moveBackRow moves id d.table d).id = d.id := by
  unfold moveBackRow
  split <;> rfl

/-- A revert of an open row moves back exactly the rows moved under it. -/
theorem move_back_item (h : Tracked db created used) {opened : Supersession}
    (hmem : opened ∈ db.supersessions) (hopen : opened.validTo = none) {d : Dependent}
    (hd : d ∈ db.dependents) [Decidable (Ledgered db opened.id d)] :
    (moveBackRow db.moves opened.id d.table d).itemId =
      if Ledgered db opened.id d then opened.supersededId else d.itemId := by
  have hpair : ∀ move ∈ db.moves, move.supersessionId = opened.id →
      move.fromItemId = opened.supersededId ∧ move.toItemId = opened.survivorId := by
    intro move hmove hid
    obtain ⟨-, row, hrow, hrid, hfrom, hto⟩ := h.entry move hmove
    obtain rfl := h.chained.eq_of_id hrow hmem (hrid.trans hid)
    exact ⟨hfrom, hto⟩
  unfold moveBackRow moveBackEntry
  rw [if_pos rfl]
  split
  · rename_i move hfound
    have hmove := List.mem_of_find?_eq_some hfound
    have hkey := List.find?_some hfound
    simp only [decide_eq_true_eq] at hkey
    rw [if_pos ⟨move, hmove, hkey.1, hkey.2.1, hkey.2.2.1⟩]
    exact (hpair move hmove hkey.1).1
  · rename_i hfound
    rw [if_neg]
    rintro ⟨move, hmove, hid, htable, hrow⟩
    have hnot := List.find?_eq_none.mp hfound move hmove
    simp only [decide_eq_true_eq] at hnot
    refine hnot ⟨hid, htable, hrow, ?_⟩
    rw [(hpair move hmove hid).2, h.atSurvivor opened hmem hopen d hd ⟨move, hmove, hid, htable, hrow⟩]

/-- A row that names a superseded item was moved under no open row. -/
theorem not_ledgered_of_superseded (h : Tracked db created used) {r row : Supersession}
    (hr : r ∈ db.supersessions) (hro : r.validTo = none) (hrow : row ∈ db.supersessions)
    (hopen : row.validTo = none) {d : Dependent} (hd : d ∈ db.dependents)
    (hitem : d.itemId = row.supersededId) : ¬Ledgered db r.id d := fun hled =>
  h.chained.oneHop r hr row hrow hro hopen ((h.atSurvivor r hr hro d hd hled).symm.trans hitem)

/-- The dependents of a merged database, row by row. -/
theorem mem_repointed {superseded survivor : Nat}
    (hdeps : next.dependents = db.dependents.map (repointed superseded survivor))
    {motive : Dependent → Prop} (hrow : ∀ d ∈ db.dependents, motive (repointed superseded survivor d)) :
    ∀ d ∈ next.dependents, motive d := by
  rw [hdeps]
  exact List.forall_mem_map.mpr hrow

theorem Tracked.agree (h : Tracked db created used) {d : Dependent} (hd : d ∈ db.dependents)
    {item : Nat} (hitem : created d.table d.id = some item) :
    resolveItem db.supersessions d.itemId = resolveItem db.supersessions item := by
  obtain ⟨other, hother, hagree⟩ := h.agrees d hd
  rwa [Option.some.inj (hitem.symm.trans hother)]

/-- A re-point keeps the primary keys of the moved tables. -/
theorem keys_repointed (h : Tracked db created used) {superseded survivor : Nat}
    (hdeps : next.dependents = db.dependents.map (repointed superseded survivor)) :
    ∀ d ∈ next.dependents, ∀ e ∈ next.dependents, d.table = e.table → d.id = e.id → d = e := by
  refine mem_repointed hdeps fun d hd => mem_repointed hdeps fun e he htable hid => ?_
  rw [h.keys d hd e he (by simpa using htable) (by simpa using hid)]

theorem known_repointed (h : Tracked db created used) {superseded survivor : Nat}
    (hdeps : next.dependents = db.dependents.map (repointed superseded survivor)) :
    ∀ d ∈ next.dependents, ∃ item, created d.table d.id = some item := by
  refine mem_repointed hdeps fun d hd => ?_
  simpa using h.known d hd

/-- A re-point and its ledger entries repeat the pair of their supersession. -/
theorem entries_repointed (h : Tracked db created used) {superseded survivor supersession : Nat}
    {now : Instant} (hdeps : next.dependents = db.dependents.map (repointed superseded survivor))
    (hmoves : next.moves =
      ledgerAll superseded survivor supersession now db.dependents db.moves)
    (hold : ∀ row ∈ db.supersessions, ∃ row' ∈ next.supersessions, row'.id = row.id ∧
      row'.supersededId = row.supersededId ∧ row'.survivorId = row.survivorId)
    (hnew : ∃ row ∈ next.supersessions, row.id = supersession ∧
      superseded = row.supersededId ∧ survivor = row.survivorId) : Entries next := by
  intro move hmove
  rw [hmoves] at hmove
  rw [hdeps]
  rcases mem_ledger_all hmove with hmoved | ⟨hid, hfrom, hto, d, hd, htable, hdid, hitem⟩
  · obtain ⟨⟨d, hd, htable, hdid⟩, row, hrow, hrid, hfrom, hto⟩ := h.entry move hmoved
    obtain ⟨row', hrow', hid', hsup', hsurv'⟩ := hold row hrow
    exact ⟨⟨_, List.mem_map_of_mem hd, by simpa using htable, by simpa using hdid⟩,
      row', hrow', hid'.trans hrid, hfrom.trans hsup'.symm, hto.trans hsurv'.symm⟩
  · obtain ⟨row, hrow, hrid, hsup, hsurv⟩ := hnew
    exact ⟨⟨_, List.mem_map_of_mem hd, by simpa using htable, by simpa using hdid⟩,
      row, hrow, hrid.trans hid.symm, hfrom.trans hsup, hto.trans hsurv⟩

end Steps

/-! ## A re-run over an open row -/

section Rerun

variable {db next : Db} {used : Set Instant} {created : MovedTable → Nat → Option Nat}
  {row : Supersession} {now : Instant}

/-- A merge of the pair of an open row moves the rows at the superseded item under it. -/
structure Rerun (db next : Db) (row : Supersession) (now : Instant) : Prop where
  mem : row ∈ db.supersessions
  opened : row.validTo = none
  rows : next.supersessions = db.supersessions
  nextId : next.nextId = db.nextId
  dependents : next.dependents = db.dependents.map (repointed row.supersededId row.survivorId)
  moves : next.moves =
    ledgerAll row.supersededId row.survivorId row.id now db.dependents db.moves

variable (h : Tracked db created used) (step : Rerun db next row now)

include h step

theorem rerun_ledgered {d : Dependent} (hd : d ∈ db.dependents) {id : Nat} :
    Ledgered next id (repointed row.supersededId row.survivorId d) ↔
      Ledgered db id d ∨ (id = row.id ∧ d.itemId = row.supersededId) :=
  ledgered_all_iff h step.moves hd

/-- A row that the re-run moves named the superseded item, so it was created against it. -/
theorem rerun_created {d : Dependent} (hd : d ∈ db.dependents)
    (hitem : d.itemId = row.supersededId) :
    created d.table d.id = some row.supersededId := by
  rw [← hitem]
  refine h.unmoved d hd fun hnone => ?_
  exact open_row_none (open_target_none.mp hnone) step.mem step.opened hitem.symm

theorem rerun_not_ledgered {r : Supersession} (hr : r ∈ db.supersessions)
    (hro : r.validTo = none) {d : Dependent} (hd : d ∈ db.dependents)
    (hitem : d.itemId = row.supersededId) : ¬Ledgered db r.id d :=
  not_ledgered_of_superseded h hr hro step.mem step.opened hd hitem

theorem rerun_unmoved : Unmoved next created := by
  refine mem_repointed step.dependents fun d hd => ?_
  rw [step.rows, repointed_item, repointed_table, repointed_id]
  split_ifs with hitem
  · exact fun hne => absurd (survivor_root h.chained step.mem step.opened) hne
  · exact h.unmoved d hd

theorem rerun_agrees : Agrees next created := by
  refine mem_repointed step.dependents fun d hd => ?_
  obtain ⟨item, hitem, hagree⟩ := h.agrees d hd
  refine ⟨item, by simpa using hitem, ?_⟩
  rw [step.rows, repointed_item, ← hagree]
  split_ifs with hsup
  · rw [hsup, resolve_of_open_row h.chained step.mem step.opened,
      resolve_of_none (survivor_root h.chained step.mem step.opened)]
  · rfl

theorem rerun_at_survivor : AtSurvivor next := by
  rw [AtSurvivor, step.rows]
  refine fun r hr hro => mem_repointed step.dependents fun d hd hl => ?_
  rw [repointed_item]
  rcases (rerun_ledgered h step hd).mp hl with hold | ⟨hid, hitem⟩
  · rw [if_neg fun hitem => rerun_not_ledgered h step hr hro hd hitem hold]
    exact h.atSurvivor r hr hro d hd hold
  · rw [if_pos hitem, h.chained.eq_of_id hr step.mem hid]

theorem rerun_moved_on : MovedOn next := by
  rw [MovedOn, step.rows]
  refine fun r hr w hw hwv hclosed => mem_repointed step.dependents fun d hd hl => ?_
  refine (rerun_ledgered h step hd).mpr ?_
  rcases (rerun_ledgered h step hd).mp hl with hold | ⟨hid, hitem⟩
  · exact Or.inl (h.movedOn r hr w hw hwv hclosed d hd hold)
  · rw [h.chained.eq_of_id hr step.mem hid, step.opened] at hclosed
    cases hclosed

theorem rerun_origin : Origin next created := by
  rw [Origin, step.rows]
  refine fun r hr => mem_repointed step.dependents fun d hd item hl hc => ?_
  rw [repointed_table, repointed_id] at hc
  rcases (rerun_ledgered h step hd).mp hl with hold | ⟨hid, hitem⟩
  · exact h.origin r hr d hd item hold hc
  · obtain rfl := h.chained.eq_of_id hr step.mem hid
    obtain rfl : item = r.supersededId :=
      Option.some.inj (hc.symm.trans (rerun_created h step hd hitem))
    exact ⟨Or.inl rfl, fun _ => rfl⟩

theorem rerun_accounted : Accounted next created := by
  rw [Accounted, step.rows]
  refine fun w hw hwv hwo => mem_repointed step.dependents fun d hd item hc hin => ?_
  have hled {id : Nat} := @rerun_ledgered db next used created row now h step d hd id
  rw [repointed_table, repointed_id] at hc
  by_cases hitem : d.itemId = row.supersededId
  · -- the row just moved, under the open row of the item it was created against
    obtain rfl : item = row.supersededId :=
      Option.some.inj (hc.symm.trans (rerun_created h step hd hitem))
    rcases class_of_row h.chained hw hwo step.mem step.opened hin with rfl | hvia
    · exact Or.inr (Or.inl (hled.mpr (Or.inr ⟨rfl, hitem⟩)))
    · exact Or.inr (Or.inr ⟨row, step.mem, hvia, hled.mpr (Or.inr ⟨rfl, hitem⟩)⟩)
  · rw [repointed_item, if_neg hitem]
    rcases h.accounted w hw hwv hwo d hd item hc hin with hsame | hl | ⟨r, hr, hrv, hl⟩
    · exact Or.inl hsame
    · exact Or.inr (Or.inl (hled.mpr (Or.inl hl)))
    · exact Or.inr (Or.inr ⟨r, hr, hrv, hled.mpr (Or.inl hl)⟩)

theorem rerun_accounted_below : AccountedBelow next created := by
  rw [AccountedBelow, step.rows]
  refine fun w hw v hv hwv hvv hclosed => mem_repointed step.dependents
    fun d hd item hc hin hl => ?_
  have hled {id : Nat} := @rerun_ledgered db next used created row now h step d hd id
  rw [repointed_table, repointed_id] at hc
  rcases hled.mp hl with hold | ⟨hid, hitem⟩
  · rcases h.accountedBelow w hw v hv hwv hvv hclosed d hd item hc hin hold with
      hl | ⟨r, hr, hrv, hl⟩
    · exact Or.inl (hled.mpr (Or.inl hl))
    · exact Or.inr ⟨r, hr, hrv, hled.mpr (Or.inl hl)⟩
  · -- `v` supersedes the item `w` leads to, so it is not in the class of `w`
    obtain rfl := h.chained.eq_of_id hv step.mem hid
    obtain rfl : item = v.supersededId :=
      Option.some.inj (hc.symm.trans (rerun_created h step hd hitem))
    have hsurvivor := (h.chained.closed w hw v hv hvv hclosed).1
    rcases hin with hself | ⟨q, hq, hqv, hqi⟩
    · exact absurd (hself.symm.trans hsurvivor.symm) (h.chained.irrefl w hw)
    · obtain ⟨u, hu, huid, -, hus, -⟩ := h.chained.via q hq _ hqv
      obtain rfl := h.chained.eq_of_id hu hw huid
      exact absurd (hqi.trans (hsurvivor.symm.trans hus)) (h.chained.irrefl q hq)

theorem rerun_exclusive : Exclusive next := by
  rw [Exclusive, step.rows]
  refine fun r hr w hw hrv => mem_repointed step.dependents fun d hd hl hlw => ?_
  obtain ⟨u, hu, huid, huv, hus, -, hut⟩ := h.chained.via r hr _ hrv
  obtain rfl := h.chained.eq_of_id hu hw huid
  rcases (rerun_ledgered h step hd).mp hl with hold | ⟨hid, hitem⟩ <;>
    rcases (rerun_ledgered h step hd).mp hlw with holdw | ⟨hidw, hitemw⟩
  · exact h.exclusive r hr u hw hrv d hd hold holdw
  · obtain rfl := h.chained.eq_of_id hw step.mem hidw
    exact rerun_not_ledgered h step hr (hut.symm.trans step.opened) hd hitemw hold
  · obtain rfl := h.chained.eq_of_id hr step.mem hid
    exact rerun_not_ledgered h step hw (hut.trans step.opened) hd hitem holdw
  · obtain rfl := h.chained.eq_of_id hr step.mem hid
    obtain rfl := h.chained.eq_of_id hw step.mem hidw
    rw [huv] at hrv
    cases hrv

/-- A re-run over an open row keeps the invariant. -/
theorem tracked_rerun : Tracked next created used where
  chained := by
    rw [step.rows, step.nextId]
    exact h.chained
  keys := keys_repointed h step.dependents
  known := known_repointed h step.dependents
  entry := by
    refine entries_repointed h step.dependents step.moves ?_ ?_
    · rw [step.rows]
      exact fun row hrow => ⟨row, hrow, rfl, rfl, rfl⟩
    · rw [step.rows]
      exact ⟨row, step.mem, rfl, rfl, rfl⟩
  unmoved := rerun_unmoved h step
  agrees := rerun_agrees h step
  atSurvivor := rerun_at_survivor h step
  movedOn := rerun_moved_on h step
  origin := rerun_origin h step
  accounted := rerun_accounted h step
  accountedBelow := rerun_accounted_below h step
  exclusive := rerun_exclusive h step

end Rerun

/-! ## The fresh merge -/

section Fresh

variable {db next : Db} {used later : Set Instant} {created : MovedTable → Nat → Option Nat}
  {superseded survivor decisionRef : Nat} {cause : Cause} {now : Instant}

/-- A ledger entry names a supersession that exists, so no row to come. -/
theorem ledgered_fresh (h : Tracked db created used) {id : Nat} {d : Dependent}
    (hled : Ledgered db id d) : id < db.nextId := by
  obtain ⟨move, hmove, rfl, -, -⟩ := hled
  obtain ⟨-, row, hrow, hid, -⟩ := h.entry move hmove
  rw [← hid]
  exact h.chained.fresh row hrow

/-- A fresh merge leaves the class of an older row alone. -/
theorem class_close_survived {rows : List Supersession} {nextId : Nat}
    (h : Chained rows nextId used) (hne : superseded ≠ survivor) {r : Supersession} (hr : r ∈ rows)
    {item : Nat} :
    InClass (openAndCompress rows nextId superseded survivor cause decisionRef now)
      (closeSurvived superseded now r) item ↔ InClass rows r item := by
  unfold InClass
  rw [close_survived_superseded, close_survived_id]
  refine or_congr Iff.rfl ⟨?_, ?_⟩
  · rintro ⟨q, hq, hqv, rfl⟩
    rcases (mem_open_and_compress hne).mp hq with ⟨s, hs, rfl⟩ | rfl | ⟨p, k, -, rfl⟩
    · exact ⟨s, hs, by simpa using hqv, by simp⟩
    · cases hqv
    · exact absurd (Option.some.inj hqv).symm (h.fresh r hr).ne
  · rintro ⟨q, hq, hqv, rfl⟩
    exact ⟨_, (mem_open_and_compress hne).mpr (Or.inl ⟨q, hq, rfl⟩), by simpa using hqv, by simp⟩

/-- The class of the opened row is what resolved to the superseded item before. -/
theorem class_opened {rows : List Supersession} {nextId : Nat} (h : Chained rows nextId used)
    (hne : superseded ≠ survivor) (hsource : openTarget rows superseded = none) {item : Nat} :
    InClass (openAndCompress rows nextId superseded survivor cause decisionRef now)
        (openedRow nextId superseded survivor cause decisionRef now) item ↔
      resolveItem rows item = superseded := by
  constructor
  · rintro (rfl | ⟨q, hq, hqv, rfl⟩)
    · exact resolve_of_none hsource
    · rcases (mem_open_and_compress hne).mp hq with ⟨s, hs, rfl⟩ | rfl | ⟨p, k, hk, rfl⟩
      · obtain ⟨v, hv, hid, -⟩ := h.via s hs _ ((close_survived_via s).symm.trans hqv)
        exact absurd hid (h.fresh v hv).ne
      · cases hqv
      · obtain ⟨hp, hps, hpo⟩ := survived_at hk
        exact (resolve_of_open_row h hp hpo).trans hps
  · intro hitem
    by_cases hself : item = superseded
    · exact Or.inl hself
    · obtain ⟨p, hp, hpi, hps, hpo⟩ := row_of_resolve h hitem hself
      obtain ⟨k, hk⟩ := List.mem_iff_getElem?.mp (mem_survived.mpr ⟨hp, hps, hpo⟩)
      exact Or.inr ⟨_, (mem_open_and_compress hne).mpr (Or.inr (Or.inr ⟨p, k, hk, rfl⟩)), rfl, hpi⟩

/-- A row closed after a fresh merge was closed before, or was just closed by it. -/
theorem close_survived_closed {r : Supersession} {t : Instant}
    (hto : (closeSurvived superseded now r).validTo = some t) :
    r.validTo = some t ∨ (r.validTo = none ∧ r.survivorId = superseded ∧ t = now) := by
  rw [close_survived_to] at hto
  split_ifs at hto with hcond
  · exact Or.inr ⟨hcond.2, hcond.1, (Option.some.inj hto).symm⟩
  · exact Or.inl hto

/-- A merge of two roots moves the rows at `superseded` under the row it opens; compressed rows start
with an empty ledger. -/
structure FreshStep (db next : Db) (used later : Set Instant) (superseded survivor decisionRef : Nat)
    (cause : Cause) (now : Instant) : Prop where
  later : Chained next.supersessions next.nextId later
  new : now ∉ used
  ne : superseded ≠ survivor
  source : openTarget db.supersessions superseded = none
  sink : openTarget db.supersessions survivor = none
  rows : next.supersessions =
    openAndCompress db.supersessions db.nextId superseded survivor cause decisionRef now
  dependents : next.dependents = db.dependents.map (repointed superseded survivor)
  moves : next.moves = ledgerAll superseded survivor db.nextId now db.dependents db.moves

variable (h : Tracked db created used)
  (step : FreshStep db next used later superseded survivor decisionRef cause now)

include h step

omit h in
theorem FreshStep.mem_rows {r : Supersession} : r ∈ next.supersessions ↔
    (∃ s ∈ db.supersessions, closeSurvived superseded now s = r) ∨
    r = openedRow db.nextId superseded survivor cause decisionRef now ∨
    ∃ p k, (survived superseded db.supersessions)[k]? = some p ∧
      r = compressedRow survivor db.nextId now p (db.nextId + 1 + k) := by
  rw [step.rows]
  exact mem_open_and_compress step.ne

theorem fresh_ledgered {d : Dependent} (hd : d ∈ db.dependents) {id : Nat} :
    Ledgered next id (repointed superseded survivor d) ↔
      Ledgered db id d ∨ (id = db.nextId ∧ d.itemId = superseded) :=
  ledgered_all_iff h step.moves hd

/-- Under an old row nothing is moved. -/
theorem fresh_ledgered_old {d : Dependent} (hd : d ∈ db.dependents) {r : Supersession}
    (hr : r ∈ db.supersessions) (hl : Ledgered next r.id (repointed superseded survivor d)) :
    Ledgered db r.id d :=
  ((fresh_ledgered h step hd).mp hl).resolve_right fun hnew => (h.chained.fresh r hr).ne hnew.1

/-- Under a new row only the rows at `superseded` are moved, and only under the opened one. -/
theorem fresh_ledgered_new {d : Dependent} (hd : d ∈ db.dependents) {id : Nat}
    (hid : db.nextId ≤ id) (hl : Ledgered next id (repointed superseded survivor d)) :
    id = db.nextId ∧ d.itemId = superseded :=
  ((fresh_ledgered h step hd).mp hl).resolve_left fun hold =>
    Nat.not_lt.mpr hid (ledgered_fresh h hold)

theorem not_ledgered_compressed {d : Dependent} (hd : d ∈ db.dependents) (k : Nat) :
    ¬Ledgered next (db.nextId + 1 + k) (repointed superseded survivor d) := fun hl => by
  have hid := (fresh_ledgered_new h step hd (by omega) hl).1
  omega

omit h in
theorem survivor_unresolved : resolveItem db.supersessions survivor ≠ superseded := by
  rw [resolve_of_none step.sink]
  exact step.ne.symm

/-- `superseded` is in the class of no open row. -/
theorem superseded_outside {w : Supersession} (hw : w ∈ db.supersessions)
    (hwo : w.validTo = none) : ¬InClass db.supersessions w superseded := by
  intro hin
  obtain ⟨row, hrow, hitem, -, hopen, -⟩ := row_of_class h.chained hw hwo hin
  exact open_row_none (open_target_none.mp step.source) hrow hopen hitem

omit h in
/-- Only old rows are closed. -/
theorem old_of_closed {r : Supersession} {t : Instant} (hr : r ∈ next.supersessions)
    (hto : r.validTo = some t) : ∃ s ∈ db.supersessions, closeSurvived superseded now s = r := by
  rcases step.mem_rows.mp hr with hs | rfl | ⟨p, k, -, rfl⟩
  · exact hs
  · cases hto
  · cases hto

/-- A row closed at an old instant was closed before. -/
theorem closed_before {r v : Supersession} (hv : v ∈ db.supersessions)
    (hto : (closeSurvived superseded now r).validTo = some v.validFrom) :
    r.validTo = some v.validFrom :=
  (close_survived_closed hto).resolve_right fun hjust =>
    h.chained.validFrom_ne step.new hv hjust.2.2

/-- The rows closed by the merge are those `superseded` survived. -/
theorem closed_now {r : Supersession} (hr : r ∈ db.supersessions)
    (hto : (closeSurvived superseded now r).validTo = some now) :
    r.validTo = none ∧ r.survivorId = superseded :=
  ((close_survived_closed hto).resolve_left (h.chained.validTo_ne step.new hr)).imp_right And.left

/-- What was moved under an old row, or under what it compressed, still is. -/
theorem fresh_keeps {d : Dependent} (hd : d ∈ db.dependents) {w : Supersession}
    (hl : Ledgered db w.id d ∨
      ∃ r ∈ db.supersessions, r.viaId = some w.id ∧ Ledgered db r.id d) :
    Ledgered next (closeSurvived superseded now w).id (repointed superseded survivor d) ∨
      ∃ r ∈ next.supersessions, r.viaId = some (closeSurvived superseded now w).id ∧
        Ledgered next r.id (repointed superseded survivor d) := by
  rw [close_survived_id]
  refine hl.imp (fun hl => (fresh_ledgered h step hd).mpr (Or.inl hl)) ?_
  rintro ⟨r, hr, hrv, hl⟩
  exact ⟨_, step.mem_rows.mpr (Or.inl ⟨r, hr, rfl⟩), by simpa using hrv,
    (fresh_ledgered h step hd).mpr (Or.inl (by simpa using hl))⟩

theorem fresh_entries : Entries next := by
  refine entries_repointed h step.dependents step.moves (fun row hrow => ?_) ?_
  · exact ⟨_, step.mem_rows.mpr (Or.inl ⟨row, hrow, rfl⟩), by simp, by simp, by simp⟩
  · exact ⟨_, step.mem_rows.mpr (Or.inr (Or.inl rfl)), rfl, rfl, rfl⟩

theorem fresh_unmoved : Unmoved next created := by
  refine mem_repointed step.dependents fun d hd => ?_
  rw [step.rows, repointed_item, repointed_table, repointed_id,
    open_target_merge h.chained (step.rows ▸ step.later) step.ne step.source]
  by_cases hitem : d.itemId = superseded
  · rw [if_pos hitem, if_neg (survivor_unresolved step)]
    exact fun hto => absurd step.sink hto
  · rw [if_neg hitem]
    refine fun hto => h.unmoved d hd fun hnone => hto ?_
    rw [if_neg (by rwa [resolve_of_none hnone]), hnone]

theorem fresh_agrees : Agrees next created := by
  have hresolve := resolve_merge h.chained (step.rows ▸ step.later) step.ne step.source step.sink
  refine mem_repointed step.dependents fun d hd => ?_
  obtain ⟨item, hitem, hagree⟩ := h.agrees d hd
  refine ⟨item, by simpa using hitem, ?_⟩
  rw [step.rows, repointed_item, hresolve, hresolve, ← hagree]
  by_cases hsup : d.itemId = superseded
  · rw [if_pos hsup, if_neg (survivor_unresolved step), resolve_of_none step.sink, hsup,
      resolve_of_none step.source, if_pos rfl]
  · rw [if_neg hsup]

theorem fresh_at_survivor : AtSurvivor next := by
  refine fun r hr hro => mem_repointed step.dependents fun d hd hl => ?_
  rw [repointed_item]
  rcases step.mem_rows.mp hr with ⟨s, hs, rfl⟩ | rfl | ⟨p, k, hk, rfl⟩
  · obtain ⟨hso, hss⟩ := close_survived_open hro
    rw [close_survived_id] at hl
    have hitem := h.atSurvivor s hs hso d hd (fresh_ledgered_old h step hd hs hl)
    rw [if_neg (hitem ▸ hss), hitem, close_survived_survivor]
  · rw [if_pos (fresh_ledgered_new h step hd le_rfl hl).2]
    rfl
  · exact absurd hl (not_ledgered_compressed h step hd k)

theorem fresh_moved_on : MovedOn next := by
  refine fun r hr w hw hwv hclosed => mem_repointed step.dependents fun d hd hl => ?_
  refine (fresh_ledgered h step hd).mpr ?_
  obtain ⟨r, hr', rfl⟩ := old_of_closed step hr hclosed
  rw [close_survived_id] at hl
  have hl := fresh_ledgered_old h step hd hr' hl
  rw [step.mem_rows] at hw
  rcases hw with ⟨w, hw, rfl⟩ | rfl | ⟨p, k, hk, rfl⟩
  · rw [close_survived_via] at hwv
    rw [close_survived_from] at hclosed
    exact Or.inl ((close_survived_id w).symm ▸
      h.movedOn r hr' w hw hwv (closed_before h step hw hclosed) d hd hl)
  · obtain ⟨hro, hrs⟩ := closed_now h step hr' hclosed
    exact Or.inr ⟨rfl, (h.atSurvivor r hr' hro d hd hl).trans hrs⟩
  · cases hwv

theorem fresh_origin : Origin next created := by
  refine fun r hr => mem_repointed step.dependents fun d hd item hl hc => ?_
  rw [repointed_table, repointed_id] at hc
  rw [step.rows]
  rcases step.mem_rows.mp hr with ⟨s, hs, rfl⟩ | rfl | ⟨p, k, hk, rfl⟩
  · rw [close_survived_id] at hl
    rw [class_close_survived h.chained step.ne hs, close_survived_via, close_survived_superseded]
    exact h.origin s hs d hd item (fresh_ledgered_old h step hd hs hl) hc
  · rw [class_opened h.chained step.ne step.source]
    refine ⟨?_, fun hvia => absurd rfl hvia⟩
    rw [← h.agree hd hc, (fresh_ledgered_new h step hd le_rfl hl).2, resolve_of_none step.source]
  · exact absurd hl (not_ledgered_compressed h step hd k)

theorem fresh_accounted : Accounted next created := by
  refine fun w hw hwv hwo => mem_repointed step.dependents fun d hd item hc hin => ?_
  rw [repointed_table, repointed_id] at hc
  rw [repointed_item]
  rw [step.rows] at hin
  rw [step.mem_rows] at hw
  rcases hw with ⟨w, hw, rfl⟩ | rfl | ⟨p, k, hk, rfl⟩
  · rw [class_close_survived h.chained step.ne hw] at hin
    rw [close_survived_via] at hwv
    obtain ⟨hwo, -⟩ := close_survived_open hwo
    rcases h.accounted w hw hwv hwo d hd item hc hin with rfl | hl
    · have hitem : d.itemId ≠ superseded := fun heq =>
        superseded_outside h step hw hwo (heq ▸ hin)
      exact Or.inl (if_neg hitem)
    · exact Or.inr (fresh_keeps h step hd hl)
  · rw [class_opened h.chained step.ne step.source, ← h.agree hd hc] at hin
    by_cases hitem : d.itemId = superseded
    · exact Or.inr (Or.inl ((fresh_ledgered h step hd).mpr (Or.inr ⟨rfl, hitem⟩)))
    · rw [if_neg hitem]
      refine Or.inl (Option.some.inj ((h.unmoved d hd fun hnone => hitem ?_).symm.trans hc))
      rwa [resolve_of_none hnone] at hin
  · cases hwv

theorem fresh_accounted_below : AccountedBelow next created := by
  refine fun w hw v hv hwv hvv hclosed => mem_repointed step.dependents
    fun d hd item hc hin hl => ?_
  rw [repointed_table, repointed_id] at hc
  rw [step.rows] at hin
  obtain ⟨w, hw', rfl⟩ := old_of_closed step hw hclosed
  rw [class_close_survived h.chained step.ne hw'] at hin
  rw [close_survived_via] at hwv
  refine fresh_keeps h step hd ?_
  rw [step.mem_rows] at hv
  rcases hv with ⟨v, hv, rfl⟩ | rfl | ⟨p, k, hk, rfl⟩
  · rw [close_survived_via] at hvv
    rw [close_survived_from] at hclosed
    rw [close_survived_id] at hl
    exact h.accountedBelow w hw' v hv hwv hvv (closed_before h step hv hclosed) d hd item hc hin
      (fresh_ledgered_old h step hd hv hl)
  · obtain ⟨hwo, -⟩ := closed_now h step hw' hclosed
    rcases h.accounted w hw' hwv hwo d hd item hc hin with rfl | hl'
    · exact absurd ((fresh_ledgered_new h step hd le_rfl hl).2 ▸ hin)
        (superseded_outside h step hw' hwo)
    · exact hl'
  · cases hvv

theorem fresh_exclusive : Exclusive next := by
  refine fun r hr w hw hrv => mem_repointed step.dependents fun d hd hl hlw => ?_
  rw [step.mem_rows] at hr
  rcases hr with ⟨r, hr, rfl⟩ | rfl | ⟨p, k, hk, rfl⟩
  · rw [close_survived_via] at hrv
    obtain ⟨u, hu, huid, -⟩ := h.chained.via r hr _ hrv
    rw [close_survived_id] at hl
    rw [← huid] at hrv hlw
    exact h.exclusive r hr u hu hrv d hd (fresh_ledgered_old h step hd hr hl)
      (fresh_ledgered_old h step hd hu hlw)
  · cases hrv
  · exact absurd hl (not_ledgered_compressed h step hd k)

/-- A fresh merge keeps the invariant. -/
theorem tracked_fresh : Tracked next created later where
  chained := step.later
  keys := keys_repointed h step.dependents
  known := known_repointed h step.dependents
  entry := fresh_entries h step
  unmoved := fresh_unmoved h step
  agrees := fresh_agrees h step
  atSurvivor := fresh_at_survivor h step
  movedOn := fresh_moved_on h step
  origin := fresh_origin h step
  accounted := fresh_accounted h step
  accountedBelow := fresh_accounted_below h step
  exclusive := fresh_exclusive h step

end Fresh

end CatalogApi.CatalogMerge
