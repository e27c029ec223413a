import CatalogApi.CatalogMerge.Dependents

/-!
# Reverts, creations and whole runs

A revert that strands no row keeps `Tracked`, and one that does breaks the agreement. With the
merges of `Dependents` this is the property of every run: the re-pointed rows agree with
resolution as long as no revert strands a row, and not after one that does.
-/

namespace CatalogApi.CatalogMerge

open Runs

section Revert

variable {db next : Db} {used later : Set Instant} {created : MovedTable → Nat → Option Nat}
  {opened : Supersession} {now : Instant}

/-- Two open merges have no item in common, also through what they compressed. -/
theorem opener_unique (h : Chained db.supersessions db.nextId used) {v w : Supersession}
    (hv : v ∈ db.supersessions) (hw : w ∈ db.supersessions) (hvo : v.validTo = none)
    (hwo : w.validTo = none) (hvv : v.viaId = none) (hwv : w.viaId = none) {item : Nat}
    (hvi : InClass db.supersessions v item) (hwi : InClass db.supersessions w item) : v = w := by
  obtain ⟨p, hp, hpi, -, hpo, hpv⟩ := row_of_class h hv hvo hvi
  obtain ⟨q, hq, hqi, -, hqo, hqw⟩ := row_of_class h hw hwo hwi
  obtain rfl := h.key p hp q hq (hpi.trans hqi.symm) (hpo.trans hqo.symm)
  rcases hpv with rfl | hpv <;> rcases hqw with rfl | hqw
  · rfl
  · rw [hvv] at hqw
    cases hqw
  · rw [hwv] at hpv
    cases hpv
  · exact h.eq_of_id hv hw (Option.some.inj (hpv.symm.trans hqw))

theorem class_restore {rows : List Supersession} {r : Supersession} {item : Nat} :
    InClass (rows.map (restoreRow opened now)) (restoreRow opened now r) item ↔
      InClass rows r item := by
  simp [InClass]

/-- A revert of an open, uncompressed row that strands no row. -/
structure SafeRevert (db next : Db) (used later : Set Instant) (opened : Supersession)
    (now : Instant) : Prop where
  later : Chained next.supersessions next.nextId later
  new : now ∉ used
  mem : opened ∈ db.supersessions
  live : opened.validTo = none
  uncompressed : opened.viaId = none
  safe : ¬Stranded db opened.id
  rows : next.supersessions = db.supersessions.map (restoreRow opened now)
  moves : next.moves = db.moves
  dependents : next.dependents = db.dependents.map fun d =>
    moveBackRow db.moves opened.id d.table d

section Safe

variable (h : Tracked db created used) (step : SafeRevert db next used later opened now)

include h step

/-- A row moved under a row of another class than the reverted one is not moved back. -/
theorem not_ledgered_of_open {r : Supersession} (hr : r ∈ db.supersessions)
    (hro : r.validTo = none) (hclass : ¬(r.id = opened.id ∨ r.viaId = some opened.id))
    {d : Dependent} (hd : d ∈ db.dependents) (hl : Ledgered db r.id d) :
    ¬Ledgered db opened.id d := by
  intro hlo
  obtain ⟨item, hc⟩ := h.known d hd
  obtain ⟨hri, hrs⟩ := h.origin r hr d hd item hl hc
  obtain ⟨hoi, -⟩ := h.origin opened step.mem d hd item hlo hc
  cases hrv : r.viaId with
  | none =>
      exact hclass (Or.inl (congrArg _ (opener_unique h.chained hr step.mem hro step.live hrv
        step.uncompressed hri hoi)))
  | some via =>
      obtain rfl := hrs (by simp [hrv])
      rcases class_of_row h.chained step.mem step.live hr hro hoi with rfl | hof
      · exact hclass (Or.inl rfl)
      · exact hclass (Or.inr hof)

omit h in
/-- The dependents after the revert, row by row. -/
theorem mem_moved_back {motive : Dependent → Prop} (hall : ∀ d ∈ db.dependents,
    motive (moveBackRow db.moves opened.id d.table d)) : ∀ d ∈ next.dependents, motive d := by
  rw [step.dependents]
  exact List.forall_mem_map.mpr hall

omit h in
/-- The supersession rows after the revert, row by row. -/
theorem mem_restored {motive : Supersession → Prop} (hall : ∀ r ∈ db.supersessions,
    motive (restoreRow opened now r)) : ∀ r ∈ next.supersessions, motive r := by
  rw [step.rows]
  exact List.forall_mem_map.mpr hall

theorem moved_back_item {d : Dependent} (hd : d ∈ db.dependents)
    [Decidable (Ledgered db opened.id d)] :
    (moveBackRow db.moves opened.id d.table d).itemId =
      if Ledgered db opened.id d then opened.supersededId else d.itemId :=
  move_back_item h step.mem step.live hd

omit h in
/-- A revert leaves the ledger as it is. -/
theorem revert_ledgered {id : Nat} {d : Dependent} :
    Ledgered next id (moveBackRow db.moves opened.id d.table d) ↔ Ledgered db id d := by
  unfold Ledgered
  rw [step.moves, move_back_table, move_back_id]

omit h in
theorem compressed_unledgered {r : Supersession} (hr : r ∈ db.supersessions)
    (hrv : r.viaId = some opened.id) (d : Dependent) : ¬Ledgered db r.id d :=
  fun ⟨move, hmove, hid, _⟩ => step.safe ⟨move, hmove, r, hr, hid.symm, hrv⟩

/-- A row that is closed at an old instant after the revert was closed before. -/
theorem restored_closed {r w : Supersession} (hw : w ∈ db.supersessions)
    (hto : (restoreRow opened now r).validTo = some w.validFrom) :
    r.validTo = some w.validFrom := by
  rcases restore_row_cases opened now r with ⟨-, hrt⟩ | ⟨-, -, hrt⟩ | ⟨-, hrt⟩ <;> rw [hrt] at hto
  · exact absurd (Option.some.inj hto).symm (h.chained.validFrom_ne step.new hw)
  · cases hto
  · exact hto

omit h in
/-- What was moved under a row, or under what it compressed, still is. -/
theorem revert_keeps {w : Supersession} {d : Dependent} (hl : Ledgered db w.id d ∨
      ∃ r ∈ db.supersessions, r.viaId = some w.id ∧ Ledgered db r.id d) :
    Ledgered next (restoreRow opened now w).id (moveBackRow db.moves opened.id d.table d) ∨
      ∃ r ∈ next.supersessions, r.viaId = some (restoreRow opened now w).id ∧
        Ledgered next r.id (moveBackRow db.moves opened.id d.table d) := by
  rw [restore_row_id]
  refine hl.imp (revert_ledgered step).mpr ?_
  rintro ⟨r, hr, hrv, hl⟩
  exact ⟨restoreRow opened now r, step.rows ▸ List.mem_map_of_mem hr, by simpa using hrv,
    (revert_ledgered step).mpr (by simpa using hl)⟩

/-- A row at an item of the reverted class was created against it. -/
theorem created_of_class {d : Dependent} {item : Nat} (hd : d ∈ db.dependents)
    (hc : created d.table d.id = some item)
    (hin : InClass db.supersessions opened d.itemId) : item = d.itemId := by
  obtain ⟨row, hrow, hri, -, hro, -⟩ := row_of_class h.chained step.mem step.live hin
  refine Option.some.inj (hc.symm.trans (h.unmoved d hd fun hnone => ?_))
  exact open_row_none (open_target_none.mp hnone) hrow hro hri

/-- A row created against an item of the reverted class is untouched or moved under the row. -/
theorem accounted_opened {d : Dependent} (hd : d ∈ db.dependents) {item : Nat}
    (hc : created d.table d.id = some item) (hin : InClass db.supersessions opened item) :
    d.itemId = item ∨ Ledgered db opened.id d := by
  refine (h.accounted opened step.mem step.uncompressed step.live d hd item hc hin).imp_right
    fun hl => hl.resolve_right ?_
  rintro ⟨r, hr, hrv, hl⟩
  exact compressed_unledgered step hr hrv d hl

theorem revert_entries : Entries next := by
  rw [Entries, step.moves, step.dependents, step.rows]
  intro move hmove
  obtain ⟨⟨d, hd, htable, hid⟩, row, hrow, hrid, hfrom, hto⟩ := h.entry move hmove
  exact ⟨⟨_, List.mem_map_of_mem hd, by rwa [move_back_table], by rwa [move_back_id]⟩,
    _, List.mem_map_of_mem hrow, by simpa using hrid, by simpa using hfrom, by simpa using hto⟩

theorem revert_keys : DistinctKeys next := by
  refine mem_moved_back step fun d hd => mem_moved_back step fun e he htable hid => ?_
  rw [move_back_table, move_back_table] at htable
  rw [move_back_id, move_back_id] at hid
  rw [h.keys d hd e he htable hid]

theorem revert_unmoved : Unmoved next created := by
  classical
  refine mem_moved_back step fun d hd => ?_
  rw [move_back_table, move_back_id, moved_back_item h step hd, step.rows,
    open_target_restore h.chained (step.rows ▸ step.later) step.mem step.live step.uncompressed]
  by_cases hl : Ledgered db opened.id d
  · rw [if_pos hl, if_pos rfl]
    exact fun hne => absurd rfl hne
  · rw [if_neg hl]
    refine fun hne => h.unmoved d hd fun hnone => hne ?_
    by_cases hself : d.itemId = opened.supersededId
    · rw [if_pos hself]
    · rw [if_neg hself, if_neg, hnone]
      intro hin
      obtain ⟨row, hrow, hri, -, hro, -⟩ := row_of_class h.chained step.mem step.live hin
      exact open_row_none (open_target_none.mp hnone) hrow hro hri

theorem revert_agrees : Agrees next created := by
  classical
  have hresolve := resolve_restore h.chained (step.rows ▸ step.later) step.mem step.live
    step.uncompressed
  have hself : InClass db.supersessions opened opened.supersededId := Or.inl rfl
  refine mem_moved_back step fun d hd => ?_
  obtain ⟨item, hc, hagree⟩ := h.agrees d hd
  rw [move_back_table, move_back_id, moved_back_item h step hd, step.rows]
  refine ⟨item, hc, ?_⟩
  rw [hresolve, hresolve]
  by_cases hl : Ledgered db opened.id d
  · rw [if_pos hl, if_pos hself, if_pos (h.origin opened step.mem d hd item hl hc).1]
  · rw [if_neg hl]
    by_cases hin : InClass db.supersessions opened item
    · rw [(accounted_opened h step hd hc hin).resolve_right hl]
    · rw [if_neg hin, if_neg (fun hin' => hin (created_of_class h step hd hc hin' ▸ hin')), hagree]

theorem revert_at_survivor : AtSurvivor next := by
  classical
  refine mem_restored step fun r hr hro => mem_moved_back step fun d hd hl => ?_
  rw [moved_back_item h step hd, restore_row_survivor]
  rw [revert_ledgered step, restore_row_id] at hl
  obtain ⟨hclass, hto | hto⟩ := restore_row_open hro
  · rw [if_neg (not_ledgered_of_open h step hr hto hclass hd hl)]
    exact h.atSurvivor r hr hto d hd hl
  · rw [if_pos (h.movedOn r hr opened step.mem step.uncompressed hto d hd hl)]
    exact (h.chained.closed r hr opened step.mem step.uncompressed hto).1.symm

theorem revert_moved_on : MovedOn next := by
  refine mem_restored step fun r hr => mem_restored step fun w hw hwv hto =>
    mem_moved_back step fun d hd hl => ?_
  rw [revert_ledgered step, restore_row_id] at hl ⊢
  rw [restore_row_from] at hto
  exact h.movedOn r hr w hw (by simpa using hwv) (restored_closed h step hw hto) d hd hl

theorem revert_origin : Origin next created := by
  refine mem_restored step fun r hr => mem_moved_back step fun d hd item hl hc => ?_
  rw [move_back_table, move_back_id] at hc
  rw [revert_ledgered step, restore_row_id] at hl
  rw [step.rows, class_restore, restore_row_via, restore_row_superseded]
  exact h.origin r hr d hd item hl hc

/-- What a row that the revert reopens stands for is in the reverted class. -/
theorem class_of_reopened {w : Supersession} (hw : w ∈ db.supersessions)
    (hto : w.validTo = some opened.validFrom) {item : Nat} (hin : InClass db.supersessions w item) :
    InClass db.supersessions opened item := by
  have hsucc : ∀ q ∈ db.supersessions, q.validTo = some opened.validFrom →
      InClass db.supersessions opened q.supersededId := fun q hq hqt =>
    Or.inr (h.chained.closed q hq opened step.mem step.uncompressed hqt).2
  rcases hin with rfl | ⟨q, hq, hqv, rfl⟩
  · exact hsucc w hw hto
  · obtain ⟨u, hu, huid, -, -, -, hut⟩ := h.chained.via q hq _ hqv
    obtain rfl := h.chained.eq_of_id hu hw huid
    exact hsucc q hq (hut ▸ hto)

theorem revert_accounted : Accounted next created := by
  classical
  refine mem_restored step fun w hw hwv hwo => mem_moved_back step fun d hd item hc hin => ?_
  rw [move_back_table, move_back_id] at hc
  rw [step.rows, class_restore] at hin
  rw [restore_row_via] at hwv
  rw [moved_back_item h step hd]
  obtain ⟨hclass, hto | hto⟩ := restore_row_open hwo
  · rcases h.accounted w hw hwv hto d hd item hc hin with hsame | hl
    · rw [if_neg, hsame]
      · exact Or.inl rfl
      · intro hl
        obtain ⟨hoi, -⟩ := h.origin opened step.mem d hd item hl hc
        exact hclass (Or.inl (congrArg _ (opener_unique h.chained hw step.mem hto step.live hwv
          step.uncompressed hin hoi)))
    · exact Or.inr (revert_keeps step hl)
  · -- a reopened merge: the reverted one had moved on what it had moved
    have hbelow := h.accountedBelow w hw opened step.mem hwv step.uncompressed hto d hd item hc hin
    by_cases hl : Ledgered db opened.id d
    · exact Or.inr (revert_keeps step (hbelow hl))
    · refine Or.inl ((if_neg hl).trans ?_)
      exact (accounted_opened h step hd hc (class_of_reopened h step hw hto hin)).resolve_right hl

theorem revert_accounted_below : AccountedBelow next created := by
  refine mem_restored step fun w hw => mem_restored step fun v hv hwv hvv hto =>
    mem_moved_back step fun d hd item hc hin hl => ?_
  rw [move_back_table, move_back_id] at hc
  rw [step.rows, class_restore] at hin
  rw [restore_row_via] at hwv hvv
  rw [restore_row_from] at hto
  rw [revert_ledgered step, restore_row_id] at hl
  exact revert_keeps step (h.accountedBelow w hw v hv hwv hvv (restored_closed h step hv hto) d hd
    item hc hin hl)

theorem revert_exclusive : Exclusive next := by
  refine mem_restored step fun r hr => mem_restored step fun w hw hrv =>
    mem_moved_back step fun d hd hl => ?_
  rw [revert_ledgered step, restore_row_id] at hl ⊢
  exact h.exclusive r hr w hw (by simpa using hrv) d hd hl

/-- A revert that strands no row keeps the invariant. -/
theorem tracked_revert : Tracked next created later where
  chained := step.later
  keys := revert_keys h step
  known := mem_moved_back step fun d hd => by
    rw [move_back_table, move_back_id]
    exact h.known d hd
  entry := revert_entries h step
  unmoved := revert_unmoved h step
  agrees := revert_agrees h step
  atSurvivor := revert_at_survivor h step
  movedOn := revert_moved_on h step
  origin := revert_origin h step
  accounted := revert_accounted h step
  accountedBelow := revert_accounted_below h step
  exclusive := revert_exclusive h step

end Safe

/-- A revert that strands a row leaves it at the survivor while the item it was created against
goes back. -/
theorem stranded_revert (h : Tracked db created used)
    (h' : Chained next.supersessions next.nextId later)
    (hmem : opened ∈ db.supersessions) (hopen : opened.validTo = none)
    (hvia : opened.viaId = none) (hstranded : Stranded db opened.id)
    (hrows : next.supersessions = db.supersessions.map (restoreRow opened now))
    (hdeps : next.dependents = db.dependents.map fun d =>
      moveBackRow db.moves opened.id d.table d) :
    ¬Agrees next created := by
  classical
  intro hagrees
  obtain ⟨move, hmove, r, hr, hrid, hrv⟩ := hstranded
  obtain ⟨⟨d, hd, htable, hid⟩, -⟩ := h.entry move hmove
  have hl : Ledgered db r.id d := ⟨move, hmove, hrid.symm, htable.symm, hid.symm⟩
  have hro := open_of_via h.chained hmem hopen hr hrv
  obtain ⟨v, hv, hvid, -, hvs, -⟩ := h.chained.via r hr _ hrv
  obtain rfl := h.chained.eq_of_id hv hmem hvid
  obtain ⟨item, hc, hagree⟩ := hagrees _ (hdeps ▸ List.mem_map_of_mem hd)
  rw [move_back_table, move_back_id] at hc
  obtain rfl := (h.origin r hr d hd item hl hc).2 (by simp [hrv])
  have hroot : openTarget db.supersessions v.survivorId = none :=
    survivor_root h.chained hmem hopen
  have hin : InClass db.supersessions v r.supersededId := Or.inr ⟨r, hr, hrv, rfl⟩
  have hout : ¬InClass db.supersessions v v.survivorId := fun hin =>
    class_not_target h.chained hmem hopen hin
      ((open_target_iff h.chained).mpr ⟨v, hmem, rfl, rfl, hopen⟩)
  have hresolve := resolve_restore h.chained (hrows ▸ h') hmem hopen hvia
  rw [move_back_item h hmem hopen hd, if_neg (h.exclusive r hr v hmem hrv d hd hl),
    h.atSurvivor r hr hro d hd hl, ← hvs, hrows, hresolve, hresolve, if_neg hout,
    if_pos hin, resolve_of_none hroot] at hagree
  exact h.chained.irrefl v hmem hagree.symm

end Revert

/-! ## Creations -/

section Create

variable {db next : Db} {used later : Set Instant} {created created' : MovedTable → Nat → Option Nat}
  {fresh : Dependent}

/-- A new row is in no ledger yet, so its creation keeps the invariant, also against an item that
is superseded. -/
theorem tracked_create (h : Tracked db created used)
    (hnew : ∀ row ∈ db.dependents, ¬(row.table = fresh.table ∧ row.id = fresh.id))
    (hnext : next = { db with dependents := db.dependents ++ [fresh] })
    (hfresh : created' fresh.table fresh.id = some fresh.itemId)
    (hold : ∀ row ∈ db.dependents, created' row.table row.id = created row.table row.id) :
    Tracked next created' used := by
  subst hnext
  have hempty : ∀ id, ¬Ledgered db id fresh := by
    rintro id ⟨move, hmove, -, htable, hid⟩
    obtain ⟨⟨d, hd, hdt, hdi⟩, -⟩ := h.entry move hmove
    exact hnew d hd ⟨hdt.trans htable, hdi.trans hid⟩
  have hrow : ∀ {motive : Dependent → Prop}, motive fresh → (∀ d ∈ db.dependents, motive d) →
      ∀ d ∈ db.dependents ++ [fresh], motive d := by
    intro motive hlast hbefore d hd
    rcases List.mem_append.mp hd with hd | hd
    · exact hbefore d hd
    · rwa [List.mem_singleton.mp hd]
  constructor
  case chained => exact h.chained
  case keys =>
    refine hrow (hrow (fun _ _ => rfl) fun e he htable hid => ?_) fun d hd => hrow ?_ (h.keys d hd)
    · exact absurd ⟨htable.symm, hid.symm⟩ (hnew e he)
    · exact fun htable hid => absurd ⟨htable, hid⟩ (hnew d hd)
  case known => exact hrow ⟨_, hfresh⟩ fun d hd => hold d hd ▸ h.known d hd
  case entry =>
    intro move hmove
    obtain ⟨⟨d, hd, hkey⟩, hpair⟩ := h.entry move hmove
    exact ⟨⟨d, List.mem_append_left _ hd, hkey⟩, hpair⟩
  case unmoved => exact hrow (fun _ => hfresh) fun d hd => hold d hd ▸ h.unmoved d hd
  case agrees => exact hrow ⟨_, hfresh, rfl⟩ fun d hd => hold d hd ▸ h.agrees d hd
  case atSurvivor =>
    exact fun r hr hro => hrow (fun hl => absurd hl (hempty _)) (h.atSurvivor r hr hro)
  case movedOn =>
    exact fun r hr w hw hwv hto =>
      hrow (fun hl => absurd hl (hempty _)) (h.movedOn r hr w hw hwv hto)
  case origin =>
    exact fun r hr => hrow (fun _ hl => absurd hl (hempty _)) fun d hd =>
      hold d hd ▸ h.origin r hr d hd
  case accounted =>
    exact fun w hw hwv hwo => hrow (fun item hc _ =>
      Or.inl (Option.some.inj (hfresh.symm.trans hc))) fun d hd =>
      hold d hd ▸ h.accounted w hw hwv hwo d hd
  case accountedBelow =>
    exact fun w hw v hv hwv hvv hto => hrow (fun _ _ _ hl => absurd hl (hempty _)) fun d hd =>
      hold d hd ▸ h.accountedBelow w hw v hv hwv hvv hto d hd
  case exclusive =>
    exact fun r hr w hw hrv => hrow (fun hl => absurd hl (hempty _)) (h.exclusive r hr w hw hrv)

end Create

/-! ## Runs -/

/-- The transaction strands no row: it is not a revert, or no compressed row of the reverted one
has moved a row. -/
def StrandsNothing (db : Db) : Action → Prop
  | .revert _ id => ¬Stranded db id
  | .merge .. | .create .. => True

instance (db : Db) (action : Action) : Decidable (StrandsNothing db action) := by
  cases action <;> unfold StrandsNothing <;> infer_instance

theorem created_against_create (trace : List Action) (table table' : MovedTable) (id id' item : Nat)
    (owner : Option Nat) :
    createdAgainst (trace ++ [.create table' id' item owner]) table id =
      if table' = table ∧ id' = id then some item else createdAgainst trace table id := by
  unfold createdAgainst
  rw [List.reverse_append, List.reverse_singleton, List.singleton_append, List.findSome?_cons]
  by_cases hkey : table' = table ∧ id' = id
  · simp only [if_pos hkey]
  · simp only [if_neg hkey]

theorem created_against_timed (trace : List Action) {action : Action} {now : Instant}
    (hnow : action.now? = some now) :
    createdAgainst (trace ++ [action]) = createdAgainst trace := by
  funext table id
  unfold createdAgainst
  rw [List.reverse_append, List.reverse_singleton, List.singleton_append, List.findSome?_cons]
  cases action with
  | merge | revert => rfl
  | create => cases hnow

/-- A committed transaction at a new instant keeps the invariant unless it strands a row. -/
theorem apply_tracked {db next : Db} {used : Set Instant} {trace : List Action} {action : Action}
    (h : Tracked db (createdAgainst trace) used)
    (hnow : ∀ now, action.now? = some now → now ∉ used) (hsafe : StrandsNothing db action)
    (happly : action.apply db = .ok next) :
    Tracked next (createdAgainst (trace ++ [action])) (used ∪ {now | action.now? = some now}) := by
  have hchained := apply_chained h.chained hnow happly
  cases action with
  | merge now superseded survivor cause decisionRef =>
      rw [created_against_timed trace rfl]
      obtain ⟨outcome, hmerge⟩ := apply_merge_ok happly
      obtain ⟨hne, hroot, -, hdeps, hcases⟩ := merge_pair_cases hmerge
      rcases hcases with ⟨row, hrow, hto, hrows, hnext, hmoves⟩ | ⟨hsource, hrows, hnext, hmoves⟩
      · obtain ⟨hmem, hitem, hopen⟩ := open_row_some hrow
        subst hitem hto
        have hrerun := tracked_rerun h ⟨hmem, hopen, hrows, hnext, hdeps, hmoves⟩
        exact { hrerun with chained := hchained }
      · exact tracked_fresh h ⟨hchained, hnow now rfl, hne, open_target_none.mpr hsource,
          open_target_none.mpr hroot, hrows, hdeps, hmoves⟩
  | revert now id =>
      rw [created_against_timed trace rfl]
      obtain ⟨outcome, hrevert⟩ := apply_revert_ok happly
      obtain ⟨opened, hmem, rfl, hopen, hvia, rows, reopened, hchains, hrows, -, hnext, hmoves,
        hdeps⟩ := revert_cases hrevert
      obtain ⟨count, heq⟩ := revert_chains_eq h.chained (hnow now rfl) hmem hopen hvia
      obtain ⟨rfl, -⟩ := Prod.mk.inj (Except.ok.inj (hchains.symm.trans heq))
      exact tracked_revert h
        ⟨hchained, hnow now rfl, hmem, hopen, hvia, hsafe, hrows, hmoves, hdeps⟩
  | create table id item owner =>
      obtain ⟨hnew, hnext⟩ := apply_create_ok happly
      have hrows : Tracked next
          (createdAgainst (trace ++ [.create table id item owner])) used := by
        refine tracked_create h hnew hnext ?_ fun row hrow => ?_
        · rw [created_against_create, if_pos ⟨rfl, rfl⟩]
        · rw [created_against_create, if_neg]
          exact fun hkey => hnew row hrow ⟨hkey.1.symm, hkey.2.symm⟩
      exact { hrows with chained := hchained }

/-- Every run of transactions at distinct instants that strands no row keeps the invariant. -/
theorem run_tracked {start db : Db} {trace : List Action} (hrows : start.supersessions = [])
    (hdeps : start.dependents = []) (hmoves : start.moves = []) (htimes : (instants trace).Nodup)
    (hrun : execute Action.apply start trace = .ok db)
    (hsafe : Along Action.apply StrandsNothing start trace) :
    Tracked db (createdAgainst trace) {now | now ∈ instants trace} := by
  have hstart : Tracked start (createdAgainst []) ∅ := by
    constructor
    case chained =>
      rw [hrows]
      exact chained_nil _
    all_goals simp [hrows, hdeps, hmoves, DistinctKeys, Entries, Unmoved, Agrees, AtSurvivor, MovedOn,
      Origin, Accounted, AccountedBelow, Exclusive]
  refine along_induction (motive := fun trace db => (instants trace).Nodup →
    Tracked db (createdAgainst trace) {now | now ∈ instants trace}) ?_ ?_ hrun hsafe htimes
  · exact fun _ => { hstart with chained := hstart.chained.mono (Set.empty_subset _) }
  · intro trace action db next ih hstrands happly hnodup
    obtain ⟨hbefore, hnow, hsub⟩ := instants_snoc hnodup
    have hnext := apply_tracked (ih hbefore) hnow hstrands happly
    exact { hnext with chained := hnext.chained.mono hsub }

/-- Re-pointed rows agree with resolution when no revert strands a row: after any such run from
an unmerged catalog every row resolves where the item it was created against does, and one more
revert keeps that exactly when it strands none. -/
theorem agreement_unless_stranded (start db : Db) (trace : List Action)
    (hrows : start.supersessions = []) (hdeps : start.dependents = []) (hmoves : start.moves = [])
    (htimes : (instants trace).Nodup) (hrun : execute Action.apply start trace = .ok db)
    (hsafe : Along Action.apply StrandsNothing start trace) :
    Agrees db (createdAgainst trace) ∧
      ∀ now id next, now ∉ instants trace → Action.apply db (.revert now id) = .ok next →
        (Agrees next (createdAgainst (trace ++ [.revert now id])) ↔ ¬Stranded db id) := by
  have h := run_tracked hrows hdeps hmoves htimes hrun hsafe
  refine ⟨h.agrees, fun now id next hnow happly => ⟨fun hagrees hstranded => ?_, fun hsafe => ?_⟩⟩
  · rw [created_against_timed trace rfl] at hagrees
    have hfresh : ∀ t, (Action.revert now id).now? = some t → t ∉ {t | t ∈ instants trace} := by
      rintro t ht
      rwa [← Option.some.inj ht]
    have hchained := apply_chained h.chained hfresh happly
    obtain ⟨outcome, hrevert⟩ := apply_revert_ok happly
    obtain ⟨opened, hmem, rfl, hopen, hvia, rows, reopened, hchains, hnext, -, -, -, hback⟩ :=
      revert_cases hrevert
    obtain ⟨count, heq⟩ := revert_chains_eq h.chained hnow hmem hopen hvia
    obtain ⟨rfl, -⟩ := Prod.mk.inj (Except.ok.inj (hchains.symm.trans heq))
    exact stranded_revert h hchained hmem hopen hvia hstranded hnext hback hagrees
  · refine (apply_tracked h ?_ (show StrandsNothing db (.revert now id) from hsafe) happly).agrees
    rintro t ht
    rwa [← Option.some.inj ht]

/-- A merge of a merged pair, a copy created against the old id, and the revert of the first
merge. -/
def revertedMerge : List Action :=
  [.create .artifacts 6 1 none, .merge 1 1 2 .catalogReattachment 50,
   .create .ownedCopies 7 1 (some 9), .merge 2 1 2 .catalogReattachment 51, .revert 3 100]

theorem reverted_merge_agrees :
    ∃ db, execute Action.apply unmerged revertedMerge = .ok db ∧
      Agrees db (createdAgainst revertedMerge) :=
  ⟨_, rfl, (agreement_unless_stranded unmerged _ revertedMerge rfl rfl rfl (by decide) rfl
    (by decide)).1⟩

/-- A chain of two merges, a copy created against the first item, a re-run that moves it under
the compressed row, and the revert of the second merge. -/
def strandedCopy : List Action :=
  [.merge 1 1 2 .catalogReattachment 50, .merge 2 2 3 .catalogReattachment 51,
   .create .ownedCopies 7 1 (some 9), .merge 3 1 3 .catalogReattachment 52, .revert 4 101]

/-- After the revert the first item resolves to the second again, which the reverted merge had
superseded, while the copy created against it stays at the third. -/
theorem stranded_copy_disagrees :
    ∃ db, execute Action.apply unmerged strandedCopy = .ok db ∧
      createdAgainst strandedCopy .ownedCopies 7 = some 1 ∧
      resolveItem db.supersessions 1 = 2 ∧
      (∃ row ∈ db.dependents, row.table = .ownedCopies ∧ row.id = 7 ∧
        resolveItem db.supersessions row.itemId = 3) ∧
      ¬Agrees db (createdAgainst strandedCopy) := by
  refine ⟨_, rfl, rfl, rfl, ⟨_, List.mem_singleton.mpr rfl, rfl, rfl, rfl⟩, fun hagrees => ?_⟩
  obtain ⟨item, hcreated, hsame⟩ := hagrees _ (List.mem_singleton.mpr rfl)
  obtain rfl : 1 = item := Option.some.inj hcreated
  exact absurd hsame (by decide)

end CatalogApi.CatalogMerge
