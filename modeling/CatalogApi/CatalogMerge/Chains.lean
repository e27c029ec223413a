import CatalogApi.Lib.Forwarding
import CatalogApi.Lib.Runs
import CatalogApi.CatalogMerge.Merge
import Mathlib.Data.Finset.Card

/-!
# Chain compression and its reversal

`Chained` is what the supersession table satisfies between transactions. Rows are told apart by
the item they supersede and the instant they were closed at, which is what makes the timestamp
join of `_REOPEN_PREDECESSORS` exact. `open_chained` and `revert_chained` say that the fresh
merge and the revert keep it, for transactions that start at distinct instants in any order.
-/

namespace CatalogApi.CatalogMerge

/-- A row counts as live while it is open, or while the merge that closed it can still be
reverted into it: some merge opened a row at the instant this one was closed. -/
def Live (rows : List Supersession) (row : Supersession) : Prop :=
  row.validTo = none ∨
    ∃ opener ∈ rows, opener.viaId = none ∧ row.validTo = some opener.validFrom

/-- The invariant of `catalog_item_supersessions`. `used` holds the instants of the transactions
so far. -/
structure Chained (rows : List Supersession) (nextId : Nat) (used : Set Instant) : Prop where
  ids : (rows.map (·.id)).Nodup
  fresh : ∀ r ∈ rows, r.id < nextId
  past : ∀ r ∈ rows, r.validFrom ∈ used ∧ ∀ t, r.validTo = some t → t ∈ used
  irrefl : ∀ r ∈ rows, r.supersededId ≠ r.survivorId
  /-- Within one item, the closing instant identifies the row; in particular one is open. -/
  key : ∀ r ∈ rows, ∀ s ∈ rows,
    r.supersededId = s.supersededId → r.validTo = s.validTo → r = s
  oneHop : ∀ r ∈ rows, ∀ s ∈ rows,
    r.validTo = none → s.validTo = none → r.survivorId ≠ s.supersededId
  /-- A transaction opens at most one row that is not compressed. -/
  opener : ∀ v ∈ rows, ∀ w ∈ rows,
    v.viaId = none → w.viaId = none → v.validFrom = w.validFrom → v = w
  /-- A compressed row lives exactly as long as the row it is compressed by. -/
  via : ∀ r ∈ rows, ∀ id, r.viaId = some id → ∃ v ∈ rows, v.id = id ∧ v.viaId = none ∧
    v.survivorId = r.survivorId ∧ v.validFrom = r.validFrom ∧ v.validTo = r.validTo
  /-- A row closed by a merge has a compressed successor of that merge. -/
  closed : ∀ p ∈ rows, ∀ w ∈ rows, w.viaId = none → p.validTo = some w.validFrom →
    p.survivorId = w.supersededId ∧
      ∃ q ∈ rows, q.viaId = some w.id ∧ q.supersededId = p.supersededId
  /-- A live compressed row has its predecessor, closed when it was opened. -/
  predecessor : ∀ r ∈ rows, ∀ v ∈ rows, r.viaId = some v.id → Live rows r →
    ∃ p ∈ rows, p.supersededId = r.supersededId ∧ p.survivorId = v.supersededId ∧
      p.validTo = some r.validFrom

/-- The empty table is chained. -/
theorem chained_nil (nextId : Nat) : Chained [] nextId ∅ := by
  constructor <;> simp

namespace Chained

variable {rows : List Supersession} {nextId : Nat} {used : Set Instant}

section

variable (h : Chained rows nextId used)
include h

/-- Two rows with one id are one row. -/
theorem eq_of_id {r s : Supersession} (hr : r ∈ rows) (hs : s ∈ rows) (hid : r.id = s.id) : r = s :=
  List.inj_on_of_nodup_map h.ids hr hs hid

theorem nodup : rows.Nodup :=
  List.Nodup.of_map _ h.ids

/-- A new instant closes or opens no row yet. -/
theorem validTo_ne {now : Instant} (hnow : now ∉ used)
    {r : Supersession} (hr : r ∈ rows) : r.validTo ≠ some now :=
  fun heq => hnow ((h.past r hr).2 now heq)

theorem validFrom_ne {now : Instant} (hnow : now ∉ used)
    {r : Supersession} (hr : r ∈ rows) : r.validFrom ≠ now :=
  fun heq => hnow (heq ▸ (h.past r hr).1)

/-- The invariant only asks that the instants in the table are among those used. -/
theorem mono {later : Set Instant} (hsub : used ⊆ later) :
    Chained rows nextId later :=
  { h with past := fun r hr => ⟨hsub (h.past r hr).1, fun t ht => hsub ((h.past r hr).2 t ht)⟩ }

end

end Chained

theorem open_row_some {rows : List Supersession} {item : Nat} {row : Supersession}
    (h : openRow rows item = some row) :
    row ∈ rows ∧ row.supersededId = item ∧ row.validTo = none := by
  have hmem := List.mem_of_find?_eq_some h
  have hprop := List.find?_some h
  simp only [decide_eq_true_eq] at hprop
  exact ⟨List.mem_reverse.mp hmem, hprop.1, hprop.2⟩

theorem open_row_none {rows : List Supersession} {item : Nat} (h : openRow rows item = none)
    {row : Supersession} (hrow : row ∈ rows) (hopen : row.validTo = none) :
    row.supersededId ≠ item := by
  have hnot := List.find?_eq_none.mp h row (List.mem_reverse.mpr hrow)
  simp only [decide_eq_true_eq, not_and] at hnot
  exact fun hitem => hnot hitem hopen

/-- In a chained table the dictionary of `current_supersession` holds the open row. -/
theorem open_row_eq {rows : List Supersession} {nextId : Nat} {used : Set Instant}
    (h : Chained rows nextId used) {row : Supersession} (hrow : row ∈ rows)
    (hopen : row.validTo = none) : openRow rows row.supersededId = some row := by
  cases hfound : openRow rows row.supersededId with
  | none => exact absurd rfl (open_row_none hfound hrow hopen)
  | some other =>
      obtain ⟨hmem, hitem, hto⟩ := open_row_some hfound
      rw [h.key other hmem row hrow hitem (hto.trans hopen.symm)]

/-- An item has at most one open row. -/
theorem open_rows_length {rows : List Supersession} {nextId : Nat} {used : Set Instant}
    (h : Chained rows nextId used) (item : Nat) :
    (rows.filter fun row => row.supersededId = item ∧ row.validTo = none).length ≤ 1 := by
  rw [← List.toFinset_card_of_nodup (h.nodup.filter _)]
  refine Finset.card_le_one.mpr fun r hr s hs => ?_
  simp only [List.mem_toFinset, List.mem_filter, decide_eq_true_eq] at hr hs
  exact h.key r hr.1 s hs.1 (hr.2.1.trans hs.2.1.symm) (hr.2.2.trans hs.2.2.symm)

/-! ## The fresh merge -/

section OpenAndCompress

variable {rows : List Supersession} {nextId superseded survivor : Nat} {now : Instant}

@[simp] theorem close_survived_id (r : Supersession) :
    (closeSurvived superseded now r).id = r.id := by
  unfold closeSurvived
  split <;> rfl

@[simp] theorem close_survived_superseded (r : Supersession) :
    (closeSurvived superseded now r).supersededId = r.supersededId := by
  unfold closeSurvived
  split <;> rfl

@[simp] theorem close_survived_survivor (r : Supersession) :
    (closeSurvived superseded now r).survivorId = r.survivorId := by
  unfold closeSurvived
  split <;> rfl

@[simp] theorem close_survived_from (r : Supersession) :
    (closeSurvived superseded now r).validFrom = r.validFrom := by
  unfold closeSurvived
  split <;> rfl

@[simp] theorem close_survived_via (r : Supersession) :
    (closeSurvived superseded now r).viaId = r.viaId := by
  unfold closeSurvived
  split <;> rfl

/-- Exactly the open rows that `superseded` survives are closed, at `now`. -/
theorem close_survived_to (r : Supersession) :
    (closeSurvived superseded now r).validTo =
      if r.survivorId = superseded ∧ r.validTo = none then some now else r.validTo := by
  unfold closeSurvived
  split <;> rfl

theorem mem_survived {r : Supersession} :
    r ∈ survived superseded rows ↔
      r ∈ rows ∧ r.survivorId = superseded ∧ r.validTo = none := by
  simp [survived]

/-- The row a fresh merge opens for the pair itself. -/
def openedRow (nextId superseded survivor : Nat) (cause : Cause) (decisionRef : Nat)
    (now : Instant) : Supersession :=
  { id := nextId, supersededId := superseded, survivorId := survivor, cause, decisionRef,
    validFrom := now, validTo := none, viaId := none }

/-- The table after a fresh merge: the old rows, closed where `superseded` survived them, the
opened row, and one compressed row for each closed one. -/
theorem open_and_compress_eq {cause : Cause} {decisionRef : Nat} (hne : superseded ≠ survivor) :
    openAndCompress rows nextId superseded survivor cause decisionRef now =
      rows.map (closeSurvived superseded now) ++
        openedRow nextId superseded survivor cause decisionRef now ::
        (survived superseded rows).zipIdx.map fun entry =>
          compressedRow survivor nextId now entry.1 (nextId + 1 + entry.2) := by
  simp [openAndCompress, openedRow, closeSurvived, survived, hne.symm]

theorem mem_open_and_compress {cause : Cause} {decisionRef : Nat} (hne : superseded ≠ survivor)
    {r : Supersession} :
    r ∈ openAndCompress rows nextId superseded survivor cause decisionRef now ↔
      (∃ s ∈ rows, closeSurvived superseded now s = r) ∨
      r = openedRow nextId superseded survivor cause decisionRef now ∨
      ∃ p k, (survived superseded rows)[k]? = some p ∧
        r = compressedRow survivor nextId now p (nextId + 1 + k) := by
  rw [open_and_compress_eq hne]
  simp only [List.mem_append, List.mem_map, List.mem_cons, List.mem_zipIdx_iff_getElem?,
    Prod.exists]
  constructor
  · rintro (h | h | ⟨p, k, h, rfl⟩)
    · exact Or.inl h
    · exact Or.inr (Or.inl h)
    · exact Or.inr (Or.inr ⟨p, k, h, rfl⟩)
  · rintro (h | h | ⟨p, k, h, rfl⟩)
    · exact Or.inl h
    · exact Or.inr (Or.inl h)
    · exact Or.inr (Or.inr ⟨p, k, h, rfl⟩)

/-- Compressed rows are numbered after the opened row, in table order. -/
theorem open_and_compress_ids {used : Set Instant} (cause : Cause) (decisionRef : Nat)
    (now : Instant) (h : Chained rows nextId used) (hne : superseded ≠ survivor) :
    ((openAndCompress rows nextId superseded survivor cause decisionRef now).map (·.id)).Nodup ∧
      ∀ r ∈ openAndCompress rows nextId superseded survivor cause decisionRef now,
        r.id < nextId + 1 + (survived superseded rows).length := by
  have hmap : (rows.map (closeSurvived superseded now)).map (·.id) = rows.map (·.id) := by
    simp [Function.comp_def]
  have hnew : ((survived superseded rows).zipIdx.map fun entry =>
      compressedRow survivor nextId now entry.1 (nextId + 1 + entry.2)).map (·.id) =
      (List.range' 0 (survived superseded rows).length).map (nextId + 1 + ·) := by
    rw [← List.zipIdx_map_snd 0, List.map_map, List.map_map]
    rfl
  constructor
  · rw [open_and_compress_eq hne, List.map_append, hmap, List.map_cons, hnew]
    refine List.nodup_append.mpr ⟨h.ids, List.nodup_cons.mpr ⟨?_, ?_⟩, ?_⟩
    · intro hin
      obtain ⟨k, -, hk⟩ := List.mem_map.mp hin
      simp only [openedRow] at hk
      omega
    · exact List.Nodup.map (fun a b hab => Nat.add_left_cancel hab) List.nodup_range'
    · intro a ha b hb hab
      obtain ⟨r, hr, rfl⟩ := List.mem_map.mp ha
      have hlt := h.fresh r hr
      rcases List.mem_cons.mp hb with hb | hb
      · simp only [openedRow] at hb
        omega
      · obtain ⟨k, -, hk⟩ := List.mem_map.mp hb
        omega
  · intro r hr
    rcases (mem_open_and_compress hne).mp hr with ⟨s, hs, rfl⟩ | rfl | ⟨p, k, hk, rfl⟩
    · have := h.fresh s hs
      simp only [close_survived_id]
      omega
    · simp only [openedRow]
      omega
    · have := (List.getElem?_eq_some_iff.mp hk).1
      simp only [compressedRow]
      omega

/-- A row still open after a fresh merge was open, towards another survivor. -/
theorem close_survived_open {r : Supersession}
    (hto : (closeSurvived superseded now r).validTo = none) :
    r.validTo = none ∧ r.survivorId ≠ superseded := by
  rw [close_survived_to] at hto
  split_ifs at hto with hcond
  exact ⟨hto, fun hs => hcond ⟨hs, hto⟩⟩

theorem survived_at {p : Supersession} {k : Nat} (hk : (survived superseded rows)[k]? = some p) :
    p ∈ rows ∧ p.survivorId = superseded ∧ p.validTo = none :=
  mem_survived.mp (List.mem_of_getElem? hk)

section OpenStep

variable {used : Set Instant} {cause : Cause} {decisionRef : Nat} {table : List Supersession}
  (h : Chained rows nextId used) (hnow : now ∉ used) (hne : superseded ≠ survivor)
  (hsource : ∀ r ∈ rows, r.validTo = none → r.supersededId ≠ superseded)
  (hsink : ∀ r ∈ rows, r.validTo = none → r.supersededId ≠ survivor)
  (htable : ∀ r, r ∈ table ↔ (∃ s ∈ rows, closeSurvived superseded now s = r) ∨
    r = openedRow nextId superseded survivor cause decisionRef now ∨
    ∃ p k, (survived superseded rows)[k]? = some p ∧
      r = compressedRow survivor nextId now p (nextId + 1 + k))
include h htable

theorem open_past : ∀ r ∈ table, r.validFrom ∈ insert now used ∧
    ∀ t, r.validTo = some t → t ∈ insert now used := by
  intro r hr
  rw [htable] at hr
  rcases hr with ⟨s, hs, rfl⟩ | rfl | ⟨p, k, hk, rfl⟩
  · obtain ⟨hsf, hst⟩ := h.past s hs
    rw [close_survived_from, close_survived_to]
    refine ⟨Set.mem_insert_of_mem _ hsf, fun t ht => ?_⟩
    split at ht
    · exact Or.inl (Option.some.inj ht).symm
    · exact Or.inr (hst t ht)
  · simp [openedRow]
  · simp [compressedRow]

include hnow hsource in
/-- The open rows of an item: an old one that `superseded` did not survive, or a new one. -/
theorem open_key : ∀ r ∈ table, ∀ s ∈ table,
    r.supersededId = s.supersededId → r.validTo = s.validTo → r = s := by
  intro r hr s hs hitem hval
  rw [htable] at hr hs
  rcases hr with ⟨r, hr, rfl⟩ | rfl | ⟨p, k, hk, rfl⟩ <;>
    rcases hs with ⟨s, hs, rfl⟩ | rfl | ⟨q, l, hl, rfl⟩
  · simp only [close_survived_superseded] at hitem
    have hrs : r.validTo = s.validTo := by
      simp only [close_survived_to] at hval
      split at hval <;> split at hval
      · rename_i h1 h2
        rw [h1.2, h2.2]
      · exact absurd hval.symm (h.validTo_ne hnow hs)
      · exact absurd hval (h.validTo_ne hnow hr)
      · exact hval
    rw [h.key r hr s hs hitem hrs]
  · exact absurd hitem (by simpa [openedRow] using hsource r hr (close_survived_open hval).1)
  · have := h.key r hr q (survived_at hl).1 (by simpa [compressedRow] using hitem)
      ((close_survived_open hval).1.trans (survived_at hl).2.2.symm)
    exact absurd (this ▸ (survived_at hl).2.1) (close_survived_open hval).2
  · exact absurd hitem.symm
      (by simpa [openedRow] using hsource s hs (close_survived_open hval.symm).1)
  · rfl
  · exact absurd hitem.symm (hsource q (survived_at hl).1 (survived_at hl).2.2)
  · have := h.key s hs p (survived_at hk).1 (by simpa [compressedRow] using hitem.symm)
      ((close_survived_open hval.symm).1.trans (survived_at hk).2.2.symm)
    exact absurd (this ▸ (survived_at hk).2.1) (close_survived_open hval.symm).2
  · exact absurd hitem (hsource p (survived_at hk).1 (survived_at hk).2.2)
  · obtain rfl := h.key p (survived_at hk).1 q (survived_at hl).1 hitem
      ((survived_at hk).2.2.trans (survived_at hl).2.2.symm)
    have hkl : k = l := by
      obtain ⟨hk1, hk2⟩ := List.getElem?_eq_some_iff.mp hk
      obtain ⟨hl1, hl2⟩ := List.getElem?_eq_some_iff.mp hl
      exact (h.nodup.filter _).getElem_inj_iff.mp (hk2.trans hl2.symm)
    rw [hkl]

include hne hsink in
theorem open_one_hop : ∀ r ∈ table, ∀ s ∈ table,
    r.validTo = none → s.validTo = none → r.survivorId ≠ s.supersededId := by
  intro r hr s hs hro hso
  rw [htable] at hr hs
  rcases hr with ⟨r, hr, rfl⟩ | rfl | ⟨p, k, hk, rfl⟩ <;>
    rcases hs with ⟨s, hs, rfl⟩ | rfl | ⟨q, l, hl, rfl⟩
  · simpa using h.oneHop r hr s hs (close_survived_open hro).1 (close_survived_open hso).1
  · simpa [openedRow] using (close_survived_open hro).2
  · simpa [compressedRow] using h.oneHop r hr q (survived_at hl).1 (close_survived_open hro).1
      (survived_at hl).2.2
  · simpa [openedRow] using (hsink s hs (close_survived_open hso).1).symm
  · exact hne.symm
  · exact (hsink q (survived_at hl).1 (survived_at hl).2.2).symm
  · simpa [compressedRow] using (hsink s hs (close_survived_open hso).1).symm
  · exact hne.symm
  · exact (hsink q (survived_at hl).1 (survived_at hl).2.2).symm

include hnow in
theorem open_opener : ∀ v ∈ table, ∀ w ∈ table,
    v.viaId = none → w.viaId = none → v.validFrom = w.validFrom → v = w := by
  intro v hv w hw hvv hwv hvw
  rw [htable] at hv hw
  rcases hv with ⟨v, hv, rfl⟩ | rfl | ⟨p, k, hk, rfl⟩
  · rcases hw with ⟨w, hw, rfl⟩ | rfl | ⟨q, l, hl, rfl⟩
    · simp only [close_survived_via, close_survived_from] at hvv hwv hvw
      rw [h.opener v hv w hw hvv hwv hvw]
    · exact absurd hvw (by simpa [openedRow] using h.validFrom_ne hnow hv)
    · cases hwv
  · rcases hw with ⟨w, hw, rfl⟩ | rfl | ⟨q, l, hl, rfl⟩
    · exact absurd hvw.symm (by simpa [openedRow] using h.validFrom_ne hnow hw)
    · rfl
    · cases hwv
  · cases hvv

theorem open_via : ∀ r ∈ table, ∀ id, r.viaId = some id → ∃ v ∈ table, v.id = id ∧
    v.viaId = none ∧ v.survivorId = r.survivorId ∧ v.validFrom = r.validFrom ∧
    v.validTo = r.validTo := by
  intro r hr id hid
  rw [htable] at hr
  rcases hr with ⟨r, hr, rfl⟩ | rfl | ⟨p, k, hk, rfl⟩
  · simp only [close_survived_via] at hid
    obtain ⟨v, hv, hvid, hvv, hvs, hvf, hvt⟩ := h.via r hr id hid
    refine ⟨closeSurvived superseded now v, (htable _).mpr (Or.inl ⟨v, hv, rfl⟩),
      by simpa using hvid, by simpa using hvv, by simpa using hvs, by simpa using hvf, ?_⟩
    rw [close_survived_to, close_survived_to, hvs, hvt]
  · cases hid
  · obtain rfl : nextId = id := Option.some.inj hid
    exact ⟨_, (htable _).mpr (Or.inr (Or.inl rfl)), rfl, rfl, rfl, rfl, rfl⟩

include hnow in
/-- The rows that the merge closes have the compressed rows as successors. -/
theorem open_closed : ∀ p ∈ table, ∀ w ∈ table, w.viaId = none → p.validTo = some w.validFrom →
    p.survivorId = w.supersededId ∧
      ∃ q ∈ table, q.viaId = some w.id ∧ q.supersededId = p.supersededId := by
  intro p hp w hw hwv hpw
  rw [htable] at hp hw
  rcases hp with ⟨p, hp, rfl⟩ | rfl | ⟨q, l, hl, rfl⟩
  · rcases hw with ⟨w, hw, rfl⟩ | rfl | ⟨q, l, hl, rfl⟩
    · rw [close_survived_from, close_survived_to] at hpw
      split at hpw
      · exact absurd (Option.some.inj hpw).symm (h.validFrom_ne hnow hw)
      · obtain ⟨hps, q, hq, hqv, hqi⟩ := h.closed p hp w hw (by simpa using hwv) hpw
        exact ⟨by simpa using hps, closeSurvived superseded now q,
          (htable _).mpr (Or.inl ⟨q, hq, rfl⟩), by simpa using hqv, by simpa using hqi⟩
    · rw [close_survived_to] at hpw
      split at hpw
      · rename_i hcond
        obtain ⟨k, hk⟩ := List.mem_iff_getElem?.mp (mem_survived.mpr ⟨hp, hcond⟩)
        exact ⟨by simpa [openedRow] using hcond.1, _,
          (htable _).mpr (Or.inr (Or.inr ⟨p, k, hk, rfl⟩)), rfl, by simp [compressedRow]⟩
      · exact absurd hpw (h.validTo_ne hnow hp)
    · cases hwv
  · cases hpw
  · cases hpw

include hnow in
/-- An old row that is live after the merge was live before it. -/
theorem live_before {r : Supersession} (hr : r ∈ rows)
    (hlive : Live table (closeSurvived superseded now r)) : Live rows r := by
  rcases hlive with hnone | ⟨w, hw, hwv, hrw⟩
  · exact Or.inl (close_survived_open hnone).1
  · rw [close_survived_to] at hrw
    split at hrw
    · rename_i hcond
      exact Or.inl hcond.2
    · rcases (htable w).mp hw with ⟨w, hw', rfl⟩ | rfl | ⟨p, k, hk, rfl⟩
      · exact Or.inr ⟨w, hw', by simpa using hwv, by simpa using hrw⟩
      · exact absurd hrw (h.validTo_ne hnow hr)
      · cases hwv

include hnow in
/-- A live compressed row keeps its predecessor. -/
theorem open_predecessor (hids : (table.map (·.id)).Nodup) : ∀ r ∈ table, ∀ v ∈ table,
    r.viaId = some v.id → Live table r → ∃ p ∈ table, p.supersededId = r.supersededId ∧
      p.survivorId = v.supersededId ∧ p.validTo = some r.validFrom := by
  intro r hr v hv hrv hlive
  rw [htable] at hr
  rcases hr with ⟨r, hr, rfl⟩ | rfl | ⟨p, k, hk, rfl⟩
  · simp only [close_survived_via] at hrv
    obtain ⟨u, hu, huid, -⟩ := h.via r hr _ hrv
    have hfresh := h.fresh u hu
    obtain ⟨v, hv', rfl⟩ : ∃ v₀ ∈ rows, closeSurvived superseded now v₀ = v := by
      rcases (htable v).mp hv with hv | rfl | ⟨p, k, hk, rfl⟩
      · exact hv
      · simp only [openedRow] at huid
        omega
      · simp only [compressedRow] at huid
        omega
    obtain ⟨p, hp, hpi, hps, hpt⟩ :=
      h.predecessor r hr v hv' (by simpa using hrv) (live_before h hnow htable hr hlive)
    refine ⟨closeSurvived superseded now p, (htable _).mpr (Or.inl ⟨p, hp, rfl⟩),
      by simpa using hpi, by simpa using hps, ?_⟩
    rw [close_survived_to, hpt]
    simp
  · cases hrv
  · obtain rfl : v = openedRow nextId superseded survivor cause decisionRef now :=
      List.inj_on_of_nodup_map hids hv ((htable _).mpr (Or.inr (Or.inl rfl)))
        (Option.some.inj hrv).symm
    obtain ⟨hp, hps, hpo⟩ := survived_at hk
    refine ⟨closeSurvived superseded now p, (htable _).mpr (Or.inl ⟨p, hp, rfl⟩),
      by simp [compressedRow], by simpa [openedRow] using hps, ?_⟩
    rw [close_survived_to, if_pos ⟨hps, hpo⟩]
    rfl

end OpenStep

/-- A fresh merge of two roots keeps the invariant. -/
theorem open_chained {used : Set Instant} {cause : Cause} {decisionRef : Nat}
    (h : Chained rows nextId used) (hnow : now ∉ used) (hne : superseded ≠ survivor)
    (hsource : ∀ r ∈ rows, r.validTo = none → r.supersededId ≠ superseded)
    (hsink : ∀ r ∈ rows, r.validTo = none → r.supersededId ≠ survivor) :
    Chained (openAndCompress rows nextId superseded survivor cause decisionRef now)
      (nextId + 1 + (survived superseded rows).length) (insert now used) := by
  have htable := @mem_open_and_compress rows nextId _ _ now cause decisionRef hne
  obtain ⟨hids, hfresh⟩ := open_and_compress_ids cause decisionRef now h hne
  constructor
  case ids => exact hids
  case fresh => exact hfresh
  case past => exact open_past h @htable
  case irrefl =>
    intro r hr
    rcases htable.mp hr with ⟨s, hs, rfl⟩ | rfl | ⟨p, k, hk, rfl⟩
    · simpa using h.irrefl s hs
    · exact hne
    · exact hsink p (survived_at hk).1 (survived_at hk).2.2
  case key => exact open_key h hnow hsource @htable
  case oneHop => exact open_one_hop h hne hsink @htable
  case opener => exact open_opener h hnow @htable
  case via => exact open_via h @htable
  case closed => exact open_closed h hnow @htable
  case predecessor => exact open_predecessor h hnow @htable hids

end OpenAndCompress

/-! ## The revert -/

/-- What a revert of the open row `opened` does to one row: the row and what it compressed are
closed, and what the merge closed is open again. -/
def restoreRow (opened : Supersession) (now : Instant) (row : Supersession) : Supersession :=
  if row.id = opened.id ∨ row.viaId = some opened.id then { row with validTo := some now }
  else if row.validTo = some opened.validFrom then { row with validTo := none }
  else row

section Revert

variable {rows : List Supersession} {nextId : Nat} {used : Set Instant} {now : Instant}
  {opened : Supersession}

@[simp] theorem restore_row_id (r : Supersession) : (restoreRow opened now r).id = r.id := by
  unfold restoreRow
  split_ifs <;> rfl

@[simp] theorem restore_row_superseded (r : Supersession) :
    (restoreRow opened now r).supersededId = r.supersededId := by
  unfold restoreRow
  split_ifs <;> rfl

@[simp] theorem restore_row_survivor (r : Supersession) :
    (restoreRow opened now r).survivorId = r.survivorId := by
  unfold restoreRow
  split_ifs <;> rfl

@[simp] theorem restore_row_from (r : Supersession) :
    (restoreRow opened now r).validFrom = r.validFrom := by
  unfold restoreRow
  split_ifs <;> rfl

@[simp] theorem restore_row_via (r : Supersession) :
    (restoreRow opened now r).viaId = r.viaId := by
  unfold restoreRow
  split_ifs <;> rfl

theorem restore_row_to (r : Supersession) :
    (restoreRow opened now r).validTo =
      if r.id = opened.id ∨ r.viaId = some opened.id then some now
      else if r.validTo = some opened.validFrom then none
      else r.validTo := by
  unfold restoreRow
  split_ifs <;> rfl

section

variable (h : Chained rows nextId used)
include h

/-- A row compressed by an open row is open. -/
theorem open_of_via (hmem : opened ∈ rows)
    (hopen : opened.validTo = none) {r : Supersession} (hr : r ∈ rows)
    (hvia : r.viaId = some opened.id) : r.validTo = none := by
  obtain ⟨v, hv, hid, -, -, -, hto⟩ := h.via r hr _ hvia
  obtain rfl := h.eq_of_id hv hmem hid
  rw [← hto, hopen]

/-- A row of the reverted class is open, and any other open row is for another item. -/
theorem class_open (hmem : opened ∈ rows)
    (hopen : opened.validTo = none) {r : Supersession} (hr : r ∈ rows)
    (hclass : r.id = opened.id ∨ r.viaId = some opened.id) : r.validTo = none := by
  rcases hclass with hid | hvia
  · rw [h.eq_of_id hr hmem hid, hopen]
  · exact open_of_via h hmem hopen hr hvia

/-- A compressed row is not the row that compressed it, so `_CLOSE` leaves it alone. -/
theorem close_row_compressed (hmem : opened ∈ rows)
    (hvia : opened.viaId = none) {r : Supersession} (hr : r ∈ rows)
    (hrv : r.viaId = some opened.id) : closeRow opened.id now r = r := by
  refine if_neg fun hid => ?_
  rw [h.eq_of_id hr hmem hid, hvia] at hrv
  cases hrv

/-- The rows `_CLOSE_COMPRESSED` returns are the rows compressed by the reverted one. -/
theorem compressed_of_eq (hmem : opened ∈ rows)
    (hopen : opened.validTo = none) (hvia : opened.viaId = none) :
    compressedOf opened.id (rows.map (closeRow opened.id now)) =
      (rows.filter fun r => r.viaId = some opened.id).map fun r =>
        (r.supersededId, opened.validFrom) := by
  have hfilter : ∀ r ∈ rows, ((closeRow opened.id now r).viaId = some opened.id ∧
      (closeRow opened.id now r).validTo = none ↔ r.viaId = some opened.id) := by
    intro r hr
    constructor
    · rintro ⟨hrv, -⟩
      unfold closeRow at hrv
      split at hrv <;> exact hrv
    · intro hrv
      rw [close_row_compressed h hmem hvia hr hrv]
      exact ⟨hrv, open_of_via h hmem hopen hr hrv⟩
  unfold compressedOf
  rw [List.filter_map, List.map_map]
  have hkeep : rows.filter ((fun row => decide (row.viaId = some opened.id ∧ row.validTo = none)) ∘
      closeRow opened.id now) = rows.filter fun r => r.viaId = some opened.id :=
    List.filter_congr fun r hr => decide_eq_decide.mpr (hfilter r hr)
  rw [hkeep]
  refine List.map_congr_left fun r hr => ?_
  simp only [List.mem_filter, decide_eq_true_eq] at hr
  obtain ⟨v, hv, hid, -, -, hfrom, -⟩ := h.via r hr.1 _ hr.2
  obtain rfl := h.eq_of_id hv hmem hid
  simp [close_row_compressed h hmem hvia hr.1 hr.2, hfrom]

/-- `_CLOSE` and `_CLOSE_COMPRESSED` together close the class of the reverted row. -/
theorem sweep_row (hmem : opened ∈ rows)
    (hopen : opened.validTo = none) (hvia : opened.viaId = none) {r : Supersession}
    (hr : r ∈ rows) :
    closeCompressed opened.id now (closeRow opened.id now r) =
      if r.id = opened.id ∨ r.viaId = some opened.id then { r with validTo := some now }
      else r := by
  by_cases hid : r.id = opened.id
  · obtain rfl := h.eq_of_id hr hmem hid
    simp [closeRow, closeCompressed]
  · have hclose : closeRow opened.id now r = r := if_neg hid
    rw [hclose]
    by_cases hrv : r.viaId = some opened.id
    · simp [closeCompressed, hrv, open_of_via h hmem hopen hr hrv]
    · simp [closeCompressed, hrv, hid]

section

variable (hnow : now ∉ used) (hmem : opened ∈ rows) (hopen : opened.validTo = none) (hvia : opened.viaId = none)
include hnow hmem hopen hvia

/-- The predecessors are the rows the reverted merge closed. -/
theorem is_predecessor_sweep {r : Supersession} (hr : r ∈ rows) :
    isPredecessor (compressedOf opened.id (rows.map (closeRow opened.id now)))
        opened.supersededId (closeCompressed opened.id now (closeRow opened.id now r)) ↔
      r.validTo = some opened.validFrom := by
  rw [sweep_row h hmem hopen hvia hr]
  split_ifs with hclass
  · constructor
    · rintro ⟨-, entry, hentry, -, hto⟩
      rw [compressed_of_eq h hmem hopen hvia] at hentry
      obtain ⟨q, -, rfl⟩ := List.mem_map.mp hentry
      exact absurd (Option.some.inj hto).symm (h.validFrom_ne hnow hmem)
    · intro hto
      rw [class_open h hmem hopen hr hclass] at hto
      cases hto
  · constructor
    · rintro ⟨-, entry, hentry, -, hto⟩
      rw [compressed_of_eq h hmem hopen hvia] at hentry
      obtain ⟨q, -, rfl⟩ := List.mem_map.mp hentry
      exact hto
    · intro hto
      obtain ⟨hsurv, q, hq, hqv, hqi⟩ := h.closed r hr opened hmem hvia hto
      rw [compressed_of_eq h hmem hopen hvia]
      exact ⟨hsurv, _, List.mem_map_of_mem (List.mem_filter.mpr ⟨hq, by simpa using hqv⟩),
        hqi.symm, hto⟩

/-- The three statements of a revert together restore each row. -/
theorem restore_row_eq {r : Supersession} (hr : r ∈ rows) :
    reopenPredecessor (compressedOf opened.id (rows.map (closeRow opened.id now)))
        opened.supersededId (closeCompressed opened.id now (closeRow opened.id now r)) =
      restoreRow opened now r := by
  have hiff := is_predecessor_sweep h hnow hmem hopen hvia hr
  unfold reopenPredecessor
  rw [if_congr hiff rfl rfl, sweep_row h hmem hopen hvia hr, restoreRow]
  by_cases hclass : r.id = opened.id ∨ r.viaId = some opened.id
  · rw [if_pos hclass, if_pos hclass, if_neg]
    rw [class_open h hmem hopen hr hclass]
    exact fun hto => by cases hto
  · rw [if_neg hclass, if_neg hclass]

/-- The predecessors found are as many as the rows compressed: one for each item. -/
theorem predecessors_length :
    (((rows.map (closeRow opened.id now)).map (closeCompressed opened.id now)).filter fun row =>
        isPredecessor (compressedOf opened.id (rows.map (closeRow opened.id now)))
          opened.supersededId row).length =
      (compressedOf opened.id (rows.map (closeRow opened.id now))).length := by
  have hpred : (((rows.map (closeRow opened.id now)).map
      (closeCompressed opened.id now)).filter fun row =>
        isPredecessor (compressedOf opened.id (rows.map (closeRow opened.id now)))
          opened.supersededId row).length =
      ((rows.filter fun r => r.validTo = some opened.validFrom).map (·.supersededId)).length := by
    rw [List.map_map, List.filter_map, List.length_map, List.length_map]
    congr 1
    refine List.filter_congr fun r hr => ?_
    simpa using is_predecessor_sweep h hnow hmem hopen hvia hr
  have hcomp : (compressedOf opened.id (rows.map (closeRow opened.id now))).length =
      ((rows.filter fun r => r.viaId = some opened.id).map (·.supersededId)).length := by
    rw [compressed_of_eq h hmem hopen hvia, List.length_map, List.length_map]
  rw [hpred, hcomp]
  refine List.Perm.length_eq ((List.perm_ext_iff_of_nodup ?_ ?_).mpr fun item => ?_)
  · refine List.Nodup.map_on (fun r hr s hs hitem => ?_) (h.nodup.filter _)
    simp only [List.mem_filter, decide_eq_true_eq] at hr hs
    exact h.key r hr.1 s hs.1 hitem (hr.2.trans hs.2.symm)
  · refine List.Nodup.map_on (fun r hr s hs hitem => ?_) (h.nodup.filter _)
    simp only [List.mem_filter, decide_eq_true_eq] at hr hs
    exact h.key r hr.1 s hs.1 hitem ((open_of_via h hmem hopen hr.1 hr.2).trans
      (open_of_via h hmem hopen hs.1 hs.2).symm)
  · simp only [List.mem_map, List.mem_filter, decide_eq_true_eq]
    constructor
    · rintro ⟨p, ⟨hp, hto⟩, rfl⟩
      obtain ⟨-, q, hq, hqv, hqi⟩ := h.closed p hp opened hmem hvia hto
      exact ⟨q, ⟨hq, hqv⟩, hqi⟩
    · rintro ⟨q, ⟨hq, hqv⟩, rfl⟩
      obtain ⟨p, hp, hpi, -, hpt⟩ := h.predecessor q hq opened hmem hqv
        (Or.inl (open_of_via h hmem hopen hq hqv))
      obtain ⟨v, hv, hvid, -, -, hvf, -⟩ := h.via q hq _ hqv
      obtain rfl := h.eq_of_id hv hmem hvid
      exact ⟨p, ⟨hp, hpt.trans (congrArg some hvf.symm)⟩, hpi⟩

/-- A revert of an open, uncompressed row finds every predecessor and restores each row. -/
theorem revert_chains_eq :
    ∃ reopened, revertChains rows opened.id opened.supersededId now =
      .ok (rows.map (restoreRow opened now), reopened) := by
  have hrestore : ((rows.map (closeRow opened.id now)).map (closeCompressed opened.id now)).map
      (reopenPredecessor (compressedOf opened.id (rows.map (closeRow opened.id now)))
        opened.supersededId) = rows.map (restoreRow opened now) := by
    rw [List.map_map, List.map_map]
    exact List.map_congr_left fun r hr => restore_row_eq h hnow hmem hopen hvia hr
  unfold revertChains
  simp only
  split_ifs with hempty hlen
  · rw [hempty] at hrestore
    have hid : ∀ row, reopenPredecessor [] opened.supersededId row = row := by
      simp [reopenPredecessor, isPredecessor]
    rw [← hrestore, List.map_congr_left fun row _ => hid row, List.map_id']
    exact ⟨0, rfl⟩
  · exact absurd (predecessors_length h hnow hmem hopen hvia) hlen
  · exact ⟨_, by rw [hrestore]; rfl⟩

end

/-- A row the reverted merge closed has an open compressed successor. -/
theorem successor_of_closed (hmem : opened ∈ rows)
    (hopen : opened.validTo = none) (hvia : opened.viaId = none) {p : Supersession}
    (hp : p ∈ rows) (hto : p.validTo = some opened.validFrom) :
    p.survivorId = opened.supersededId ∧ ∃ q ∈ rows, q.viaId = some opened.id ∧
      q.supersededId = p.supersededId ∧ q.validTo = none := by
  obtain ⟨hsurv, q, hq, hqv, hqi⟩ := h.closed p hp opened hmem hvia hto
  exact ⟨hsurv, q, hq, hqv, hqi, open_of_via h hmem hopen hq hqv⟩

end

/-- The rows open after a revert: those open before outside the reverted class, and those the
reverted merge had closed. -/
theorem restore_row_open {r : Supersession} (hto : (restoreRow opened now r).validTo = none) :
    ¬(r.id = opened.id ∨ r.viaId = some opened.id) ∧
      (r.validTo = none ∨ r.validTo = some opened.validFrom) := by
  rw [restore_row_to] at hto
  split_ifs at hto with hclass hclosed
  · exact ⟨hclass, Or.inr hclosed⟩
  · exact ⟨hclass, Or.inl hto⟩

/-- The three ways a revert treats a row. -/
theorem restore_row_cases (opened : Supersession) (now : Instant) (r : Supersession) :
    ((r.id = opened.id ∨ r.viaId = some opened.id) ∧
        (restoreRow opened now r).validTo = some now) ∨
      (¬(r.id = opened.id ∨ r.viaId = some opened.id) ∧ r.validTo = some opened.validFrom ∧
        (restoreRow opened now r).validTo = none) ∨
      (¬(r.id = opened.id ∨ r.viaId = some opened.id) ∧
        (restoreRow opened now r).validTo = r.validTo) := by
  rw [restore_row_to]
  split_ifs with hclass hclosed
  · exact Or.inl ⟨hclass, rfl⟩
  · exact Or.inr (Or.inl ⟨hclass, hclosed, rfl⟩)
  · exact Or.inr (Or.inr ⟨hclass, rfl⟩)

section RestoreStep

variable (h : Chained rows nextId used) (hnow : now ∉ used) (hmem : opened ∈ rows)
  (hopen : opened.validTo = none) (hvia : opened.viaId = none)
include h hmem hopen hvia

/-- No row of another class shares an item with a row that is reopened. -/
theorem reopened_apart {r s : Supersession} (hr : r ∈ rows) (hs : s ∈ rows)
    (hitem : r.supersededId = s.supersededId)
    (hclass : ¬(r.id = opened.id ∨ r.viaId = some opened.id)) (hro : r.validTo = none) :
    s.validTo ≠ some opened.validFrom := by
  intro hsc
  obtain ⟨-, q, hq, hqv, hqi, hqo⟩ := successor_of_closed h hmem hopen hvia hs hsc
  obtain rfl := h.key r hr q hq (hitem.trans hqi.symm) (hro.trans hqo.symm)
  exact hclass (Or.inr hqv)

include hnow in
theorem restore_key {r s : Supersession} (hr : r ∈ rows) (hs : s ∈ rows)
    (hitem : r.supersededId = s.supersededId)
    (hval : (restoreRow opened now r).validTo = (restoreRow opened now s).validTo) : r = s := by
  refine h.key r hr s hs hitem ?_
  rcases restore_row_cases opened now r with ⟨hrc, hrv⟩ | ⟨hrc, hrt, hrv⟩ | ⟨hrc, hrv⟩ <;>
    rcases restore_row_cases opened now s with ⟨hsc, hsv⟩ | ⟨hsc, hst, hsv⟩ | ⟨hsc, hsv⟩ <;>
    rw [hrv, hsv] at hval
  · rw [class_open h hmem hopen hr hrc, class_open h hmem hopen hs hsc]
  · cases hval
  · exact absurd hval.symm (h.validTo_ne hnow hs)
  · cases hval
  · rw [hrt, hst]
  · exact absurd hrt (reopened_apart h hmem hopen hvia hs hr hitem.symm hsc hval.symm)
  · exact absurd hval (h.validTo_ne hnow hr)
  · exact absurd hst (reopened_apart h hmem hopen hvia hr hs hitem hrc hval)
  · exact hval

theorem restore_one_hop {r s : Supersession} (hr : r ∈ rows) (hs : s ∈ rows)
    (hro : (restoreRow opened now r).validTo = none)
    (hso : (restoreRow opened now s).validTo = none) : r.survivorId ≠ s.supersededId := by
  have hsucc {p} (hp : p ∈ rows) := successor_of_closed h hmem hopen hvia hp
  obtain ⟨-, hro⟩ := restore_row_open hro
  obtain ⟨hsc, hso⟩ := restore_row_open hso
  rcases hro with hro | hro
  · rcases hso with hso | hso
    · exact h.oneHop r hr s hs hro hso
    · obtain ⟨-, q, hq, -, hqi, hqo⟩ := hsucc hs hso
      exact hqi ▸ h.oneHop r hr q hq hro hqo
  · rw [(hsucc hr hro).1]
    rcases hso with hso | hso
    · intro hitem
      exact hsc (Or.inl (congrArg _ (h.key s hs opened hmem hitem.symm (hso.trans hopen.symm))))
    · rw [← (hsucc hs hso).1]
      exact (h.irrefl s hs).symm

omit hopen in
/-- A compressed row is restored as the row it is compressed by. -/
theorem restore_via {r v : Supersession} (hr : r ∈ rows) (hrv : r.viaId = some v.id)
    (hvv : v.viaId = none) (hvt : v.validTo = r.validTo) :
    (restoreRow opened now v).validTo = (restoreRow opened now r).validTo := by
  have hclass : (r.id = opened.id ∨ r.viaId = some opened.id) ↔
      (v.id = opened.id ∨ v.viaId = some opened.id) := by
    constructor
    · rintro (hro | hro)
      · rw [h.eq_of_id hr hmem hro, hvia] at hrv
        cases hrv
      · exact Or.inl (Option.some.inj (hrv.symm.trans hro))
    · rintro (hvo | hvo)
      · exact Or.inr (hrv.trans (congrArg some hvo))
      · rw [hvv] at hvo
        cases hvo
  rw [restore_row_to, restore_row_to, if_congr hclass rfl rfl, hvt]

include hnow in
omit hopen in
/-- A row that is live after the revert was live before it, outside the reverted class. -/
theorem live_restored {r : Supersession}
    (hlive : Live (rows.map (restoreRow opened now)) (restoreRow opened now r)) :
    ¬(r.id = opened.id ∨ r.viaId = some opened.id) ∧ Live rows r := by
  rcases hlive with hnone | ⟨w, hw, hwv, hrw⟩
  · obtain ⟨hclass, hro | hro⟩ := restore_row_open hnone
    · exact ⟨hclass, Or.inl hro⟩
    · exact ⟨hclass, Or.inr ⟨opened, hmem, hvia, hro⟩⟩
  · obtain ⟨w, hwr, rfl⟩ := List.mem_map.mp hw
    rw [restore_row_to, restore_row_from] at hrw
    split_ifs at hrw with hclass
    · exact absurd (Option.some.inj hrw).symm (h.validFrom_ne hnow hwr)
    · exact ⟨hclass, Or.inr ⟨w, hwr, by simpa using hwv, hrw⟩⟩

/-- The predecessor of a live row outside the reverted class is left as it is: it was closed for
another merge. -/
theorem restore_predecessor {r v p : Supersession} (hr : r ∈ rows) (hrv : r.viaId = some v.id)
    (hclass : ¬(r.id = opened.id ∨ r.viaId = some opened.id)) (hp : p ∈ rows)
    (hpt : p.validTo = some r.validFrom) :
    (restoreRow opened now p).validTo = some r.validFrom := by
  rw [restore_row_to, if_neg, if_neg, hpt]
  · intro hpo
    obtain ⟨u, hu, huid, huv, -, huf, -⟩ := h.via r hr _ hrv
    have hfeq : u.validFrom = opened.validFrom :=
      huf.trans (Option.some.inj (hpt.symm.trans hpo))
    obtain rfl := h.opener u hu opened hmem huv hvia hfeq
    exact hclass (Or.inr (hrv.trans (congrArg some huid.symm)))
  · intro hpc
    rw [class_open h hmem hopen hp hpc] at hpt
    cases hpt

end RestoreStep

/-- A revert keeps the invariant. -/
theorem revert_chained (h : Chained rows nextId used) (hnow : now ∉ used) (hmem : opened ∈ rows)
    (hopen : opened.validTo = none) (hvia : opened.viaId = none) :
    Chained (rows.map (restoreRow opened now)) nextId (insert now used) := by
  constructor
  case ids => simpa [Function.comp_def] using h.ids
  all_goals simp only [List.forall_mem_map, restore_row_id, restore_row_superseded,
    restore_row_survivor, restore_row_from, restore_row_via]
  case fresh => exact h.fresh
  case past =>
    intro r hr
    obtain ⟨hrf, hrt⟩ := h.past r hr
    rw [restore_row_to]
    refine ⟨Set.mem_insert_of_mem _ hrf, fun t ht => ?_⟩
    split_ifs at ht
    · exact Or.inl (Option.some.inj ht).symm
    · exact Or.inr (hrt t ht)
  case irrefl => exact h.irrefl
  case key =>
    intro r hr s hs hitem hval
    rw [restore_key h hnow hmem hopen hvia hr hs hitem hval]
  case oneHop =>
    intro r hr s hs hro hso
    exact restore_one_hop h hmem hopen hvia hr hs hro hso
  case opener =>
    intro v hv w hw hvv hwv hvw
    rw [h.opener v hv w hw hvv hwv hvw]
  case via =>
    intro r hr id hid
    obtain ⟨v, hv, rfl, hvv, hvs, hvf, hvt⟩ := h.via r hr id hid
    exact ⟨restoreRow opened now v, List.mem_map_of_mem hv, by simp, by simpa using hvv,
      by simpa using hvs, by simpa using hvf, restore_via h hmem hvia hr hid hvv hvt⟩
  case closed =>
    intro p hp w hw hwv hpw
    rw [restore_row_to] at hpw
    split_ifs at hpw
    · exact absurd (Option.some.inj hpw).symm (h.validFrom_ne hnow hw)
    · obtain ⟨hps, q, hq, hqv, hqi⟩ := h.closed p hp w hw hwv hpw
      exact ⟨hps, restoreRow opened now q, List.mem_map_of_mem hq, by simpa using hqv,
        by simpa using hqi⟩
  case predecessor =>
    intro r hr v hv hrv hlive
    obtain ⟨hclass, hlive⟩ := live_restored h hnow hmem hvia hlive
    obtain ⟨p, hp, hpi, hps, hpt⟩ := h.predecessor r hr v hv hrv hlive
    exact ⟨restoreRow opened now p, List.mem_map_of_mem hp, by simpa using hpi,
      by simpa using hps, restore_predecessor h hmem hopen hvia hr hrv hclass hp hpt⟩

end Revert

end CatalogApi.CatalogMerge
