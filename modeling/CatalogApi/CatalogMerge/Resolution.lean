import CatalogApi.CatalogMerge.Transactions

/-!
# Resolution through the open rows

`resolveItem` is `public.resolve_catalog_item`. In a chained table the open rows are a one-hop
forwarding, a fresh merge redirects it and a revert detaches the class the merge had moved:
`resolve_merge` and `resolve_restore` say what each does to resolution.
-/

namespace CatalogApi.CatalogMerge

/-- The item an open row sends `item` to. -/
def openTarget (rows : List Supersession) (item : Nat) : Option Nat :=
  (openRow rows item).map (·.survivorId)

/-- `public.resolve_catalog_item`: the survivor of the open row, else the item itself. -/
def resolveItem (rows : List Supersession) (item : Nat) : Nat :=
  (openTarget rows item).getD item

/-- The items a merge moved: the superseded one and those of the rows it compressed. -/
def InClass (rows : List Supersession) (opened : Supersession) (item : Nat) : Prop :=
  item = opened.supersededId ∨
    ∃ row ∈ rows, row.viaId = some opened.id ∧ row.supersededId = item

instance (rows : List Supersession) (opened : Supersession) (item : Nat) :
    Decidable (InClass rows opened item) :=
  inferInstanceAs (Decidable (_ ∨ ∃ _ ∈ rows, _ ∧ _))

variable {rows : List Supersession} {nextId : Nat} {used : Set Instant}

/-- The open rows, as a relation. -/
theorem open_target_iff (h : Chained rows nextId used) {item target : Nat} :
    openTarget rows item = some target ↔
      ∃ row ∈ rows, row.supersededId = item ∧ row.survivorId = target ∧ row.validTo = none := by
  constructor
  · intro hto
    obtain ⟨row, hrow, rfl⟩ := Option.map_eq_some_iff.mp hto
    obtain ⟨hmem, hitem, hopen⟩ := open_row_some hrow
    exact ⟨row, hmem, hitem, rfl, hopen⟩
  · rintro ⟨row, hmem, rfl, rfl, hopen⟩
    rw [openTarget, open_row_eq h hmem hopen]
    rfl

theorem open_target_none {item : Nat} :
    openTarget rows item = none ↔ openRow rows item = none := by
  simp [openTarget]

/-- The open rows of a chained table as a one-hop forwarding. -/
def forwarding (h : Chained rows nextId used) : Forwarding Nat where
  target := openTarget rows
  oneHop := by
    intro x y hxy
    obtain ⟨r, hr, -, rfl, hro⟩ := (open_target_iff h).mp hxy
    refine Option.eq_none_iff_forall_not_mem.mpr fun z hz => ?_
    obtain ⟨s, hs, hitem, -, hso⟩ := (open_target_iff h).mp hz
    exact h.oneHop r hr s hs hro hso hitem.symm

theorem resolve_item_eq (h : Chained rows nextId used) (item : Nat) :
    resolveItem rows item = (forwarding h).resolve item := rfl

/-- An item that resolves to another has an open row to it. -/
theorem row_of_resolve (h : Chained rows nextId used) {item target : Nat}
    (hto : resolveItem rows item = target) (hne : item ≠ target) :
    ∃ row ∈ rows, row.supersededId = item ∧ row.survivorId = target ∧ row.validTo = none :=
  (open_target_iff h).mp ((forwarding h).target_of_resolve hto hne)

theorem resolve_of_open_row (h : Chained rows nextId used) {row : Supersession} (hrow : row ∈ rows)
    (hopen : row.validTo = none) : resolveItem rows row.supersededId = row.survivorId :=
  (forwarding h).resolve_of_target ((open_target_iff h).mpr ⟨row, hrow, rfl, rfl, hopen⟩)

theorem resolve_of_none {item : Nat} (hnone : openTarget rows item = none) :
    resolveItem rows item = item := by
  simp [resolveItem, hnone]

/-- The survivor of an open row is not superseded. -/
theorem survivor_root (h : Chained rows nextId used) {row : Supersession} (hrow : row ∈ rows)
    (hopen : row.validTo = none) : openTarget rows row.survivorId = none :=
  (forwarding h).oneHop _ _ ((open_target_iff h).mpr ⟨row, hrow, rfl, rfl, hopen⟩)

/-- A fresh merge redirects the forwarding of the open rows. -/
theorem open_target_merge {nextId' superseded survivor decisionRef : Nat} {cause : Cause}
    {now : Instant} {used' : Set Instant} (h : Chained rows nextId used)
    (h' : Chained (openAndCompress rows nextId superseded survivor cause decisionRef now) nextId'
      used')
    (hne : superseded ≠ survivor) (hsource : openTarget rows superseded = none) (item : Nat) :
    openTarget (openAndCompress rows nextId superseded survivor cause decisionRef now) item =
      if resolveItem rows item = superseded then some survivor else openTarget rows item := by
  refine Option.ext fun target => ?_
  rw [open_target_iff h']
  by_cases hitem : resolveItem rows item = superseded
  · rw [if_pos hitem, Option.some.injEq]
    constructor
    · rintro ⟨r, hr, hri, rfl, hro⟩
      rcases (mem_open_and_compress hne).mp hr with ⟨s, hs, rfl⟩ | rfl | ⟨p, k, hk, rfl⟩
      · -- an old row of the class would have been closed
        rw [close_survived_to] at hro
        split at hro
        · cases hro
        · rename_i hcond
          rw [close_survived_superseded] at hri
          subst hri
          exact absurd ⟨(resolve_of_open_row h hs hro).symm.trans hitem, hro⟩ hcond
      · rfl
      · rfl
    · rintro rfl
      by_cases hself : item = superseded
      · exact ⟨_, (mem_open_and_compress hne).mpr (Or.inr (Or.inl rfl)), hself.symm, rfl, rfl⟩
      · obtain ⟨p, hp, hpi, hps, hpo⟩ := row_of_resolve h hitem hself
        obtain ⟨k, hk⟩ := List.mem_iff_getElem?.mp (mem_survived.mpr ⟨hp, hps, hpo⟩)
        exact ⟨_, (mem_open_and_compress hne).mpr (Or.inr (Or.inr ⟨p, k, hk, rfl⟩)), hpi, rfl, rfl⟩
  · rw [if_neg hitem, open_target_iff h]
    constructor
    · rintro ⟨r, hr, hri, rfl, hro⟩
      rcases (mem_open_and_compress hne).mp hr with ⟨s, hs, rfl⟩ | rfl | ⟨p, k, hk, rfl⟩
      · rw [close_survived_to] at hro
        split at hro
        · cases hro
        · exact ⟨s, hs, by simpa using hri, by simp, hro⟩
      · obtain rfl : superseded = item := hri
        exact absurd (resolve_of_none hsource) hitem
      · obtain ⟨hp, hps, hpo⟩ := mem_survived.mp (List.mem_of_getElem? hk)
        obtain rfl : p.supersededId = item := hri
        exact absurd ((resolve_of_open_row h hp hpo).trans hps) hitem
    · rintro ⟨s, hs, rfl, rfl, hso⟩
      refine ⟨closeSurvived superseded now s, (mem_open_and_compress hne).mpr (Or.inl ⟨s, hs, rfl⟩),
        by simp, by simp, ?_⟩
      rw [close_survived_to, if_neg, hso]
      exact fun hcond => hitem ((resolve_of_open_row h hs hso).trans hcond.1)

/-- After a fresh merge the class of `superseded` resolves to `survivor`. -/
theorem resolve_merge {nextId' superseded survivor decisionRef : Nat} {cause : Cause}
    {now : Instant} {used' : Set Instant} (h : Chained rows nextId used)
    (h' : Chained (openAndCompress rows nextId superseded survivor cause decisionRef now) nextId'
      used')
    (hne : superseded ≠ survivor) (hsource : openTarget rows superseded = none)
    (hsink : openTarget rows survivor = none) (item : Nat) :
    resolveItem (openAndCompress rows nextId superseded survivor cause decisionRef now) item =
      if resolveItem rows item = superseded then survivor else resolveItem rows item := by
  have hforward : forwarding h' = (forwarding h).redirect superseded survivor hsink hne :=
    Forwarding.ext (funext fun x => open_target_merge h h' hne hsource x)
  rw [resolve_item_eq h', hforward]
  exact (forwarding h).resolve_redirect hsink hne item

section Revert

variable {now : Instant} {opened : Supersession}

section

variable (h : Chained rows nextId used) (hmem : opened ∈ rows) (hopen : opened.validTo = none)
include h hmem hopen

/-- Every item of an open merge's class has an open row, of that merge. -/
theorem row_of_class {item : Nat} (hclass : InClass rows opened item) :
    ∃ row ∈ rows, row.supersededId = item ∧ row.survivorId = opened.survivorId ∧
      row.validTo = none ∧ (row = opened ∨ row.viaId = some opened.id) := by
  rcases hclass with rfl | ⟨row, hrow, hvia, rfl⟩
  · exact ⟨opened, hmem, rfl, rfl, hopen, Or.inl rfl⟩
  · obtain ⟨v, hv, hid, -, hsurvivor, -, hto⟩ := h.via row hrow _ hvia
    obtain rfl := h.eq_of_id hv hmem hid
    exact ⟨row, hrow, rfl, hsurvivor.symm, hto.symm.trans hopen, Or.inr hvia⟩

/-- An open row for an item of the class belongs to the merge. -/
theorem class_of_row {row : Supersession} (hrow : row ∈ rows)
    (hto : row.validTo = none) (hclass : InClass rows opened row.supersededId) :
    row = opened ∨ row.viaId = some opened.id := by
  obtain ⟨other, hother, hitem, -, hopen', hof⟩ := row_of_class h hmem hopen hclass
  rwa [h.key row hrow other hother hitem.symm (hto.trans hopen'.symm)]

/-- No item of an open merge's class is a survivor. -/
theorem class_not_target {item other : Nat} (hclass : InClass rows opened item) :
    openTarget rows other ≠ some item := by
  intro hto
  obtain ⟨row, hrow, hitem, -, hopen', -⟩ := row_of_class h hmem hopen hclass
  have hroot := (forwarding h).oneHop _ _ hto
  exact open_row_none (open_target_none.mp hroot) hrow hopen' hitem

end

/-- A revert detaches the class of the merge. -/
theorem open_target_restore {nextId' : Nat} {used' : Set Instant} (h : Chained rows nextId used)
    (h' : Chained (rows.map (restoreRow opened now)) nextId' used') (hmem : opened ∈ rows)
    (hopen : opened.validTo = none) (hvia : opened.viaId = none) (item : Nat) :
    openTarget (rows.map (restoreRow opened now)) item =
      if item = opened.supersededId then none
      else if InClass rows opened item then some opened.supersededId
      else openTarget rows item := by
  have hsucc : ∀ {p}, p ∈ rows → p.validTo = some opened.validFrom →
      p.survivorId = opened.supersededId ∧ InClass rows opened p.supersededId := by
    intro p hp hto
    obtain ⟨hsurv, q, hq, hqv, hqi, -⟩ := successor_of_closed h hmem hopen hvia hp hto
    exact ⟨hsurv, Or.inr ⟨q, hq, hqv, hqi⟩⟩
  -- an open row of the restored table was open outside the class, or is a predecessor
  have hrows : ∀ {x y}, openTarget (rows.map (restoreRow opened now)) x = some y ↔
      ∃ r ∈ rows, r.supersededId = x ∧ r.survivorId = y ∧
        ¬(r.id = opened.id ∨ r.viaId = some opened.id) ∧
        (r.validTo = none ∨ r.validTo = some opened.validFrom) := by
    intro x y
    rw [open_target_iff h']
    constructor
    · rintro ⟨r', hr', hri, hrs, hro⟩
      obtain ⟨r, hr, rfl⟩ := List.mem_map.mp hr'
      exact ⟨r, hr, by simpa using hri, by simpa using hrs, restore_row_open hro⟩
    · rintro ⟨r, hr, rfl, rfl, hclass, hto⟩
      refine ⟨_, List.mem_map_of_mem hr, by simp, by simp, ?_⟩
      rw [restore_row_to, if_neg hclass]
      rcases hto with hto | hto <;> simp [hto]
  refine Option.ext fun target => ?_
  rw [hrows]
  by_cases hself : item = opened.supersededId
  · rw [if_pos hself]
    constructor
    · rintro ⟨r, hr, rfl, -, hclass, hto | hto⟩
      · exact absurd (h.key r hr opened hmem hself (hto.trans hopen.symm) ▸ Or.inl rfl) hclass
      · exact absurd ((hsucc hr hto).1.trans hself.symm).symm (h.irrefl r hr)
    · rintro ⟨⟩
  · rw [if_neg hself]
    by_cases hin : InClass rows opened item
    · rw [if_pos hin, Option.some.injEq]
      constructor
      · rintro ⟨r, hr, rfl, rfl, hclass, hto | hto⟩
        · rcases class_of_row h hmem hopen hr hto hin with rfl | hrv
          · exact absurd (Or.inl rfl) hclass
          · exact absurd (Or.inr hrv) hclass
        · exact (hsucc hr hto).1.symm
      · rintro rfl
        rcases hin with rfl | ⟨q, hq, hqv, rfl⟩
        · exact absurd rfl hself
        · obtain ⟨p, hp, hpi, hps, hpt⟩ := h.predecessor q hq opened hmem hqv
            (Or.inl (open_of_via h hmem hopen hq hqv))
          obtain ⟨v, hv, hvid, -, -, hvf, -⟩ := h.via q hq _ hqv
          obtain rfl := h.eq_of_id hv hmem hvid
          rw [← hvf] at hpt
          refine ⟨p, hp, hpi, hps, fun hclass => ?_, Or.inr hpt⟩
          rw [class_open h hmem hopen hp hclass] at hpt
          cases hpt
    · rw [if_neg hin, open_target_iff h]
      constructor
      · rintro ⟨r, hr, rfl, rfl, hclass, hto | hto⟩
        · exact ⟨r, hr, rfl, rfl, hto⟩
        · exact absurd (hsucc hr hto).2 hin
      · rintro ⟨r, hr, rfl, rfl, hto⟩
        refine ⟨r, hr, rfl, rfl, ?_, Or.inl hto⟩
        rintro (hid | hrv)
        · obtain rfl := h.eq_of_id hr hmem hid
          exact hself rfl
        · exact hin (Or.inr ⟨r, hr, hrv, rfl⟩)

/-- After a revert the class of the merge resolves to its superseded item again. -/
theorem resolve_restore {nextId' : Nat} {used' : Set Instant} (h : Chained rows nextId used)
    (h' : Chained (rows.map (restoreRow opened now)) nextId' used') (hmem : opened ∈ rows)
    (hopen : opened.validTo = none) (hvia : opened.viaId = none) (item : Nat) :
    resolveItem (rows.map (restoreRow opened now)) item =
      if InClass rows opened item then opened.supersededId else resolveItem rows item := by
  have hsource : ∀ x, (forwarding h).target x ≠ some opened.supersededId := fun x =>
    class_not_target h hmem hopen (Or.inl rfl)
  have hroots : ∀ x, decide (InClass rows opened x) = true → ∀ y,
      (forwarding h).target y ≠ some x := fun x hx y =>
    class_not_target h hmem hopen (of_decide_eq_true hx)
  have hforward : forwarding h' = (forwarding h).detach opened.supersededId
      (fun x => decide (InClass rows opened x)) hsource hroots := by
    refine Forwarding.ext (funext fun x => ?_)
    have hto := open_target_restore h h' hmem hopen hvia x
    simpa [forwarding, Forwarding.detach] using hto
  rw [resolve_item_eq h', hforward]
  refine ((forwarding h).resolve_detach hsource hroots item).trans ?_
  refine if_congr ?_ rfl rfl
  simp only [decide_eq_true_eq]
  exact ⟨fun hor => hor.elim (fun heq => Or.inl heq) id, Or.inr⟩

end Revert

end CatalogApi.CatalogMerge
