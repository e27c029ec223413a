import CatalogApi.Strata.Names

/-!
# What a cursor resolves to

A cursor that parses names a non-empty member set of the ladder (`parse_focus_sound`) and is
reported in the canonical form of that set (`parse_focus_canonical`). A focus that resolves is one
of the pages of such a set, at the page size of the set (`resolve_focus_ok`).
-/

namespace CatalogApi.Strata

open Slices Text

namespace Ladder

variable {ladder : Ladder} {budget : Budget}

/-- The members of a lane cursor: the whole lane, or its items of one decade. -/
def laneMembers (ladder : Ladder) (credit : Credit) : Option String → List Item
  | none => ladder.masterless credit
  | some label => (ladder.masterless credit).filter fun item => decade item.year = label

/-- The members of a bucket cursor. -/
def bucketMembers (ladder : Ladder) (credit : Credit) (label : String) : List String :=
  (ladder.mastersByCredit credit).filter fun masterId =>
    label = all ∨ (ladder.bucket .decade masterId).2 = label

end Ladder

/-- A target of the ladder: its members are those the ladder has, and there are some. -/
def Target.Sound (ladder : Ladder) : Target → Prop
  | .others members => members = ladder.creditOrder.drop 1 ∧ members ≠ []
  | .bucket credit label members => members = ladder.bucketMembers credit label ∧ members ≠ []
  | .pressings credit masterId members =>
      masterId ∈ ladder.masterIds ∧ credit = ladder.masterCredit masterId ∧
        members = ladder.itemsByMaster masterId
  | .lane credit label members => members = ladder.laneMembers credit label ∧ members ≠ []

/-- The canonical cursor of a member set. -/
def Target.canonical : Target → String
  | .others _ => otherCredits
  | .bucket credit label _ => "ma:" ++ creditId credit ++ ":" ++ label
  | .pressings _ masterId _ => "ra:m:" ++ masterId
  | .lane credit none _ => "ra:nm:" ++ creditId credit
  | .lane credit (some label) _ => "ra:nm:" ++ creditId credit ++ ":" ++ label

/-- A focus of the ladder: a page of a sound target at the target's page size. -/
structure Focus.Sound (ladder : Ladder) (budget : Budget) (focus : Focus) : Prop where
  id : focus.id = focus.target.canonical
  target : focus.target.Sound ladder
  size : focus.pageSize = ladder.targetPageSize focus.target budget
  page : focus.page < focus.pages

namespace Ladder

variable {ladder : Ladder} {budget : Budget}

/-! ## Parsing -/

theorem others_cursor_sound {cursor : Cursor} (h : ladder.othersCursor = some cursor) :
    cursor.target.Sound ladder := by
  unfold othersCursor at h
  dsimp only at h
  by_cases hnil : ladder.creditOrder.drop 1 = []
  · rw [if_pos hnil] at h
    cases h
  · rw [if_neg hnil] at h
    obtain rfl := Option.some.inj h
    exact ⟨rfl, hnil⟩

theorem master_cursor_sound {masterId : String} {cursor : Cursor}
    (h : ladder.masterCursor masterId = some cursor) : cursor.target.Sound ladder := by
  unfold masterCursor at h
  by_cases hmem : masterId ∈ ladder.masterIds
  · rw [if_pos hmem] at h
    obtain rfl := Option.some.inj h
    exact ⟨hmem, rfl, rfl⟩
  · rw [if_neg hmem] at h
    cases h

theorem lane_cursor_sound {text : String} {cursor : Cursor}
    (h : ladder.laneCursor text = some cursor) : cursor.target.Sound ladder := by
  unfold laneCursor at h
  split at h
  · cases h
  · rename_i credit _
    by_cases hnil : ladder.masterless credit = []
    · rw [if_pos hnil] at h
      cases h
    · rw [if_neg hnil] at h
      obtain rfl := Option.some.inj h
      exact ⟨rfl, hnil⟩
  · rename_i credit label _
    dsimp only at h
    by_cases hnil : ladder.laneMembers credit (some label) = []
    · rw [laneMembers] at hnil
      rw [if_pos hnil] at h
      cases h
    · rw [laneMembers] at hnil
      rw [if_neg hnil] at h
      obtain rfl := Option.some.inj h
      exact ⟨rfl, hnil⟩

theorem bucket_cursor_sound {text : String} {cursor : Cursor}
    (h : ladder.bucketCursor text = some cursor) : cursor.target.Sound ladder := by
  unfold bucketCursor at h
  split at h
  · rename_i credit label _
    dsimp only at h
    by_cases hnil : ladder.bucketMembers credit label = []
    · rw [bucketMembers] at hnil
      rw [if_pos hnil] at h
      cases h
    · rw [bucketMembers] at hnil
      rw [if_neg hnil] at h
      obtain rfl := Option.some.inj h
      exact ⟨rfl, hnil⟩
  · cases h

theorem parse_focus_sound {focusId : String} {cursor : Cursor}
    (h : ladder.parseFocus focusId = some cursor) : cursor.target.Sound ladder := by
  unfold parseFocus at h
  by_cases hothers : focusId = otherCredits
  · rw [if_pos hothers] at h
    exact others_cursor_sound h
  · rw [if_neg hothers] at h
    split at h
    · exact master_cursor_sound h
    · split at h
      · exact master_cursor_sound h
      · split at h
        · exact lane_cursor_sound h
        · split at h
          · exact lane_cursor_sound h
          · split at h
            · exact bucket_cursor_sound h
            · cases h

theorem lane_cursor_canonical {text : String} {cursor : Cursor}
    (h : ladder.laneCursor text = some cursor) : cursor.canonical = cursor.target.canonical := by
  unfold laneCursor at h
  split at h
  · cases h
  · split at h
    · cases h
    · obtain rfl := Option.some.inj h
      rfl
  · rename_i credit label _
    dsimp only at h
    split at h
    · cases h
    · rename_i hmembers
      obtain rfl := Option.some.inj h
      have hlabel : label ≠ "" := by
        rintro rfl
        obtain ⟨item, hitem⟩ := List.exists_mem_of_ne_nil _ hmembers
        exact decade_ne_empty item.year (of_decide_eq_true (List.mem_filter.mp hitem).2)
      simp only [if_neg hlabel, Target.canonical, String.append_assoc]

/-- A cursor is reported in the canonical form of the set it names. -/
theorem parse_focus_canonical {focusId : String} {cursor : Cursor}
    (h : ladder.parseFocus focusId = some cursor) :
    cursor.canonical = cursor.target.canonical := by
  have hmaster : ∀ masterId, ladder.masterCursor masterId = some cursor →
      cursor.canonical = cursor.target.canonical := by
    intro masterId h
    unfold masterCursor at h
    split at h
    · obtain rfl := Option.some.inj h
      rfl
    · cases h
  unfold parseFocus at h
  split at h
  · unfold othersCursor at h
    dsimp only at h
    split at h
    · cases h
    · obtain rfl := Option.some.inj h
      rfl
  · split at h
    · exact hmaster _ h
    · split at h
      · exact hmaster _ h
      · split at h
        · exact lane_cursor_canonical h
        · split at h
          · exact lane_cursor_canonical h
          · split at h
            · unfold bucketCursor at h
              split at h
              · dsimp only at h
                split at h
                · cases h
                · obtain rfl := Option.some.inj h
                  rfl
              · cases h
            · cases h

/-! ## The page size -/

/-- A page size above zero for a set with members. -/
theorem page_size_for_pos {members : Nat} (hmembers : 0 < members) (a b : Int) :
    0 < pageSizeFor members a b := by
  unfold pageSizeFor
  split
  · exact hmembers
  · have hmax : 1 ≤ max 1 (min (pageSize : Int) b) := le_max_left _ _
    omega

theorem target_size_pos (hladder : ladder.WellFormed) {target : Target}
    (h : target.Sound ladder) : 0 < target.size := by
  cases target with
  | others members => exact List.length_pos_of_ne_nil h.2
  | bucket credit label members => exact List.length_pos_of_ne_nil h.2
  | pressings credit masterId members =>
      obtain ⟨hmem, -, rfl⟩ := h
      exact List.length_pos_of_ne_nil (hladder.mem_masterIds.mp hmem)
  | lane credit label members => exact List.length_pos_of_ne_nil h.2

theorem target_page_size_pos {target : Target} (h : 0 < target.size) :
    0 < ladder.targetPageSize target budget := by
  cases target with
  | others members => exact page_size_for_pos h _ _
  | bucket credit label members => exact page_size_for_pos h _ _
  | pressings credit masterId members => exact page_size_for_pos h _ _
  | lane credit label members => exact page_size_for_pos h _ _

/-! ## Resolving -/

/-- A resolved focus is a page of what its text, or the cursor of its pressing, parses to. -/
theorem resolve_focus_form {focusId : String} {page : Nat} {focus : Focus}
    (h : ladder.resolveFocus focusId page budget = .ok focus) :
    ∃ cursor, ladder.parseFocus ((ladder.pressing focusId).elim focusId pressingCursor) =
        some cursor ∧ focus.id = cursor.canonical ∧ focus.target = cursor.target ∧
      focus.pageSize = ladder.targetPageSize cursor.target budget ∧
      ∃ start, pageOf (ladder.pressing focusId) cursor.target page focus.pageSize = .ok start ∧
        focus.page = start % focus.pages := by
  unfold resolveFocus at h
  dsimp only at h
  split at h
  · cases h
  · rename_i cursor hcursor
    cases hstart : pageOf (ladder.pressing focusId) cursor.target page
        (ladder.targetPageSize cursor.target budget) with
    | error error => simp [hstart, bind, Except.bind] at h
    | ok start =>
        simp only [hstart, bind, Except.bind, pure, Except.pure, Except.ok.injEq] at h
        subst h
        exact ⟨cursor, hcursor, rfl, rfl, rfl, start, hstart, rfl⟩

theorem resolve_focus_ok (hladder : ladder.WellFormed) {focusId : String} {page : Nat}
    {focus : Focus} (h : ladder.resolveFocus focusId page budget = .ok focus) :
    focus.Sound ladder budget := by
  obtain ⟨cursor, hcursor, hid, htarget, hsize, start, -, hpage⟩ := resolve_focus_form h
  have hsound := parse_focus_sound hcursor
  have hmembers := target_size_pos hladder hsound
  refine ⟨?_, htarget ▸ hsound, htarget ▸ hsize, ?_⟩
  · rw [hid, parse_focus_canonical hcursor, htarget]
  rw [hpage]
  refine Nat.mod_lt _ ?_
  rw [Focus.pages, htarget, hsize]
  exact page_count_pos hmembers (target_page_size_pos hmembers)

end Ladder

end CatalogApi.Strata
