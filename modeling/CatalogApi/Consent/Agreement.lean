import CatalogApi.Consent.Grants
import CatalogApi.Lib.Table

/-!
# What consent readers agree on

`get_consent` goes by the newest row of a purpose, the recorder by any active one. They agree in every
table whose closed rows are older than its active ones (`granted_iff_active`), and requests keep the
table so when no grant commits a row behind one that a revoke has closed or is about to close.
-/

namespace CatalogApi.Consent

open Runs

/-! ## The two readers -/

section Readers

variable {vocabulary : List Purpose} {rows : List Grant} {user : UserId} {purpose : Purpose}

theorem is_of_iff {grant : Grant} :
    grant.isOf user purpose = true ↔ grant.user = user ∧ grant.purpose = purpose := by
  simp [Grant.isOf]

/-- Ids tell the orders of rows apart. -/
theorem order_ne {first second : Grant} (h : first.id ≠ second.id) : first.order ≠ second.order :=
  fun heq => h (congrArg Prod.snd (toLex.injective heq))

section

variable (hids : (rows.map (·.id)).Nodup)
include hids

/-- The rows of a table with distinct ids are known by their ids. -/
theorem eq_of_id {first second : Grant} (hfirst : first ∈ rows)
    (hsecond : second ∈ rows) (h : first.id = second.id) : first = second :=
  List.inj_on_of_nodup_map hids hfirst hsecond h

/-- `_SELECT_CONSENT` reads its rows by purpose, the newest first. -/
theorem consent_order_sorted :
    (ByKey.sortBy (·.consentOrder) rows).Pairwise fun first second =>
      first.purpose ≤ second.purpose ∧
        (first.purpose = second.purpose →
          OrderDual.toDual first.order < OrderDual.toDual second.order) := by
  have hdistinct : (ByKey.sortBy (·.consentOrder) rows).Pairwise fun first second : Grant =>
      first.id ≠ second.id := by
    have hperm := (ByKey.sort_by_perm (fun grant : Grant => grant.consentOrder) rows).map (·.id)
    exact List.pairwise_map.mp (hperm.nodup_iff.mpr hids)
  refine (ByKey.sort_by_sorted (·.consentOrder) rows).imp₂ ?_ hdistinct
  intro first second hle hne
  rcases Prod.Lex.toLex_le_toLex.mp hle with hlt | ⟨heq, hle⟩
  · exact ⟨hlt.le, fun heq => absurd heq hlt.ne⟩
  · exact ⟨heq.le, fun _ => lt_of_le_of_ne hle fun horder =>
      order_ne hne (OrderDual.toDual.injective horder)⟩

/-- `_SELECT_CONSENT` gives the newest row of each purpose. -/
theorem mem_select_consent {grant : Grant} :
    grant ∈ selectConsent rows user ↔
      (grant ∈ rows ∧ grant.user = user) ∧
        ∀ other ∈ rows, other.isOf user grant.purpose → other.order ≤ grant.order := by
  have hpart : ((rows.filter (·.user = user)).map (·.id)).Nodup :=
    hids.sublist (List.filter_sublist.map _)
  have hsorted := consent_order_sorted hpart
  have hmem : ∀ other : Grant, other ∈ ByKey.sortBy (·.consentOrder) (rows.filter (·.user = user)) ↔
      other ∈ rows ∧ other.user = user := by
    intro other
    rw [ByKey.mem_sort_by, List.mem_filter, decide_eq_true_iff]
  rw [selectConsent, ByKey.mem_heads (hsorted.imp And.left) (hsorted.imp And.right), hmem]
  refine and_congr_right fun _ => forall_congr' fun other => ?_
  rw [hmem, is_of_iff, and_imp, and_imp, OrderDual.toDual_le_toDual]

/-- A purpose has at most one row in what `_SELECT_CONSENT` gives. -/
theorem select_consent_unique :
    Table.UniqueKey (·.purpose) (selectConsent rows user) := by
  have hpart : ((rows.filter (·.user = user)).map (·.id)).Nodup :=
    hids.sublist (List.filter_sublist.map _)
  have hsorted := ByKey.heads_sorted ((consent_order_sorted hpart).imp And.left)
  have hnodup : ((selectConsent rows user).map (·.purpose)).Nodup :=
    List.pairwise_map.mpr (hsorted.imp ne_of_lt)
  exact fun first hfirst second hsecond => List.inj_on_of_nodup_map hnodup hfirst hsecond

/-- `get_consent` reports a purpose as granted if its newest row is active. -/
theorem granted_iff :
    (∃ entry ∈ getConsent vocabulary rows user, entry.purpose = purpose ∧ entry.granted) ↔
      purpose ∈ vocabulary ∧ ∃ grant ∈ rows, grant.isOf user purpose ∧ grant.active ∧
        ∀ other ∈ rows, other.isOf user purpose → other.order ≤ grant.order := by
  have hfind : ∀ grant : Grant,
      (selectConsent rows user).find? (·.purpose = purpose) = some grant ↔
        grant ∈ selectConsent rows user ∧ grant.purpose = purpose := fun grant =>
    Table.lookup_eq_some (select_consent_unique hids)
  have hentry : (∃ entry ∈ getConsent vocabulary rows user, entry.purpose = purpose ∧ entry.granted) ↔
      purpose ∈ vocabulary ∧
        ((selectConsent rows user).find? (·.purpose = purpose)).any (·.active) := by
    simp only [getConsent, consentState, List.mem_map]
    constructor
    · rintro ⟨entry, ⟨purpose, hpurpose, rfl⟩, rfl, hgranted⟩
      exact ⟨hpurpose, hgranted⟩
    · rintro ⟨hpurpose, hgranted⟩
      exact ⟨_, ⟨purpose, hpurpose, rfl⟩, rfl, hgranted⟩
  rw [hentry, Option.any_eq_true]
  refine and_congr_right fun _ => exists_congr fun grant => ?_
  rw [hfind, mem_select_consent hids, is_of_iff]
  constructor
  · rintro ⟨⟨⟨⟨hgrant, huser⟩, hnewest⟩, rfl⟩, hactive⟩
    exact ⟨hgrant, ⟨huser, rfl⟩, hactive, hnewest⟩
  · rintro ⟨hgrant, ⟨huser, rfl⟩, hactive, hnewest⟩
    exact ⟨⟨⟨⟨hgrant, huser⟩, hnewest⟩, rfl⟩, hactive⟩

end

/-- The recorder reads a purpose that has an active row. -/
theorem mem_active_purposes :
    purpose ∈ activePurposes vocabulary rows user ↔
      purpose ∈ vocabulary ∧ ∃ grant ∈ rows, grant.isOf user purpose ∧ grant.active := by
  rw [activePurposes, List.mem_filter, decide_eq_true_iff, selectActivePurposes, List.mem_eraseDups,
    List.mem_map]
  refine and_congr_right fun _ => exists_congr fun grant => ?_
  rw [List.mem_filter, decide_eq_true_iff, is_of_iff]
  constructor
  · rintro ⟨⟨hgrant, huser, hactive⟩, hpurpose⟩
    exact ⟨hgrant, ⟨huser, hpurpose⟩, hactive⟩
  · rintro ⟨hgrant, ⟨huser, hpurpose⟩, hactive⟩
    exact ⟨⟨hgrant, huser, hactive⟩, hpurpose⟩

/-- Every closed row of a purpose is older than every active one. -/
def ClosedAreOlder (rows : List Grant) : Prop :=
  ∀ open' ∈ rows, open'.active → ∀ closed ∈ rows, closed.isOf open'.user open'.purpose →
    ¬closed.active → closed.order < open'.order

/-- The two readers agree on a table whose closed rows are older than its active ones. -/
theorem granted_iff_active (hids : (rows.map (·.id)).Nodup) (hordered : ClosedAreOlder rows) :
    (∃ entry ∈ getConsent vocabulary rows user, entry.purpose = purpose ∧ entry.granted) ↔
      purpose ∈ activePurposes vocabulary rows user := by
  rw [granted_iff hids, mem_active_purposes]
  refine and_congr_right fun _ => ⟨?_, ?_⟩
  · rintro ⟨grant, hgrant, hof, hactive, -⟩
    exact ⟨grant, hgrant, hof, hactive⟩
  · rintro ⟨grant, hgrant, hof, hactive⟩
    cases hnewest : ByKey.firstBy (fun row => OrderDual.toDual row.order)
        (rows.filter fun row => row.isOf user purpose) with
    | none =>
        have hempty := ByKey.first_by_eq_none.mp hnewest
        exact absurd (List.mem_filter.mpr ⟨hgrant, hof⟩) (hempty ▸ List.not_mem_nil)
    | some newest =>
        obtain ⟨hmem, hnewestOf⟩ := List.mem_filter.mp (ByKey.first_by_mem hnewest)
        have hgreatest : ∀ other ∈ rows, other.isOf user purpose → other.order ≤ newest.order := by
          intro other hother hotherOf
          have hle := ByKey.first_by_le hnewest (List.mem_filter.mpr ⟨hother, hotherOf⟩)
          exact OrderDual.toDual_le_toDual.mp hle
        refine ⟨newest, hmem, hnewestOf, ?_, hgreatest⟩
        by_contra hclosed
        obtain ⟨rfl, rfl⟩ := is_of_iff.mp hof
        exact absurd (hordered grant hgrant hactive newest hmem hnewestOf hclosed)
          (not_lt.mpr (hgreatest grant hgrant hof))

end Readers

/-! ## What requests keep -/

section Requests

/-- A revoke in progress knows rows of its purpose by their ids, it has yet to come to each row it
knows, or updated it, or found it closed, and what it does not know is newer. -/
structure Snapshot (rows : List Grant) (request : Request) (seen left closed : List GrantId) : Prop where
  known : ∀ id ∈ seen, ∃ row ∈ rows, row.id = id ∧ row.isOf request.user request.purpose
  coming : ∀ id ∈ left, id ∈ seen
  updated : ∀ id ∈ closed, id ∈ seen
  handled : ∀ row ∈ rows, row.id ∈ seen → row.active → row.id ∈ left ∨ row.id ∈ closed
  newer : ∀ row ∈ rows, row.isOf request.user request.purpose → row.active → row.id ∉ seen →
    ∀ old ∈ rows, old.id ∈ seen → old.order < row.order

/-- What a request in progress relies on. -/
def Kept (rows : List Grant) (call : Call) : Prop :=
  match call.phase with
  | .inserted (some row) => row.active ∧ ∀ other ∈ rows, other.id ≠ row.id
  | .closing seen left closed => Snapshot rows call.request seen left closed
  | _ => True

/-- The invariant. -/
structure Sound (state : State) : Prop where
  ids : (state.rows.map (·.id)).Nodup
  ordered : ClosedAreOlder state.rows
  kept : ∀ (index : Nat) call, state.calls[index]? = some call → Kept state.rows call
  distinct : ∀ (index other : Nat) first second id, state.calls[index]? = some first →
    state.calls[other]? = some second → first.phase.inserts id → second.phase.inserts id →
    index = other

variable {state : State} {index : Nat} {call : Call}

theorem get_set_phase {phase : Phase} {other : Nat} {found : Call}
    (h : (state.setPhase index call phase).calls[other]? = some found) :
    other = index ∧ found = { call with phase } ∨
      other ≠ index ∧ state.calls[other]? = some found := by
  rw [State.setPhase, List.getElem?_set] at h
  split at h
  · rename_i heq
    split at h
    · exact Or.inl ⟨heq.symm, (Option.some.inj h).symm⟩
    · cases h
  · rename_i hne
    exact Or.inr ⟨Ne.symm hne, h⟩

theorem not_inserts_of_unused {id : GrantId} (h : state.unused id) {other : Nat} {found : Call}
    (hfound : state.calls[other]? = some found) : ¬found.phase.inserts id := by
  have hcalls := (decide_eq_true_iff.mp h).2
  simpa using List.all_eq_true.mp hcalls found (List.mem_of_getElem? hfound)

/-- A request goes on, and no row changes. -/
theorem Sound.set_phase (h : Sound state) {phase : Phase}
    (hkept : Kept state.rows { call with phase })
    (hunused : ∀ id, phase.inserts id → state.unused id) :
    Sound (state.setPhase index call phase) := by
  constructor
  case ids => exact h.ids
  case ordered => exact h.ordered
  case kept =>
      intro other found hfound
      rcases get_set_phase hfound with ⟨-, rfl⟩ | ⟨-, hfound⟩
      · exact hkept
      · exact h.kept other found hfound
  case distinct =>
      intro first second found found' id hfound hfound' hinserts hinserts'
      rcases get_set_phase hfound with ⟨rfl, rfl⟩ | ⟨-, hold⟩ <;>
        rcases get_set_phase hfound' with ⟨rfl, rfl⟩ | ⟨-, hold'⟩
      · rfl
      · exact absurd hinserts' (not_inserts_of_unused (hunused id hinserts) hold')
      · exact absurd hinserts (not_inserts_of_unused (hunused id hinserts') hold)
      · exact h.distinct first second found found' id hold hold' hinserts hinserts'

/-- A request that is done relies on nothing. -/
theorem Sound.done (h : Sound state) {phase : Phase} (hphase : phase.inProgress = false) :
    Sound (state.setPhase index call phase) := by
  cases phase with
  | rejected | answered | failed => exact h.set_phase trivial nofun
  | began | inserting | inserted | closing => cases hphase

/-- The rows that are active when a revoke takes its snapshot. -/
theorem mem_active_ids {user : UserId} {purpose : Purpose} {id : GrantId} :
    id ∈ state.activeIds user purpose ↔
      ∃ row ∈ state.rows, row.id = id ∧ row.isOf user purpose ∧ row.active := by
  simp only [State.activeIds, List.mem_map, List.mem_filter, decide_eq_true_iff]
  exact exists_congr fun row => ⟨fun ⟨⟨hrow, hof⟩, hid⟩ => ⟨hrow, hid, hof⟩,
    fun ⟨hrow, hid, hof⟩ => ⟨⟨hrow, hof⟩, hid⟩⟩

/-- A request takes its snapshot. -/
theorem Sound.snapshot (h : Sound state) :
    Sound (state.setPhase index call (afterSnapshot state call.request)) := by
  unfold afterSnapshot
  dsimp only
  split
  · split
    · exact h.set_phase trivial nofun
    · exact h.set_phase trivial nofun
  · refine h.set_phase ?_ nofun
    constructor
    case known =>
        intro id hid
        obtain ⟨row, hrow, hrowId, hof, -⟩ := mem_active_ids.mp hid
        exact ⟨row, hrow, hrowId, hof⟩
    case coming => exact fun _ hid => hid
    case updated => exact fun _ hid => absurd hid List.not_mem_nil
    case handled => exact fun _ _ hseen _ => Or.inl hseen
    case newer =>
        intro row hrow hof hactive hunseen
        exact absurd (mem_active_ids.mpr ⟨row, hrow, rfl, hof, hactive⟩) hunseen

/-- A grant writes its row. -/
theorem Sound.insert (h : Sound state) {id : GrantId} (hunused : state.unused id) :
    Sound (state.setPhase index call (.inserted (some (call.grant id)))) := by
  refine h.set_phase ⟨rfl, fun other hother => ?_⟩ fun id' hid => ?_
  · have hrows := (decide_eq_true_iff.mp hunused).1
    simpa [Call.grant] using List.all_eq_true.mp hrows other hother
  · obtain rfl : id = id' := of_decide_eq_true hid
    exact hunused

/-- A revoke comes to its next row. -/
theorem Snapshot.update {rows : List Grant} {request : Request} {id : GrantId}
    {seen left closed : List GrantId} (h : Snapshot rows request seen (id :: left) closed) :
    Snapshot rows request seen left (id :: closed) where
  known := h.known
  coming := (List.forall_mem_cons.mp h.coming).2
  updated := List.forall_mem_cons.mpr ⟨(List.forall_mem_cons.mp h.coming).1, h.updated⟩
  handled row hrow hseen hactive := by
    rcases h.handled row hrow hseen hactive with hleft | hclosed
    · rcases List.mem_cons.mp hleft with heq | hleft
      · exact Or.inr (heq ▸ List.mem_cons_self)
      · exact Or.inl hleft
    · exact Or.inr (List.mem_cons_of_mem _ hclosed)
  newer := h.newer

/-- A revoke leaves out a row that is closed. -/
theorem Snapshot.skip {rows : List Grant} {request : Request} {id : GrantId}
    {seen left closed : List GrantId} (h : Snapshot rows request seen (id :: left) closed)
    (hclosed : ∀ row ∈ rows, row.id = id → ¬row.active) :
    Snapshot rows request seen left closed where
  known := h.known
  coming := (List.forall_mem_cons.mp h.coming).2
  updated := h.updated
  handled row hrow hseen hactive := by
    rcases h.handled row hrow hseen hactive with hleft | hclosed'
    · rcases List.mem_cons.mp hleft with heq | hleft
      · exact absurd hactive (hclosed row hrow heq)
      · exact Or.inl hleft
    · exact Or.inr hclosed'
  newer := h.newer

/-- A revoke goes on to its next row. -/
theorem Sound.update (h : Sound state) {id : GrantId} {seen left closed : List GrantId}
    (hsnapshot : Snapshot state.rows call.request seen (id :: left) closed) :
    Sound (state.setPhase index call (afterUpdate state id seen left closed)) := by
  unfold afterUpdate
  split
  · exact h.set_phase hsnapshot.update nofun
  · rename_i hnone
    refine h.set_phase (hsnapshot.skip fun row hrow hid hactive => hnone ?_) nofun
    exact List.any_eq_true.mpr ⟨row, hrow, decide_eq_true ⟨hid, hactive⟩⟩

/-- What another request relies on when a grant commits its row. -/
theorem Kept.append {rows : List Grant} (h : Kept rows call) (hids : (rows.map (·.id)).Nodup)
    {row : Grant} (hfresh : ∀ other ∈ rows, other.id ≠ row.id) (hinserts : ¬call.phase.inserts row.id)
    (hnewer : ∀ old ∈ rows, old.isOf row.user row.purpose → call.phase.sees old.id →
      old.order < row.order) : Kept (rows ++ [row]) call := by
  obtain ⟨request, startedAt, phase⟩ := call
  cases phase with
  | began | inserting | rejected | answered | failed => trivial
  | inserted written =>
      cases written with
      | none => trivial
      | some written =>
          refine ⟨h.1, List.forall_mem_append.mpr ⟨h.2, List.forall_mem_singleton.mpr fun heq => ?_⟩⟩
          exact hinserts (decide_eq_true heq.symm)
  | closing seen left closed =>
      have hsnapshot : Snapshot rows request seen left closed := h
      have hunseen : row.id ∉ seen := by
        intro hseen
        obtain ⟨other, hother, hid, -⟩ := hsnapshot.known row.id hseen
        exact hfresh other hother hid
      constructor
      case known =>
          intro id hid
          obtain ⟨other, hother, hknown⟩ := hsnapshot.known id hid
          exact ⟨other, List.mem_append_left _ hother, hknown⟩
      case coming => exact hsnapshot.coming
      case updated => exact hsnapshot.updated
      case handled =>
          refine List.forall_mem_append.mpr ⟨hsnapshot.handled, ?_⟩
          exact List.forall_mem_singleton.mpr fun hseen => absurd hseen hunseen
      case newer =>
          intro newer hnewerMem hof hactive hnewerUnseen old hold hseen
          rcases List.mem_append.mp hold with holdMem | holdMem
          · rcases List.mem_append.mp hnewerMem with hmem | hmem
            · exact hsnapshot.newer newer hmem hof hactive hnewerUnseen old holdMem hseen
            · obtain rfl := List.mem_singleton.mp hmem
              refine hnewer old holdMem ?_ (decide_eq_true hseen)
              obtain ⟨other, hother, hid, hknown⟩ := hsnapshot.known old.id hseen
              rw [eq_of_id hids hother holdMem hid] at hknown
              obtain ⟨huser, hpurpose⟩ := is_of_iff.mp hof
              exact is_of_iff.mpr ⟨(is_of_iff.mp hknown).1.trans huser.symm,
                (is_of_iff.mp hknown).2.trans hpurpose.symm⟩
          · exact absurd (List.mem_singleton.mp holdMem ▸ hseen) hunseen

/-- What another request relies on when a revoke commits. -/
theorem Kept.revoke {rows : List Grant} (h : Kept rows call) (ids : List GrantId) (now : Timestamp) :
    Kept (rows.map (·.revoked ids now)) call := by
  obtain ⟨request, startedAt, phase⟩ := call
  cases phase with
  | began | inserting | rejected | answered | failed => trivial
  | inserted written =>
      cases written with
      | none => trivial
      | some written =>
          refine ⟨h.1, List.forall_mem_map.mpr fun other hother => ?_⟩
          rw [Grant.revoked_id]
          exact h.2 other hother
  | closing seen left closed =>
      have hsnapshot : Snapshot rows request seen left closed := h
      constructor
      case known =>
          intro id hid
          obtain ⟨row, hrow, hknown⟩ := hsnapshot.known id hid
          exact ⟨row.revoked ids now, List.mem_map_of_mem hrow, by simpa using hknown⟩
      case coming => exact hsnapshot.coming
      case updated => exact hsnapshot.updated
      case handled =>
          refine List.forall_mem_map.mpr fun row hrow hseen hactive => ?_
          rw [Grant.revoked_id] at hseen ⊢
          exact hsnapshot.handled row hrow hseen ((Grant.revoked_active _ _ _).mp hactive).1
      case newer =>
          refine List.forall_mem_map.mpr fun row hrow hof hactive hunseen => ?_
          refine List.forall_mem_map.mpr fun old hold hseen => ?_
          simp only [Grant.revoked_id, Grant.revoked_is_of, Grant.revoked_order,
            Grant.revoked_active] at hof hactive hunseen hseen ⊢
          exact hsnapshot.newer row hrow hof hactive.1 hunseen old hold hseen

/-- No row that a revoke has closed, or has in its snapshot, is newer than the row that a grant
commits. -/
def commitsInOrder (state : State) : Move → Bool
  | .act index .commit =>
      match state.calls[index]? with
      | some { phase := .inserted (some row), .. } =>
          state.rows.all fun newer =>
            (newer.isOf row.user row.purpose ∧ row.order < newer.order) →
              (newer.active ∧ ∀ call ∈ state.calls, ¬call.phase.sees newer.id)
      | _ => true
  | _ => true

/-- A grant commits its row in order. -/
theorem Sound.commit_row (h : Sound state) (hcall : state.calls[index]? = some call) {row : Grant}
    (hphase : call.phase = .inserted (some row))
    (horder : ∀ newer ∈ state.rows, newer.isOf row.user row.purpose → row.order < newer.order →
      newer.active ∧ ∀ other ∈ state.calls, ¬other.phase.sees newer.id) :
    Sound { state.setPhase index call (.answered true) with rows := state.rows ++ [row] } := by
  have hrow := h.kept index call hcall
  rw [Kept, hphase] at hrow
  obtain ⟨hactive, hfresh⟩ := hrow
  have hdone : Sound (state.setPhase index call (.answered true)) := h.done rfl
  have holder : ∀ old ∈ state.rows, old.isOf row.user row.purpose →
      (old.active → ∃ other ∈ state.calls, other.phase.sees old.id) → old.order < row.order := by
    intro old hold hof hclosing
    refine lt_of_le_of_ne (not_lt.mp fun hlt => ?_) (order_ne (hfresh old hold))
    obtain ⟨holdActive, hunseen⟩ := horder old hold hof hlt
    obtain ⟨other, hother, hseen⟩ := hclosing holdActive
    exact hunseen other hother hseen
  constructor
  case ids =>
      rw [List.map_append, List.map_singleton, List.nodup_append]
      refine ⟨h.ids, List.nodup_singleton _, List.forall_mem_map.mpr fun old hold => ?_⟩
      exact List.forall_mem_singleton.mpr (hfresh old hold)
  case ordered =>
      intro open' hopen hopenActive closed hclosed hof hinactive
      rcases List.mem_append.mp hclosed with hclosedMem | hclosedMem
      · rcases List.mem_append.mp hopen with hopenMem | hopenMem
        · exact h.ordered open' hopenMem hopenActive closed hclosedMem hof hinactive
        · obtain rfl := List.mem_singleton.mp hopenMem
          exact holder closed hclosedMem hof fun hclosedActive => absurd hclosedActive hinactive
      · exact absurd (List.mem_singleton.mp hclosedMem ▸ hactive) hinactive
  case kept =>
      intro other found hfound
      refine (hdone.kept other found hfound).append h.ids hfresh ?_ ?_
      · rcases get_set_phase hfound with ⟨-, rfl⟩ | ⟨hne, hold⟩
        · exact Bool.false_ne_true
        · intro hinserts
          refine hne (h.distinct other index found call row.id hold hcall hinserts ?_)
          rw [hphase]
          exact decide_eq_true rfl
      · intro old hold hof hseen
        rcases get_set_phase hfound with ⟨-, rfl⟩ | ⟨-, hfound'⟩
        · cases hseen
        · exact holder old hold hof fun _ => ⟨found, List.mem_of_getElem? hfound', hseen⟩
  case distinct => exact hdone.distinct

/-- A revoke commits. -/
theorem Sound.commit_revoke (h : Sound state) (hcall : state.calls[index]? = some call)
    {seen closed : List GrantId} (hphase : call.phase = .closing seen [] closed) (changed : Bool) :
    Sound { state.setPhase index call (.answered changed) with
      rows := state.rows.map (·.revoked closed call.startedAt) } := by
  have hsnapshot := h.kept index call hcall
  rw [Kept, hphase] at hsnapshot
  replace hsnapshot : Snapshot state.rows call.request seen [] closed := hsnapshot
  have hdone : Sound (state.setPhase index call (.answered changed)) := h.done rfl
  constructor
  case ids =>
      have hsame : (state.rows.map (·.revoked closed call.startedAt)).map (·.id) =
          state.rows.map (·.id) := by
        rw [List.map_map]
        exact List.map_congr_left fun row _ => Grant.revoked_id _ _ row
      exact hsame ▸ h.ids
  case ordered =>
      refine List.forall_mem_map.mpr fun row hrow hactive => ?_
      refine List.forall_mem_map.mpr fun old hold hof hinactive => ?_
      simp only [Grant.revoked_user, Grant.revoked_purpose, Grant.revoked_is_of,
        Grant.revoked_order, Grant.revoked_active] at hof hactive hinactive ⊢
      by_cases holdActive : old.active
      · have hseen : old.id ∈ seen := hsnapshot.updated old.id
          (not_not.mp fun hopen => hinactive ⟨holdActive, hopen⟩)
        have hunseen : row.id ∉ seen := fun hrowSeen =>
          (hsnapshot.handled row hrow hrowSeen hactive.1).elim List.not_mem_nil hactive.2
        obtain ⟨other, hother, hid, hknown⟩ := hsnapshot.known old.id hseen
        rw [eq_of_id h.ids hother hold hid, is_of_iff] at hknown
        refine hsnapshot.newer row hrow ?_ hactive.1 hunseen old hold hseen
        obtain ⟨huser, hpurpose⟩ := is_of_iff.mp hof
        exact is_of_iff.mpr ⟨huser.symm.trans hknown.1, hpurpose.symm.trans hknown.2⟩
      · exact h.ordered row hrow hactive.1 old hold hof holdActive
  case kept => exact fun other found hfound => (hdone.kept other found hfound).revoke _ _
  case distinct => exact hdone.distinct

/-- A call that begins, or is rejected at once, keeps the invariant. -/
theorem Sound.begin (h : Sound state) {request : Request} {now : Timestamp} {phase : Phase}
    (hphase : phase = .began ∨ phase = .rejected) :
    Sound { state with clock := now, calls := state.calls ++ [{ request, startedAt := now, phase }] } := by
  have hget : ∀ (other : Nat) (found : Call),
      (state.calls ++ [{ request, startedAt := now, phase }])[other]? = some found →
        state.calls[other]? = some found ∨ found.phase = .began ∨ found.phase = .rejected := by
    intro other found hfound
    rcases lt_or_ge other state.calls.length with hlt | hge
    · exact Or.inl (List.getElem?_append_left hlt ▸ hfound)
    · rw [List.getElem?_append_right hge] at hfound
      obtain rfl := List.mem_singleton.mp (List.mem_of_getElem? hfound)
      exact Or.inr hphase
  constructor
  case ids => exact h.ids
  case ordered => exact h.ordered
  case kept =>
      intro other found hfound
      rcases hget other found hfound with hold | hbegan | hrejected
      · exact h.kept other found hold
      · rw [Kept, hbegan]
        trivial
      · rw [Kept, hrejected]
        trivial
  case distinct =>
      intro first second found found' id hfound hfound' hinserts hinserts'
      rcases hget first found hfound with hold | hnew | hnew
      · rcases hget second found' hfound' with hold' | hnew' | hnew'
        · exact h.distinct first second found found' id hold hold' hinserts hinserts'
        · rw [hnew'] at hinserts'
          cases hinserts'
        · rw [hnew'] at hinserts'
          cases hinserts'
      · rw [hnew] at hinserts
        cases hinserts
      · rw [hnew] at hinserts
        cases hinserts

/-- What the condition says of a grant that commits its row. -/
theorem newer_active (hcall : state.calls[index]? = some call) {row : Grant}
    (hphase : call.phase = .inserted (some row))
    (horder : commitsInOrder state (.act index .commit)) :
    ∀ newer ∈ state.rows, newer.isOf row.user row.purpose → row.order < newer.order →
      newer.active ∧ ∀ other ∈ state.calls, ¬other.phase.sees newer.id := by
  obtain ⟨request, startedAt, phase⟩ := call
  obtain rfl : phase = .inserted (some row) := hphase
  intro newer hnewer hof hlt
  simp only [commitsInOrder, hcall] at horder
  exact of_decide_eq_true (List.all_eq_true.mp horder newer hnewer) ⟨hof, hlt⟩

/-- One action keeps the invariant. -/
theorem Sound.advance (h : Sound state) (hcall : state.calls[index]? = some call) {action : Action}
    {next : State} (horder : commitsInOrder state (.act index action))
    (hstep : Consent.advance state index call action = .ok next) : Sound next := by
  unfold Consent.advance at hstep
  split at hstep
  case h_1 =>
      obtain rfl := Except.ok.inj hstep
      exact h.snapshot
  case h_2 =>
      split at hstep
      · rename_i hunused
        obtain rfl := Except.ok.inj hstep
        exact h.insert hunused
      · cases hstep
  case h_3 hphase =>
      split at hstep
      · cases hstep
      · obtain rfl := Except.ok.inj hstep
        have hsnapshot := h.kept index call hcall
        rw [Kept, hphase] at hsnapshot
        exact h.update hsnapshot
  case h_4 =>
      unfold commit at hstep
      split at hstep
      case h_1 =>
          obtain rfl := Except.ok.inj hstep
          exact h.done rfl
      case h_2 hphase =>
          obtain rfl := Except.ok.inj hstep
          exact h.commit_row hcall hphase (newer_active hcall hphase horder)
      case h_3 hphase =>
          obtain rfl := Except.ok.inj hstep
          exact h.commit_revoke hcall hphase _
      case h_4 => cases hstep
  case h_5 =>
      split at hstep
      · obtain rfl := Except.ok.inj hstep
        exact h.done rfl
      · cases hstep
  case h_6 => cases hstep

/-- The invariant holds through a run whose grants commit in order. -/
theorem sound_along {vocabulary : List Purpose} {moves : List Move}
    (h : execute (step vocabulary) .empty moves = .ok state)
    (halong : Along (step vocabulary) (fun state move => commitsInOrder state move) .empty moves) :
    Sound state := by
  refine along_induction (motive := fun _ state => Sound state) ?_ ?_ h halong
  · exact ⟨List.nodup_nil, nofun, nofun, nofun⟩
  · intro trace move before after hsound hcondition hstep
    cases move with
    | begin request now =>
        rw [step] at hstep
        split at hstep
        · cases hstep
        · obtain rfl := Except.ok.inj hstep
          refine hsound.begin ?_
          split
          · exact Or.inl rfl
          · exact Or.inr rfl
    | act index action =>
        rw [step] at hstep
        split at hstep
        · rename_i call hcall
          exact hsound.advance hcall hcondition hstep
        · cases hstep

/-! ## A revoke alone -/

/-- What a revoke that no other request has interrupted has done. -/
def Alone (vocabulary : List Purpose) (rows : List Grant) (request : Request) : Phase → Prop
  | .began | .failed => True
  | .closing _ left closed =>
      ∀ row ∈ rows, row.isOf request.user request.purpose → row.active →
        row.id ∈ left ∨ row.id ∈ closed
  | .answered _ => ∀ row ∈ rows, row.isOf request.user request.purpose → ¬row.active
  | .rejected => request.purpose ∉ vocabulary
  | .inserting | .inserted _ => False

/-- One action of a revoke that is alone. -/
theorem alone_advance {vocabulary : List Purpose} (hcall : state.calls[index]? = some call)
    (hrevoke : call.request.granted = false) {action : Action} {next : State}
    (halone : Alone vocabulary state.rows call.request call.phase)
    (hstep : advance state index call action = .ok next) :
    ∃ phase, next.calls[index]? = some { call with phase } ∧
      Alone vocabulary next.rows call.request phase := by
  have hset : ∀ phase, (state.setPhase index call phase).calls[index]? = some { call with phase } :=
    fun phase => by
      rw [State.setPhase, List.getElem?_set_self (List.getElem?_eq_some_iff.mp hcall).1]
  unfold advance at hstep
  split at hstep
  case h_1 hphase =>
      obtain rfl := Except.ok.inj hstep
      refine ⟨_, hset _, ?_⟩
      rw [afterSnapshot, hrevoke]
      intro row hrow hof hactive
      exact Or.inl (mem_active_ids.mpr ⟨row, hrow, rfl, hof, hactive⟩)
  case h_2 hphase =>
      rw [hphase] at halone
      exact halone.elim
  case h_3 id seen left closed hphase =>
      split at hstep
      · cases hstep
      · obtain rfl := Except.ok.inj hstep
        refine ⟨_, hset _, ?_⟩
        rw [hphase] at halone
        unfold afterUpdate
        split
        · intro row hrow hof hactive
          rcases halone row hrow hof hactive with hleft | hclosed
          · rcases List.mem_cons.mp hleft with heq | hleft'
            · exact Or.inr (heq ▸ List.mem_cons_self)
            · exact Or.inl hleft'
          · exact Or.inr (List.mem_cons_of_mem _ hclosed)
        · rename_i hnone
          intro row hrow hof hactive
          rcases halone row hrow hof hactive with hleft | hclosed
          · rcases List.mem_cons.mp hleft with heq | hleft'
            · exact absurd (List.any_eq_true.mpr ⟨row, hrow, decide_eq_true ⟨heq, hactive⟩⟩) hnone
            · exact Or.inl hleft'
          · exact Or.inr hclosed
  case h_4 =>
      unfold commit at hstep
      split at hstep
      case h_1 hphase =>
          rw [hphase] at halone
          exact halone.elim
      case h_2 hphase =>
          rw [hphase] at halone
          exact halone.elim
      case h_3 hphase =>
          obtain rfl := Except.ok.inj hstep
          refine ⟨_, hset _, List.forall_mem_map.mpr fun row hrow hof hactive => ?_⟩
          rw [hphase] at halone
          rw [Grant.revoked_is_of] at hof
          obtain ⟨hold, hopen⟩ := (Grant.revoked_active _ _ _).mp hactive
          exact (halone row hrow hof hold).elim List.not_mem_nil hopen
      case h_4 => cases hstep
  case h_5 =>
      split at hstep
      · obtain rfl := Except.ok.inj hstep
        exact ⟨_, hset _, trivial⟩
      · cases hstep
  case h_6 => cases hstep

/-- A revoke whose actions follow each other leaves no active row of its purpose. -/
theorem alone_along {vocabulary : List Purpose} (call : Call) {actions : List Action} {finish : State}
    (hrevoke : call.request.granted = false) (hcall : state.calls[index]? = some call)
    (halone : Alone vocabulary state.rows call.request call.phase)
    (h : execute (step vocabulary) state (actions.map (.act index)) = .ok finish) :
    ∃ phase, finish.calls[index]? = some { call with phase } ∧
      Alone vocabulary finish.rows call.request phase := by
  induction actions generalizing state call with
  | nil =>
      obtain rfl := Except.ok.inj h
      exact ⟨call.phase, hcall, halone⟩
  | cons action rest ih =>
      rw [List.map_cons, execute_cons, step, hcall] at h
      dsimp only at h
      cases hstep : advance state index call action with
      | error e =>
          rw [hstep] at h
          cases h
      | ok next =>
          rw [hstep] at h
          obtain ⟨phase, hnext, hnextAlone⟩ := alone_advance hcall hrevoke halone hstep
          exact ih { call with phase } hrevoke hnext hnextAlone h

end Requests

/-- The readers agree after every run whose grants commit in order, and the purpose of a revoke that no
other request interrupts is not active after it. -/
theorem readers_agree (vocabulary : List Purpose) :
    (∀ moves state, execute (step vocabulary) .empty moves = .ok state →
      Along (step vocabulary) (fun state move => commitsInOrder state move) .empty moves →
      ∀ user purpose,
        (∃ entry ∈ getConsent vocabulary state.rows user, entry.purpose = purpose ∧ entry.granted) ↔
          purpose ∈ activePurposes vocabulary state.rows user) ∧
    ∀ moves state, execute (step vocabulary) .empty moves = .ok state →
      ∀ user purpose now (actions : List Action) finish call changed,
        execute (step vocabulary) state
            (.begin { user, purpose, granted := false } now ::
              actions.map (.act state.calls.length)) = .ok finish →
          finish.calls[state.calls.length]? = some call → call.phase = .answered changed →
          purpose ∉ activePurposes vocabulary finish.rows user := by
  constructor
  · intro moves state hrun halong user purpose
    have hsound := sound_along hrun halong
    exact granted_iff_active hsound.ids hsound.ordered
  · intro moves state _ user purpose now actions finish call changed hrun hcall hphase
    rw [execute_cons, step] at hrun
    split at hrun
    · cases hrun
    · have hbegun : ∀ phase, (state.calls ++
          [{ request := { user, purpose, granted := false }, startedAt := now, phase }])[
            state.calls.length]? =
          some { request := { user, purpose, granted := false }, startedAt := now, phase } :=
        fun phase => List.getElem?_concat_length
      have halone : Alone vocabulary state.rows { user, purpose, granted := false }
          (if purpose ∈ vocabulary then .began else .rejected) := by
        split
        · trivial
        · assumption
      obtain ⟨phase, hfound, hnone⟩ := alone_along _ rfl (hbegun _) halone hrun
      obtain rfl := Option.some.inj (hcall.symm.trans hfound)
      obtain rfl : phase = .answered changed := hphase
      rw [mem_active_purposes]
      rintro ⟨-, grant, hgrant, hof, hactive⟩
      exact hnone grant hgrant hof hactive

/-- Two grants at once and a revoke after both. -/
def twoGrants : List Move :=
  [.begin ⟨"user", "analytics", true⟩ 1, .begin ⟨"user", "analytics", true⟩ 2, .act 0 .snapshot,
    .act 1 .snapshot, .act 1 (.insert 7), .act 0 (.insert 8), .act 1 .commit, .act 0 .commit,
    .begin ⟨"user", "analytics", false⟩ 3, .act 2 .snapshot, .act 2 .update, .act 2 .update,
    .act 2 .commit]

/-- After them the readers agree. -/
theorem readers_agree_after_two :
    ∃ state, execute (step ["analytics"]) .empty twoGrants = .ok state ∧
      ((∃ entry ∈ getConsent ["analytics"] state.rows "user",
          entry.purpose = "analytics" ∧ entry.granted) ↔
        "analytics" ∈ activePurposes ["analytics"] state.rows "user") :=
  ⟨_, rfl, (readers_agree ["analytics"]).1 twoGrants _ rfl (by decide) "user" "analytics"⟩

/-- Two grants at once and a revoke between their commits. -/
def lateGrant : List Move :=
  [.begin ⟨"user", "analytics", true⟩ 1, .begin ⟨"user", "analytics", true⟩ 2, .act 0 .snapshot,
    .act 1 .snapshot, .act 1 (.insert 7), .act 1 .commit, .begin ⟨"user", "analytics", false⟩ 3,
    .act 2 .snapshot, .act 2 .update, .act 2 .commit, .act 0 (.insert 8), .act 0 .commit]

/-- The grant that started first and committed last is active behind the closed one. -/
theorem late_grant_disagrees :
    ∃ state, execute (step ["analytics"]) .empty lateGrant = .ok state ∧ state.quiescent ∧
      ¬((∃ entry ∈ getConsent ["analytics"] state.rows "user",
          entry.purpose = "analytics" ∧ entry.granted) ↔
        "analytics" ∈ activePurposes ["analytics"] state.rows "user") := by
  refine ⟨_, rfl, by decide, ?_⟩
  rw [granted_iff (by decide), mem_active_purposes]
  decide

end CatalogApi.Consent
