import CatalogApi.Erasure.Postgres
import CatalogApi.Lib.Runs

/-!
# What erasure leaves of an export

The export and the erasure each have a list of tables keyed to the account. Every statement of the
erasure leaves the rows of other users and subjects as they are (`Frame`), and empties its own table; the
one table that the export reads and no statement empties is `activity.consent_grants`.
-/

namespace CatalogApi.Erasure

/-! ## What each statement leaves alone -/

section Frames

variable {call : ErasureCall} {db after : Database}

/-- The row belongs to the user or the subject of the erasure, by the key of its table. -/
def ErasureCall.owns (call : ErasureCall) (table : Table) (row : Row) : Bool :=
  match table with
  | .events | .impressions | .eventIdempotency | .erasures => row.keyed "subject_id" call.subject
  | .users => row.keyed "id" call.user
  | _ => row.keyed "user_id" call.user

/-- The rows of every other user and subject are unchanged. -/
def Frame (call : ErasureCall) (db after : Database) : Prop :=
  ∀ table, (after table).filter (¬call.owns table ·) = (db table).filter (¬call.owns table ·)

theorem Frame.refl (db : Database) : Frame call db db :=
  fun _ => rfl

theorem Frame.trans {middle : Database} (h : Frame call db middle) (h' : Frame call middle after) :
    Frame call db after :=
  fun table => (h' table).trans (h table)

instance : Trans (Frame call) (Frame call) (Frame call) :=
  ⟨Frame.trans⟩

/-- Taking away rows that the call owns. -/
theorem frame_filter {table : Table} {gone : Row → Bool}
    (h : ∀ row ∈ db table, gone row → call.owns table row) :
    Frame call db (Function.update db table ((db table).filter fun row => ¬gone row)) := by
  intro other
  by_cases heq : other = table
  · subst heq
    rw [Function.update_self, List.filter_filter]
    refine List.filter_congr fun row hrow => ?_
    by_cases hgone : gone row
    · simp [hgone, h row hrow hgone]
    · simp [hgone]
  · rw [Function.update_of_ne heq]

theorem frame_insert {table : Table} {row : Row} (h : call.owns table row) :
    Frame call db (db.insert table row) := by
  intro other
  by_cases heq : other = table
  · subst heq
    simp [h]
  · rw [Database.insert_other db heq]

theorem frame_update {table : Table} {column : Column} {id : String} {change : Row → Row}
    (h : ∀ row, row.keyed column id → call.owns table row ∧ call.owns table (change row)) :
    Frame call db (db.update table column id change) := by
  intro other
  by_cases heq : other = table
  · subst heq
    rw [Database.update_same]
    induction db other with
    | nil => rfl
    | cons row rows ih =>
        rw [List.map_cons, List.filter_cons, List.filter_cons, ih]
        by_cases hkeyed : row.keyed column id
        · simp [hkeyed, h row hkeyed]
        · simp [hkeyed]
  · rw [Database.update_other db heq]

/-- A key released with an event has the event's subject. -/
theorem keyed_of_same_key {event key : Row} {subject : SubjectId} (h : sameKey event key)
    (hevent : event.keyed "subject_id" subject) : key.keyed "subject_id" subject := by
  unfold sameKey at h
  split at h
  · rename_i hsubject hother _ _
    obtain ⟨rfl, -⟩ := of_decide_eq_true h
    rw [Row.keyed, hsubject] at hevent
    rw [Row.keyed, hother]
    exact hevent
  · cases h

theorem keyed_soft_erase {row : Row} : (call.softErase row).keyed "id" call.user =
    row.keyed "id" call.user := by
  simp [ErasureCall.softErase]

/-- The erasure's own record is one of its subject. -/
theorem record_owned {events impressions keys : Nat} :
    call.owns .erasures (call.record events impressions keys) := by
  simp [ErasureCall.owns, ErasureCall.record, Row.keyed, Row.get, List.lookup_cons]

/-- The tables of `_USER_OWNED_DELETES` are keyed by the user. -/
theorem owned_by_user {table : Table} {row : Row} (htable : table ∈ userOwnedDeletes)
    (h : row.keyed "user_id" call.user) : call.owns table row := by
  cases table with
  | events | impressions | eventIdempotency | erasures | users => exact absurd htable (by decide)
  | userSubjects | consentGrants | catalogItemMoves | observations | collectionSnapshots
  | ownedCopies | userCollections | userWantlists | syncHistory | appTokens | oauthTokens => exact h

/-- Deleting the activity rows of a subject, with the keys they release. -/
theorem frame_delete_activity {tx tx' : Transaction} {table : Table} {count : Nat}
    (htable : table = .events ∨ table = .impressions)
    (h : deleteActivity tx table call.subject = .ok (count, tx')) : Frame call tx.db tx'.db := by
  have hdelete : Frame call tx.db (tx.db.delete table "subject_id" call.subject) := by
    refine frame_filter fun row _ hkeyed => ?_
    rcases htable with rfl | rfl <;> exact hkeyed
  unfold deleteActivity at h
  dsimp only at h
  split at h
  · cases h
  · obtain ⟨-, rfl⟩ := Prod.mk.inj (Except.ok.inj h)
    dsimp only
    split
    · refine hdelete.trans (frame_filter fun key _ hreleased => ?_)
      obtain ⟨event, hevent, hsame⟩ := List.any_eq_true.mp hreleased
      exact keyed_of_same_key hsame (List.mem_filter.mp hevent).2
    · exact hdelete

/-- The subject of every link of the user is the one that is erased. -/
def LinkedTo (call : ErasureCall) (db : Database) : Prop :=
  ∀ link ∈ db .userSubjects, link.keyed "user_id" call.user → link.keyed "subject_id" call.subject

theorem frame_delete_subject (hlinked : LinkedTo call db) :
    Frame call db (deleteSubject db call.user) := by
  have hdelete : Frame call db (db.delete .userSubjects "user_id" call.user) :=
    frame_filter fun _ _ hkeyed => hkeyed
  refine hdelete.trans (frame_filter fun key _ hreleased => ?_)
  obtain ⟨link, hlink, hmatch⟩ := List.any_eq_true.mp hreleased
  obtain ⟨hmem, huser⟩ := List.mem_filter.mp hlink
  have hsubject := hlinked link hmem huser
  rw [Row.keyed] at hsubject
  split at hsubject
  · rename_i subject hget
    rw [hget] at hmatch
    obtain rfl : subject = call.subject := of_decide_eq_true hsubject
    exact hmatch
  · cases hsubject

end Frames

/-! ## The transaction -/

section Statements

variable {call : ErasureCall} {db after : Database}

/-- A statement that does not raise, and what follows it. -/
theorem attempt_bind_ok {α β : Type} {statement : Statement} {result : Except Failure α}
    {next : α → Except Failure β} {b : β} (h : (call.attempt statement result >>= next) = .ok b) :
    ∃ a, result = .ok a ∧ next a = .ok b := by
  rw [ErasureCall.attempt] at h
  split at h
  · cases h
  · cases result with
    | error failure => cases h
    | ok a => exact ⟨a, rfl, h⟩

/-- Each table of the loop loses the user's rows, and no other table changes. -/
theorem delete_owned_ok {tables : List Table} (h : deleteOwned call tables db = .ok after) :
    (∀ table ∈ tables, ∀ row ∈ after table, ¬row.keyed "user_id" call.user) ∧
      (∀ table, (after table).Sublist (db table)) ∧ ∀ table ∉ tables, after table = db table := by
  induction tables generalizing db with
  | nil =>
      obtain rfl := Except.ok.inj h
      exact ⟨nofun, fun _ => List.Sublist.refl _, fun _ _ => rfl⟩
  | cons first tables ih =>
      obtain ⟨_, hdelete, hrest⟩ := attempt_bind_ok h
      obtain rfl := Except.ok.inj hdelete
      obtain ⟨hgone, hsub, hsame⟩ := ih hrest
      refine ⟨List.forall_mem_cons.mpr ⟨fun row hrow => ?_, hgone⟩, fun table => ?_, fun table hnot => ?_⟩
      · have hkept := (hsub first).mem hrow
        rw [Database.delete_same, List.mem_filter] at hkept
        exact of_decide_eq_true hkept.2
      · refine (hsub table).trans ?_
        by_cases heq : table = first
        · subst heq
          rw [Database.delete_same]
          exact List.filter_sublist
        · rw [Database.delete_other db heq]
      · rw [List.mem_cons, not_or] at hnot
        rw [hsame table hnot.2, Database.delete_other db hnot.1]

theorem frame_delete_owned {tables : List Table}
    (htables : ∀ table ∈ tables, ∀ row, row.keyed "user_id" call.user → call.owns table row)
    (h : deleteOwned call tables db = .ok after) : Frame call db after := by
  induction tables generalizing db with
  | nil =>
      obtain rfl := Except.ok.inj h
      exact Frame.refl db
  | cons first tables ih =>
      obtain ⟨_, hdelete, hrest⟩ := attempt_bind_ok h
      obtain rfl := Except.ok.inj hdelete
      obtain ⟨hfirst, hothers⟩ := List.forall_mem_cons.mp htables
      exact Frame.trans (frame_filter fun row _ => hfirst row) (ih hothers hrest)

/-- Deleting activity rows leaves none of the subject in their table and adds none to any. -/
theorem delete_activity_ok {tx tx' : Transaction} {table : Table} {count : Nat}
    (htable : table ≠ .eventIdempotency)
    (h : deleteActivity tx table call.subject = .ok (count, tx')) :
    (∀ row ∈ tx'.db table, ¬row.keyed "subject_id" call.subject) ∧
      (∀ other, (tx'.db other).Sublist (tx.db other)) ∧
      ∀ other, other ≠ table → other ≠ .eventIdempotency → tx'.db other = tx.db other := by
  unfold deleteActivity at h
  dsimp only at h
  split at h
  · cases h
  · obtain ⟨-, rfl⟩ := Prod.mk.inj (Except.ok.inj h)
    have hdeleted : ∀ other, (tx.db.delete table "subject_id" call.subject other).Sublist
        (tx.db other) := by
      intro other
      by_cases heq : other = table
      · subst heq
        rw [Database.delete_same]
        exact List.filter_sublist
      · rw [Database.delete_other _ heq]
    have hreleased : ∀ other, other ≠ .eventIdempotency →
        (if table = .events then
          releaseEvents ((tx.db table).filter fun row => row.keyed "subject_id" call.subject)
            (tx.db.delete table "subject_id" call.subject)
        else tx.db.delete table "subject_id" call.subject) other =
          tx.db.delete table "subject_id" call.subject other := by
      intro other hother
      split
      · exact Function.update_of_ne hother ..
      · rfl
    refine ⟨fun row hrow => ?_, fun other => ?_, fun other hother hne => ?_⟩
    · dsimp only at hrow
      rw [hreleased table htable, Database.delete_same, List.mem_filter] at hrow
      exact of_decide_eq_true hrow.2
    · dsimp only
      split
      · refine List.Sublist.trans ?_ (hdeleted other)
        by_cases heq : other = .eventIdempotency
        · subst heq
          rw [releaseEvents, Function.update_self]
          exact List.filter_sublist
        · rw [releaseEvents, Function.update_of_ne heq]
      · exact hdeleted other
    · dsimp only
      rw [hreleased other hne, Database.delete_other _ hother]

theorem delete_subject_links :
    ∀ row ∈ deleteSubject db call.user .userSubjects, ¬row.keyed "user_id" call.user := by
  intro row hrow
  rw [deleteSubject, releaseLinks, Function.update_of_ne (by decide), Database.delete_same,
    List.mem_filter] at hrow
  exact of_decide_eq_true hrow.2

theorem delete_subject_other {table : Table} (hlinks : table ≠ .userSubjects)
    (hkeys : table ≠ .eventIdempotency) : deleteSubject db call.user table = db table := by
  rw [deleteSubject, releaseLinks, Function.update_of_ne hkeys, Database.delete_other _ hlinks]

/-- What a completed transaction did. -/
structure Completed (call : ErasureCall) (db after : Database) : Prop where
  frame : Frame call db after
  events : ∀ row ∈ after .events, ¬row.keyed "subject_id" call.subject
  impressions : ∀ row ∈ after .impressions, ¬row.keyed "subject_id" call.subject
  links : ∀ row ∈ after .userSubjects, ¬row.keyed "user_id" call.user
  owned : ∀ table ∈ userOwnedDeletes, ∀ row ∈ after table, ¬row.keyed "user_id" call.user
  grants : after .consentGrants = db .consentGrants

/-- Erasing statements that succeed leave the user nothing. -/
theorem erase_statements_ok (hlinked : LinkedTo call db) {erased : Erased}
    (h : eraseStatements call { db, erasure := false } = .ok (erased, after)) :
    Completed call db after := by
  obtain ⟨_, henable, h⟩ := attempt_bind_ok h
  obtain rfl := Except.ok.inj henable
  obtain ⟨keys, -, h⟩ := attempt_bind_ok h
  obtain ⟨⟨events, tx⟩, hevents, h⟩ := attempt_bind_ok h
  obtain ⟨⟨impressions, tx'⟩, himpressions, h⟩ := attempt_bind_ok h
  obtain ⟨_, hsubject, h⟩ := attempt_bind_ok h
  obtain rfl := Except.ok.inj hsubject
  obtain ⟨_, hinsert, h⟩ := attempt_bind_ok h
  obtain rfl := Except.ok.inj hinsert
  obtain ⟨owned, howned, h⟩ := Runs.bind_ok h
  obtain ⟨_, hsoft, h⟩ := attempt_bind_ok h
  obtain rfl := Except.ok.inj hsoft
  obtain ⟨-, rfl⟩ := Prod.mk.inj (Except.ok.inj h)
  obtain ⟨heventsGone, heventsSub, heventsSame⟩ := delete_activity_ok (by decide) hevents
  obtain ⟨himpressionsGone, himpressionsSub, himpressionsSame⟩ :=
    delete_activity_ok (by decide) himpressions
  obtain ⟨hownedGone, hownedSub, hownedSame⟩ := delete_owned_ok howned
  have hrest : ∀ table, table ≠ .users → table ≠ .erasures →
      (owned.update .users "id" call.user call.softErase table).Sublist
        (deleteSubject tx'.db call.user table) := by
    intro table husers herasures
    rw [Database.update_other _ husers]
    exact (hownedSub table).trans (Database.insert_other _ herasures ▸ List.Sublist.refl _)
  constructor
  case frame =>
      have hlinks : LinkedTo call tx'.db := by
        rw [LinkedTo, himpressionsSame .userSubjects (by decide) (by decide),
          heventsSame .userSubjects (by decide) (by decide)]
        exact hlinked
      calc
        Frame call db tx.db := frame_delete_activity (Or.inl rfl) hevents
        Frame call _ tx'.db := frame_delete_activity (Or.inr rfl) himpressions
        Frame call _ (deleteSubject tx'.db call.user) := frame_delete_subject hlinks
        Frame call _ _ := frame_insert record_owned
        Frame call _ owned := frame_delete_owned (fun _ htable _ => owned_by_user htable) howned
        Frame call _ (owned.update .users "id" call.user call.softErase) :=
          frame_update fun _ hkeyed => ⟨hkeyed, keyed_soft_erase.trans hkeyed⟩
  case events =>
      intro row hrow
      have hmem := (hrest .events (by decide) (by decide)).mem hrow
      rw [delete_subject_other (by decide) (by decide)] at hmem
      exact heventsGone row ((himpressionsSub .events).mem hmem)
  case impressions =>
      intro row hrow
      have hmem := (hrest .impressions (by decide) (by decide)).mem hrow
      rw [delete_subject_other (by decide) (by decide)] at hmem
      exact himpressionsGone row hmem
  case links =>
      intro row hrow
      exact delete_subject_links row ((hrest .userSubjects (by decide) (by decide)).mem hrow)
  case owned =>
      intro table htable row hrow
      rw [Database.update_other _ (by rintro rfl; revert htable; decide)] at hrow
      exact hownedGone table htable row hrow
  case grants =>
      rw [Database.update_other _ (by decide), hownedSame .consentGrants (by decide),
        Database.insert_other _ (by decide), delete_subject_other (by decide) (by decide),
        himpressionsSame .consentGrants (by decide) (by decide),
        heventsSame .consentGrants (by decide) (by decide)]

end Statements

/-! ## The export afterwards -/

section Export

variable {rendering : Rendering} {call : ErasureCall} {db after : Database}

theorem rows_eq_nil {part : Section} {user : UserId} {subject : Option SubjectId} :
    part.rows db user subject = [] ↔
      if part.bySubject then
        ∀ id, subject = some id → ∀ row ∈ db part.table, ¬row.keyed "subject_id" id
      else ∀ row ∈ db part.table, ¬row.keyed "user_id" user := by
  unfold Section.rows
  split
  · cases subject with
    | none => simp
    | some id =>
        simp only [Option.some.injEq, forall_eq']
        exact Database.select_eq_nil db
  · exact Database.select_eq_nil db

/-- The export has no record when no table of a section has a row of its key. -/
theorem export_lines_eq_nil {user : UserId} {subject : Option SubjectId} :
    exportLines rendering db user subject = [] ↔
      ∀ part ∈ exportSections, part.rows db user subject = [] := by
  rw [exportLines, List.flatMap_eq_nil_iff]
  exact forall₂_congr fun _ _ => List.map_eq_nil_iff

/-- The export of the user with any of its subjects has no record. -/
def Emptied (rendering : Rendering) (call : ErasureCall) (after : Database) : Prop :=
  exportLines rendering after call.user (some call.subject) = [] ∧
    ∀ cached fresh fails, (∀ subject, cached = some subject → subject = call.subject) →
      (∀ row ∈ after .events ++ after .impressions, ¬row.keyed "subject_id" fresh) →
      exportLines rendering (subjectFor cached fresh fails call.user after).2 call.user
        (subjectFor cached fresh fails call.user after).1 = []

/-- After the erasure the user id resolves to the erased subject, where a process still has it, to a
fresh one, or to none. -/
theorem subject_for_after (h : Completed call db after) (cached : Option SubjectId)
    (fresh : SubjectId) (fails : Bool)
    (hcached : ∀ subject, cached = some subject → subject = call.subject) :
    (∀ subject, (subjectFor cached fresh fails call.user after).1 = some subject →
      subject = call.subject ∨ subject = fresh) ∧
    ∀ table, table ≠ .userSubjects →
      (subjectFor cached fresh fails call.user after).2 table = after table := by
  have hnone : ((after .userSubjects).find? fun row => row.keyed "user_id" call.user) = none :=
    List.find?_eq_none.mpr h.links
  cases cached with
  | some subject => exact ⟨fun other heq => Or.inl (hcached other heq), fun _ _ => rfl⟩
  | none =>
      rw [subjectFor, hnone]
      cases fails with
      | true => exact ⟨nofun, fun _ _ => rfl⟩
      | false =>
          refine ⟨fun other heq => Or.inr (Option.some.inj heq).symm, fun table htable => ?_⟩
          exact Database.insert_other _ htable

/-- Every table of the export is one that the erasure empties, but for the consent grants. -/
theorem sections_covered : ∀ part ∈ exportSections,
    if part.bySubject then part.table = .events ∨ part.table = .impressions
    else part.table ∈ userOwnedDeletes ∨ part.table = .consentGrants := by
  decide

/-- After the erasure the export of the user, with the erased subject or one without activity, has no
record when the user has no consent grants. -/
theorem export_empty_after (h : Completed call db after)
    (hgrants : ∀ row ∈ db .consentGrants, ¬row.keyed "user_id" call.user) {other : Database}
    (hother : ∀ table, table ≠ .userSubjects → other table = after table) {subject : Option SubjectId}
    (hsubject : ∀ id, subject = some id → id = call.subject ∨
      ∀ row ∈ after .events ++ after .impressions, ¬row.keyed "subject_id" id) :
    exportLines rendering other call.user subject = [] := by
  rw [export_lines_eq_nil]
  intro part hsection
  have hcovered := sections_covered part hsection
  rw [rows_eq_nil]
  split
  · rename_i hby
    rw [if_pos hby] at hcovered
    intro id hid row hrow
    rcases hcovered with htable | htable <;> rw [htable, hother _ (by decide)] at hrow
    · rcases hsubject id hid with rfl | hfresh
      · exact h.events row hrow
      · exact hfresh row (List.mem_append_left _ hrow)
    · rcases hsubject id hid with rfl | hfresh
      · exact h.impressions row hrow
      · exact hfresh row (List.mem_append_right _ hrow)
  · rename_i hby
    rw [if_neg hby] at hcovered
    intro row hrow
    rcases hcovered with htable | htable
    · rw [hother _ (by rintro heq; rw [heq] at htable; exact absurd htable (by decide))] at hrow
      exact h.owned _ htable row hrow
    · rw [htable, hother _ (by decide), h.grants] at hrow
      exact hgrants row hrow

/-- An empty export means that the user has no consent grants. -/
theorem no_grants_of_export_empty {user : UserId} {subject : Option SubjectId}
    (h : exportLines rendering db user subject = []) :
    ∀ row ∈ db .consentGrants, ¬row.keyed "user_id" user :=
  rows_eq_nil.mp (export_lines_eq_nil.mp h exportSections[8] (by decide))

/-- An erasure that commits leaves the rows of every other user and subject as they are, and nothing to
export exactly when the user has no consent grants; one that fails changes nothing. -/
theorem export_emptied_iff (rendering : Rendering) (call : ErasureCall) (db : Database)
    (hlinked : LinkedTo call db) :
    (∀ erased after, erasePostgres call db = (.ok erased, after) →
      (Emptied rendering call after ∧ Frame call db after ↔
        ∀ row ∈ db .consentGrants, ¬row.keyed "user_id" call.user)) ∧
    ∀ failure after, erasePostgres call db = (.error failure, after) → after = db := by
  unfold erasePostgres
  cases hrun : eraseStatements call { db, erasure := false } with
  | error failure => exact ⟨nofun, fun _ _ h => (Prod.mk.inj h).2.symm⟩
  | ok result =>
      refine ⟨fun erased after h => ?_, nofun⟩
      obtain ⟨-, rfl⟩ := Prod.mk.inj h
      have hdone := erase_statements_ok hlinked hrun
      constructor
      · rintro ⟨⟨hempty, -⟩, -⟩
        rw [← hdone.grants]
        exact no_grants_of_export_empty hempty
      · intro hgrants
        refine ⟨⟨?_, fun cached fresh fails hcached hfresh => ?_⟩, hdone.frame⟩
        · refine export_empty_after hdone hgrants (fun _ _ => rfl) fun id hid => ?_
          exact Or.inl (Option.some.inj hid).symm
        · obtain ⟨hresolved, hsame⟩ := subject_for_after hdone cached fresh fails hcached
          refine export_empty_after hdone hgrants hsame fun id hid => ?_
          rcases hresolved id hid with heq | heq
          · exact Or.inl heq
          · exact Or.inr (heq ▸ hfresh)

end Export

/-- A user with one event, one collection row and these consent grants, and another user. -/
def sampleDb (grants : List Row) : Database
  | .users => [[("id", .uuid "u1"), ("email", .text "a")], [("id", .uuid "u2"), ("email", .text "b")]]
  | .userSubjects => [[("user_id", .uuid "u1"), ("subject_id", .uuid "s1")]]
  | .events =>
      [[("event_id", .uuid "e1"), ("subject_id", .uuid "s1"), ("idempotency_key", .text "k1")]]
  | .eventIdempotency => [[("subject_id", .uuid "s1"), ("idempotency_key", .text "k1")]]
  | .userCollections =>
      [[("id", .uuid "c1"), ("user_id", .uuid "u1")], [("id", .uuid "c2"), ("user_id", .uuid "u2")]]
  | .consentGrants => grants
  | _ => []

/-- An erasure of that user in which nothing raises. -/
def sampleCall : ErasureCall :=
  { user := "u1", subject := "s1", requestedAt := 10, now := 11, erasureId := "x1"
    hashedPassword := "h", raises := fun _ => false }

theorem sample_linked (grants : List Row) : LinkedTo sampleCall (sampleDb grants) :=
  List.forall_mem_singleton.mpr fun _ => rfl

/-- Floats as they are, and times by their number. -/
def sampleRendering : Rendering :=
  { float := id, isoformat := toString }

/-- Without consent grants nothing is left to export. -/
theorem export_emptied_without_grants :
    ∃ erased after, erasePostgres sampleCall (sampleDb []) = (.ok erased, after) ∧
      Emptied sampleRendering sampleCall after ∧ Frame sampleCall (sampleDb []) after :=
  ⟨_, _, rfl, ((export_emptied_iff sampleRendering sampleCall (sampleDb []) (sample_linked [])).1
    _ _ rfl).mpr nofun⟩

/-- A consent grant is still exported. -/
theorem grant_survives_erasure :
    ∃ grants erased after, LinkedTo sampleCall (sampleDb grants) ∧
      erasePostgres sampleCall (sampleDb grants) = (.ok erased, after) ∧
      ¬Emptied sampleRendering sampleCall after := by
  refine ⟨[[("id", .int 1), ("user_id", .uuid "u1"), ("purpose", .text "analytics"),
    ("granted_at", .time 5)]], _, _, sample_linked _, rfl, fun hempty => ?_⟩
  exact no_grants_of_export_empty hempty.1 _ List.mem_cons_self rfl

end CatalogApi.Erasure
