import CatalogApi.ReattachTrigger.Roles

/-!
# One completed run for each extraction

The marker of an extraction is written on the session that holds the lock, by a run that has seen no
marker since it took it, and so at most once (`one_completed_run`): every command of `run_pending` leads
from a role to one from which the rest of the program is safe.
-/

namespace CatalogApi.ReattachTrigger

open Programs

variable {state after : State} {roles : List Role} {index : Nat} {role next : Role}

/-! ## The program -/

/-- From this role on the program keeps the invariant. -/
def Safe (role : Role) (program : Run) : Prop :=
  ∀ last, trigger.Outlined Inv (fun _ _ => True) (fun _ _ => True) () role last program

theorem safe_done (role : Role) (result : Except Unit (Option Version)) :
    Safe role (.done result) :=
  fun _ => trivial

/-- A command that leads from each of its outcomes to a role from which the rest is safe. -/
theorem safe_issue {role : Role} {command : Command} {rest : command.Reply → Run}
    (h : ∀ (state : State) (roles : List Role) (index : Nat), Inv state roles →
      roles[index]? = some role → ∃ next, Inv (exec command state).2 (roles.set index next) ∧
        Safe next (rest (exec command state).1)) : Safe role (.issue command rest) := by
  intro last
  refine System.Outlined.issue trigger trivial fun state roles index hinv hrole => ?_
  obtain ⟨next, hnext, hsafe⟩ := h state roles index hinv hrole
  exact ⟨next, hnext, hsafe _⟩

/-- A statement fails without its effect, or its session is not lost and it has its effect, with its
reply or an error. -/
theorem statement_cases {α : Type} (state : State) (session : Session) (reply : α) (after : State) :
    state.statement session reply after = (.error (), state) ∨
      session ∉ state.lost ∧ (state.statement session reply after = (.ok reply, after) ∨
        state.statement session reply after = (.error (), after)) := by
  rw [State.statement]
  split
  · exact Or.inl rfl
  · rename_i hlive
    cases state.fate with
    | succeeds => exact Or.inr ⟨hlive, Or.inl rfl⟩
    | fails applied =>
        cases applied with
        | false => exact Or.inl rfl
        | true => exact Or.inr ⟨hlive, Or.inr rfl⟩

/-- A command that changes nothing, whatever it replies. -/
theorem safe_stay {role : Role} {command : Command} {rest : command.Reply → Run}
    (hstate : ∀ state, (exec command state).2 = state) (h : ∀ reply, Safe role (rest reply)) :
    Safe role (.issue command rest) := by
  refine safe_issue fun state roles index hinv hrole => ⟨role, ?_, h _⟩
  rw [hstate, set_same hrole]
  exact hinv

theorem statement_read {α : Type} (state : State) (session : Session) (reply : α) :
    (state.statement session reply state).2 = state := by
  rcases statement_cases state session reply state with heq | ⟨-, heq | heq⟩ <;> rw [heq]

theorem safe_leave (session : Session) (result : Except Unit (Option Version)) :
    Safe { session := some session } (leave session result) :=
  safe_issue fun _ _ _ hinv hrole => ⟨{}, hinv.release hrole, safe_done _ _⟩

/-- The `finally` of a call that relies on its session alone. -/
theorem safe_finish_only (session : Session) (result : Except Unit (Option Version)) :
    Safe { session := some session } (finish session result) := by
  refine safe_issue fun state roles index hinv hrole => ⟨{ session := some session }, ?_, ?_⟩
  · rw [exec]
    rcases statement_cases state session () (state.unlock session) with heq | ⟨-, heq | heq⟩ <;>
      rw [heq]
    · exact hinv.forget hrole
    · exact hinv.unlock hrole
    · exact hinv.unlock hrole
  · split
    · exact safe_leave session _
    · exact safe_leave session _

/-- A call that relies on more may rely on its session alone. -/
theorem safe_of_only {role : Role} {session : Session} (hsession : role.session = some session)
    {command : Command} {rest : command.Reply → Run}
    (h : Safe { session := some session } (.issue command rest)) :
    Safe role (.issue command rest) := by
  intro last
  refine ⟨trivial, fun pool roles thread hinv hat hrole hthread hcondition => ?_⟩
  have hlt := (List.getElem?_eq_some_iff.mp hrole).1
  have hforget := hinv.forget hrole
  rw [hsession] at hforget
  have hats : List.Forall₂ (fun _ _ => True) (roles.set thread { session := some session })
      pool.threads := by
    rw [← set_same hthread]
    exact forall₂_set hat thread trivial
  obtain ⟨next, hnext, hrest⟩ := (h last).2 pool _ thread hforget hats (List.getElem?_set_self hlt)
    hthread hcondition
  rw [List.set_set] at hnext
  exact ⟨next, hnext, hrest⟩

theorem safe_finish {role : Role} {session : Session} (hsession : role.session = some session)
    (result : Except Unit (Option Version)) : Safe role (finish session result) :=
  safe_of_only hsession (safe_finish_only session result)

/-- A check for a pending extraction that its call does not rely on. -/
theorem safe_pending {role : Role} (session : Session) {next : Except Unit (Option Version) → Run}
    (h : ∀ result, Safe role (next result)) : Safe role (pendingExtraction session next) := by
  refine safe_stay (fun state => statement_read state session _) fun present => ?_
  split
  · exact h _
  · exact h _
  · refine safe_stay (fun state => statement_read state session _) fun version => ?_
    split
    · exact h _
    · exact h _
    · refine safe_stay (fun state => statement_read state session _) fun handled => ?_
      split <;> exact h _

/-- The check under the lock: its version stays unmarked while the lock is held. -/
theorem safe_pending_locked {session : Session} {grant : Nat}
    {next : Except Unit (Option Version) → Run}
    (hnone : ∀ result, (∀ version, result ≠ .ok (some version)) →
      Safe { session := some session, grant := some grant } (next result))
    (hsome : ∀ version, Safe
      { session := some session, grant := some grant, version := some version }
      (next (.ok (some version)))) :
    Safe { session := some session, grant := some grant } (pendingExtraction session next) := by
  refine safe_stay (fun state => statement_read state session _) fun present => ?_
  split
  · exact hnone _ (by simp)
  · exact hnone _ (by simp)
  · refine safe_stay (fun state => statement_read state session _) fun latest => ?_
    split
    · exact hnone _ (by simp)
    · exact hnone _ (by simp)
    · rename_i version
      refine safe_issue fun state roles index hinv hrole => ?_
      rw [exec]
      have hlearn := hinv.learn hrole rfl (fun _ heq => heq) (hinv.roles _ (List.mem_of_getElem? hrole))
      rcases statement_cases state session (state.isHandled version) state with
        heq | ⟨hlive, heq | heq⟩ <;> rw [heq]
      · exact ⟨_, hlearn, hnone _ (by simp)⟩
      · cases hhandled : state.isHandled version with
        | true => exact ⟨_, hlearn, hnone _ (by simp)⟩
        | false =>
            have hunmarked : Unmarked state version := by
              intro entry hentry hauto htarget
              rw [State.isHandled, List.any_eq_false] at hhandled
              exact hhandled entry hentry (by simp [hauto, htarget])
            obtain ⟨hheld, -, -, -, -⟩ := hinv.roles _ (List.mem_of_getElem? hrole)
            refine ⟨{ session := some session, grant := some grant, version := some version },
              hinv.learn hrole rfl (by simp) ⟨hheld, ?_, by simp, by simp, by simp⟩, hsome version⟩
            intro own other hown hversion hownlive
            cases hown
            cases hversion
            exact ⟨Option.isSome_iff_exists.mpr ⟨grant, hheld session grant rfl rfl hownlive⟩,
              hunmarked⟩
      · exact ⟨_, hlearn, hnone _ (by simp)⟩

theorem safe_project (session : Session) (grant : Nat) (version : Version) (job : Job) :
    Safe (.running session grant version job
      [.started (some grant), .reattached true (some grant)]) (project session job version) := by
  refine safe_issue fun state roles index hinv hrole => ?_
  rw [exec]
  cases state.fate with
  | fails applied =>
      refine ⟨_, hinv.note hrole (.projected false), safe_issue fun _ _ _ hinv hrole => ?_⟩
      exact ⟨_, hinv.finalize hrole, safe_finish rfl _⟩
  | succeeds =>
      refine ⟨_, hinv.note hrole (.projected true), safe_issue fun state roles index hinv hrole => ?_⟩
      rw [exec]
      rcases statement_cases state session () (state.change job fun entry => { entry with
        action := .auto, milestones := entry.milestones ++ [.marked (state.heldBy session)] }) with
        heq | ⟨hlive, heq | heq⟩ <;> rw [heq]
      · exact ⟨_, hinv.forget hrole, safe_finish rfl _⟩
      · exact ⟨_, hinv.mark hrole hlive, safe_finish rfl _⟩
      · exact ⟨_, hinv.mark hrole hlive, safe_finish rfl _⟩

theorem safe_reattach (session : Session) (grant : Nat) (version : Version) (job : Job) :
    Safe (.running session grant version job [.started (some grant)])
      (reattach session job version) := by
  refine safe_issue fun state roles index hinv hrole =>
    ⟨.running session grant version job [.started (some grant)], ?_, ?_⟩
  · rw [set_same hrole]
    exact hinv.refer hrole rfl rfl rfl
  · refine safe_issue fun state roles index hinv hrole => ?_
    rw [exec]
    cases state.fate with
    | fails applied =>
        refine ⟨_, hinv.note hrole (.reattached false), safe_issue fun _ _ _ hinv hrole => ?_⟩
        refine ⟨_, hinv.finalize hrole, safe_stay (fun _ => rfl) fun _ => safe_finish rfl _⟩
    | succeeds =>
        exact ⟨_, hinv.note hrole (.reattached true),
          safe_stay (fun _ => rfl) fun _ => safe_project session grant version job⟩

/-- A statement whose effect is none of the invariant's. -/
theorem safe_ensure_actor {role : Role} {session : Session} {next : Except Unit Unit → Run}
    (h : ∀ result, Safe role (next result)) : Safe role (ensureSystemActor session next) := by
  refine safe_issue fun state roles index hinv hrole => ⟨role, ?_, ?_⟩
  · rw [set_same hrole, exec]
    rcases statement_cases state session () { state with actor := some (state.actor.getD systemActor) }
      with heq | ⟨-, heq | heq⟩ <;> rw [heq]
    · exact hinv
    · exact hinv.congr rfl rfl rfl rfl rfl rfl
    · exact hinv.congr rfl rfl rfl rfl rfl rfl
  · split
    · exact h _
    · refine safe_stay (fun state => statement_read state session _) fun actor => ?_
      split <;> exact h _

theorem safe_insert (session : Session) (grant : Nat) (version : Version) (job : Job) :
    Safe { session := some session, grant := some grant, version := some version, job := some job }
      (.issue (.insertAuditEntry session job version) fun (reply : Except Unit Unit) =>
        match reply with
        | .error () => finish session (.error ())
        | .ok () => reattach session job version) := by
  refine safe_issue fun state roles index hinv hrole => ?_
  rw [exec]
  rcases statement_cases state session () { state with entries := state.entries ++ [{
    id := job, action := .started, target := extractionTarget version
    milestones := [.started (state.heldBy session)] }] } with heq | ⟨-, heq | heq⟩ <;> rw [heq]
  · exact ⟨_, hinv.forget hrole, safe_finish rfl _⟩
  · exact ⟨_, hinv.insert hrole, safe_reattach session grant version job⟩
  · exact ⟨_, hinv.insert hrole, safe_finish rfl _⟩

theorem safe_maintain (session : Session) (grant : Nat) :
    Safe { session := some session, grant := some grant } (maintain session) := by
  refine safe_pending_locked (fun result hresult => ?_) fun version => ?_
  · split
    · exact safe_finish rfl _
    · exact safe_finish rfl _
    · rename_i version
      exact absurd rfl (hresult version)
  · refine safe_ensure_actor fun actor => ?_
    split
    · exact safe_finish rfl _
    · exact safe_issue fun _ _ _ hinv hrole =>
        ⟨_, hinv.uuid4 hrole, safe_insert session grant version _⟩

theorem safe_run_pending : Safe {} runPending := by
  refine safe_issue fun state roles index hinv hrole => ?_
  rw [exec]
  split
  · rename_i hfree
    refine ⟨_, hinv.connect hrole hfree.2, safe_pending _ fun pending => ?_⟩
    split
    · exact safe_leave _ _
    · exact safe_leave _ _
    · refine safe_issue fun state roles index hinv hrole => ?_
      rw [exec]
      rcases statement_cases state _ (state.tryLock _).1 (state.tryLock _).2 with
        heq | ⟨hlive, heq | heq⟩ <;> rw [heq]
      · exact ⟨_, hinv.forget hrole, safe_leave _ _⟩
      · cases htaken : (state.tryLock _).1 with
        | true =>
            obtain ⟨grant, hlocked⟩ := hinv.try_lock hrole hlive htaken
            exact ⟨_, hlocked, safe_maintain _ grant⟩
        | false => exact ⟨_, hinv.try_lock_failed hrole hlive, safe_leave _ _⟩
      · exact ⟨_, hinv.try_lock_failed hrole hlive, safe_leave _ _⟩
  · exact ⟨{}, by rw [set_same hrole]; exact hinv, safe_done _ _⟩

/-! ## Every run -/

/-- In every run of any number of calls: a version has at most one marker; a marker's run wrote its
entry, then had the re-attachment and then the projection return, and then wrote the marker, all under
one grant of the lock; a run in which a job raised has no marker; and `run_reattachment` is only given
ids of entries that exist. -/
theorem one_completed_run (moves : List (Move Unit Change))
    (pool : Pool State Command Command.Reply (Except Unit (Option Version)) Unit)
    (h : Runs.execute trigger.step (trigger.idle .initial) moves = .ok pool) :
    (∀ (version : Version) (i j : Nat) (a b : Entry), pool.state.entries[i]? = some a →
        pool.state.entries[j]? = some b → a.action = .auto → b.action = .auto →
        a.target = extractionTarget version → b.target = extractionTarget version → i = j) ∧
      (∀ entry ∈ pool.state.entries, entry.action = .auto →
        ∃ grant, entry.milestones = finished grant) ∧
      (∀ entry ∈ pool.state.entries, ∀ held, .reattached false held ∈ entry.milestones ∨
        .projected false held ∈ entry.milestones → entry.action ≠ .auto) ∧
      ∀ ref ∈ pool.state.refs, ∃ entry ∈ pool.state.entries, entry.id = ref := by
  obtain ⟨roles, hinv, -⟩ := System.outlined_along trigger Inv.initial
    (fun pool roles call hinv _ _ => ⟨{}, hinv.start, safe_run_pending none⟩)
    (fun pool roles change hinv _ _ => hinv.external change) h
    (Runs.along_of_forall (fun _ _ => trivial) _ _)
  refine ⟨?_, hinv.marked, ?_, hinv.refs⟩
  · intro version i j a b ha hb haauto hbauto hatarget hbtarget
    have hsame := hinv.single a (List.mem_of_getElem? ha) b (List.mem_of_getElem? hb) haauto hbauto
      (hatarget.trans hbtarget.symm)
    have hi : (pool.state.entries.map (·.id))[i]? = some a.id := by rw [List.getElem?_map, ha]; rfl
    have hj : (pool.state.entries.map (·.id))[j]? = some b.id := by rw [List.getElem?_map, hb]; rfl
    exact (List.getElem?_inj (List.getElem?_eq_some_iff.mp hi).1 hinv.ids).mp
      (hi.trans ((congrArg some hsame).trans hj.symm))
  · intro entry hentry held hraised hauto
    obtain ⟨grant, heq⟩ := hinv.marked entry hentry hauto
    rw [heq] at hraised
    simp [finished] at hraised

/-- A call whose re-attachment fails, and then two at once, of which the second finds the lock held. -/
def threeCalls : List (Move Unit Change) :=
  [.change (.latch true [⟨"20260101", 1, discogsDataTypes⟩]), .start ()] ++
    List.replicate 13 (.step 0) ++
    [.change (.fate (.fails false)), .step 0, .change (.fate .succeeds)] ++
    List.replicate 4 (.step 0) ++
    [.change (.offer 1), .start (), .step 1, .change (.offer 2), .start (), .step 2] ++
    List.replicate 4 (.step 1) ++ List.replicate 5 (.step 2) ++ List.replicate 14 (.step 1)

/-- Of three calls one fails, one finds the lock held, and one completes. -/
theorem three_calls_complete_once :
    ∃ pool : Pool State Command Command.Reply (Except Unit (Option Version)) Unit,
      Runs.execute trigger.step (trigger.idle .initial) threeCalls = .ok pool ∧
        pool.threads.map (·.returned) =
          [some (.error ()), some (.ok (some "20260101")), some (.ok none)] ∧
        pool.state.entries.map (·.action) = [.failed, .auto] ∧
        ∀ entry ∈ pool.state.entries, entry.action = .auto →
          ∃ grant, entry.milestones = finished grant := by
  refine ⟨_, rfl, rfl, rfl, ?_⟩
  exact (one_completed_run threeCalls _ rfl).2.1

end CatalogApi.ReattachTrigger
