import CatalogApi.LedgerRefresh.Refresh

/-!
# A refresh never loses a write

A call reads its watermark before it takes the snapshot it refreshes from, so a stored watermark never
counts a write that the views lack, whatever the order in which calls store theirs
(`never_loses_a_write`).
-/

namespace CatalogApi.LedgerRefresh

open Runs

/-- The call holds the lock. -/
def Thread.holds (thread : Thread) : Bool :=
  match thread.call, thread.phase with
  | .inline, .reading => true
  | _, .rechecking _ _ | _, .refreshing _ _ | _, .executing _ _ _ => true
  | _, _ => false

/-- The watermark that a call goes by. -/
def Phase.watermark : Phase → Option Nat
  | .deciding current _ | .trying current _ | .rechecking current _ => some current
  | .refreshing watermark _ | .executing watermark _ _ => some watermark
  | _ => none

/-- A refresh is running. -/
def Phase.runs : Phase → Bool
  | .executing _ _ _ => true
  | _ => false

/-- What holds of a call: its watermark counts no write that is not committed, nor, once it refreshes,
one that its snapshot lacks. -/
structure Thread.Sound (committed : List Write) (thread : Thread) : Prop where
  watermark : ∀ watermark, thread.phase.watermark = some watermark → watermark ≤ total committed
  snapshot : ∀ watermark reason snapshot, thread.phase = .executing watermark reason snapshot →
    snapshot <+: committed ∧ watermark ≤ total snapshot

/-- What holds between two steps. -/
structure Sound (state : State) : Prop where
  views : state.db.views <+: state.db.committed
  stored : ∀ watermark, state.db.stored = some watermark → watermark ≤ total state.db.views
  holder : ∀ (i : Nat) (thread : Thread), state.threads[i]? = some thread →
    (thread.holds = true ↔ state.db.lock = some i)
  known : ∀ i, state.db.lock = some i → i < state.threads.length
  threads : ∀ thread ∈ state.threads, thread.Sound state.db.committed

theorem total_append (first second : List Write) :
    total (first ++ second) = total first + total second := by
  rw [total, List.map_append, List.sum_append]
  rfl

theorem total_le {first second : List Write} (h : first <+: second) : total first ≤ total second := by
  obtain ⟨rest, rfl⟩ := h
  rw [total_append]
  exact Nat.le_add_right _ _

/-- Writes that count as many rows as all do are all of them. -/
theorem eq_of_total_le {first second : List Write} (h : first <+: second)
    (hle : total second ≤ total first) : first = second := by
  obtain ⟨rest, rfl⟩ := h
  rw [total_append] at hle
  cases rest with
  | nil => exact (List.append_nil _).symm
  | cons write rest =>
      have hpositive := write.positive
      have hcons : total (write :: rest) = write.rows + total rest := by simp [total]
      omega

theorem Thread.Sound.grow {committed later : List Write} {thread : Thread}
    (h : thread.Sound committed) (hearlier : committed <+: later) : thread.Sound later where
  watermark watermark heq := Nat.le_trans (h.watermark watermark heq) (total_le hearlier)
  snapshot watermark reason snapshot heq :=
    ⟨(h.snapshot watermark reason snapshot heq).1.trans hearlier,
      (h.snapshot watermark reason snapshot heq).2⟩

theorem Sound.initial (committed : List Write) (reflected : Nat) (populated refreshed : Bool)
    (trackers : Nat → ChangeTracker) :
    Sound (.initial committed reflected populated refreshed trackers) where
  views := List.take_prefix _ _
  stored := nofun
  holder := nofun
  known := nofun
  threads := nofun

variable {state : State}

section

variable (h : Sound state)
include h

theorem Sound.write (write : Write) :
    Sound { state with db := { state.db with committed := state.db.committed ++ [write] } } where
  views := h.views.trans (List.prefix_append _ _)
  stored := h.stored
  holder := h.holder
  known := h.known
  threads thread hmem := (h.threads thread hmem).grow (List.prefix_append _ _)

theorem Sound.start (call : Call) :
    Sound { state with threads := state.threads ++ [{ call, phase := call.begin }] } where
  views := h.views
  stored := h.stored
  holder i thread hthread := by
    rw [List.getElem?_append] at hthread
    split at hthread
    · exact h.holder i thread hthread
    · rename_i hge
      obtain ⟨hzero, rfl⟩ : i - state.threads.length = 0 ∧ thread = ⟨call, call.begin⟩ := by
        grind
      refine iff_of_false (by cases call <;> nofun) fun hlock => ?_
      exact hge (h.known i hlock)
  known i hlock := by
    rw [List.length_append]
    exact Nat.lt_add_right _ (h.known i hlock)
  threads thread hmem := by
    rcases List.mem_append.mp hmem with hold | hnew
    · exact h.threads thread hold
    · rw [List.mem_singleton.mp hnew]
      cases call with
      | inline | poll => exact ⟨nofun, nofun⟩

/-- A call goes on; the lock is as it was, taken or released. -/
theorem Sound.replace {index : Nat} {thread : Thread}
    (hthread : state.threads[index]? = some thread) {db : Database} {phase : Phase}
    {trackers : Nat → ChangeTracker}
    (hcommitted : db.committed = state.db.committed)
    (hviews : db.views <+: db.committed)
    (hstored : ∀ watermark, db.stored = some watermark → watermark ≤ total db.views)
    (hlock : db.lock = state.db.lock ∧ ({ thread with phase } : Thread).holds = thread.holds ∨
      state.db.lock = none ∧ db.lock = some index ∧ ({ thread with phase } : Thread).holds = true ∨
      thread.holds = true ∧ db.lock = none ∧ ({ thread with phase } : Thread).holds = false)
    (hsound : ({ thread with phase } : Thread).Sound state.db.committed) :
    Sound { db, trackers, threads := state.threads.set index { thread with phase } } := by
  have hlt := (List.getElem?_eq_some_iff.mp hthread).1
  have hother : ∀ i, i ≠ index → (db.lock = some i ↔ state.db.lock = some i) := by
    intro i hne
    rcases hlock with ⟨heq, -⟩ | ⟨hfree, htaken, -⟩ | ⟨hheld, hfree, -⟩
    · rw [heq]
    · rw [hfree, htaken]
      exact iff_of_false (fun heq => hne (Option.some.inj heq).symm) nofun
    · rw [hfree, (h.holder index thread hthread).mp hheld]
      exact iff_of_false nofun fun heq => hne (Option.some.inj heq).symm
  have hself : ({ thread with phase } : Thread).holds = true ↔ db.lock = some index := by
    rcases hlock with ⟨heq, hsame⟩ | ⟨-, htaken, hholds⟩ | ⟨-, hfree, hholds⟩
    · rw [heq, hsame]
      exact h.holder index thread hthread
    · exact iff_of_true hholds htaken
    · rw [hholds, hfree]
      exact iff_of_false nofun nofun
  refine ⟨hviews, hstored, fun i other hother' => ?_, fun i hheld => ?_, fun other hmem => ?_⟩
  · rw [List.getElem?_set] at hother'
    split at hother'
    · rename_i heq
      subst heq
      obtain rfl := Option.some.inj hother'
      exact hself
    · rename_i hne
      exact (h.holder i other hother').trans (hother i (Ne.symm hne)).symm
  · rw [List.length_set]
    by_cases heq : i = index
    · rw [heq]
      exact hlt
    · exact h.known i ((hother i heq).mp hheld)
  · rw [hcommitted]
    rcases List.mem_or_eq_of_mem_set hmem with hold | rfl
    · exact h.threads other hold
    · exact hsound

/-- The refresh of a call that holds the lock starts: its snapshot has every committed write. -/
theorem Sound.execute {index : Nat} {call : Call} {watermark : Nat} {reason : Option Reason}
    (hthread : state.threads[index]? = some ⟨call, .refreshing watermark reason⟩)
    (trackers : Nat → ChangeTracker) :
    Sound
      { db := state.db
        trackers
        threads := state.threads.set index ⟨call, .executing watermark reason state.db.committed⟩ } := by
  have hwatermark : watermark ≤ total state.db.committed :=
    (h.threads _ (List.mem_of_getElem? hthread)).watermark watermark rfl
  refine h.replace hthread rfl h.views h.stored (Or.inl ⟨rfl, by cases call <;> rfl⟩) ⟨?_, ?_⟩
  · intro other heq
    cases heq
    exact hwatermark
  · intro other reason snapshot heq
    cases heq
    exact ⟨List.prefix_rfl, hwatermark⟩

/-- It commits: the views reflect its snapshot, and so all that its watermark counts. -/
theorem Sound.commit {index : Nat} {call : Call} {watermark : Nat}
    {reason : Option Reason} {snapshot : List Write}
    (hthread : state.threads[index]? = some ⟨call, .executing watermark reason snapshot⟩)
    (trackers : Nat → ChangeTracker) :
    Sound
      { db := state.db.commit watermark snapshot
        trackers
        threads := state.threads.set index ⟨call, .refreshed reason⟩ } := by
  obtain ⟨hearlier, hle⟩ :=
    (h.threads _ (List.mem_of_getElem? hthread)).snapshot watermark reason snapshot rfl
  refine h.replace hthread rfl hearlier ?_ (Or.inr (Or.inr ⟨?_, rfl, ?_⟩)) ⟨nofun, nofun⟩
  · intro other heq
    cases heq
    exact hle
  · cases call with
    | inline | poll => rfl
  · cases call with
    | inline | poll => rfl

/-- A call ends without a refresh. -/
theorem Sound.abandon {index : Nat} {thread : Thread}
    (hthread : state.threads[index]? = some thread) (trackers : Nat → ChangeTracker) :
    Sound
      { db := state.db.release index
        trackers
        threads := state.threads.set index { thread with phase := .nothing } } := by
  have hidle : ({ thread with phase := .nothing } : Thread).holds = false := by
    cases thread.call with
    | inline | poll => rfl
  refine h.replace hthread rfl h.views h.stored ?_ ⟨nofun, nofun⟩
  have hholder := h.holder index thread hthread
  cases hholds : thread.holds with
  | true => exact Or.inr (Or.inr ⟨rfl, if_pos (hholder.mp hholds), hidle⟩)
  | false =>
      refine Or.inl ⟨if_neg fun hlock => ?_, hidle⟩
      rw [hholder.mpr hlock] at hholds
      cases hholds

theorem Sound.refresh_ledger {index : Nat} {phase next : Phase} {db : Database}
    (hthread : state.threads[index]? = some ⟨.inline, phase⟩)
    (hstep : refreshLedger state.db index phase = some (db, next)) (trackers : Nat → ChangeTracker) :
    Sound { db, trackers, threads := state.threads.set index ⟨.inline, next⟩ } := by
  cases phase with
  | waiting =>
      rw [refreshLedger] at hstep
      split at hstep
      · rename_i hfree
        cases hstep
        exact h.replace hthread rfl h.views h.stored (Or.inr (Or.inl ⟨hfree, rfl, rfl⟩)) ⟨nofun, nofun⟩
      · cases hstep
  | reading =>
      cases hstep
      refine h.replace hthread rfl h.views h.stored (Or.inl ⟨rfl, rfl⟩) ⟨?_, nofun⟩
      intro watermark heq
      cases heq
      exact Nat.le_refl _
  | refreshing watermark reason =>
      cases hstep
      exact h.execute hthread trackers
  | executing watermark reason snapshot =>
      cases hstep
      exact h.commit hthread trackers
  | deciding | trying | rechecking | refreshed | nothing => cases hstep

/-- A step of a poll keeps the invariant. -/
theorem Sound.poll_once {index : Nat} {phase next : Phase} {db : Database}
    {replica : Nat} {quiet maxStaleness clock age : ℚ} {tracker tracker' : ChangeTracker}
    (hthread : state.threads[index]? = some ⟨.poll replica quiet maxStaleness, phase⟩)
    (hstep : pollOnce quiet maxStaleness state.db tracker index clock age phase =
      some (db, tracker', next)) (trackers : Nat → ChangeTracker) :
    Sound
      { db, trackers, threads := state.threads.set index ⟨.poll replica quiet maxStaleness, next⟩ } := by
  have hwatermark := (h.threads _ (List.mem_of_getElem? hthread)).watermark
  -- Between its reads a poll keeps the watermark it read first.
  have hkeeps : ∀ current, phase.watermark = some current → ∀ next : Phase,
      next.watermark = some current → ∀ watermark, next.watermark = some watermark →
      watermark ≤ total state.db.committed := by
    intro current hphase next hnext watermark heq
    rw [hnext] at heq
    cases heq
    exact hwatermark current hphase
  cases phase with
  | reading =>
      cases hstep
      refine h.replace hthread rfl h.views h.stored (Or.inl ⟨rfl, rfl⟩) ⟨?_, nofun⟩
      intro watermark heq
      cases heq
      exact Nat.le_refl _
  | deciding current stillFor =>
      rw [pollOnce] at hstep
      split at hstep
      · cases hstep
        exact h.replace hthread rfl h.views h.stored (Or.inl ⟨rfl, rfl⟩) ⟨nofun, nofun⟩
      · cases hstep
        exact h.replace hthread rfl h.views h.stored (Or.inl ⟨rfl, rfl⟩)
          ⟨hkeeps current rfl _ rfl, nofun⟩
  | trying current stillFor =>
      rw [pollOnce] at hstep
      split at hstep
      · rename_i hfree
        cases hstep
        exact h.replace hthread rfl h.views h.stored (Or.inr (Or.inl ⟨hfree, rfl, rfl⟩))
          ⟨hkeeps current rfl _ rfl, nofun⟩
      · cases hstep
        exact h.replace hthread rfl h.views h.stored (Or.inl ⟨rfl, rfl⟩) ⟨nofun, nofun⟩
  | rechecking current stillFor =>
      rw [pollOnce] at hstep
      split at hstep
      · cases hstep
        exact h.abandon hthread trackers
      · cases hstep
        exact h.replace hthread rfl h.views h.stored (Or.inl ⟨rfl, rfl⟩)
          ⟨hkeeps current rfl _ rfl, nofun⟩
  | refreshing watermark reason =>
      cases hstep
      exact h.execute hthread trackers
  | executing watermark reason snapshot =>
      cases hstep
      exact h.commit hthread trackers
  | waiting | refreshed | nothing => cases hstep

end

/-- A step that can happen, by what it is. -/
theorem advance_cases {index : Nat} {clock age : ℚ} {next : State}
    (h : step state (.advance index clock age) = .ok next) :
    ∃ call phase db phase' trackers, state.threads[index]? = some ⟨call, phase⟩ ∧
      next = { db, trackers, threads := state.threads.set index ⟨call, phase'⟩ } ∧
      ((call = .inline ∧ refreshLedger state.db index phase = some (db, phase')) ∨
        ∃ replica quiet maxStaleness tracker, call = .poll replica quiet maxStaleness ∧
          pollOnce quiet maxStaleness state.db (state.trackers replica) index clock age phase =
            some (db, tracker, phase')) := by
  rw [step] at h
  split at h
  · rename_i after hbind
    obtain rfl := Except.ok.inj h
    obtain ⟨⟨call, phase⟩, hthread, hadvance⟩ := Option.bind_eq_some_iff.mp hbind
    rw [advance] at hadvance
    cases call with
    | inline =>
        dsimp only at hadvance
        split at hadvance
        · rename_i db phase' hstep
          exact ⟨_, phase, db, phase', _, hthread, (Option.some.inj hadvance).symm,
            Or.inl ⟨rfl, hstep⟩⟩
        · cases hadvance
    | poll replica quiet maxStaleness =>
        dsimp only at hadvance
        split at hadvance
        · rename_i db tracker phase' hstep
          exact ⟨_, phase, db, phase', _, hthread, (Option.some.inj hadvance).symm,
            Or.inr ⟨replica, quiet, maxStaleness, tracker, rfl, hstep⟩⟩
        · cases hadvance
  · cases h

theorem Sound.step {label : Label} {next : State} (h : Sound state)
    (hstep : step state label = .ok next) : Sound next := by
  cases label with
  | write write =>
      obtain rfl := Except.ok.inj hstep
      exact h.write write
  | start call =>
      obtain rfl := Except.ok.inj hstep
      exact h.start call
  | advance index clock age =>
      obtain ⟨call, phase, db, phase', trackers, hthread, rfl,
        ⟨rfl, hrefresh⟩ | ⟨replica, quiet, maxStaleness, tracker, rfl, hpoll⟩⟩ := advance_cases hstep
      · exact h.refresh_ledger hthread hrefresh trackers
      · exact h.poll_once hthread hpoll trackers
  | fail index =>
      rw [LedgerRefresh.step] at hstep
      split at hstep
      · rename_i thread hthread
        split at hstep
        · cases hstep
        · obtain rfl := Except.ok.inj hstep
          exact h.abandon hthread state.trackers
      · cases hstep

/-! ## A call that returned None -/

/-- The step is this call's. -/
def Label.of (index : Nat) : Label → Prop
  | .advance thread _ _ | .fail thread => thread = index
  | _ => False

/-- A statement of an inline refresh changes the views or the stored watermark only where it commits. -/
theorem refresh_ledger_changed {db next : Database} {index : Nat} {phase phase' : Phase}
    (h : refreshLedger db index phase = some (next, phase')) :
    (next.views = db.views ∧ next.stored = db.stored) ∨ ∃ reason, phase' = .refreshed reason := by
  cases phase with
  | waiting =>
      rw [refreshLedger] at h
      split at h
      · cases h
        exact Or.inl ⟨rfl, rfl⟩
      · cases h
  | reading | refreshing =>
      cases h
      exact Or.inl ⟨rfl, rfl⟩
  | executing watermark reason snapshot =>
      cases h
      exact Or.inr ⟨reason, rfl⟩
  | deciding | trying | rechecking | refreshed | nothing => cases h

theorem poll_once_changed {db next : Database} {index : Nat} {phase phase' : Phase}
    {quiet maxStaleness clock age : ℚ} {tracker tracker' : ChangeTracker}
    (h : pollOnce quiet maxStaleness db tracker index clock age phase =
      some (next, tracker', phase')) :
    (next.views = db.views ∧ next.stored = db.stored) ∨ ∃ reason, phase' = .refreshed reason := by
  cases phase with
  | reading | refreshing =>
      cases h
      exact Or.inl ⟨rfl, rfl⟩
  | deciding | trying | rechecking =>
      rw [pollOnce] at h
      split at h <;> cases h <;> exact Or.inl ⟨rfl, rfl⟩
  | executing watermark reason snapshot =>
      cases h
      exact Or.inr ⟨reason, rfl⟩
  | waiting | refreshed | nothing => cases h

/-- A step of a call changes the views or the stored watermark only where it commits. -/
theorem changed_by_commit {index : Nat} {label : Label} {next : State} (hof : label.of index)
    (hstep : step state label = .ok next) :
    (next.db.views = state.db.views ∧ next.db.stored = state.db.stored) ∨
      ∃ call reason, next.threads[index]? = some ⟨call, .refreshed reason⟩ := by
  cases label with
  | write write => exact hof.elim
  | start call => exact hof.elim
  | advance thread clock age =>
      obtain rfl : thread = index := hof
      obtain ⟨call, phase, db, phase', trackers, hthread, rfl, hnext⟩ := advance_cases hstep
      have hlt := (List.getElem?_eq_some_iff.mp hthread).1
      have hchanged : (db.views = state.db.views ∧ db.stored = state.db.stored) ∨
          ∃ reason, phase' = .refreshed reason := by
        rcases hnext with ⟨-, hrefresh⟩ | ⟨replica, quiet, maxStaleness, tracker, -, hpoll⟩
        · exact refresh_ledger_changed hrefresh
        · exact poll_once_changed hpoll
      refine hchanged.imp_right fun ⟨reason, heq⟩ => ⟨call, reason, ?_⟩
      subst heq
      exact List.getElem?_set_self hlt
  | fail thread =>
      rw [step] at hstep
      split at hstep
      · split at hstep
        · cases hstep
        · obtain rfl := Except.ok.inj hstep
          exact Or.inl ⟨rfl, rfl⟩
      · cases hstep

/-- A call that has committed stays so. -/
theorem refreshed_stays {index : Nat} {call : Call} {reason : Option Reason} {label : Label}
    {next : State} (h : state.threads[index]? = some ⟨call, .refreshed reason⟩)
    (hstep : step state label = .ok next) : next.threads[index]? = some ⟨call, .refreshed reason⟩ := by
  have hlt := (List.getElem?_eq_some_iff.mp h).1
  cases label with
  | write write =>
      obtain rfl := Except.ok.inj hstep
      exact h
  | start other =>
      obtain rfl := Except.ok.inj hstep
      exact (List.getElem?_append_left hlt).trans h
  | advance thread clock age =>
      obtain ⟨other, phase, db, phase', trackers, hthread, rfl, hnext⟩ := advance_cases hstep
      by_cases heq : thread = index
      · subst heq
        cases h.symm.trans hthread
        rcases hnext with ⟨-, hrefresh⟩ | ⟨replica, quiet, maxStaleness, tracker, -, hpoll⟩
        · cases hrefresh
        · cases hpoll
      · exact (List.getElem?_set_ne heq).trans h
  | fail thread =>
      rw [step] at hstep
      split at hstep
      · rename_i other hthread
        split at hstep
        · cases hstep
        · rename_i hreturned
          obtain rfl := Except.ok.inj hstep
          by_cases heq : thread = index
          · subst heq
            cases h.symm.trans hthread
            exact absurd rfl hreturned
          · exact (List.getElem?_set_ne heq).trans h
      · cases hstep

/-! ## Every run -/

/-- In every reachable state: where the stored watermark is the current one, the views reflect every
committed write; at most one refresh runs; and no step of a call that returned None has changed the
views or the stored watermark. -/
theorem never_loses_a_write (committed : List Write) (reflected : Nat) (populated refreshed : Bool)
    (trackers : Nat → ChangeTracker) (trace : List Label) (state : State)
    (h : execute step (.initial committed reflected populated refreshed trackers) trace = .ok state) :
    (state.db.stored = some state.db.watermark → state.db.views = state.db.committed) ∧
      (∀ (i j : Nat) (a b : Thread), state.threads[i]? = some a → state.threads[j]? = some b →
        a.phase.runs = true → b.phase.runs = true → i = j) ∧
      ∀ (index : Nat) (call : Call) (before after : List Label) (label : Label) (earlier later : State),
        state.threads[index]? = some ⟨call, .nothing⟩ → trace = before ++ label :: after →
        label.of index →
        execute step (.initial committed reflected populated refreshed trackers) before = .ok earlier →
        step earlier label = .ok later →
        later.db.views = earlier.db.views ∧ later.db.stored = earlier.db.stored := by
  have hsound : Sound state := execute_induction (motive := fun _ state => Sound state)
    (Sound.initial committed reflected populated refreshed trackers)
    (fun _ _ _ _ _ hstate hstep => hstate.step hstep) h
  refine ⟨fun hcurrent => ?_, fun i j a b ha hb haruns hbruns => ?_, ?_⟩
  · exact eq_of_total_le hsound.views (hsound.stored _ hcurrent)
  · have hholds : ∀ thread : Thread, thread.phase.runs = true → thread.holds = true := by
      rintro ⟨call, phase⟩ hruns
      cases phase with
      | executing => cases call with
        | inline | poll => rfl
      | waiting | reading | deciding | trying | rechecking | refreshing | refreshed | nothing =>
          cases hruns
    have hi := (hsound.holder i a ha).mp (hholds a haruns)
    have hj := (hsound.holder j b hb).mp (hholds b hbruns)
    exact Option.some.inj (hi.symm.trans hj)
  · intro index call before after label earlier later hnothing htrace hof hbefore hstep
    rcases changed_by_commit hof hstep with hsame | ⟨call', reason, hrefreshed⟩
    · exact hsame
    · rw [htrace, execute_append, hbefore] at h
      simp only [Except.bind, execute_cons, hstep] at h
      have hstays : state.threads[index]? = some ⟨call', .refreshed reason⟩ :=
        execute_induction (motive := fun _ state =>
          state.threads[index]? = some ⟨call', .refreshed reason⟩) hrefreshed
          (fun _ _ _ _ _ hstate hnext => refreshed_stays hstate hnext) h
      cases hnothing.symm.trans hstays

/-- A write commits between the watermark of an inline refresh and its snapshot. -/
theorem never_loses_a_write_between : ∃ state,
    execute step (.initial [⟨2, by decide⟩] 0 false false fun _ => ⟨none, 0⟩)
      [.start .inline, .advance 0 0 0, .advance 0 0 0, .write ⟨3, by decide⟩, .advance 0 0 0,
        .advance 0 0 0] = .ok state ∧
      (state.db.stored = some state.db.watermark → state.db.views = state.db.committed) := by
  refine ⟨_, rfl, ?_⟩
  exact (never_loses_a_write [⟨2, by decide⟩] 0 false false (fun _ => ⟨none, 0⟩)
    [.start .inline, .advance 0 0 0, .advance 0 0 0, .write ⟨3, by decide⟩, .advance 0 0 0,
      .advance 0 0 0] _ rfl).1

end CatalogApi.LedgerRefresh
