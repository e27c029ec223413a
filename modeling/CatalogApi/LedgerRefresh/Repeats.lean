import CatalogApi.LedgerRefresh.Freshness

/-!
# What the poll repeats

A poll compares the watermark it read before the lock with the one that is stored when it has the lock.
`Watched` keeps beside the service what each call has seen pass since it read its watermark, and
`poll_not_repeated` says when the comparison catches every refresh that made the poll's own needless:
when the stored watermark is the poll's own, or neither the quiet interval nor the maximum staleness
asks for a refresh. The first is the case where no write comes between the reading of a watermark and
the end of its call (`settled_of_writes_between`).
-/

namespace CatalogApi.LedgerRefresh

open Runs

deriving instance DecidableEq for Write

/-- The service, with the writes that were committed when each call read its watermark, and the
snapshots of the refreshes that have committed since. -/
structure Watched where
  state : State
  read : Nat → List Write
  since : Nat → List (List Write)

namespace Watched

/-- Note what a step did. -/
def note (watched : Watched) (label : Label) (state : State) : Watched :=
  match label with
  | .advance index _ _ =>
      match watched.state.threads[index]? with
      | some ⟨_, .reading⟩ =>
          { state
            read := Function.update watched.read index watched.state.db.committed
            since := Function.update watched.since index [] }
      | some ⟨_, .executing _ _ snapshot⟩ =>
          { watched with state, since := fun call => snapshot :: watched.since call }
      | _ => { watched with state }
  | _ => { watched with state }

/-- A refresh has committed since the call read its watermark, and its snapshot includes every write
that the watermark counts. -/
def Overtaken (watched : Watched) (index : Nat) : Prop :=
  ∃ snapshot ∈ watched.since index, watched.read index <+: snapshot

instance (watched : Watched) (index : Nat) : Decidable (watched.Overtaken index) :=
  inferInstanceAs (Decidable (∃ _ ∈ _, _))

end Watched

/-- One step of the service, noted. -/
def watch (watched : Watched) (label : Label) : Except Unit Watched :=
  match step watched.state label with
  | .ok state => .ok (watched.note label state)
  | .error failure => .error failure

/-- An overtaken poll that comes to its lock returns None. -/
def NotRepeated (watched : Watched) (label : Label) : Prop :=
  ∀ index clock age call current stillFor, label = .advance index clock age →
    watched.state.threads[index]? = some ⟨call, .rechecking current stillFor⟩ →
    watched.Overtaken index →
    ∀ next, step watched.state label = .ok next → next.threads[index]? = some ⟨call, .nothing⟩

/-- The stored watermark does not decrease. -/
def NeverDecreases (watched : Watched) (label : Label) : Prop :=
  ∀ next, step watched.state label = .ok next → ∀ stored, watched.state.db.stored = some stored →
    ∃ later, next.db.stored = some later ∧ stored ≤ later

/-- Where an overtaken poll comes to its lock, the stored watermark is its own, or neither the quiet
interval nor the maximum staleness asks for a refresh. -/
def Settled (watched : Watched) : Label → Prop
  | .advance index _ age =>
      match watched.state.threads[index]? with
      | some ⟨.poll _ quiet maxStaleness, .rechecking current stillFor⟩ =>
          watched.Overtaken index →
            watched.state.db.stored = some current ∨ (stillFor < quiet ∧ age < maxStaleness)
      | _ => True
  | _ => True

instance (watched : Watched) (label : Label) : Decidable (Settled watched label) := by
  unfold Settled
  repeat' split
  all_goals infer_instance

/-! ## What each call may rely on -/

/-- The watermark of a poll that has not decided yet. -/
def Phase.undecided : Phase → Option Nat
  | .deciding current _ | .trying current _ | .rechecking current _ => some current
  | _ => none

/-- The watermark that a call is about to store. -/
def Phase.storing : Phase → Option Nat
  | .refreshing watermark _ | .executing watermark _ _ => some watermark
  | _ => none

/-- The watermark of a call counts what was committed when it read it; a greater stored one is of a
refresh that overtook it, and none is greater than one about to be stored. -/
structure Kept (watched : Watched) (index : Nat) (phase : Phase) : Prop where
  counts : ∀ current, phase.undecided = some current → total (watched.read index) = current
  committed : ∀ current, phase.undecided = some current →
    watched.read index <+: watched.state.db.committed
  overtaken : ∀ current, phase.undecided = some current →
    ∀ stored, watched.state.db.stored = some stored → current < stored → watched.Overtaken index
  storing : ∀ watermark, phase.storing = some watermark →
    ∀ stored, watched.state.db.stored = some stored → stored ≤ watermark

/-- What holds between two steps. -/
structure Watching (watched : Watched) : Prop where
  sound : Sound watched.state
  populated : watched.state.db.populated = true ∧ watched.state.db.refreshed = true
  kept : ∀ (index : Nat) (thread : Thread), watched.state.threads[index]? = some thread →
    Kept watched index thread.phase

/-- A call that has decided relies on nothing. -/
theorem kept_of_none {watched : Watched} {index : Nat} {phase : Phase}
    (hundecided : phase.undecided = none) (hstoring : phase.storing = none) :
    Kept watched index phase := by
  refine ⟨?_, ?_, ?_, ?_⟩
  · exact hundecided ▸ nofun
  · exact hundecided ▸ nofun
  · exact hundecided ▸ nofun
  · exact hstoring ▸ nofun

/-- A step that leaves the stored watermark and the call's own notes alone. -/
theorem Kept.frame {watched next : Watched} {index : Nat} {phase : Phase}
    (h : Kept watched index phase)
    (hcommitted : watched.state.db.committed <+: next.state.db.committed)
    (hstored : next.state.db.stored = watched.state.db.stored)
    (hread : next.read index = watched.read index) (hsince : next.since index = watched.since index) :
    Kept next index phase where
  counts current hcurrent := hread ▸ h.counts current hcurrent
  committed current hcurrent := hread ▸ (h.committed current hcurrent).trans hcommitted
  overtaken current hcurrent stored hstoredNow hlt := by
    obtain ⟨snapshot, hmem, hprefix⟩ := h.overtaken current hcurrent stored (hstored ▸ hstoredNow) hlt
    exact ⟨snapshot, hsince ▸ hmem, hread ▸ hprefix⟩
  storing watermark hwatermark stored hstoredNow :=
    h.storing watermark hwatermark stored (hstored ▸ hstoredNow)

/-- A call that keeps its watermark undecided. -/
theorem Kept.undecided {watched : Watched} {index : Nat} {phase phase' : Phase}
    (h : Kept watched index phase) {current : Nat} (hphase : phase.undecided = some current)
    (hphase' : phase'.undecided = some current) (hstoring : phase'.storing = none) :
    Kept watched index phase' where
  counts other hother := h.counts other (hphase.trans (hphase'.symm.trans hother))
  committed other hother := h.committed other (hphase.trans (hphase'.symm.trans hother))
  overtaken other hother := h.overtaken other (hphase.trans (hphase'.symm.trans hother))
  storing := hstoring ▸ nofun

/-- A call that keeps the watermark it is about to store. -/
theorem Kept.storing' {watched : Watched} {index : Nat} {phase phase' : Phase}
    (h : Kept watched index phase) {watermark : Nat} (hphase : phase.storing = some watermark)
    (hphase' : phase'.storing = some watermark) (hundecided : phase'.undecided = none) :
    Kept watched index phase' where
  counts := hundecided ▸ nofun
  committed := hundecided ▸ nofun
  overtaken := hundecided ▸ nofun
  storing other hother := h.storing other (hphase.trans (hphase'.symm.trans hother))

/-! ## The decision -/

/-- Under populated views a poll returns None exactly where the stored watermark is its own or neither
threshold is reached. -/
theorem refresh_reason_none {db : Database} (h : db.populated = true ∧ db.refreshed = true)
    {age stillFor quiet maxStaleness : ℚ} {current : Nat} :
    refreshReason (db.readState age current) stillFor quiet maxStaleness = none ↔
      db.stored = some current ∨ (stillFor < quiet ∧ age < maxStaleness) := by
  simp only [refreshReason, Database.readState, h.1, h.2, Bool.and_self, Bool.not_true,
    Bool.false_eq_true, if_false, if_true]
  by_cases hstored : db.stored = some current
  · simp [hstored]
  by_cases hquiet : quiet ≤ stillFor
  · simp [hstored, hquiet, not_lt.mpr hquiet]
  by_cases hstale : maxStaleness ≤ age
  · simp [hstored, hquiet, hstale, not_lt.mpr hstale]
  · simp [hstored, hquiet, hstale, not_le.mp hquiet, not_le.mp hstale]

/-! ## What a step can do -/

/-- The databases differ in the lock at most. -/
structure SameButLock (db next : Database) : Prop where
  committed : next.committed = db.committed
  stored : next.stored = db.stored
  populated : next.populated = db.populated
  refreshed : next.refreshed = db.refreshed

/-- What a step of a call does, as far as the stored watermark depends on it. -/
inductive Moved (db : Database) (age : ℚ) : Call → Phase → Database → Phase → Prop where
  | idles {call : Call} {phase phase' : Phase} {next : Database} (same : SameButLock db next)
      (reads : phase ≠ .reading) (executes : ∀ watermark reason snapshot,
        phase ≠ .executing watermark reason snapshot)
      (undecided : phase'.undecided = none) (storing : phase'.storing = none) :
      Moved db age call phase next phase'
  | waits {call : Call} {phase phase' : Phase} {next : Database} {current : Nat}
      (same : SameButLock db next) (undecided : phase.undecided = some current)
      (undecided' : phase'.undecided = some current) (storing : phase'.storing = none) :
      Moved db age call phase next phase'
  | reads {call : Call} {phase' : Phase} (storing : phase'.storing = none)
      (undecided : phase'.undecided = some (total db.committed)) :
      Moved db age call .reading db phase'
  | readsLocked {call : Call} : Moved db age call .reading db (.refreshing (total db.committed) none)
  | rechecks {replica : Nat} {quiet maxStaleness stillFor : ℚ} {current : Nat} {reason : Reason}
      (decided : refreshReason (db.readState age current) stillFor quiet maxStaleness = some reason) :
      Moved db age (.poll replica quiet maxStaleness) (.rechecking current stillFor) db
        (.refreshing current (some reason))
  | executes {call : Call} {watermark : Nat} {reason : Option Reason} :
      Moved db age call (.refreshing watermark reason) db (.executing watermark reason db.committed)
  | commits {call : Call} {watermark : Nat} {reason : Option Reason} {snapshot : List Write} :
      Moved db age call (.executing watermark reason snapshot) (db.commit watermark snapshot)
        (.refreshed reason)

theorem same_but_lock {db : Database} {lock : Option Nat} : SameButLock db { db with lock } :=
  ⟨rfl, rfl, rfl, rfl⟩

theorem refresh_ledger_moved {db next : Database} {index : Nat} {age : ℚ} {phase phase' : Phase}
    (h : refreshLedger db index phase = some (next, phase')) :
    Moved db age .inline phase next phase' := by
  cases phase with
  | waiting =>
      rw [refreshLedger] at h
      split at h
      · cases h
        exact .idles same_but_lock (by simp) (by simp) rfl rfl
      · cases h
  | reading =>
      cases h
      exact .readsLocked
  | refreshing watermark reason =>
      cases h
      exact .executes
  | executing watermark reason snapshot =>
      cases h
      exact .commits
  | deciding | trying | rechecking | refreshed | nothing => cases h

/-- What a step of a poll does to the database. -/
theorem poll_once_moved {db next : Database} {index replica : Nat} {phase phase' : Phase}
    {quiet maxStaleness clock age : ℚ} {tracker tracker' : ChangeTracker}
    (h : pollOnce quiet maxStaleness db tracker index clock age phase =
      some (next, tracker', phase')) :
    Moved db age (.poll replica quiet maxStaleness) phase next phase' := by
  cases phase with
  | reading =>
      cases h
      exact .reads rfl rfl
  | deciding current stillFor =>
      rw [pollOnce] at h
      split at h <;> cases h
      · exact .idles same_but_lock (by simp) (by simp) rfl rfl
      · exact .waits same_but_lock rfl rfl rfl
  | trying current stillFor =>
      rw [pollOnce] at h
      split at h <;> cases h
      · exact .waits same_but_lock rfl rfl rfl
      · exact .idles same_but_lock (by simp) (by simp) rfl rfl
  | rechecking current stillFor =>
      rw [pollOnce] at h
      split at h
      · cases h
        exact .idles same_but_lock (by simp) (by simp) rfl rfl
      · rename_i reason hreason
        cases h
        exact .rechecks hreason
  | refreshing watermark reason =>
      cases h
      exact .executes
  | executing watermark reason snapshot =>
      cases h
      exact .commits
  | waiting | refreshed | nothing => cases h

/-- A step of a call, by what it does. -/
theorem advance_moved {state next : State} {index : Nat} {clock age : ℚ}
    (h : step state (.advance index clock age) = .ok next) :
    ∃ call phase db phase' trackers, state.threads[index]? = some ⟨call, phase⟩ ∧
      next = { db, trackers, threads := state.threads.set index ⟨call, phase'⟩ } ∧
      Moved state.db age call phase db phase' := by
  obtain ⟨call, phase, db, phase', trackers, hthread, hnext,
    ⟨rfl, hrefresh⟩ | ⟨replica, quiet, maxStaleness, tracker, rfl, hpoll⟩⟩ := advance_cases h
  · exact ⟨_, phase, db, phase', trackers, hthread, hnext, refresh_ledger_moved hrefresh⟩
  · exact ⟨_, phase, db, phase', trackers, hthread, hnext, poll_once_moved hpoll⟩

/-! ## One step -/

section Step

variable {watched : Watched} {index : Nat} {clock age : ℚ}

/-- The notes of a step of a call that neither reads its watermark nor commits. -/
theorem note_other {state : State} {thread : Thread}
    (hthread : watched.state.threads[index]? = some thread) (hreads : thread.phase ≠ .reading)
    (hexecutes : ∀ watermark reason snapshot, thread.phase ≠ .executing watermark reason snapshot) :
    watched.note (.advance index clock age) state = { watched with state } := by
  rw [Watched.note]
  split
  · rename_i heq
    obtain rfl := Option.some.inj (hthread.symm.trans heq)
    exact absurd rfl hreads
  · rename_i heq
    obtain rfl := Option.some.inj (hthread.symm.trans heq)
    exact absurd rfl (hexecutes _ _ _)
  · rfl

theorem note_reads {state : State} {call : Call}
    (hthread : watched.state.threads[index]? = some ⟨call, .reading⟩) :
    watched.note (.advance index clock age) state =
      { state
        read := Function.update watched.read index watched.state.db.committed
        since := Function.update watched.since index [] } := by
  rw [Watched.note]
  rw [hthread]

theorem note_commits {state : State} {call : Call} {watermark : Nat} {reason : Option Reason}
    {snapshot : List Write}
    (hthread : watched.state.threads[index]? = some ⟨call, .executing watermark reason snapshot⟩) :
    watched.note (.advance index clock age) state =
      { watched with state, since := fun call => snapshot :: watched.since call } := by
  rw [Watched.note]
  rw [hthread]

/-- One call went on; what the others rely on is as it was. -/
theorem Watching.replace {next : Watched} {call : Call} {phase' : Phase}
    (hsound : Sound next.state)
    (hthreads : next.state.threads = watched.state.threads.set index ⟨call, phase'⟩)
    (hpopulated : next.state.db.populated = true ∧ next.state.db.refreshed = true)
    (hother : ∀ i thread, i ≠ index → watched.state.threads[i]? = some thread →
      Kept next i thread.phase) (hself : Kept next index phase') : Watching next := by
  refine ⟨hsound, hpopulated, fun i thread hthread => ?_⟩
  rw [hthreads, List.getElem?_set] at hthread
  split at hthread
  · rename_i heq
    subst heq
    split at hthread
    · obtain rfl := Option.some.inj hthread
      exact hself
    · cases hthread
  · rename_i hne
    exact hother i thread (Ne.symm hne) hthread

section

variable (h : Watching watched)
include h

/-- A step that changes the lock at most, and notes nothing. -/
theorem Watching.frame {call : Call} {phase' : Phase} {db : Database}
    {trackers : Nat → ChangeTracker} (hsame : SameButLock watched.state.db db)
    (hsound : Sound
      { db, trackers, threads := watched.state.threads.set index ⟨call, phase'⟩ })
    (hself : Kept watched index phase') :
    Watching
      { watched with
        state := { db, trackers, threads := watched.state.threads.set index ⟨call, phase'⟩ } } := by
  have hcommitted : watched.state.db.committed <+: db.committed := hsame.committed ▸ List.prefix_rfl
  refine Watching.replace hsound rfl ?_ (fun i thread _ hthread => ?_) ?_
  · exact ⟨hsame.populated.trans h.populated.1, hsame.refreshed.trans h.populated.2⟩
  · exact (h.kept i thread hthread).frame hcommitted hsame.stored rfl rfl
  · exact hself.frame hcommitted hsame.stored rfl rfl

/-- Where a poll decides to refresh, no greater watermark is stored, if the sources are settled. -/
theorem stored_le_of_rechecks {replica current : Nat} {quiet maxStaleness stillFor : ℚ} {reason : Reason}
    (hthread : watched.state.threads[index]? =
      some ⟨.poll replica quiet maxStaleness, .rechecking current stillFor⟩)
    (hsettled : Settled watched (.advance index clock age))
    (hdecided : refreshReason (watched.state.db.readState age current) stillFor quiet maxStaleness =
      some reason) {stored : Nat} (hstored : watched.state.db.stored = some stored) :
    stored ≤ current := by
  by_contra hlt
  have hovertaken := (h.kept index _ hthread).overtaken current rfl stored hstored (not_le.mp hlt)
  simp only [Settled, hthread] at hsettled
  have hnone := (refresh_reason_none h.populated).mpr (hsettled hovertaken)
  cases hdecided.symm.trans hnone

/-- A step of a call where the sources are settled. -/
theorem Watching.advance {state : State} (hsettled : Settled watched (.advance index clock age))
    (hstep : step watched.state (.advance index clock age) = .ok state) :
    Watching (watched.note (.advance index clock age) state) := by
  have hsound := h.sound.step hstep
  obtain ⟨call, phase, db, phase', trackers, hthread, rfl, hmoved⟩ := advance_moved hstep
  have hkept : Kept watched index phase := h.kept index _ hthread
  cases hmoved with
  | idles same reads executes undecided storing =>
      rw [note_other hthread reads executes]
      exact h.frame same hsound (kept_of_none undecided storing)
  | waits same undecided undecided' storing =>
      rw [note_other hthread (by rintro rfl; cases undecided) (by rintro _ _ _ rfl; cases undecided)]
      exact h.frame same hsound (hkept.undecided undecided undecided' storing)
  | reads storing undecided =>
      rw [note_reads hthread]
      refine Watching.replace hsound rfl h.populated (fun i thread hne hi => ?_) ?_
      · exact (h.kept i thread hi).frame List.prefix_rfl rfl (Function.update_of_ne hne ..)
          (Function.update_of_ne hne ..)
      · refine ⟨fun current hcurrent => ?_, fun current _ => ?_, fun current hcurrent stored hstored hlt => ?_,
          storing ▸ nofun⟩
        · obtain rfl := Option.some.inj (undecided.symm.trans hcurrent)
          exact congrArg total (Function.update_self ..)
        · have hread : Function.update watched.read index watched.state.db.committed index =
              watched.state.db.committed := Function.update_self ..
          exact ⟨[], (List.append_nil _).trans hread⟩
        · obtain rfl := Option.some.inj (undecided.symm.trans hcurrent)
          -- what was just read is not below the stored watermark
          have hle := (h.sound.stored stored hstored).trans (total_le h.sound.views)
          exact absurd hle (not_le.mpr hlt)
  | readsLocked =>
      rw [note_reads hthread]
      refine Watching.replace hsound rfl h.populated (fun i thread hne hi => ?_) ?_
      · exact (h.kept i thread hi).frame List.prefix_rfl rfl (Function.update_of_ne hne ..)
          (Function.update_of_ne hne ..)
      · refine ⟨nofun, nofun, nofun, fun watermark hwatermark stored hstored => ?_⟩
        obtain rfl := Option.some.inj hwatermark
        exact (h.sound.stored stored hstored).trans (total_le h.sound.views)
  | rechecks decided =>
      rw [note_other hthread nofun nofun]
      refine h.frame same_but_lock hsound ⟨nofun, nofun, nofun, fun watermark hwatermark => ?_⟩
      obtain rfl := Option.some.inj hwatermark
      intro stored hstored
      exact stored_le_of_rechecks h hthread hsettled decided hstored
  | executes =>
      rw [note_other hthread nofun nofun]
      exact h.frame same_but_lock hsound (hkept.storing' rfl rfl rfl)
  | @commits _ watermark reason snapshot =>
      rw [note_commits hthread]
      have hself := (h.sound.threads _ (List.mem_of_getElem? hthread)).snapshot watermark reason
        snapshot rfl
      have hlocked : watched.state.db.lock = some index := by
        refine (h.sound.holder index _ hthread).mp ?_
        cases call with
        | inline | poll => rfl
      refine Watching.replace hsound rfl ⟨rfl, rfl⟩ (fun i thread hne hi => ?_) (kept_of_none rfl rfl)
      have hi' := h.kept i thread hi
      refine ⟨hi'.counts, hi'.committed, fun current hcurrent stored hstored hlt => ?_, ?_⟩
      · obtain rfl := Option.some.inj hstored
        refine ⟨snapshot, List.mem_cons_self, ?_⟩
        obtain hprefix | hprefix :=
          List.prefix_or_prefix_of_prefix (hi'.committed current hcurrent) hself.1
        · exact hprefix
        · have hle := total_le hprefix
          rw [hi'.counts current hcurrent] at hle
          exact absurd (hself.2.trans hle) (not_le.mpr hlt)
      · intro other hother
        have hholds : thread.holds = true := by
          obtain ⟨call', phase⟩ := thread
          cases phase with
          | refreshing | executing => cases call' with
            | inline | poll => rfl
          | waiting | reading | deciding | trying | rechecking | refreshed | nothing => cases hother
        have hlock := (h.sound.holder i thread hi).mp hholds
        exact absurd (Option.some.inj (hlock.symm.trans hlocked)) hne

/-- A settled step keeps the watch. -/
theorem Watching.watch {next : Watched} {label : Label}
    (hsettled : Settled watched label) (hstep : watch watched label = .ok next) : Watching next := by
  rw [LedgerRefresh.watch] at hstep
  split at hstep
  case h_2 => cases hstep
  rename_i state hnext
  obtain rfl := Except.ok.inj hstep
  have hsound := h.sound.step hnext
  cases label with
  | write write =>
      obtain rfl := Except.ok.inj hnext
      refine ⟨hsound, h.populated, fun i thread hthread => ?_⟩
      exact (h.kept i thread hthread).frame (List.prefix_append _ _) rfl rfl rfl
  | start call =>
      obtain rfl := Except.ok.inj hnext
      refine ⟨hsound, h.populated, fun i thread hthread => ?_⟩
      have hphase : Kept watched i thread.phase := by
        have hthread : (watched.state.threads ++ [{ call, phase := call.begin }])[i]? = some thread :=
          hthread
        rw [List.getElem?_append] at hthread
        split at hthread
        · exact h.kept i thread hthread
        · obtain rfl := List.mem_singleton.mp (List.mem_of_getElem? hthread)
          cases call with
          | inline | poll => exact kept_of_none rfl rfl
      exact hphase.frame List.prefix_rfl rfl rfl rfl
  | advance index clock age => exact h.advance hsettled hnext
  | fail index =>
      rw [step] at hnext
      split at hnext
      · rename_i thread hthread
        split at hnext
        · cases hnext
        · obtain rfl := Except.ok.inj hnext
          exact h.frame same_but_lock hsound (kept_of_none rfl rfl)
      · cases hnext

/-- Where the sources are settled the stored watermark does not decrease. -/
theorem never_decreases {label : Label} (hsettled : Settled watched label) :
    NeverDecreases watched label := by
  intro next hstep stored hstored
  cases label with
  | write write =>
      obtain rfl := Except.ok.inj hstep
      exact ⟨stored, hstored, Nat.le_refl _⟩
  | start call =>
      obtain rfl := Except.ok.inj hstep
      exact ⟨stored, hstored, Nat.le_refl _⟩
  | advance index clock age =>
      obtain ⟨call, phase, db, phase', trackers, hthread, rfl, hmoved⟩ := advance_moved hstep
      cases hmoved with
      | idles same | waits same => exact ⟨stored, same.stored.trans hstored, Nat.le_refl _⟩
      | reads | readsLocked | rechecks | executes => exact ⟨stored, hstored, Nat.le_refl _⟩
      | commits => exact ⟨_, rfl, (h.kept index _ hthread).storing _ rfl stored hstored⟩
  | fail index =>
      rw [step] at hstep
      split at hstep
      · split at hstep
        · cases hstep
        · obtain rfl := Except.ok.inj hstep
          exact ⟨stored, hstored, Nat.le_refl _⟩
      · cases hstep

/-- At one step, an overtaken poll returns None exactly where the sources are settled. -/
theorem not_repeated_iff {label : Label} :
    NotRepeated watched label ↔ Settled watched label := by
  constructor
  · intro hnot
    unfold Settled
    split
    case h_2 => trivial
    split
    case h_2 => trivial
    rename_i index clock age _ replica quiet maxStaleness current stillFor hthread
    intro hovertaken
    cases hreason : refreshReason (watched.state.db.readState age current) stillFor quiet
        maxStaleness with
    | none => exact (refresh_reason_none h.populated).mp hreason
    | some reason =>
        have hlt := (List.getElem?_eq_some_iff.mp hthread).1
        have hstep : step watched.state (.advance index clock age) = .ok
            { db := watched.state.db
              trackers := Function.update watched.state.trackers replica (watched.state.trackers replica)
              threads := watched.state.threads.set index
                ⟨.poll replica quiet maxStaleness, .refreshing current (some reason)⟩ } := by
          simp only [step, hthread, Option.bind_some, LedgerRefresh.advance, pollOnce, hreason]
        have hnext := hnot index clock age _ current stillFor rfl hthread hovertaken _ hstep
        rw [List.getElem?_set_self hlt] at hnext
        cases hnext
  · rintro hsettled index clock age call current stillFor rfl hthread hovertaken next hstep
    obtain ⟨call', phase, db, phase', trackers, hthread', rfl, hnext⟩ := advance_cases hstep
    cases hthread.symm.trans hthread'
    have hlt := (List.getElem?_eq_some_iff.mp hthread).1
    obtain ⟨rfl, hrefresh⟩ | ⟨replica, quiet, maxStaleness, tracker, rfl, hpoll⟩ := hnext
    · cases hrefresh
    · simp only [Settled, hthread] at hsettled
      have hnone := (refresh_reason_none h.populated).mpr (hsettled hovertaken)
      simp only [pollOnce, hnone] at hpoll
      cases hpoll
      exact List.getElem?_set_self hlt

end

end Step

/-! ## Every run -/

/-- Before the first refresh whose watermark is stored, under populated views. -/
def Watched.initial (committed : List Write) (reflected : Nat) (trackers : Nat → ChangeTracker) :
    Watched where
  state := .initial committed reflected true true trackers
  read _ := []
  since _ := []

theorem Watching.initial (committed : List Write) (reflected : Nat) (trackers : Nat → ChangeTracker) :
    Watching (.initial committed reflected trackers) where
  sound := .initial committed reflected true true trackers
  populated := ⟨rfl, rfl⟩
  kept := nofun

/-- In a run, every overtaken poll returns None and the stored watermark never decreases, if and only if
the sources are settled wherever an overtaken poll comes to its lock. -/
theorem poll_not_repeated (committed : List Write) (reflected : Nat) (trackers : Nat → ChangeTracker)
    (labels : List Label) :
    (Along watch NotRepeated (.initial committed reflected trackers) labels ∧
        Along watch NeverDecreases (.initial committed reflected trackers) labels) ↔
      Along watch Settled (.initial committed reflected trackers) labels := by
  have hstart := Watching.initial committed reflected trackers
  have hkept : ∀ watched label next, Watching watched → Settled watched label →
      watch watched label = .ok next → Watching next :=
    fun watched label next h hsettled hstep => h.watch hsettled hstep
  constructor
  · rintro ⟨hnot, -⟩
    refine along_mono hstart (fun watched label next h hlabel hstep => ?_) ?_ hnot
    · exact hkept watched label next h ((not_repeated_iff h).mp hlabel) hstep
    · exact fun watched label h => (not_repeated_iff h).mp
  · intro hsettled
    constructor
    · exact along_mono hstart hkept (fun watched label h => (not_repeated_iff h).mpr) hsettled
    · exact along_mono hstart hkept (fun watched label h => never_decreases h) hsettled

/-! ## Writes between the calls -/

/-- A write is committed while no call has read a watermark that it may still store or compare. -/
def BetweenCalls (watched : Watched) : Label → Prop
  | .write _ => ∀ thread ∈ watched.state.threads,
      thread.phase.undecided = none ∧ thread.phase.storing = none
  | _ => True

/-- The watermark of a call counts what is committed now, and where a refresh has committed since the
call read it, the stored one does too. -/
structure UpToDate (watched : Watched) (index : Nat) (phase : Phase) : Prop where
  undecided : ∀ current, phase.undecided = some current → current = total watched.state.db.committed
  storing : ∀ watermark, phase.storing = some watermark →
    watermark = total watched.state.db.committed
  stored : ∀ current, phase.undecided = some current → watched.since index ≠ [] →
    watched.state.db.stored = some (total watched.state.db.committed)

/-- Every call's watermark counts what is committed now. -/
def AllUpToDate (watched : Watched) : Prop :=
  ∀ (index : Nat) (thread : Thread), watched.state.threads[index]? = some thread →
    UpToDate watched index thread.phase

theorem up_to_date_of_none {watched : Watched} {index : Nat} {phase : Phase}
    (hundecided : phase.undecided = none) (hstoring : phase.storing = none) :
    UpToDate watched index phase := by
  refine ⟨?_, ?_, ?_⟩
  · exact hundecided ▸ nofun
  · exact hstoring ▸ nofun
  · exact hundecided ▸ nofun

theorem UpToDate.frame {watched next : Watched} {index : Nat} {phase : Phase}
    (h : UpToDate watched index phase)
    (hcommitted : next.state.db.committed = watched.state.db.committed)
    (hstored : next.state.db.stored = watched.state.db.stored)
    (hsince : next.since index = watched.since index) : UpToDate next index phase where
  undecided current hcurrent := hcommitted ▸ h.undecided current hcurrent
  storing watermark hwatermark := hcommitted ▸ h.storing watermark hwatermark
  stored current hcurrent hne := by
    rw [hstored, hcommitted]
    exact h.stored current hcurrent (hsince ▸ hne)

/-- One call went on, and the others are as they were. -/
theorem AllUpToDate.replace {watched next : Watched} {index : Nat} {call : Call} {phase' : Phase}
    (hthreads : next.state.threads = watched.state.threads.set index ⟨call, phase'⟩)
    (hother : ∀ i thread, i ≠ index → watched.state.threads[i]? = some thread →
      UpToDate next i thread.phase) (hself : UpToDate next index phase') : AllUpToDate next := by
  intro i thread hthread
  rw [hthreads, List.getElem?_set] at hthread
  split at hthread
  · rename_i heq
    subst heq
    split at hthread
    · obtain rfl := Option.some.inj hthread
      exact hself
    · cases hthread
  · rename_i hne
    exact hother i thread (Ne.symm hne) hthread

/-- An advancing thread keeps every read up to date. -/
theorem AllUpToDate.advance {watched : Watched} {state : State} {index : Nat} {clock age : ℚ}
    (h : AllUpToDate watched) (hstep : step watched.state (.advance index clock age) = .ok state) :
    AllUpToDate (watched.note (.advance index clock age) state) := by
  obtain ⟨call, phase, db, phase', trackers, hthread, rfl, hmoved⟩ := advance_moved hstep
  have hkept : UpToDate watched index phase := h index _ hthread
  cases hmoved with
  | idles same reads executes undecided storing =>
      rw [note_other hthread reads executes]
      refine AllUpToDate.replace rfl (fun i thread _ hi => ?_) (up_to_date_of_none undecided storing)
      exact (h i thread hi).frame same.committed same.stored rfl
  | @waits _ _ _ _ current same undecided undecided' storing =>
      rw [note_other hthread (by rintro rfl; cases undecided) (by rintro _ _ _ rfl; cases undecided)]
      refine AllUpToDate.replace rfl (fun i thread _ hi => ?_) ?_
      · exact (h i thread hi).frame same.committed same.stored rfl
      · have hcounts : UpToDate watched index phase' := by
          refine ⟨fun other hother => ?_, storing ▸ nofun, fun other hother => ?_⟩
          · exact hkept.undecided other (undecided.trans (undecided'.symm.trans hother))
          · exact hkept.stored other (undecided.trans (undecided'.symm.trans hother))
        exact hcounts.frame same.committed same.stored rfl
  | reads storing undecided =>
      rw [note_reads hthread]
      refine AllUpToDate.replace rfl (fun i thread hne hi => ?_) ?_
      · exact (h i thread hi).frame rfl rfl (Function.update_of_ne hne ..)
      · refine ⟨fun current hcurrent => ?_, storing ▸ nofun, fun current _ hsince => ?_⟩
        · exact Option.some.inj (hcurrent.symm.trans undecided)
        · exact absurd (Function.update_self ..) hsince
  | readsLocked =>
      rw [note_reads hthread]
      refine AllUpToDate.replace rfl (fun i thread hne hi => ?_) ⟨nofun, fun watermark h => ?_, nofun⟩
      · exact (h i thread hi).frame rfl rfl (Function.update_of_ne hne ..)
      · exact (Option.some.inj h).symm
  | rechecks decided =>
      rw [note_other hthread nofun nofun]
      refine AllUpToDate.replace rfl (fun i thread _ hi => (h i thread hi).frame rfl rfl rfl) ?_
      refine ⟨nofun, fun watermark hwatermark => ?_, nofun⟩
      obtain rfl := Option.some.inj hwatermark
      exact hkept.undecided _ rfl
  | executes =>
      rw [note_other hthread nofun nofun]
      refine AllUpToDate.replace rfl (fun i thread _ hi => (h i thread hi).frame rfl rfl rfl) ?_
      exact ⟨nofun, fun watermark hwatermark => hkept.storing _ hwatermark, nofun⟩
  | @commits _ watermark reason snapshot =>
      rw [note_commits hthread]
      -- what it stores counts what is committed now
      have hwatermark : watermark = total watched.state.db.committed := hkept.storing _ rfl
      refine AllUpToDate.replace rfl (fun i thread _ hi => ?_) (up_to_date_of_none rfl rfl)
      have hi' := h i thread hi
      exact ⟨hi'.undecided, hi'.storing, fun _ _ _ => congrArg some hwatermark⟩

/-- A step without a write between two reads keeps every read up to date. -/
theorem AllUpToDate.watch {watched next : Watched} {label : Label} (h : AllUpToDate watched)
    (hbetween : BetweenCalls watched label) (hstep : watch watched label = .ok next) :
    AllUpToDate next := by
  rw [LedgerRefresh.watch] at hstep
  split at hstep
  case h_2 => cases hstep
  rename_i state hnext
  obtain rfl := Except.ok.inj hstep
  cases label with
  | write write =>
      obtain rfl := Except.ok.inj hnext
      intro i thread hthread
      obtain ⟨hundecided, hstoring⟩ := hbetween thread (List.mem_of_getElem? hthread)
      exact up_to_date_of_none hundecided hstoring
  | start call =>
      obtain rfl := Except.ok.inj hnext
      intro i thread hthread
      have hthread : (watched.state.threads ++ [{ call, phase := call.begin }])[i]? = some thread :=
        hthread
      rw [List.getElem?_append] at hthread
      split at hthread
      · exact (h i thread hthread).frame rfl rfl rfl
      · obtain rfl := List.mem_singleton.mp (List.mem_of_getElem? hthread)
        cases call with
        | inline | poll => exact up_to_date_of_none rfl rfl
  | advance index clock age => exact h.advance hnext
  | fail index =>
      rw [step] at hnext
      split at hnext
      · rename_i thread hthread
        split at hnext
        · cases hnext
        · obtain rfl := Except.ok.inj hnext
          refine AllUpToDate.replace rfl (fun i thread _ hi => ?_) (up_to_date_of_none rfl rfl)
          exact (h i thread hi).frame rfl rfl rfl
      · cases hnext

/-- An overtaken poll whose watermark is up to date finds it stored. -/
theorem AllUpToDate.settled {watched : Watched} {label : Label} (h : AllUpToDate watched) :
    Settled watched label := by
  unfold Settled
  split
  case h_2 => trivial
  split
  case h_2 => trivial
  rename_i index clock age _ replica quiet maxStaleness current stillFor hthread
  rintro ⟨snapshot, hsnapshot, -⟩
  have hkept := h index _ hthread
  left
  rw [hkept.stored current rfl (List.ne_nil_of_mem hsnapshot), ← hkept.undecided current rfl]

/-- The sources are settled wherever an overtaken poll comes to its lock, if every write is committed
while no call has read a watermark that it may still store or compare. -/
theorem settled_of_writes_between (committed : List Write) (reflected : Nat)
    (trackers : Nat → ChangeTracker) {labels : List Label}
    (h : Along watch BetweenCalls (.initial committed reflected trackers) labels) :
    Along watch Settled (.initial committed reflected trackers) labels := by
  have hstart : AllUpToDate (.initial committed reflected trackers) := nofun
  exact along_mono hstart (fun _ _ _ h hbetween hstep => h.watch hbetween hstep)
    (fun _ _ h _ => h.settled) h

/-- Ten rows have held still for the quiet interval when a replica decides to refresh; one more row is
written, and another replica refreshes before the first has the lock. -/
def overtakenPoll : List Label :=
  [.start (.poll 0 60 3600), .advance 0 100 500, .advance 0 100 500,
    .start (.poll 0 60 3600), .advance 1 200 600, .advance 1 200 600,
    .write ⟨1, by decide⟩,
    .start (.poll 1 0 3600), .advance 2 200 600, .advance 2 200 600, .advance 2 200 600,
    .advance 2 200 600, .advance 2 200 600, .advance 2 200 600,
    .advance 1 200 0]

/-- The first replica refreshes again, and stores the older watermark. -/
theorem overtaken_poll_repeats :
    ∃ watched, execute watch (.initial [⟨10, by decide⟩] 0 fun _ => ⟨none, 0⟩) overtakenPoll =
        .ok watched ∧
      watched.state.threads[1]? = some ⟨.poll 0 60 3600, .rechecking 10 100⟩ ∧
      watched.Overtaken 1 ∧ watched.state.db.stored = some 11 ∧
      ∃ next, execute step watched.state (List.replicate 3 (.advance 1 200 0)) = .ok next ∧
        next.threads[1]? = some ⟨.poll 0 60 3600, .refreshed (some .quiet)⟩ ∧
        next.db.stored = some 10 := by
  refine ⟨_, by with_unfolding_all rfl, ?_, ?_, ?_, ?_⟩
  · with_unfolding_all rfl
  · decide +kernel
  · with_unfolding_all rfl
  · refine ⟨_, by with_unfolding_all rfl, ?_, ?_⟩
    · with_unfolding_all rfl
    · with_unfolding_all rfl

end CatalogApi.LedgerRefresh
