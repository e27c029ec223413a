import CatalogApi.Lib.Runs
import Mathlib.Data.List.Basic
import Mathlib.Order.Nat

/-!
# Starting a sync

`trigger_sync` and `_start_sync` of `api/routers/sync.py`, for the requests of one user in one
process. A request is where it awaits; a step takes it from one await to the next, so the guard on
`_running_syncs` and the assignment to it are apart by the INSERT. `one_sync_runs` says what has to
hold when an INSERT returns for a sync to stay alone, and `uncleared_start_breaks` that nothing less
does.
-/

namespace CatalogApi.Syncer

open Runs

/-- A `run_full_sync` task: running, done with its callback still queued, or done and cleared from
`_running_syncs`. -/
inductive TaskPhase where
  | running | done | cleared
  deriving DecidableEq

/-- The answer of `POST /api/sync`. -/
inductive Answer where
  | started | alreadyRunning | cooldown | unavailable | failed
  deriving DecidableEq

/-- Where a request awaits. `locked` has its lock and not yet run on; `inserting` passed the guard
when there were `since` tasks, with the callbacks of `queued` still to run. -/
inductive RequestPhase where
  | readingCooldown
  | locking
  | locked
  | reporting
  | inserting (since : Nat) (queued : List Nat)
  | settingCooldown
  | releasing (answer : Answer)
  | answered (answer : Answer)
  deriving DecidableEq

/-- The process as one user's requests see it, with the user's two Valkey keys. -/
structure Process where
  valkey : Bool
  tasks : List TaskPhase
  recorded : Option Nat
  requests : List RequestPhase
  lock : Bool
  cooldown : Bool
  deriving DecidableEq

/-- A process before the user's first request. -/
def Process.idle (valkey : Bool) : Process :=
  { valkey, tasks := [], recorded := none, requests := [], lock := false, cooldown := false }

/-- What happens next. -/
inductive SyncAction where
  | arrive
  | cooldownRead (request : Nat)
  | cooldownFails (request : Nat)
  | lockSet (request : Nat)
  | lockFails (request : Nat) (applied : Bool)
  | lockAnswered (request : Nat)
  | reported (request : Nat)
  | reportFails (request : Nat)
  | inserted (request : Nat)
  | insertFails (request : Nat)
  | cooldownSet (request : Nat) (accepted : Bool)
  | released (request : Nat) (deleted : Bool)
  | taskEnds (task : Nat)
  | callbackRuns (task : Nat)
  | lockExpires
  | cooldownExpires

namespace Process

variable (process : Process)

/-- `_running_syncs` names a task that is not done. -/
def syncing : Prop := ∃ task ∈ process.recorded, process.tasks[task]? = some .running

instance : Decidable process.syncing := inferInstanceAs (Decidable (∃ _ ∈ _, _))

/-- The tasks whose done callback is queued. -/
def queued : List Nat :=
  (List.range process.tasks.length).filter fun task => process.tasks[task]? = some .done

/-- The guard of `_start_sync`, up to the next await. -/
def guarded : RequestPhase :=
  if process.syncing then .reporting else .inserting process.tasks.length process.queued

/-- The request goes on to this await. -/
def goOn (request : Nat) (phase : RequestPhase) : Process :=
  { process with requests := process.requests.set request phase }

/-- `_start_sync` has answered: only a request that holds the lock has something left to do. -/
def finish (request : Nat) (answer : Answer) : Process :=
  process.goOn request (if process.valkey then .releasing answer else .answered answer)

/-- The INSERT returned a row: create the task and record it. -/
def start (request : Nat) : Process :=
  { process with
    tasks := process.tasks ++ [.running]
    recorded := some process.tasks.length
    requests := process.requests.set request
      (if process.valkey then .settingCooldown else .answered .started) }

/-- A request awaits there. -/
def At (request : Nat) (phase : RequestPhase) : Prop := process.requests[request]? = some phase

instance (request : Nat) (phase : RequestPhase) : Decidable (process.At request phase) :=
  inferInstanceAs (Decidable (_ = _))

/-- A step that is taken only where the process can take it. -/
def when (enabled : Prop) [Decidable enabled] (next : Process) : Except Unit Process :=
  if enabled then .ok next else .error ()

/-- The request awaits its INSERT. -/
def Inserting (request : Nat) : Prop :=
  match process.requests[request]? with
  | some (.inserting ..) => True
  | _ => False

instance (request : Nat) : Decidable (process.Inserting request) := by
  unfold Inserting
  split <;> infer_instance

/-- One step. -/
def step (process : Process) : SyncAction → Except Unit Process
  | .arrive => .ok { process with
      requests := process.requests ++
        [if process.valkey then .readingCooldown else process.guarded] }
  | .cooldownRead request => when (process.At request .readingCooldown)
      (process.goOn request (if process.cooldown then .answered .cooldown else .locking))
  | .cooldownFails request => when (process.At request .readingCooldown)
      (process.goOn request (.answered .failed))
  | .lockSet request => when (process.At request .locking)
      (if process.lock then process.goOn request (.answered .alreadyRunning)
      else { process.goOn request .locked with lock := true })
  | .lockFails request applied => when (process.At request .locking)
      { process.goOn request (.answered .unavailable) with lock := process.lock || applied }
  | .lockAnswered request => when (process.At request .locked)
      (process.goOn request process.guarded)
  | .reported request => when (process.At request .reporting)
      (process.finish request .alreadyRunning)
  | .reportFails request => when (process.At request .reporting) (process.finish request .failed)
  | .inserted request => when (process.Inserting request) (process.start request)
  | .insertFails request => when (process.Inserting request) (process.finish request .failed)
  | .cooldownSet request accepted => when (process.At request .settingCooldown)
      { process.goOn request (.releasing .started) with cooldown := process.cooldown || accepted }
  | .released request deleted =>
      match process.requests[request]? with
      | some (.releasing answer) => .ok
          { process.goOn request (.answered answer) with lock := process.lock && !deleted }
      | _ => .error ()
  | .taskEnds task => when (process.tasks[task]? = some .running)
      { process with tasks := process.tasks.set task .done }
  | .callbackRuns task => when (process.tasks[task]? = some .done)
      { process with tasks := process.tasks.set task .cleared, recorded := none }
  | .lockExpires => .ok { process with lock := false }
  | .cooldownExpires => .ok { process with cooldown := false }

end Process

/-- At most one sync runs, and it is the one recorded. -/
structure SingleSync (process : Process) : Prop where
  alone : process.tasks.count .running ≤ 1
  recorded : ∀ task, process.tasks[task]? = some .running → process.recorded = some task

/-- When an INSERT returns, every task created since its request passed the guard, and every task
whose callback was queued then, is cleared. -/
def Cleared (process : Process) : SyncAction → Prop
  | .inserted request =>
      match process.requests[request]? with
      | some (.inserting since queued) => ∀ task < process.tasks.length,
          since ≤ task ∨ task ∈ queued → process.tasks[task]? = some .cleared
      | _ => True
  | _ => True

instance (process : Process) (action : SyncAction) : Decidable (Cleared process action) := by
  unfold Cleared
  split
  · split <;> infer_instance
  · infer_instance

/-! ## The invariant -/

/-- A running task is recorded and all others are cleared; a request that awaits its INSERT left
behind only cleared tasks and those whose callback was queued. -/
structure Guarded (process : Process) : Prop where
  recorded : ∀ task, process.tasks[task]? = some .running → process.recorded = some task
  others : ∀ task, process.tasks[task]? = some .running →
    ∀ other < process.tasks.length, other ≠ task → process.tasks[other]? = some .cleared
  behind : ∀ since queued, .inserting since queued ∈ process.requests →
    since ≤ process.tasks.length ∧
      ∀ task < since, task ∉ queued → process.tasks[task]? = some .cleared

theorem Guarded.idle (valkey : Bool) : Guarded (Process.idle valkey) where
  recorded := nofun
  others := nofun
  behind := nofun

section Steps

variable {process next : Process}

theorem when_ok {enabled : Prop} [Decidable enabled]
    (h : Process.when enabled next = .ok process) : enabled ∧ process = next := by
  rw [Process.when] at h
  split at h
  case isTrue henabled => exact ⟨henabled, (Except.ok.inj h).symm⟩
  case isFalse => cases h

theorem mem_queued {task : Nat} :
    task ∈ process.queued ↔ process.tasks[task]? = some .done := by
  rw [Process.queued, List.mem_filter, List.mem_range, decide_eq_true_eq]
  exact and_iff_right_of_imp fun hdone => (List.getElem?_eq_some_iff.mp hdone).1

/-- Behind a guard that let a request pass, every task is cleared but for the queued callbacks. -/
theorem Guarded.passed (h : Guarded process) (hpass : ¬process.syncing) :
    ∀ task < process.tasks.length, task ∉ process.queued →
      process.tasks[task]? = some .cleared := by
  intro task hlt hqueued
  cases hphase : process.tasks[task]? with
  | none => exact absurd hlt (not_lt.mpr (List.getElem?_eq_none_iff.mp hphase))
  | some phase =>
      cases phase with
      | running => exact absurd ⟨task, h.recorded task hphase, hphase⟩ hpass
      | done => exact absurd (mem_queued.mpr hphase) hqueued
      | cleared => rfl

/-- A step of the requests alone keeps the invariant: a request gets to its INSERT through the
guard. -/
theorem Guarded.requests (h : Guarded process) (htasks : next.tasks = process.tasks)
    (hrecorded : next.recorded = process.recorded)
    (hrequests : ∀ phase ∈ next.requests, phase ∈ process.requests ∨ phase = process.guarded ∨
      ∀ since queued, phase ≠ .inserting since queued) : Guarded next where
  recorded := by
    rw [htasks, hrecorded]
    exact h.recorded
  others := by
    rw [htasks]
    exact h.others
  behind := by
    intro since queued hmem
    rw [htasks]
    rcases hrequests _ hmem with hold | hguarded | hother
    · exact h.behind since queued hold
    · rw [Process.guarded] at hguarded
      split at hguarded
      case isTrue => cases hguarded
      case isFalse hpass =>
        cases hguarded
        exact ⟨le_rfl, h.passed hpass⟩
    · exact absurd rfl (hother since queued)

/-- A request that goes on to a phase keeps the invariant unless it gets to its INSERT without the
guard. -/
theorem Guarded.goOn (h : Guarded process) (request : Nat) {phase : RequestPhase}
    (hphase : phase = process.guarded ∨ ∀ since queued, phase ≠ .inserting since queued) :
    Guarded (process.goOn request phase) := by
  refine h.requests rfl rfl fun other hother => ?_
  rcases List.mem_or_eq_of_mem_set hother with hold | rfl
  · exact Or.inl hold
  · exact Or.inr hphase

theorem Guarded.finish (h : Guarded process) (request : Nat) (answer : Answer) :
    Guarded (process.finish request answer) := by
  refine h.goOn request (Or.inr fun since queued => ?_)
  split <;> nofun

/-- The lock and the cooldown are not read by the invariant. -/
theorem Guarded.keys (h : Guarded process) (lock cooldown : Bool) :
    Guarded { process with lock, cooldown } :=
  { recorded := h.recorded, others := h.others, behind := h.behind }

/-- A task created when all others are cleared. -/
theorem Guarded.start (h : Guarded process) {request since : Nat} {queued : List Nat}
    (hat : process.requests[request]? = some (.inserting since queued))
    (hcleared : ∀ task < process.tasks.length, since ≤ task ∨ task ∈ queued →
      process.tasks[task]? = some .cleared) : Guarded (process.start request) := by
  have hbehind := (h.behind since queued (List.mem_of_getElem? hat)).2
  have hall : ∀ task < process.tasks.length, process.tasks[task]? = some .cleared := by
    intro task hlt
    by_cases hqueued : since ≤ task ∨ task ∈ queued
    · exact hcleared task hlt hqueued
    · rw [not_or, not_le] at hqueued
      exact hbehind task hqueued.1 hqueued.2
  have hnew : ∀ task, (process.start request).tasks[task]? = some .running →
      task = process.tasks.length := by
    intro task hrunning
    rcases lt_trichotomy task process.tasks.length with hlt | heq | hgt
    · have hold : (process.start request).tasks[task]? = process.tasks[task]? :=
        List.getElem?_append_left hlt
      rw [hold, hall task hlt] at hrunning
      cases hrunning
    · exact heq
    · have hlen := (List.getElem?_eq_some_iff.mp hrunning).1
      have hlength : (process.start request).tasks.length = process.tasks.length + 1 :=
        List.length_append
      omega
  refine ⟨fun task hrunning => ?_, fun task hrunning other hlt hne => ?_, ?_⟩
  · rw [hnew task hrunning]
    rfl
  · have hlength : (process.start request).tasks.length = process.tasks.length + 1 :=
      List.length_append
    have hother : other < process.tasks.length := by
      have := hnew task hrunning
      omega
    exact (List.getElem?_append_left hother).trans (hall other hother)
  · intro since' queued' hmem
    have hold : .inserting since' queued' ∈ process.requests := by
      rcases List.mem_or_eq_of_mem_set hmem with hold | heq
      · exact hold
      · split at heq <;> cases heq
    obtain ⟨hle, hsettled⟩ := h.behind since' queued' hold
    have hlength : (process.start request).tasks.length = process.tasks.length + 1 :=
      List.length_append
    refine ⟨by omega, fun task hlt hqueued => ?_⟩
    exact (List.getElem?_append_left (by omega)).trans (hsettled task hlt hqueued)

/-- A task that goes on from a phase before `cleared`. -/
theorem cleared_of_set {tasks : List TaskPhase} {task other : Nat} {phase : TaskPhase}
    (hphase : tasks[task]? ≠ some .cleared) (hother : tasks[other]? = some .cleared) :
    (tasks.set task phase)[other]? = some .cleared := by
  have hne : task ≠ other := fun heq => hphase (heq ▸ hother)
  rw [List.getElem?_set_ne hne]
  exact hother

theorem Guarded.taskEnds (h : Guarded process) {task : Nat}
    (hrunning : process.tasks[task]? = some .running) :
    Guarded { process with tasks := process.tasks.set task .done } := by
  have hnone : ∀ other : Nat, (process.tasks.set task .done)[other]? ≠ some TaskPhase.running := by
    intro other hother
    by_cases heq : task = other
    · subst heq
      rw [List.getElem?_set_self (List.getElem?_eq_some_iff.mp hrunning).1] at hother
      cases hother
    · rw [List.getElem?_set_ne heq] at hother
      have hcleared := h.others task hrunning other (List.getElem?_eq_some_iff.mp hother).1
        (Ne.symm heq)
      rw [hother] at hcleared
      cases hcleared
  refine ⟨fun other hother => absurd hother (hnone other),
    fun other hother => absurd hother (hnone other), fun since queued hmem => ?_⟩
  obtain ⟨hle, hbehind⟩ := h.behind since queued hmem
  refine ⟨by simpa using hle, fun other hlt hqueued => ?_⟩
  exact cleared_of_set (by rw [hrunning]; nofun) (hbehind other hlt hqueued)

theorem Guarded.callbackRuns (h : Guarded process) {task : Nat}
    (hdone : process.tasks[task]? = some .done) :
    Guarded { process with tasks := process.tasks.set task .cleared, recorded := none } := by
  have hnone : ∀ other : Nat, (process.tasks.set task .cleared)[other]? ≠ some TaskPhase.running := by
    intro other hother
    by_cases heq : task = other
    · subst heq
      rw [List.getElem?_set_self (List.getElem?_eq_some_iff.mp hdone).1] at hother
      cases hother
    · rw [List.getElem?_set_ne heq] at hother
      have hcleared := h.others other hother task (List.getElem?_eq_some_iff.mp hdone).1 heq
      rw [hdone] at hcleared
      cases hcleared
  refine ⟨fun other hother => absurd hother (hnone other),
    fun other hother => absurd hother (hnone other), fun since queued hmem => ?_⟩
  obtain ⟨hle, hbehind⟩ := h.behind since queued hmem
  refine ⟨by simpa using hle, fun other hlt hqueued => ?_⟩
  exact cleared_of_set (by rw [hdone]; nofun) (hbehind other hlt hqueued)

/-- A step that meets the condition keeps the invariant. -/
theorem Guarded.step (h : Guarded process) {action : SyncAction} (hcleared : Cleared process action)
    (hstep : process.step action = .ok next) : Guarded next := by
  cases action with
  | arrive =>
      cases hstep
      refine h.requests rfl rfl fun phase hphase => ?_
      rcases List.mem_append.mp hphase with hold | hnew
      · exact Or.inl hold
      · rw [List.mem_singleton.mp hnew]
        split
        · exact Or.inr (Or.inr fun _ _ => by nofun)
        · exact Or.inr (Or.inl rfl)
  | cooldownRead request =>
      obtain ⟨-, rfl⟩ := when_ok hstep
      refine h.goOn request (Or.inr fun since queued => ?_)
      split <;> nofun
  | cooldownFails request =>
      obtain ⟨-, rfl⟩ := when_ok hstep
      exact h.goOn request (Or.inr fun _ _ => by nofun)
  | lockSet request =>
      obtain ⟨-, rfl⟩ := when_ok hstep
      split
      · exact h.goOn request (Or.inr fun _ _ => by nofun)
      · exact (h.goOn request (Or.inr fun _ _ => by nofun)).keys true process.cooldown
  | lockFails request applied =>
      obtain ⟨-, rfl⟩ := when_ok hstep
      exact (h.goOn request (Or.inr fun _ _ => by nofun)).keys (process.lock || applied) process.cooldown
  | lockAnswered request =>
      obtain ⟨-, rfl⟩ := when_ok hstep
      exact h.goOn request (Or.inl rfl)
  | reported request =>
      obtain ⟨-, rfl⟩ := when_ok hstep
      exact h.finish request .alreadyRunning
  | reportFails request =>
      obtain ⟨-, rfl⟩ := when_ok hstep
      exact h.finish request .failed
  | inserted request =>
      obtain ⟨hat, rfl⟩ := when_ok hstep
      rw [Process.Inserting] at hat
      rw [Cleared] at hcleared
      split at hat
      case h_1 since queued hphase =>
        rw [hphase] at hcleared
        exact h.start hphase hcleared
      case h_2 => exact hat.elim
  | insertFails request =>
      obtain ⟨-, rfl⟩ := when_ok hstep
      exact h.finish request .failed
  | cooldownSet request accepted =>
      obtain ⟨-, rfl⟩ := when_ok hstep
      exact (h.goOn request (Or.inr fun _ _ => by nofun)).keys process.lock (process.cooldown || accepted)
  | released request deleted =>
      rw [Process.step] at hstep
      split at hstep
      · cases hstep
        exact (h.goOn request (Or.inr fun _ _ => by nofun)).keys (process.lock && !deleted) process.cooldown
      · cases hstep
  | taskEnds task =>
      obtain ⟨hrunning, rfl⟩ := when_ok hstep
      exact h.taskEnds hrunning
  | callbackRuns task =>
      obtain ⟨hdone, rfl⟩ := when_ok hstep
      exact h.callbackRuns hdone
  | lockExpires =>
      cases hstep
      exact h.keys false process.cooldown
  | cooldownExpires =>
      cases hstep
      exact h.keys process.lock false

end Steps

/-- A list has a value once at most when all its places are one place. -/
theorem count_le_one {tasks : List TaskPhase} {phase : TaskPhase}
    (h : ∀ i j : Nat, tasks[i]? = some phase → tasks[j]? = some phase → i = j) :
    tasks.count phase ≤ 1 := by
  induction tasks with
  | nil => exact Nat.zero_le 1
  | cons task tasks ih =>
      have hrest : tasks.count phase ≤ 1 :=
        ih fun i j hi hj => Nat.succ.inj (h (i + 1) (j + 1) hi hj)
      by_cases htask : task = phase
      · have hnone : tasks.count phase = 0 := by
          refine List.count_eq_zero_of_not_mem fun hmem => ?_
          obtain ⟨i, hi⟩ := List.getElem?_of_mem hmem
          exact absurd (h 0 (i + 1) (congrArg some htask) hi) (Nat.succ_ne_zero i).symm
        rw [htask, List.count_cons_self, hnone]
      · rw [List.count_cons_of_ne htask]
        exact hrest

theorem Guarded.single {process : Process} (h : Guarded process) : SingleSync process where
  alone := count_le_one fun i j hi hj =>
    Option.some.inj ((h.recorded i hi).symm.trans (h.recorded j hj))
  recorded := h.recorded

/-- In every run in which each INSERT returns to cleared tasks, at most one sync runs at a time, and
it is the one recorded. -/
theorem one_sync_runs (valkey : Bool) {trace : List SyncAction} {finish : Process}
    (hrun : execute Process.step (Process.idle valkey) trace = .ok finish)
    (hcleared : Along Process.step Cleared (Process.idle valkey) trace) : SingleSync finish := by
  refine Guarded.single
    (along_induction (motive := fun _ => Guarded) (Guarded.idle valkey) ?_ hrun hcleared)
  intro trace action process next hguarded hcondition hstep
  exact hguarded.step hcondition hstep

/-- A sync, and a request that is let through when it has ended and before its callback runs. -/
def laterSync : List SyncAction :=
  [.arrive, .cooldownRead 0, .lockSet 0, .lockAnswered 0, .inserted 0, .cooldownSet 0 false,
    .released 0 true, .taskEnds 0, .arrive, .cooldownRead 1, .lockSet 1, .lockAnswered 1,
    .callbackRuns 0, .inserted 1]

/-- The callback runs before the second INSERT returns: the second sync runs alone. -/
theorem later_sync_alone :
    ∃ finish, execute Process.step (Process.idle true) laterSync = .ok finish ∧
      finish.tasks = [.cleared, .running] ∧ SingleSync finish := by
  have hrun : execute Process.step (Process.idle true) laterSync = .ok
      { valkey := true, tasks := [.cleared, .running], recorded := some 1,
        requests := [.answered .started, .settingCooldown], lock := true, cooldown := false } := by
    decide
  exact ⟨_, hrun, rfl, one_sync_runs true hrun (by decide)⟩

/-- Two requests that pass the guard before either INSERT returns, without Valkey and, once the lock
of the first has expired, with it. -/
theorem overlapping_inserts_run_twice :
    ((execute Process.step (Process.idle false) [.arrive, .arrive, .inserted 0, .inserted 1]).map
        fun process => process.tasks.count .running) = .ok 2 ∧
      ((execute Process.step (Process.idle true)
        [.arrive, .cooldownRead 0, .lockSet 0, .lockAnswered 0, .lockExpires,
          .arrive, .cooldownRead 1, .lockSet 1, .lockAnswered 1, .inserted 0, .inserted 1]).map
        fun process => process.tasks.count .running) = .ok 2 := by
  decide

/-- Nothing less does: a task created with another not cleared runs beside it, or loses its record
to the callback of the other. -/
theorem uncleared_start_breaks {process next : Process} {request task : Nat}
    (hstep : process.step (.inserted request) = .ok next) (htask : task < process.tasks.length)
    (huncleared : process.tasks[task]? ≠ some .cleared) :
    ¬SingleSync next ∨ ∃ finish, next.step (.callbackRuns task) = .ok finish ∧
      ¬SingleSync finish := by
  obtain ⟨-, rfl⟩ := when_ok hstep
  have hold : (process.start request).tasks[task]? = process.tasks[task]? :=
    List.getElem?_append_left htask
  have hnew : (process.start request).tasks[process.tasks.length]? = some .running :=
    List.getElem?_concat_length
  cases hphase : process.tasks[task]? with
  | none => exact absurd htask (not_lt.mpr (List.getElem?_eq_none_iff.mp hphase))
  | some phase =>
      cases phase with
      | cleared => exact absurd hphase huncleared
      | running =>
          refine Or.inl fun hsingle => ?_
          have hfirst := hsingle.recorded task (hold.trans hphase)
          have hsecond := hsingle.recorded _ hnew
          exact absurd (Option.some.inj (hfirst.symm.trans hsecond)) (Nat.ne_of_lt htask)
      | done =>
          refine Or.inr ⟨_, if_pos (hold.trans hphase), fun hsingle => ?_⟩
          have hrunning : ((process.start request).tasks.set task .cleared)[process.tasks.length]? =
              some .running := by
            rw [List.getElem?_set_ne (Nat.ne_of_lt htask)]
            exact hnew
          cases hsingle.recorded _ hrunning

end CatalogApi.Syncer
