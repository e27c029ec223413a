import CatalogApi.SingleFlight.Registry

/-!
# Sharing a computation

What holds of the single-flight cache over any run: one computation of a key at a time, none within the
TTL of a value, and each caller that is not cancelled served by a computation of its key. Cancelling a
caller cancels the computation that others share, so this holds of the runs in which no Task is
cancelled under a caller that is not (`shared_computation`), and fails otherwise
(`joiner_is_cancelled`).
-/

namespace CatalogApi.SingleFlight

open Runs

variable {Key α ε : Type}

/-! ## What callers may expect -/

/-- The promise of the cache. -/
structure Promise (ttl : Nat) (cache : Cache Key α ε) : Prop where
  single : ∀ (i j : Nat) (a b : Task Key α ε), cache.tasks[i]? = some a → cache.tasks[j]? = some b →
    a.key = b.key → a.ended = none → b.ended = none → i = j
  spaced : ∀ (i j : Nat) (a b : Task Key α ε) (ended : Nat) (value : α), i < j →
    cache.tasks[i]? = some a → cache.tasks[j]? = some b → a.key = b.key →
    a.ended = some (ended, .value value) → ended + ttl ≤ b.startedAt
  served : ∀ caller ∈ cache.callers, ∀ instant received, caller.cancelled = false →
    caller.phase = .returned instant received → Served ttl cache.tasks caller instant received

/-- A later caller computes again what a computation did not. -/
def Restarts [DecidableEq Key] (cache : Cache Key α ε) (key : Key) : Prop :=
  ∀ (i : Nat) (task : Task Key α ε) (ended : Nat) (ending : Ending α ε),
    cache.tasks[i]? = some task → task.key = key → Newest cache.tasks i key →
    task.ended = some (ended, ending) → ending.succeeded = false →
    (cache.call key).tasks = cache.tasks ++ [cache.fresh key]

/-- No Task ends cancelled under a caller that is not cancelled; nobody calls while a computation that
did not succeed is still registered; and the creator is not cancelled once there is a value. -/
def Spared (cache : Cache Key α ε) : Label Key α ε → Prop
  | .call key => ∀ (i : Nat) (task : Task Key α ε) (ended : Nat) (ending : Ending α ε),
      cache.inflight key = some i → cache.tasks[i]? = some task →
      task.ended = some (ended, ending) → ending.succeeded = true
  | .finish index .cancelled => ∀ caller ∈ cache.callers, ∀ creator mustCancel,
      caller.phase = .waiting index creator mustCancel → caller.cancelled = true
  | .cancel index => ∀ (caller : Caller Key α ε) (i : Nat) (mustCancel : Bool)
      (task : Task Key α ε) (ended : Nat) (value : α), cache.callers[index]? = some caller →
      caller.phase = .waiting i true mustCancel → cache.tasks[i]? = some task →
      task.ended ≠ some (ended, .value value)
  | _ => True

/-! ## The callers -/

variable {ttl : Nat} {cache : Cache Key α ε}

/-- A caller that waits, and what it waits for. -/
structure Awaits (cache : Cache Key α ε) (caller : Caller Key α ε) (task : Task Key α ε) (i : Nat)
    (creator mustCancel : Bool) : Prop where
  found : cache.tasks[i]? = some task
  key : task.key = caller.key
  entry : creator = true → cache.inflight caller.key = some i
  cancelled : mustCancel = true → caller.cancelled = true ∧ task.ended ≠ none ∧
    (creator = true → ∀ ended value, task.ended ≠ some (ended, .value value))
  ended : ∀ ended ending, task.ended = some (ended, ending) → caller.calledAt ≤ ended ∧
    (ending = .cancelled → caller.cancelled = true)

/-- What holds of the callers. -/
structure Callers (ttl : Nat) (cache : Cache Key α ε) : Prop where
  called : ∀ (c : Nat) (caller : Caller Key α ε), cache.callers[c]? = some caller →
    caller.calledAt ≤ cache.now
  waits : ∀ (c : Nat) (caller : Caller Key α ε) (i : Nat) (creator mustCancel : Bool),
    cache.callers[c]? = some caller → caller.phase = .waiting i creator mustCancel →
    ∃ task, Awaits cache caller task i creator mustCancel
  creators : ∀ (c d : Nat) (x y : Caller Key α ε) (i : Nat) (must must' : Bool),
    cache.callers[c]? = some x → cache.callers[d]? = some y → x.phase = .waiting i true must →
    y.phase = .waiting i true must' → c = d
  served : ∀ (c : Nat) (caller : Caller Key α ε) (instant : Nat) (received : Ending α ε),
    cache.callers[c]? = some caller → caller.cancelled = false →
    caller.phase = .returned instant received → Served ttl cache.tasks caller instant received

/-- The same callers, when what they wait for may have changed. -/
theorem Callers.under (h : Callers ttl cache) {after : Cache Key α ε}
    (hcallers : after.callers = cache.callers) (hnow : cache.now ≤ after.now)
    (hwaits : ∀ (c : Nat) (caller : Caller Key α ε) (task : Task Key α ε) (i : Nat)
      (creator mustCancel : Bool), cache.callers[c]? = some caller →
      caller.phase = .waiting i creator mustCancel →
      Awaits cache caller task i creator mustCancel →
      ∃ task, Awaits after caller task i creator mustCancel)
    (hserved : ∀ (caller : Caller Key α ε) (instant : Nat) (received : Ending α ε),
      caller.calledAt ≤ cache.now → Served ttl cache.tasks caller instant received →
      Served ttl after.tasks caller instant received) : Callers ttl after where
  called c caller hcaller := Nat.le_trans (h.called c caller (hcallers ▸ hcaller)) hnow
  waits c caller i creator mustCancel hcaller hphase := by
    rw [hcallers] at hcaller
    obtain ⟨task, hawaits⟩ := h.waits c caller i creator mustCancel hcaller hphase
    exact hwaits c caller task i creator mustCancel hcaller hphase hawaits
  creators := by
    rw [hcallers]
    exact h.creators
  served c caller instant received hcaller hcancelled hphase := by
    rw [hcallers] at hcaller
    exact hserved caller instant received (h.called c caller hcaller)
      (h.served c caller instant received hcaller hcancelled hphase)

/-- A caller more. -/
theorem Callers.arrive (h : Callers ttl cache) {key : Key} {phase : Phase α ε}
    (hwaits : ∀ i creator mustCancel, phase = .waiting i creator mustCancel →
      (∃ task, Awaits cache ⟨key, cache.now, false, phase⟩ task i creator mustCancel) ∧
      (creator = true → ∀ (c : Nat) (caller : Caller Key α ε) (must : Bool),
        cache.callers[c]? = some caller → caller.phase ≠ .waiting i true must))
    (hserved : ∀ instant received, phase = .returned instant received →
      Served ttl cache.tasks ⟨key, cache.now, false, phase⟩ instant received) :
    Callers ttl (cache.arrive key phase) := by
  have hback : ∀ (c : Nat) (caller : Caller Key α ε),
      (cache.arrive key phase).callers[c]? = some caller →
      cache.callers[c]? = some caller ∨
        c = cache.callers.length ∧ caller = ⟨key, cache.now, false, phase⟩ := by
    intro c caller hcaller
    rw [Cache.arrive, List.getElem?_append] at hcaller
    grind
  constructor
  case called =>
    intro c caller hcaller
    rcases hback c caller hcaller with hold | ⟨-, rfl⟩
    · exact h.called c caller hold
    · exact Nat.le_refl _
  case waits =>
    intro c caller i creator mustCancel hcaller hphase
    rcases hback c caller hcaller with hold | ⟨-, rfl⟩
    · obtain ⟨task, hat, hkey, hentry, hcancelled, hended⟩ :=
        h.waits c caller i creator mustCancel hold hphase
      exact ⟨task, hat, hkey, hentry, hcancelled, hended⟩
    · obtain ⟨task, hat, hkey, hentry, hcancelled, hended⟩ := (hwaits _ _ _ hphase).1
      exact ⟨task, hat, hkey, hentry, hcancelled, hended⟩
  case creators =>
    intro c d x y i must must' hx hy hphase hphase'
    rcases hback c x hx with hx | ⟨rfl, rfl⟩
    · rcases hback d y hy with hy | ⟨rfl, rfl⟩
      · exact h.creators c d x y i must must' hx hy hphase hphase'
      · exact absurd hphase ((hwaits _ _ _ hphase').2 rfl c x must hx)
    · rcases hback d y hy with hy | ⟨rfl, -⟩
      · exact absurd hphase' ((hwaits _ _ _ hphase).2 rfl d y must' hy)
      · rfl
  case served =>
    intro c caller instant received hcaller hcancelled hphase
    rcases hback c caller hcaller with hold | ⟨-, rfl⟩
    · exact h.served c caller instant received hold hcancelled hphase
    · exact hserved instant received hphase

/-- A caller at its place goes on. -/
theorem Callers.replace (h : Callers ttl cache) {index : Nat} {caller next : Caller Key α ε}
    (hcaller : cache.callers[index]? = some caller) (hcalled : next.calledAt ≤ cache.now)
    (hwaits : ∀ i creator mustCancel, next.phase = .waiting i creator mustCancel →
      (∃ task, Awaits cache next task i creator mustCancel) ∧
      (creator = true → ∃ must, caller.phase = .waiting i true must))
    (hserved : ∀ instant received, next.cancelled = false → next.phase = .returned instant received →
      Served ttl cache.tasks next instant received) :
    Callers ttl { cache with callers := cache.callers.set index next } := by
  have hback : ∀ (c : Nat) (x : Caller Key α ε), (cache.callers.set index next)[c]? = some x →
      c = index ∧ x = next ∨ c ≠ index ∧ cache.callers[c]? = some x := by
    intro c x hx
    rw [List.getElem?_set] at hx
    have hlt := (List.getElem?_eq_some_iff.mp hcaller).1
    grind
  constructor
  case called =>
    intro c x hx
    rcases hback c x hx with ⟨-, rfl⟩ | ⟨-, hold⟩
    · exact hcalled
    · exact h.called c x hold
  case waits =>
    intro c x i creator mustCancel hx hphase
    rcases hback c x hx with ⟨-, rfl⟩ | ⟨-, hold⟩
    · obtain ⟨task, hat, hkey, hentry, hcancelled, hended⟩ := (hwaits _ _ _ hphase).1
      exact ⟨task, hat, hkey, hentry, hcancelled, hended⟩
    · obtain ⟨task, hat, hkey, hentry, hcancelled, hended⟩ :=
        h.waits c x i creator mustCancel hold hphase
      exact ⟨task, hat, hkey, hentry, hcancelled, hended⟩
  case creators =>
    intro c d x y i must must' hx hy hphase hphase'
    rcases hback c x hx with ⟨rfl, rfl⟩ | ⟨-, hold⟩
    · obtain ⟨was, hwas⟩ := (hwaits _ _ _ hphase).2 rfl
      rcases hback d y hy with ⟨rfl, -⟩ | ⟨-, hy⟩
      · rfl
      · exact h.creators c d caller y i was must' hcaller hy hwas hphase'
    · rcases hback d y hy with ⟨rfl, rfl⟩ | ⟨-, hy⟩
      · obtain ⟨was, hwas⟩ := (hwaits _ _ _ hphase').2 rfl
        exact h.creators c d x caller i must was hold hcaller hphase hwas
      · exact h.creators c d x y i must must' hold hy hphase hphase'
  case served =>
    intro c x instant received hx hcancelled hphase
    rcases hback c x hx with ⟨-, rfl⟩ | ⟨-, hold⟩
    · exact hserved instant received hcancelled hphase
    · exact h.served c x instant received hold hcancelled hphase

/-- A value served from the cache is one within its TTL. -/
theorem Registry.served_held (h : Registry ttl cache) {key : Key} {value : α}
    (hheld : cache.held key = some value) (phase : Phase α ε) :
    Served ttl cache.tasks ⟨key, cache.now, false, phase⟩ cache.now (.value value) := by
  rw [Cache.held] at hheld
  split at hheld
  · rename_i expiry result hcached
    split at hheld
    · rename_i hlt
      obtain rfl := Option.some.inj hheld
      obtain ⟨i, task, ended, stored, htask, hkey, hended, hstored, rfl, -⟩ :=
        h.cached key expiry result hcached
      refine ⟨i, task, ended, htask, hkey, hended, Or.inr fun instant hinstant => ?_⟩
      cases hstored.symm.trans hinstant
      exact Or.inr hlt
    · cases hheld
  · cases hheld

/-- What a caller that is not cancelled is woken with. -/
theorem Awaits.served (h : Registry ttl cache) {caller : Caller Key α ε} {task : Task Key α ε}
    {awaited : Nat} {creator mustCancel : Bool} (hawaits : Awaits cache caller task awaited creator mustCancel)
    {ended : Nat} {ending : Ending α ε} (hended : task.ended = some (ended, ending))
    (hcancelled : caller.cancelled = false) (phase : Phase α ε) :
    Served ttl cache.tasks { caller with phase } cache.now
      (Cache.receives mustCancel ending) := by
  have hmust : mustCancel = false := by
    cases mustCancel with
    | false => rfl
    | true => exact absurd (hawaits.cancelled rfl).1 (by simp [hcancelled])
  subst hmust
  have hstart := (h.times awaited task hawaits.found).1
  obtain ⟨hoverlap, hnot⟩ := hawaits.ended ended ending hended
  cases ending with
  | value value =>
      exact ⟨awaited, task, ended, hawaits.found, hawaits.key, hended, Or.inl ⟨hstart, hoverlap⟩⟩
  | raised error => exact ⟨awaited, task, ended, hawaits.found, hawaits.key, hended, hstart, hoverlap⟩
  | cancelled => exact absurd (hnot rfl) (by simp [hcancelled])

/-- What holds between two steps. -/
structure Kept (ttl : Nat) (cache : Cache Key α ε) : Prop where
  registry : Registry ttl cache
  callers : Callers ttl cache

theorem Kept.empty (ttl : Nat) : Kept ttl (Cache.empty : Cache Key α ε) := by
  constructor
  · constructor <;> simp [Cache.empty]
  · constructor <;> simp [Cache.empty]

/-- Replacing a Task by one with the same `storedAt` changes none. -/
theorem stored_set {i : Nat} {task next : Task Key α ε} (htask : cache.tasks[i]? = some task)
    (hstored : next.storedAt = task.storedAt) (j : Nat) (old after : Task Key α ε)
    (hold : cache.tasks[j]? = some old) (hafter : (cache.tasks.set i next)[j]? = some after) :
    after.storedAt = old.storedAt := by
  rw [List.getElem?_set] at hafter
  grind

variable [DecidableEq Key]

/-! ## One step -/

/-- What a step does. -/
inductive Effect (ttl : Nat) (cache : Cache Key α ε) : Label Key α ε → Cache Key α ε → Prop where
  | held (key value) (hheld : cache.held key = some value) :
      Effect ttl cache (.call key) (cache.arrive key (.returned cache.now (.value value)))
  | late (key) (i : Nat) (task : Task Key α ε) (ended ending) (hheld : cache.held key = none)
      (hinflight : cache.inflight key = some i) (htask : cache.tasks[i]? = some task)
      (hended : task.ended = some (ended, ending)) :
      Effect ttl cache (.call key) (cache.arrive key (.returned cache.now ending))
  | join (key) (i : Nat) (hheld : cache.held key = none) (hinflight : cache.inflight key = some i)
      (hrunning : ∀ task, cache.tasks[i]? = some task → task.ended = none) :
      Effect ttl cache (.call key) (cache.arrive key (.waiting i false false))
  | create (key) (hheld : cache.held key = none) (hinflight : cache.inflight key = none) :
      Effect ttl cache (.call key)
        ((cache.create key).arrive key (.waiting cache.tasks.length true false))
  | finish (index : Nat) (task : Task Key α ε) (ending)
      (htask : cache.tasks[index]? = some task) (hrunning : task.ended = none) :
      Effect ttl cache (.finish index ending)
        { cache with
          tasks := cache.tasks.set index { task with ended := some (cache.now, ending) } }
  | cancel (index : Nat) (caller : Caller Key α ε) (awaited : Nat) (creator mustCancel)
      (task : Task Key α ε)
      (hcaller : cache.callers[index]? = some caller)
      (hphase : caller.phase = .waiting awaited creator mustCancel)
      (htask : cache.tasks[awaited]? = some task) :
      Effect ttl cache (.cancel index)
        (cache.cancelCaller index caller awaited creator mustCancel task)
  | wake (index : Nat) (caller : Caller Key α ε) (awaited : Nat) (creator mustCancel)
      (task : Task Key α ε) (ended ending)
      (hcaller : cache.callers[index]? = some caller)
      (hphase : caller.phase = .waiting awaited creator mustCancel)
      (htask : cache.tasks[awaited]? = some task) (hended : task.ended = some (ended, ending)) :
      Effect ttl cache (.wake index)
        (cache.wakeCaller ttl index caller awaited creator mustCancel ending)
  | tick : Effect ttl cache .tick { cache with now := cache.now + 1 }

theorem effect_call (ttl : Nat) (cache : Cache Key α ε) (key : Key) :
    Effect ttl cache (.call key) (cache.call key) := by
  rw [Cache.call]
  cases hheld : cache.held key with
  | some value => exact .held key value hheld
  | none =>
      cases hinflight : cache.inflight key with
      | none => exact .create key hheld hinflight
      | some i =>
          cases htask : cache.tasks[i]? with
          | none =>
              simp only [htask, Option.bind_none]
              exact .join key i hheld hinflight fun task heq => by cases htask.symm.trans heq
          | some task =>
              cases hended : task.ended with
              | none =>
                  simp only [htask, Option.bind_some, hended]
                  refine .join key i hheld hinflight fun other heq => ?_
                  cases htask.symm.trans heq
                  exact hended
              | some ended =>
                  simp only [htask, Option.bind_some, hended]
                  exact .late key i task ended.1 ended.2 hheld hinflight htask hended

/-- What each step does to the tasks and callers. -/
theorem effect_of_step {ttl : Nat} {cache next : Cache Key α ε} {label : Label Key α ε}
    (h : step ttl cache label = .ok next) : Effect ttl cache label next := by
  cases label with
  | call key =>
      obtain rfl := Except.ok.inj h
      exact effect_call ttl cache key
  | finish index ending =>
      rw [step] at h
      split at h
      · rename_i task htask
        split at h
        · rename_i hcan
          obtain rfl := Except.ok.inj h
          exact .finish index task ending htask (Option.isNone_iff_eq_none.mp hcan.1)
        · cases h
      · cases h
  | cancel index =>
      rw [step] at h
      split at h
      · rename_i caller hcaller
        split at h
        · rename_i awaited creator mustCancel hphase
          split at h
          · rename_i task htask
            obtain rfl := Except.ok.inj h
            exact .cancel index caller awaited creator mustCancel task hcaller hphase htask
          · cases h
        · cases h
      · cases h
  | wake index =>
      rw [step] at h
      split at h
      · rename_i caller hcaller
        split at h
        · rename_i awaited creator mustCancel hphase
          split at h
          · rename_i ended ending hbind
            obtain ⟨task, htask, hended⟩ := Option.bind_eq_some_iff.mp hbind
            obtain rfl := Except.ok.inj h
            exact .wake index caller awaited creator mustCancel task ended ending hcaller hphase htask
              hended
          · cases h
        · cases h
      · cases h
  | tick =>
      obtain rfl := Except.ok.inj h
      exact .tick

/-! ## The steps -/

omit [DecidableEq Key] in
theorem Kept.held (h : Kept ttl cache) {key : Key} {value : α}
    (hheld : cache.held key = some value) :
    Kept ttl (cache.arrive key (.returned cache.now (.value value))) where
  registry := ⟨h.registry.registered, h.registry.inflight, h.registry.times, h.registry.cached,
    h.registry.kept, h.registry.spaced⟩
  callers := by
    refine h.callers.arrive nofun fun instant received heq => ?_
    cases heq
    exact h.registry.served_held hheld _

omit [DecidableEq Key] in
/-- A caller that finds a computation that has ended is served by it, where that succeeded. -/
theorem Kept.late (h : Kept ttl cache) {key : Key} {i : Nat} {task : Task Key α ε} {ended : Nat}
    {ending : Ending α ε} (hinflight : cache.inflight key = some i)
    (htask : cache.tasks[i]? = some task) (hended : task.ended = some (ended, ending))
    (hsucceeded : ending.succeeded = true) :
    Kept ttl (cache.arrive key (.returned cache.now ending)) where
  registry := ⟨h.registry.registered, h.registry.inflight, h.registry.times, h.registry.cached,
    h.registry.kept, h.registry.spaced⟩
  callers := by
    refine h.callers.arrive nofun fun instant received heq => ?_
    cases heq
    cases ending with
    | value value =>
        obtain ⟨found, hfound, hkey, hstored, -⟩ := h.registry.inflight key i hinflight
        cases htask.symm.trans hfound
        refine ⟨i, task, ended, htask, hkey, hended, Or.inr fun stored heq => ?_⟩
        cases hstored.symm.trans heq
    | raised error => cases hsucceeded
    | cancelled => cases hsucceeded

omit [DecidableEq Key] in
theorem Kept.join (h : Kept ttl cache) {key : Key} {i : Nat}
    (hinflight : cache.inflight key = some i)
    (hrunning : ∀ task, cache.tasks[i]? = some task → task.ended = none) :
    Kept ttl (cache.arrive key (.waiting i false false)) where
  registry := ⟨h.registry.registered, h.registry.inflight, h.registry.times, h.registry.cached,
    h.registry.kept, h.registry.spaced⟩
  callers := by
    obtain ⟨task, htask, hkey, -⟩ := h.registry.inflight key i hinflight
    refine h.callers.arrive (fun j creator mustCancel heq => ?_) nofun
    cases heq
    refine ⟨⟨task, htask, hkey, nofun, nofun, fun ended ending hended => ?_⟩, nofun⟩
    rw [hrunning task htask] at hended
    cases hended

/-- Nobody waits for a Task that was just created. -/
theorem Callers.create (h : Callers ttl cache) {key : Key} (hinflight : cache.inflight key = none) :
    Callers ttl (cache.create key) := by
  refine h.under rfl (Nat.le_refl _) (fun c caller task i creator mustCancel hcaller _ hawaits => ?_)
    fun caller instant received hcalled hserved => ?_
  · refine ⟨task, mem_create.mpr (Or.inl hawaits.found), hawaits.key, fun hcreator => ?_,
      hawaits.cancelled, hawaits.ended⟩
    have hentry := hawaits.entry hcreator
    rw [inflight_create, if_neg fun heq => by rw [heq, hinflight] at hentry; cases hentry]
    exact hentry
  · cases received with
    | value value =>
        obtain ⟨i, task, ended, htask, hrest⟩ := hserved
        exact ⟨i, task, ended, mem_create.mpr (Or.inl htask), hrest⟩
    | raised error =>
        obtain ⟨i, task, ended, htask, hrest⟩ := hserved
        exact ⟨i, task, ended, mem_create.mpr (Or.inl htask), hrest⟩
    | cancelled => exact hserved

theorem Kept.create (h : Kept ttl cache) {key : Key} (hheld : cache.held key = none)
    (hinflight : cache.inflight key = none) :
    Kept ttl ((cache.create key).arrive key (.waiting cache.tasks.length true false)) := by
  have hregistry := h.registry.create hheld hinflight
  refine ⟨⟨hregistry.registered, hregistry.inflight, hregistry.times, hregistry.cached,
    hregistry.kept, hregistry.spaced⟩, ?_⟩
  refine (h.callers.create hinflight).arrive (fun i creator mustCancel heq => ?_) nofun
  cases heq
  refine ⟨⟨cache.fresh key, mem_create.mpr (Or.inr ⟨rfl, rfl⟩), rfl, fun _ => ?_, nofun, nofun⟩,
    fun _ c caller must hcaller hphase => ?_⟩
  · exact (inflight_create key key).trans (if_pos rfl)
  · obtain ⟨task, hawaits⟩ := h.callers.waits c caller _ true must hcaller hphase
    exact absurd (lt_of_task hawaits.found) (Nat.lt_irrefl _)

omit [DecidableEq Key] in
theorem Kept.finish (h : Kept ttl cache) {index : Nat} {task : Task Key α ε} {ending : Ending α ε}
    (htask : cache.tasks[index]? = some task) (hrunning : task.ended = none)
    (hspared : Spared cache (.finish index ending)) :
    Kept ttl { cache with
      tasks := cache.tasks.set index { task with ended := some (cache.now, ending) } } := by
  have hextends : task.Extends cache.now { task with ended := some (cache.now, ending) } :=
    ⟨rfl, rfl, Or.inr ⟨hrunning, ending, rfl⟩, Or.inl rfl⟩
  have hgrown := grown_set htask hextends
  refine ⟨h.registry.grown hgrown (stored_set htask rfl), h.callers.under rfl (Nat.le_refl _) ?_ ?_⟩
  · intro c caller old i creator mustCancel hcaller hphase hawaits
    by_cases heq : i = index
    · subst heq
      cases htask.symm.trans hawaits.found
      refine ⟨_, List.getElem?_set_self (lt_of_task htask), hawaits.key, hawaits.entry,
        fun hmust => absurd hrunning (hawaits.cancelled hmust).2.1, fun ended other hended => ?_⟩
      cases hended
      refine ⟨h.callers.called c caller hcaller, ?_⟩
      rintro rfl
      exact hspared caller (List.mem_of_getElem? hcaller) creator mustCancel hphase
    · refine ⟨old, ?_, hawaits.key, hawaits.entry, hawaits.cancelled, hawaits.ended⟩
      rw [List.getElem?_set_ne (Ne.symm heq)]
      exact hawaits.found
  · exact fun caller instant received hcalled hserved => hserved.grown hgrown hcalled

omit [DecidableEq Key] in
/-- A cancelled caller keeps the invariant. -/
theorem Kept.cancel (h : Kept ttl cache) {index : Nat} {caller : Caller Key α ε} {awaited : Nat}
    {creator mustCancel : Bool} {task : Task Key α ε}
    (hcaller : cache.callers[index]? = some caller)
    (hphase : caller.phase = .waiting awaited creator mustCancel)
    (htask : cache.tasks[awaited]? = some task) (hspared : Spared cache (.cancel index)) :
    Kept ttl (cache.cancelCaller index caller awaited creator mustCancel task) := by
  obtain ⟨found, hawaits⟩ := h.callers.waits index caller awaited creator mustCancel hcaller hphase
  cases htask.symm.trans hawaits.found
  have hcalled := h.callers.called index caller hcaller
  rw [Cache.cancelCaller]
  split
  · rename_i hended
    refine ⟨⟨h.registry.registered, h.registry.inflight, h.registry.times, h.registry.cached,
      h.registry.kept, h.registry.spaced⟩, h.callers.replace hcaller hcalled ?_ nofun⟩
    intro i as must heq
    cases heq
    refine ⟨⟨task, htask, hawaits.key, hawaits.entry, fun _ => ⟨rfl, ?_, fun hcreator => ?_⟩,
      fun ended ending heq => ⟨(hawaits.ended ended ending heq).1, fun _ => rfl⟩⟩,
      fun hcreator => ⟨mustCancel, hcreator ▸ hphase⟩⟩
    · exact Option.isSome_iff_ne_none.mp hended
    · subst hcreator
      exact fun ended value => hspared caller awaited mustCancel task ended value hcaller hphase htask
  · have hgrown : Grown cache.now cache.tasks
        (cache.tasks.set awaited { task with cancelRequested := true }) :=
      grown_set htask ⟨rfl, rfl, Or.inl rfl, Or.inl rfl⟩
    have hat : (cache.tasks.set awaited { task with cancelRequested := true })[awaited]? =
        some { task with cancelRequested := true } := List.getElem?_set_self (lt_of_task htask)
    have hregistry := h.registry.grown hgrown (stored_set htask rfl)
    have hcallers : Callers ttl { cache with
        tasks := cache.tasks.set awaited { task with cancelRequested := true } } := by
      refine h.callers.under rfl (Nat.le_refl _) ?_
        fun caller instant received hcalled hserved => hserved.grown hgrown hcalled
      intro c other old i as must hother _ hold
      by_cases heq : i = awaited
      · subst heq
        cases htask.symm.trans hold.found
        exact ⟨_, hat, hold.key, hold.entry, hold.cancelled, hold.ended⟩
      · refine ⟨old, ?_, hold.key, hold.entry, hold.cancelled, hold.ended⟩
        rw [List.getElem?_set_ne (Ne.symm heq)]
        exact hold.found
    refine ⟨⟨hregistry.registered, hregistry.inflight, hregistry.times, hregistry.cached,
      hregistry.kept, hregistry.spaced⟩, hcallers.replace hcaller hcalled ?_ nofun⟩
    intro i as must heq
    cases heq
    exact ⟨⟨_, hat, hawaits.key, hawaits.entry, fun hmust => ⟨rfl, (hawaits.cancelled hmust).2⟩,
      fun ended ending heq => ⟨(hawaits.ended ended ending heq).1, fun _ => rfl⟩⟩,
      fun hcreator => ⟨mustCancel, hcreator ▸ hphase⟩⟩

omit [DecidableEq Key] in
/-- A woken caller has returned; the entry of its Task may be gone, if it created that. -/
theorem Callers.wake (h : Callers ttl cache) {index : Nat} {caller next : Caller Key α ε}
    {awaited : Nat} {creator mustCancel : Bool} {received : Ending α ε} {after : Cache Key α ε}
    (hcaller : cache.callers[index]? = some caller)
    (hphase : caller.phase = .waiting awaited creator mustCancel)
    (hnext : next = { caller with phase := .returned cache.now received })
    (hcallers : after.callers = cache.callers.set index next) (hnow : after.now = cache.now)
    (hgrown : Grown cache.now cache.tasks after.tasks)
    (hended : ∀ (i : Nat) (task : Task Key α ε), cache.tasks[i]? = some task →
      ∃ same, after.tasks[i]? = some same ∧ same.key = task.key ∧ same.ended = task.ended)
    (hinflight : ∀ (key : Key) (i : Nat), cache.inflight key = some i →
      i ≠ awaited ∨ creator = false → after.inflight key = some i)
    (hserved : caller.cancelled = false → Served ttl cache.tasks next cache.now received) :
    Callers ttl after := by
  have hreplaced : Callers ttl { cache with callers := cache.callers.set index next } := by
    subst hnext
    refine h.replace hcaller (h.called index caller hcaller) nofun ?_
    intro instant ending hcancelled heq
    cases heq
    exact hserved hcancelled
  refine hreplaced.under hcallers (Nat.le_of_eq hnow.symm) ?_
    fun caller instant received hcalled hserved => hserved.grown hgrown hcalled
  intro d other task i as must hother hwaiting hawaits
  obtain ⟨same, hsame, hkey, heq⟩ := hended i task hawaits.found
  refine ⟨same, hsame, hkey.trans hawaits.key, fun has => ?_, heq ▸ hawaits.cancelled,
    heq ▸ hawaits.ended⟩
  refine hinflight other.key i (hawaits.entry has) ?_
  cases creator with
  | false => exact Or.inr rfl
  | true =>
      refine Or.inl fun hi => ?_
      subst hi has hnext
      rw [List.getElem?_set] at hother
      split at hother
      · split at hother
        · cases hother
          cases hwaiting
        · cases hother
      · rename_i hne
        exact hne (h.creators index d caller other i mustCancel must hcaller hother hphase hwaiting)

/-- A caller that wakes from a task that ended keeps the invariant. -/
theorem Kept.wake (h : Kept ttl cache) {index : Nat} {caller : Caller Key α ε} {awaited : Nat}
    {creator mustCancel : Bool} {task : Task Key α ε} {ended : Nat} {ending : Ending α ε}
    (hcaller : cache.callers[index]? = some caller)
    (hphase : caller.phase = .waiting awaited creator mustCancel)
    (htask : cache.tasks[awaited]? = some task) (hended : task.ended = some (ended, ending)) :
    Kept ttl (cache.wakeCaller ttl index caller awaited creator mustCancel ending) := by
  obtain ⟨found, hawaits⟩ := h.callers.waits index caller awaited creator mustCancel hcaller hphase
  cases htask.symm.trans hawaits.found
  have hserved := fun hcancelled phase => hawaits.served h.registry hended hcancelled phase
  have hsame : Grown cache.now cache.tasks cache.tasks :=
    List.forall₂_same.mpr fun task _ => Task.Extends.refl task
  have hstays : ∀ (i : Nat) (task : Task Key α ε), cache.tasks[i]? = some task →
      ∃ same, cache.tasks[i]? = some same ∧ same.key = task.key ∧ same.ended = task.ended :=
    fun i task htask => ⟨task, htask, rfl, rfl⟩
  rw [Cache.wakeCaller]
  cases creator with
  | false =>
      exact ⟨⟨h.registry.registered, h.registry.inflight, h.registry.times, h.registry.cached,
        h.registry.kept, h.registry.spaced⟩, h.callers.wake hcaller hphase rfl rfl rfl hsame hstays
          (fun _ _ hat _ => hat) fun hcancelled => hserved hcancelled _⟩
  | true =>
      have hentry := hawaits.entry rfl
      have hothers : ∀ (key : Key) (i : Nat), cache.inflight key = some i →
          i ≠ awaited ∨ true = false →
          Function.update cache.inflight caller.key none key = some i := fun key i hat hne =>
        entry_of_ne hentry hat (hne.resolve_right nofun)
      -- a failed flight leaves the registry with its creator and caches nothing
      have hdropped : ending.succeeded = false → ∀ received,
          Cache.receives mustCancel ending = received →
          Kept ttl { cache with
            inflight := Function.update cache.inflight caller.key none
            callers := cache.callers.set index
              { caller with phase := .returned cache.now received } } := by
        intro hfailed received hreceived
        have hregistry := h.registry.drop hentry htask hended hfailed
        exact ⟨⟨hregistry.registered, hregistry.inflight, hregistry.times, hregistry.cached,
          hregistry.kept, hregistry.spaced⟩, h.callers.wake hcaller hphase rfl rfl rfl hsame hstays
            hothers fun hcancelled => hreceived ▸ hserved hcancelled _⟩
      cases hreceived : Cache.receives mustCancel ending with
      | value value =>
          have hvalue : ending = .value value := by
            rw [Cache.receives] at hreceived
            split at hreceived
            · cases hreceived
            · exact hreceived
          subst hvalue
          obtain ⟨hregistry, hgrown⟩ := h.registry.store hentry htask hended
          refine ⟨⟨hregistry.registered, hregistry.inflight, hregistry.times, hregistry.cached,
            hregistry.kept, hregistry.spaced⟩, h.callers.wake hcaller hphase rfl rfl rfl hgrown ?_
              hothers fun hcancelled => hreceived ▸ hserved hcancelled _⟩
          intro i old hold
          refine ⟨_, (List.getElem?_modify ..).trans (congrArg _ hold), ?_⟩
          dsimp only
          split <;> exact ⟨rfl, rfl⟩
      | raised error =>
          have hfailed : ending.succeeded = false := by
            rw [Cache.receives] at hreceived
            split at hreceived
            · cases hreceived
            · rw [hreceived]
              rfl
          exact hdropped hfailed _ hreceived
      | cancelled =>
          have hfailed : ending.succeeded = false := by
            rw [Cache.receives] at hreceived
            split at hreceived
            · rename_i hmust
              cases ending with
              | value value => exact absurd hended ((hawaits.cancelled hmust).2.2 rfl ended value)
              | raised error => rfl
              | cancelled => rfl
            · rw [hreceived]
              rfl
          exact hdropped hfailed _ hreceived

omit [DecidableEq Key] in
theorem Kept.tick (h : Kept ttl cache) : Kept ttl { cache with now := cache.now + 1 } where
  registry := h.registry.tick
  callers := h.callers.under rfl (Nat.le_succ _)
    (fun _ _ task _ _ _ _ _ hawaits =>
      ⟨task, hawaits.found, hawaits.key, hawaits.entry, hawaits.cancelled, hawaits.ended⟩)
    fun _ _ _ _ hserved => hserved

theorem Kept.step (h : Kept ttl cache) {label : Label Key α ε} {next : Cache Key α ε}
    (hspared : Spared cache label) (hstep : step ttl cache label = .ok next) : Kept ttl next := by
  cases effect_of_step hstep with
  | held key value hheld => exact h.held hheld
  | late key i task ended ending hheld hinflight htask hended =>
      exact h.late hinflight htask hended (hspared i task ended ending hinflight htask hended)
  | join key i hheld hinflight hrunning => exact h.join hinflight hrunning
  | create key hheld hinflight => exact h.create hheld hinflight
  | finish index task ending htask hrunning => exact h.finish htask hrunning hspared
  | cancel index caller awaited creator mustCancel task hcaller hphase htask =>
      exact h.cancel hcaller hphase htask hspared
  | wake index caller awaited creator mustCancel task ended ending hcaller hphase htask hended =>
      exact h.wake hcaller hphase htask hended
  | tick => exact h.tick

/-! ## The promise -/

omit [DecidableEq Key] in
theorem Kept.promise (h : Kept ttl cache) : Promise ttl cache where
  single i j a b ha hb hkey haruns hbruns := by
    have hi := h.registry.registered i a ha haruns
    have hj := h.registry.registered j b hb hbruns
    rw [hkey, hj] at hi
    exact (Option.some.inj hi).symm
  spaced := h.registry.spaced
  served caller hcaller instant received hcancelled hphase := by
    obtain ⟨c, hat⟩ := List.mem_iff_getElem?.mp hcaller
    exact h.callers.served c caller instant received hat hcancelled hphase

/-- A call that finds its key unserved begins a task of its own. -/
theorem Kept.restarts (h : Kept ttl cache) {key : Key} (hspared : Spared cache (.call key)) :
    Restarts cache key := by
  intro i task ended ending htask hkey hnewest hended hfailed
  have hinflight : cache.inflight key = none := by
    cases hat : cache.inflight key with
    | none => rfl
    | some j =>
        obtain ⟨other, hother, hsame, -, hlast⟩ := h.registry.inflight key j hat
        have heq : i = j := by
          rcases Nat.lt_trichotomy i j with hlt | heq | hgt
          · exact absurd hsame (hnewest j other hlt hother)
          · exact heq
          · exact absurd hkey (hlast i task hgt htask)
        subst heq
        have hsucceeded := hspared i task ended ending hat htask hended
        rw [hfailed] at hsucceeded
        cases hsucceeded
  have hheld : cache.held key = none := by
    rw [Cache.held]
    split
    · rename_i expiry value hcached
      obtain ⟨j, other, instant, stored, hother, hsame, hvalue, -, -, hlater⟩ :=
        h.registry.cached key expiry value hcached
      rcases Nat.lt_trichotomy i j with hlt | heq | hgt
      · exact absurd hsame (hnewest j other hlt hother)
      · subst heq
        cases htask.symm.trans hother
        cases hended.symm.trans hvalue
        cases hfailed
      · have hstart := hlater i task hgt htask hkey
        have hnow := (h.registry.times i task htask).1
        exact if_neg (by omega)
    · rfl
  rw [Cache.call, hheld, hinflight]
  rfl

/-- In a run whose steps are all spared the cache keeps its promise, and a computation that did not
succeed is started anew by the next call that may be. -/
theorem shared_computation (ttl : Nat) (trace : List (Label Key α ε)) (cache : Cache Key α ε)
    (hrun : execute (step ttl) Cache.empty trace = .ok cache)
    (hspared : Along (step ttl) Spared Cache.empty trace) :
    Promise ttl cache ∧ ∀ key, Spared cache (.call key) → Restarts cache key := by
  have h : Kept ttl cache := along_induction (motive := fun _ cache => Kept ttl cache)
    (Kept.empty ttl) (fun _ _ _ _ hkept hspared hstep => hkept.step hspared hstep) hrun hspared
  exact ⟨h.promise, fun key hspared => h.restarts hspared⟩

/-- Two callers share a computation that succeeds. -/
theorem shared_computation_twice : ∃ cache : Cache Unit Nat Unit,
    execute (step 300) Cache.empty
        [.call (), .call (), .finish 0 (.value 7), .wake 1, .tick, .wake 0] = .ok cache ∧
      Promise 300 cache := by
  refine ⟨_, rfl, (shared_computation 300
    [.call (), .call (), .finish 0 (.value 7), .wake 1, .tick, .wake 0] _ rfl ?_).1⟩
  refine ⟨fun i task ended ending hat => ?_, fun i task ended ending hat htask hended => ?_, trivial,
    trivial, trivial, trivial, trivial⟩
  · cases hat
  · cases hat
    cases htask
    cases hended

/-- The creator of a computation is cancelled, and with it the computation that another caller awaits:
that caller gets a cancellation nobody asked of it. -/
theorem joiner_is_cancelled : ∃ cache : Cache Unit Nat Unit,
    execute (step 300) Cache.empty
        [.call (), .call (), .cancel 0, .finish 0 .cancelled, .wake 1] = .ok cache ∧
      ¬ Promise 300 cache := by
  refine ⟨_, rfl, fun hpromise => ?_⟩
  exact hpromise.served ⟨(), 0, false, .returned 0 .cancelled⟩ (List.mem_iff_getElem?.mpr ⟨1, rfl⟩) 0
    .cancelled rfl rfl

end CatalogApi.SingleFlight
