import CatalogApi.Lib.Programs
import CatalogApi.SingleFlight.Cache
import Mathlib.Order.Basic

/-!
# The registry of computations

What holds of the Tasks of the single-flight cache, of its registry and of its cached values between
two steps, however its callers are cancelled: a Task that runs is registered, an entry names the newest
Task of its key, and a value is registered or cached. `Registry.create`, `Registry.grown`,
`Registry.drop` and `Registry.store` say that the cache keeps it so.
-/

namespace CatalogApi.SingleFlight

variable {Key α ε : Type}

/-! ## What callers may expect -/

/-- At this instant the value was not stored yet, or less than the TTL ago. -/
def Task.Fresh (ttl : Nat) (task : Task Key α ε) (instant : Nat) : Prop :=
  ∀ stored, task.storedAt = some stored → instant ≤ stored ∨ instant < stored + ttl

/-- What a caller got is the value of a computation of its key that overlapped its call or was within
its TTL, or what a computation that overlapped its call raised. -/
def Served (ttl : Nat) (tasks : List (Task Key α ε)) (caller : Caller Key α ε) (instant : Nat) :
    Ending α ε → Prop
  | .value value => ∃ (i : Nat) (task : Task Key α ε) (ended : Nat), tasks[i]? = some task ∧
      task.key = caller.key ∧ task.ended = some (ended, .value value) ∧
      (task.startedAt ≤ instant ∧ caller.calledAt ≤ ended ∨ task.Fresh ttl caller.calledAt)
  | .raised error => ∃ (i : Nat) (task : Task Key α ε) (ended : Nat), tasks[i]? = some task ∧
      task.key = caller.key ∧ task.ended = some (ended, .raised error) ∧
      task.startedAt ≤ instant ∧ caller.calledAt ≤ ended
  | .cancelled => False

/-! ## The registry -/

/-- No later Task has the key of this one. -/
def Newest (tasks : List (Task Key α ε)) (i : Nat) (key : Key) : Prop :=
  ∀ (j : Nat) (other : Task Key α ε), i < j → tasks[j]? = some other → other.key ≠ key

/-- What holds of the Tasks, the registry and the cache. -/
structure Registry (ttl : Nat) (cache : Cache Key α ε) : Prop where
  registered : ∀ (i : Nat) (task : Task Key α ε), cache.tasks[i]? = some task → task.ended = none →
    cache.inflight task.key = some i
  inflight : ∀ (key : Key) (i : Nat), cache.inflight key = some i →
    ∃ task, cache.tasks[i]? = some task ∧ task.key = key ∧ task.storedAt = none ∧
      Newest cache.tasks i key
  times : ∀ (i : Nat) (task : Task Key α ε), cache.tasks[i]? = some task →
    task.startedAt ≤ cache.now ∧
      ∀ ended ending, task.ended = some (ended, ending) → task.startedAt ≤ ended ∧ ended ≤ cache.now
  cached : ∀ (key : Key) (expiry : Nat) (value : α), cache.cached key = some (expiry, value) →
    ∃ i task ended stored, cache.tasks[i]? = some task ∧ task.key = key ∧
      task.ended = some (ended, .value value) ∧ task.storedAt = some stored ∧
      expiry = stored + ttl ∧
      ∀ (j : Nat) (other : Task Key α ε), i < j → cache.tasks[j]? = some other → other.key = key →
        expiry ≤ other.startedAt
  kept : ∀ (i : Nat) (task : Task Key α ε) (ended : Nat) (value : α),
    cache.tasks[i]? = some task → task.ended = some (ended, .value value) →
    cache.inflight task.key = some i ∨
      ∃ expiry held, cache.cached task.key = some (expiry, held) ∧ ended + ttl ≤ expiry
  spaced : ∀ (i j : Nat) (a b : Task Key α ε) (ended : Nat) (value : α), i < j →
    cache.tasks[i]? = some a → cache.tasks[j]? = some b → a.key = b.key →
    a.ended = some (ended, .value value) → ended + ttl ≤ b.startedAt

variable {ttl : Nat} {cache : Cache Key α ε}

/-- A key without a cached value has none, or an expired one. -/
theorem held_none {key : Key} (hheld : cache.held key = none) {expiry : Nat} {value : α}
    (hcached : cache.cached key = some (expiry, value)) : expiry ≤ cache.now := by
  rw [Cache.held, hcached] at hheld
  dsimp only at hheld
  split at hheld
  · cases hheld
  · omega

theorem lt_of_task {i : Nat} {task : Task Key α ε} (h : cache.tasks[i]? = some task) :
    i < cache.tasks.length :=
  (List.getElem?_eq_some_iff.mp h).1

theorem Registry.tick (h : Registry ttl cache) : Registry ttl { cache with now := cache.now + 1 } := by
  refine ⟨h.registered, h.inflight, fun i task htask => ?_, h.cached, h.kept, h.spaced⟩
  obtain ⟨hstart, hend⟩ := h.times i task htask
  refine ⟨Nat.le_succ_of_le hstart, fun ended ending hended => ?_⟩
  obtain ⟨hle, hnow⟩ := hend ended ending hended
  exact ⟨hle, Nat.le_succ_of_le hnow⟩

/-! ## Tasks that go on -/

/-- A Task some step later: it may have ended now, and its value may have been stored now. -/
structure Task.Extends (now : Nat) (task after : Task Key α ε) : Prop where
  key : after.key = task.key
  startedAt : after.startedAt = task.startedAt
  ended : after.ended = task.ended ∨
    task.ended = none ∧ ∃ ending, after.ended = some (now, ending)
  storedAt : after.storedAt = task.storedAt ∨ task.storedAt = none ∧ after.storedAt = some now

/-- The same Tasks some step later. -/
def Grown (now : Nat) (tasks after : List (Task Key α ε)) : Prop :=
  List.Forall₂ (Task.Extends now) tasks after

section Grown

variable {now : Nat} {tasks later : List (Task Key α ε)}

theorem Task.Extends.refl (task : Task Key α ε) : task.Extends now task :=
  ⟨rfl, rfl, Or.inl rfl, Or.inl rfl⟩

/-- One Task is replaced by what it becomes. -/
theorem grown_set {i : Nat} {task after : Task Key α ε} (htask : tasks[i]? = some task)
    (hafter : task.Extends now after) : Grown now tasks (tasks.set i after) := by
  obtain ⟨before, rest, heq, hset⟩ := Programs.set_split htask
  rw [hset, heq]
  have hsame : ∀ same : List (Task Key α ε), List.Forall₂ (Task.Extends now) same same := fun same =>
    List.forall₂_same.mpr fun task _ => Task.Extends.refl task
  exact List.rel_append (hsame before) (List.Forall₂.cons hafter (hsame rest))

theorem Grown.forth (h : Grown now tasks later) {i : Nat} {task : Task Key α ε}
    (htask : tasks[i]? = some task) : ∃ after, later[i]? = some after ∧ task.Extends now after := by
  have hflip : List.Forall₂ (flip (Task.Extends now)) later tasks := List.Forall₂.flip h
  exact Programs.forall₂_get hflip htask

theorem Grown.back (h : Grown now tasks later) {i : Nat} {after : Task Key α ε}
    (hafter : later[i]? = some after) : ∃ task, tasks[i]? = some task ∧ task.Extends now after :=
  Programs.forall₂_get h hafter

/-- What ended still has ended that way. -/
theorem Task.Extends.ended_of {task after : Task Key α ε} (h : task.Extends now after)
    {instant : Nat} {ending : Ending α ε} (hended : task.ended = some (instant, ending)) :
    after.ended = some (instant, ending) := by
  rcases h.ended with heq | ⟨hnone, -⟩
  · rw [heq, hended]
  · rw [hnone] at hended
    cases hended

theorem Task.Extends.stored_of {task after : Task Key α ε} (h : task.Extends now after)
    {instant : Nat} (hstored : task.storedAt = some instant) : after.storedAt = some instant := by
  rcases h.storedAt with heq | ⟨hnone, -⟩
  · rw [heq, hstored]
  · rw [hnone] at hstored
    cases hstored

theorem newest_grown (h : Grown now tasks later) {i : Nat} {key : Key} (hnewest : Newest tasks i key) :
    Newest later i key := by
  intro j after hlt hafter
  obtain ⟨task, htask, hextends⟩ := h.back hafter
  rw [hextends.key]
  exact hnewest j task hlt htask

/-- A caller that was served still is. -/
theorem Served.grown {ttl : Nat} {caller : Caller Key α ε} {instant : Nat} {received : Ending α ε}
    (hserved : Served ttl tasks caller instant received) (h : Grown now tasks later)
    (hcalled : caller.calledAt ≤ now) : Served ttl later caller instant received := by
  cases received with
  | value value =>
      obtain ⟨i, task, ended, htask, hkey, hended, hwhen⟩ := hserved
      obtain ⟨after, hafter, hextends⟩ := h.forth htask
      refine ⟨i, after, ended, hafter, hextends.key.trans hkey, hextends.ended_of hended, ?_⟩
      rcases hwhen with ⟨hstart, hoverlap⟩ | hfresh
      · exact Or.inl ⟨hextends.startedAt ▸ hstart, hoverlap⟩
      · refine Or.inr fun stored hstored => ?_
        rcases hextends.storedAt with heq | ⟨-, heq⟩
        · exact hfresh stored (heq ▸ hstored)
        · cases heq.symm.trans hstored
          exact Or.inl hcalled
  | raised error =>
      obtain ⟨i, task, ended, htask, hkey, hended, hstart, hoverlap⟩ := hserved
      obtain ⟨after, hafter, hextends⟩ := h.forth htask
      exact ⟨i, after, ended, hafter, hextends.key.trans hkey, hextends.ended_of hended,
        hextends.startedAt ▸ hstart, hoverlap⟩
  | cancelled => exact hserved

end Grown

section Later

variable {later : List (Task Key α ε)}

section

variable (h : Registry ttl cache) (hgrown : Grown cache.now cache.tasks later)
include h hgrown

theorem Registry.times_grown {i : Nat} {after : Task Key α ε} (hafter : later[i]? = some after) :
    after.startedAt ≤ cache.now ∧
      ∀ ended ending, after.ended = some (ended, ending) →
        after.startedAt ≤ ended ∧ ended ≤ cache.now := by
  obtain ⟨task, htask, hextends⟩ := hgrown.back hafter
  obtain ⟨hstart, hend⟩ := h.times i task htask
  rw [hextends.startedAt]
  refine ⟨hstart, fun ended ending hended => ?_⟩
  rcases hextends.ended with heq | ⟨-, other, heq⟩
  · exact hend ended ending (heq ▸ hended)
  · cases heq.symm.trans hended
    exact ⟨hstart, Nat.le_refl _⟩

theorem Registry.cached_grown
    {key : Key} {expiry : Nat} {value : α} (hcached : cache.cached key = some (expiry, value)) :
    ∃ i task ended stored, later[i]? = some task ∧ task.key = key ∧
      task.ended = some (ended, .value value) ∧ task.storedAt = some stored ∧
      expiry = stored + ttl ∧
      ∀ (j : Nat) (other : Task Key α ε), i < j → later[j]? = some other → other.key = key →
        expiry ≤ other.startedAt := by
  obtain ⟨i, task, ended, stored, htask, hkey, hended, hat, heq, hlater⟩ :=
    h.cached key expiry value hcached
  obtain ⟨after, hafter, hextends⟩ := hgrown.forth htask
  refine ⟨i, after, ended, stored, hafter, hextends.key.trans hkey, hextends.ended_of hended,
    hextends.stored_of hat, heq, fun j next hlt hnext hsame => ?_⟩
  obtain ⟨old, hold, hnext⟩ := hgrown.back hnext
  rw [hnext.startedAt]
  exact hlater j old hlt hold (hnext.key ▸ hsame)

theorem Registry.spaced_grown
    {i j : Nat} {a b : Task Key α ε} {ended : Nat} {value : α} (hlt : i < j)
    (ha : later[i]? = some a) (hb : later[j]? = some b) (hkey : a.key = b.key)
    (hended : a.ended = some (ended, .value value)) : ended + ttl ≤ b.startedAt := by
  obtain ⟨olda, holda, hextendsa⟩ := hgrown.back ha
  obtain ⟨oldb, holdb, hextendsb⟩ := hgrown.back hb
  rw [hextendsb.startedAt]
  have hsame : olda.key = oldb.key := by rw [← hextendsa.key, hkey, hextendsb.key]
  rcases hextendsa.ended with heq | ⟨hrunning, -⟩
  · exact h.spaced i j olda oldb ended value hlt holda holdb hsame (heq ▸ hended)
  · obtain ⟨-, -, -, -, hnewest⟩ := h.inflight _ i (h.registered i olda holda hrunning)
    exact absurd hsame.symm (hnewest j oldb hlt holdb)

theorem Registry.running
    {i : Nat} {after : Task Key α ε} (hafter : later[i]? = some after) (hrunning : after.ended = none) :
    cache.inflight after.key = some i := by
  obtain ⟨task, htask, hextends⟩ := hgrown.back hafter
  rw [hextends.key]
  refine h.registered i task htask ?_
  rcases hextends.ended with heq | ⟨-, ending, hended⟩
  · rw [← heq, hrunning]
  · rw [hended] at hrunning
    cases hrunning

theorem Registry.kept_grown
    {i : Nat} {after : Task Key α ε} {ended : Nat} {value : α} (hafter : later[i]? = some after)
    (hended : after.ended = some (ended, .value value)) :
    cache.inflight after.key = some i ∨
      ∃ expiry held, cache.cached after.key = some (expiry, held) ∧ ended + ttl ≤ expiry := by
  obtain ⟨task, htask, hextends⟩ := hgrown.back hafter
  rw [hextends.key]
  rcases hextends.ended with heq | ⟨hrunning, -⟩
  · exact h.kept i task ended value htask (heq ▸ hended)
  · exact Or.inl (h.registered i task htask hrunning)

/-- A Task that ends or whose cancellation is requested. -/
theorem Registry.grown
    (hstored : ∀ (i : Nat) (task after : Task Key α ε), cache.tasks[i]? = some task →
      later[i]? = some after → after.storedAt = task.storedAt) :
    Registry ttl { cache with tasks := later } where
  registered _ _ hafter hrunning := h.running hgrown hafter hrunning
  inflight key i hat := by
    obtain ⟨task, htask, hkey, hnone, hnewest⟩ := h.inflight key i hat
    obtain ⟨after, hafter, hextends⟩ := hgrown.forth htask
    exact ⟨after, hafter, hextends.key.trans hkey, (hstored i task after htask hafter).trans hnone,
      newest_grown hgrown hnewest⟩
  times _ _ hafter := h.times_grown hgrown hafter
  cached _ _ _ hcached := h.cached_grown hgrown hcached
  kept _ _ _ _ hafter hended := h.kept_grown hgrown hafter hended
  spaced _ _ _ _ _ _ hlt ha hb hkey hended := h.spaced_grown hgrown hlt ha hb hkey hended

end

end Later

/-! ## Creating, dropping and storing -/

variable [DecidableEq Key]

theorem mem_create {key : Key} {i : Nat} {task : Task Key α ε} :
    (cache.create key).tasks[i]? = some task ↔
      cache.tasks[i]? = some task ∨ i = cache.tasks.length ∧ task = cache.fresh key := by
  rw [Cache.create, List.getElem?_append]
  grind

theorem inflight_create (key other : Key) :
    (cache.create key).inflight other =
      if other = key then some cache.tasks.length else cache.inflight other :=
  Function.update_apply ..

/-- A new task keeps the registry. -/
theorem Registry.create (h : Registry ttl cache) {key : Key} (hheld : cache.held key = none)
    (hinflight : cache.inflight key = none) : Registry ttl (cache.create key) := by
  constructor
  case registered =>
    intro i task htask hrunning
    rw [inflight_create]
    rcases mem_create.mp htask with htask | ⟨rfl, rfl⟩
    · have hregistered := h.registered i task htask hrunning
      rw [if_neg fun heq => by rw [heq, hinflight] at hregistered; cases hregistered]
      exact hregistered
    · exact if_pos rfl
  case inflight =>
    intro other i hat
    rw [inflight_create] at hat
    split at hat
    · rename_i heq
      cases hat
      refine ⟨cache.fresh key, mem_create.mpr (Or.inr ⟨rfl, rfl⟩), heq.symm, rfl, ?_⟩
      intro j task hlt htask
      rcases mem_create.mp htask with htask | ⟨rfl, -⟩
      · exact absurd (lt_of_task htask) (by omega)
      · exact absurd hlt (Nat.lt_irrefl _)
    · rename_i hne
      obtain ⟨task, htask, hkey, hstored, hnewest⟩ := h.inflight other i hat
      refine ⟨task, mem_create.mpr (Or.inl htask), hkey, hstored, fun j next hlt hnext => ?_⟩
      rcases mem_create.mp hnext with hnext | ⟨-, rfl⟩
      · exact hnewest j next hlt hnext
      · exact fun heq => hne heq.symm
  case times =>
    intro i task htask
    rcases mem_create.mp htask with htask | ⟨-, rfl⟩
    · exact h.times i task htask
    · exact ⟨Nat.le_refl _, nofun⟩
  case cached =>
    intro other expiry value hcached
    obtain ⟨i, task, ended, stored, htask, hkey, hended, hstored, heq, hlater⟩ :=
      h.cached other expiry value hcached
    refine ⟨i, task, ended, stored, mem_create.mpr (Or.inl htask), hkey, hended, hstored, heq, ?_⟩
    intro j next hlt hnext hsame
    rcases mem_create.mp hnext with hnext | ⟨-, rfl⟩
    · exact hlater j next hlt hnext hsame
    · cases hsame
      exact held_none hheld hcached
  case kept =>
    intro i task ended value htask hended
    rw [inflight_create]
    rcases mem_create.mp htask with htask | ⟨-, rfl⟩
    · rcases h.kept i task ended value htask hended with hat | hcached
      · rw [if_neg fun heq => by rw [heq, hinflight] at hat; cases hat]
        exact Or.inl hat
      · exact Or.inr hcached
    · cases hended
  case spaced =>
    intro i j a b ended value hlt ha hb hkey hended
    rcases mem_create.mp ha with hold | ⟨rfl, rfl⟩
    · rcases mem_create.mp hb with hb | ⟨-, rfl⟩
      · exact h.spaced i j a b ended value hlt hold hb hkey hended
      · have hkept := h.kept i a ended value hold hended
        rw [hkey] at hkept
        rcases hkept with hat | ⟨expiry, held, hcached, hle⟩
        · cases hinflight.symm.trans hat
        · exact Nat.le_trans hle (held_none hheld hcached)
    · cases hended

theorem inflight_release (key other : Key) :
    Function.update cache.inflight key none other =
      if other = key then none else cache.inflight other :=
  Function.update_apply ..

/-- Dropping the entry of a key leaves those of other Tasks. -/
theorem entry_of_ne {key other : Key} {i j : Nat} (hinflight : cache.inflight key = some i)
    (hat : cache.inflight other = some j) (hne : j ≠ i) :
    Function.update cache.inflight key none other = some j := by
  rw [inflight_release, if_neg fun heq => hne ?_]
  · exact hat
  · rw [heq, hinflight] at hat
    exact (Option.some.inj hat).symm

theorem entry_of_release {key other : Key} {j : Nat}
    (hat : Function.update cache.inflight key none other = some j) :
    other ≠ key ∧ cache.inflight other = some j := by
  rw [inflight_release] at hat
  split at hat
  · cases hat
  · rename_i hne
    exact ⟨hne, hat⟩

/-- The creator drops the entry of a computation that ended without a value it keeps. -/
theorem Registry.drop (h : Registry ttl cache) {key : Key} {i : Nat} {task : Task Key α ε}
    {ended : Nat} {ending : Ending α ε} (hinflight : cache.inflight key = some i)
    (htask : cache.tasks[i]? = some task) (hended : task.ended = some (ended, ending))
    (hfailed : ending.succeeded = false) :
    Registry ttl { cache with inflight := Function.update cache.inflight key none } where
  registered j other hother hrunning := by
    refine entry_of_ne hinflight (h.registered j other hother hrunning) fun heq => ?_
    subst heq
    cases htask.symm.trans hother
    rw [hended] at hrunning
    cases hrunning
  inflight other j hat := h.inflight other j (entry_of_release hat).2
  times := h.times
  cached := h.cached
  kept j other instant value hother hvalue := by
    rcases h.kept j other instant value hother hvalue with hat | hcached
    · refine Or.inl (entry_of_ne hinflight hat fun heq => ?_)
      subst heq
      cases htask.symm.trans hother
      cases hended.symm.trans hvalue
      cases hfailed
    · exact Or.inr hcached
  spaced := h.spaced

/-- The creator stores the value of its computation. -/
theorem Registry.store (h : Registry ttl cache) {key : Key} {i : Nat} {task : Task Key α ε}
    {ended : Nat} {value : α} (hinflight : cache.inflight key = some i)
    (htask : cache.tasks[i]? = some task) (hended : task.ended = some (ended, .value value)) :
    Registry ttl (cache.settle ttl key i (.value value)) ∧
      Grown cache.now cache.tasks (cache.settle ttl key i (.value value)).tasks := by
  obtain ⟨found, hfound, hkey, hstored, hnewest⟩ := h.inflight key i hinflight
  cases htask.symm.trans hfound
  have hafter : task.Extends cache.now { task with storedAt := some cache.now } :=
    ⟨rfl, rfl, Or.inl rfl, Or.inr ⟨hstored, rfl⟩⟩
  have hmodify : (cache.settle ttl key i (.value value)).tasks =
      cache.tasks.set i { task with storedAt := some cache.now } := by
    rw [Cache.settle, List.modify_eq_set_getElem?, htask]
    rfl
  have hgrown : Grown cache.now cache.tasks (cache.settle ttl key i (.value value)).tasks := by
    rw [hmodify]
    exact grown_set htask hafter
  have hcached : ∀ other, (cache.settle ttl key i (.value value)).cached other =
      if other = key then some (cache.now + ttl, value) else cache.cached other := fun other =>
    Function.update_apply ..
  have hat : (cache.settle ttl key i (.value value)).tasks[i]? =
      some { task with storedAt := some cache.now } := by
    rw [hmodify]
    exact List.getElem?_set_self (lt_of_task htask)
  refine ⟨⟨?_, ?_, fun j after hafter => h.times_grown hgrown hafter, ?_, ?_,
    fun j k a b _ _ hlt ha hb hsame hvalue => h.spaced_grown hgrown hlt ha hb hsame hvalue⟩, hgrown⟩
  · intro j after hafter hrunning
    refine entry_of_ne hinflight (h.running hgrown hafter hrunning) fun heq => ?_
    subst heq
    cases hat.symm.trans hafter
    rw [hended] at hrunning
    cases hrunning
  · intro other j hentry
    obtain ⟨hne, hentry⟩ := entry_of_release hentry
    obtain ⟨old, hold, hsame, hnone, hlast⟩ := h.inflight other j hentry
    refine ⟨old, ?_, hsame, hnone, newest_grown hgrown hlast⟩
    rw [hmodify, List.getElem?_set_ne, hold]
    rintro rfl
    cases htask.symm.trans hold
    exact hne (hsame.symm.trans hkey)
  · intro other expiry held hother
    rw [hcached] at hother
    split at hother
    · rename_i heq
      cases hother
      refine ⟨i, _, ended, cache.now, hat, hkey.trans heq.symm, hended, rfl, rfl, ?_⟩
      intro j next hlt hnext hsame
      exact absurd (hsame.trans heq) (newest_grown hgrown hnewest j next hlt hnext)
    · exact h.cached_grown hgrown hother
  · intro j after instant result hafter hvalue
    rw [hcached]
    split
    · refine Or.inr ⟨_, _, rfl, ?_⟩
      exact Nat.add_le_add_right ((h.times_grown hgrown hafter).2 instant _ hvalue).2 ttl
    · rename_i hne
      rcases h.kept_grown hgrown hafter hvalue with hentry | hheld
      · refine Or.inl (entry_of_ne hinflight hentry fun heq => hne ?_)
        subst heq
        cases hat.symm.trans hafter
        exact hkey
      · exact Or.inr hheld

end CatalogApi.SingleFlight
