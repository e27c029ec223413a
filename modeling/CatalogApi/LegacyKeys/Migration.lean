import CatalogApi.LegacyKeys.Store

/-!
# A read while keys are migrated

A read looks at two names in two commands, and a migration moves the value from the second to the
first. The migration writes the prefixed name before it deletes the legacy one, and the copy lives as
long as the original. So a read finds the value unless the deletion comes between its two lookups:
`migration_never_hides` says that nothing else can hide it, and `deletion_between_lookups_hides` that
the deletion does.
-/

namespace CatalogApi.LegacyKeys

open Programs

/-- The calls on one Valkey. -/
abbrev Callers := Pool Keyspace Command Reply Answer Call

/-- The key is a prefixed name of one of the two families that have a legacy spelling. -/
def DenyKey (config : Config) (key name : String) : Prop :=
  config.keyPrefix ≠ "" ∧ key = config.keyPrefix ++ name ∧
    denyLegacyShapes.any (·.shape name) = true

/-- A marker under either name lives beyond the instant. -/
def Marked (keys : Keyspace) (key name : String) (instant : Int) : Prop :=
  ∃ entry, (keys.entries key = some entry ∨ keys.entries name = some entry) ∧
    ∀ deadline ∈ entry.deadline, instant < deadline

/-- Reads are made inside the legacy window: no look at the clock finds it past. -/
def InWindow (pool : Callers) : Move Call Nat → Prop
  | .step thread =>
      match pool.threads[thread]? with
      | some ⟨_, _, .issue (.past instant) _⟩ => pool.state.clock ≤ instant
      | _ => True
  | _ => True

/-- The call is a read of the prefixed name that has missed it and not looked at the legacy one. -/
def betweenLookups (config : Config) (name : String)
    (thread : Thread Command Reply Answer Call) : Bool :=
  match thread.call, thread.last, thread.program with
  | .read read, some _, .issue _ _ => read.key = config.keyPrefix ++ name
  | _, _, _ => false

/-- No deletion takes a legacy marker away between the two lookups of a read. -/
def Unhidden (config : Config) (pool : Callers) : Move Call Nat → Prop
  | .step thread =>
      match pool.threads[thread]? with
      | some ⟨_, _, .issue (.delete name) _⟩ =>
          pool.state.entries name ≠ none →
            ∀ other ∈ pool.threads, betweenLookups config name other = false
      | _ => True
  | _ => True

/-! ## The rest of a read -/

/-- Whatever the replies, as long as the window is open, the program ends by looking at the name. -/
inductive Looks (name : String) : Task Answer → Prop where
  | lookup : Looks name (.issue (.get name) fun value => .done (.value value))
  | marker (key : String) (next : Option Bytes → Task Answer) (h : ∀ reply, Looks name (next reply)) :
      Looks name (.issue (.get key) next)
  | time (next : Int → Task Answer) (h : ∀ reply, Looks name (next reply)) :
      Looks name (.issue .time next)
  | past (instant : Int) (next : Bool → Task Answer) (h : Looks name (next false)) :
      Looks name (.issue (.past instant) next)

/-- The rest of a read of the legacy name, from how it finds the cutover. -/
def lookedUp (config : Config) (name : String) (found : Task (Option Int)) : Task Answer :=
  ((found >>= fun cutover => match cutover with
    | none => pure true
    | some cutover => past (cutover + config.window) >>= fun closed => pure !closed) >>=
      fun active => if active then Valkey.get name else pure none) >>=
    fun value => pure (.value value)

/-- After a miss of the prefixed name a read goes on to the legacy one. -/
theorem looks_after_miss {config : Config} {read : DenyRead} {name : String}
    (hkey : DenyKey config read.key name) (hmode : config.mode ≠ .off)
    (hwindow : read.windowClosed = false) :
    ∃ next, program config (.read read) = .issue (.get read.key) next ∧
      (∀ value, next (some value) = .done (.value (some value))) ∧ Looks name (next none) := by
  obtain ⟨hstart, hname, hshape⟩ := hkey
  refine ⟨_, rfl, fun value => rfl, ?_⟩
  have hlegacy : legacyName config read.key denyLegacyShapes = some name := by
    rw [legacyName, if_neg hstart, hname, Text.after_prefix_append, Option.filter_some,
      if_pos hshape]
  have hclosed : ¬(read.windowClosed = true ∨ config.mode = .off ∨ config.keyPrefix = "") := by
    rw [hwindow]
    rintro (h | h | h)
    · cases h
    · exact hmode h
    · exact hstart h
  dsimp only [Program.bind]
  rw [hlegacy, legacyActive, if_neg hclosed]
  have hchecked : ∀ cutover : Option Int, Looks name (lookedUp config name (pure cutover)) := by
    intro cutover
    cases cutover with
    | none => exact .lookup
    | some cutover => exact .past _ _ .lookup
  rw [cutoverOf]
  cases read.cutover with
  | some cutover => exact hchecked (some cutover)
  | none =>
      refine .marker _ _ fun raw => ?_
      dsimp only [Program.bind]
      cases raw.filter (· ≠ []) with
      | none => exact .time _ fun now => hchecked (some now)
      | some marker => exact hchecked (config.float marker)

/-! ## The marker stays -/

section Frames

variable {config : Config} {name : String} {entry : Entry}

/-- Every command but the deletion of the name keeps what is stored there. -/
theorem exec_keeps {keys : Keyspace} {command : Command} (hdelete : command ≠ .delete name)
    (h : keys.entries name = some entry) : (exec command keys).2.entries name = some entry := by
  cases command with
  | get key => exact h
  | pttl key => exact h
  | time => exact h
  | past instant => exact h
  | delete key =>
      refine (if_neg ?_).trans h
      rintro rfl
      exact hdelete rfl
  | setNx key value px =>
      rw [exec]
      split
      · exact h
      · rename_i hnone
        refine (if_neg ?_).trans h
        rintro rfl
        rw [h] at hnone
        cases hnone

theorem exec_clock (command : Command) (keys : Keyspace) :
    (exec command keys).2.clock = keys.clock := by
  cases command with
  | setNx key value px =>
      rw [exec]
      split <;> rfl
  | _ => rfl

/-- A pool never goes back in time. -/
theorem clock_le {pool next : Callers} {move : Move Call Nat}
    (h : (calls config).step pool move = .ok next) : pool.state.clock ≤ next.state.clock := by
  cases move with
  | start call =>
      obtain rfl := Except.ok.inj h
      exact Int.le_refl _
  | change elapsed =>
      obtain rfl := Except.ok.inj h
      exact Int.le_add_of_nonneg_right (Int.natCast_nonneg elapsed)
  | step thread =>
      obtain ⟨call, last, command, rest, _, rfl⟩ := (calls config).step_cases h
      exact Int.le_of_eq (exec_clock command pool.state).symm

/-- A read in progress that has missed the prefixed name, while the legacy marker is there. -/
structure Looking (config : Config) (name : String) (entry : Entry) (thread : Nat)
    (pool : Callers) : Prop where
  stored : pool.state.entries name = some entry
  reads : ∃ read last rest, pool.threads[thread]? = some ⟨.read read, some last, rest⟩ ∧
    read.key = config.keyPrefix ++ name ∧ Looks name rest

/-- The read has returned this value. -/
def Returned (thread : Nat) (value : Option Bytes) (pool : Callers) : Prop :=
  (pool.threads[thread]?.bind (·.returned)) = some (.value value)

/-- An answer stays. -/
theorem returned_stays {pool next : Callers} {move : Move Call Nat} {thread : Nat}
    {value : Option Bytes} (h : Returned thread value pool)
    (hstep : (calls config).step pool move = .ok next) : Returned thread value next := by
  obtain ⟨found, hfound, hreturned⟩ := Option.bind_eq_some_iff.mp h
  refine Option.bind_eq_some_iff.mpr ⟨found, ?_, hreturned⟩
  cases move with
  | start call =>
      obtain rfl := Except.ok.inj hstep
      have hlt := (List.getElem?_eq_some_iff.mp hfound).1
      exact (List.getElem?_append_left hlt).trans hfound
  | change elapsed =>
      obtain rfl := Except.ok.inj hstep
      exact hfound
  | step other =>
      obtain ⟨call, last, command, rest, hother, rfl⟩ := (calls config).step_cases hstep
      have hne : other ≠ thread := by
        rintro rfl
        rw [hfound] at hother
        obtain rfl := Option.some.inj hother
        cases hreturned
      exact (List.getElem?_set_ne hne).trans hfound

/-- A step of the read itself: it goes on looking or returns the marker. -/
theorem looking_step {pool next : Callers} {thread : Nat} (h : Looking config name entry thread pool)
    (hwindow : InWindow pool (.step thread))
    (hstep : (calls config).step pool (.step thread) = .ok next) :
    Looking config name entry thread next ∨ Returned thread (some entry.value) next := by
  obtain ⟨read, last, rest, hthread, hkey, hlooks⟩ := h.reads
  have hlt := (List.getElem?_eq_some_iff.mp hthread).1
  cases hlooks with
  | lookup =>
      rw [System.step, hthread] at hstep
      obtain rfl := Except.ok.inj hstep
      have hvalue : (pool.state.entries name).map (·.value) = some entry.value := by
        rw [h.stored]
        rfl
      right
      rw [Returned, List.getElem?_set_self hlt, ← hvalue]
      rfl
  | marker key next hnext =>
      rw [System.step, hthread] at hstep
      obtain rfl := Except.ok.inj hstep
      exact .inl ⟨h.stored, read, _, _, List.getElem?_set_self hlt, hkey, hnext _⟩
  | time next hnext =>
      rw [System.step, hthread] at hstep
      obtain rfl := Except.ok.inj hstep
      exact .inl ⟨h.stored, read, _, _, List.getElem?_set_self hlt, hkey, hnext _⟩
  | past instant next hnext =>
      rw [InWindow, hthread] at hwindow
      rw [System.step, hthread] at hstep
      obtain rfl := Except.ok.inj hstep
      have hopen : decide (instant < pool.state.clock) = false :=
        decide_eq_false (Int.not_lt.mpr hwindow)
      refine .inl ⟨h.stored, read, _, _, List.getElem?_set_self hlt, hkey, ?_⟩
      change Looks name (next (decide (instant < pool.state.clock)))
      rw [hopen]
      exact hnext

/-- A step of another call keeps the marker, if it is no deletion between the lookups. -/
theorem looking_frame {pool next : Callers} {thread other : Nat}
    (h : Looking config name entry thread pool) (hne : other ≠ thread)
    (hkept : Unhidden config pool (.step other))
    (hstep : (calls config).step pool (.step other) = .ok next) :
    Looking config name entry thread next := by
  obtain ⟨read, last, rest, hthread, hkey, hlooks⟩ := h.reads
  obtain ⟨call, last', command, rest', hother, rfl⟩ := (calls config).step_cases hstep
  refine ⟨exec_keeps ?_ h.stored, read, last, rest, (List.getElem?_set_ne hne).trans hthread, hkey,
    hlooks⟩
  rintro rfl
  rw [Unhidden, hother] at hkept
  have hfree := hkept (by rw [h.stored]; exact Option.some_ne_none entry) _
    (List.mem_of_getElem? hthread)
  have hbetween : betweenLookups config name ⟨.read read, some last, rest⟩ = true := by
    cases hlooks <;> exact decide_eq_true hkey
  rw [hbetween] at hfree
  cases hfree

/-- Between the two lookups every move keeps the marker until it is found. -/
theorem looking_kept {pool next : Callers} {thread : Nat} {move : Move Call Nat}
    (h : Looking config name entry thread pool) (hwindow : InWindow pool move)
    (hkept : Unhidden config pool move) (hstep : (calls config).step pool move = .ok next)
    (hlives : ∀ deadline ∈ entry.deadline, next.state.clock < deadline) :
    Looking config name entry thread next ∨ Returned thread (some entry.value) next := by
  cases move with
  | start call =>
      obtain ⟨read, last, rest, hthread, hread⟩ := h.reads
      obtain rfl := Except.ok.inj hstep
      have hlt := (List.getElem?_eq_some_iff.mp hthread).1
      exact .inl ⟨h.stored, read, last, rest, (List.getElem?_append_left hlt).trans hthread, hread⟩
  | change elapsed =>
      obtain rfl := Except.ok.inj hstep
      refine .inl ⟨?_, h.reads⟩
      change (pool.state.entries name).filter _ = some entry
      rw [h.stored, Option.filter_some, if_pos]
      cases hdeadline : entry.deadline with
      | none => rfl
      | some deadline => exact decide_eq_true (hlives deadline hdeadline)
  | step other =>
      by_cases hother : other = thread
      · subst hother
        exact looking_step h hwindow hstep
      · exact .inl (looking_frame h hother hkept hstep)

end Frames

/-! ## Runs -/

/-- Reads inside the window, and no deletion between the lookups of a read. -/
def Undisturbed (config : Config) (pool : Callers) (move : Move Call Nat) : Prop :=
  InWindow pool move ∧ Unhidden config pool move

/-- The rest of a run keeps the marker for a read between its lookups, or the value it returned. -/
theorem found_along {config : Config} {name : String} {entry : Entry} {pool next : Callers}
    {thread : Nat} {moves : List (Move Call Nat)}
    (h : Looking config name entry thread pool ∨ Returned thread (some entry.value) pool)
    (hrun : Runs.execute (calls config).step pool moves = .ok next)
    (halong : Runs.Along (calls config).step (Undisturbed config) pool moves)
    (hlives : ∀ deadline ∈ entry.deadline, next.state.clock < deadline) :
    Looking config name entry thread next ∨ Returned thread (some entry.value) next := by
  refine Runs.along_induction (motive := fun _ pool =>
    (∀ deadline ∈ entry.deadline, pool.state.clock < deadline) →
      Looking config name entry thread pool ∨ Returned thread (some entry.value) pool)
    (fun _ => h) ?_ hrun halong hlives
  rintro trace move pool next ih ⟨hwindow, hkept⟩ hstep hlater
  have hnow : ∀ deadline ∈ entry.deadline, pool.state.clock < deadline := fun deadline hdeadline =>
    Int.lt_of_le_of_lt (clock_le hstep) (hlater deadline hdeadline)
  rcases ih hnow with hlooking | hreturned
  · exact looking_kept hlooking hwindow hkept hstep hlater
  · exact .inr (returned_stays hreturned hstep)

theorem returned_along {config : Config} {pool next : Callers} {thread : Nat} {value : Option Bytes}
    {moves : List (Move Call Nat)} (h : Returned thread value pool)
    (hrun : Runs.execute (calls config).step pool moves = .ok next) : Returned thread value next :=
  Runs.execute_induction (motive := fun _ pool => Returned thread value pool) h
    (fun _ _ _ _ _ ih hstep => returned_stays ih hstep) hrun

/-- A read between its lookups has not returned. -/
theorem looking_not_returned {config : Config} {name : String} {entry : Entry} {pool : Callers}
    {thread : Nat} (h : Looking config name entry thread pool) (value : Option Bytes) :
    ¬Returned thread value pool := by
  intro hreturned
  obtain ⟨read, last, rest, hthread, _, hlooks⟩ := h.reads
  rw [Returned, hthread] at hreturned
  cases hlooks <;> cases hreturned

/-- A read inside the window whose marker, prefixed or legacy, is there when it issues its first command
and lives beyond its end returns a value, however it interleaves with migrations that do not delete the
legacy marker between its two lookups. -/
theorem migration_never_hides (config : Config) (start : Keyspace) (before during : List (Move Call Nat))
    (pool next : Callers) (thread : Nat) (read : DenyRead) (name : String) (value : Option Bytes)
    (hkey : DenyKey config read.key name)
    (hopen : config.mode ≠ .off ∧ read.windowClosed = false)
    (hbefore : Runs.execute (calls config).step ((calls config).idle start) before = .ok pool)
    (hread : pool.threads[thread]? = some ((calls config).begin' (.read read)))
    (hafter : Runs.execute (calls config).step pool (.step thread :: during) = .ok next)
    (halong : Runs.Along (calls config).step (Undisturbed config) ((calls config).idle start)
      (before ++ .step thread :: during))
    (hmarked : Marked pool.state read.key name next.state.clock)
    (hreturned : Returned thread value next) : value ≠ none := by
  have hrest := Runs.along_drop halong hbefore
  obtain ⟨rest, hprogram, hhit, hmiss⟩ := looks_after_miss hkey hopen.1 hopen.2
  have hthread : pool.threads[thread]? =
      some ⟨.read read, none, .issue (.get read.key) rest⟩ := by
    rw [hread, System.begin', ← hprogram]
    rfl
  have hlt := (List.getElem?_eq_some_iff.mp hthread).1
  obtain ⟨entry, hentry, hlives⟩ := hmarked
  set first : Callers :=
    { state := pool.state
      threads := pool.threads.set thread
        ⟨.read read, some ⟨.get read.key, (pool.state.entries read.key).map (·.value)⟩,
          rest ((pool.state.entries read.key).map (·.value))⟩ } with hfirst
  have hstep : (calls config).step pool (.step thread) = .ok first := by
    rw [System.step, hthread]
    rfl
  have hrun : Runs.execute (calls config).step first during = .ok next := by
    rw [Runs.execute_cons, hstep] at hafter
    exact hafter
  have halong' : Runs.Along (calls config).step (Undisturbed config) first during := by
    have hlater := hrest.2
    rw [hstep] at hlater
    exact hlater
  cases hnewer : pool.state.entries read.key with
  | some found =>
      have hanswer : Returned thread (some found.value) first := by
        rw [Returned, hfirst, List.getElem?_set_self hlt, hnewer, Option.map_some, hhit]
        rfl
      have hsame := returned_along hanswer hrun
      rw [Returned, hreturned] at hsame
      obtain rfl := Answer.value.inj (Option.some.inj hsame)
      exact Option.some_ne_none found.value
  | none =>
      have hlegacy : pool.state.entries name = some entry := by
        rcases hentry with hentry | hentry
        · rw [hnewer] at hentry
          cases hentry
        · exact hentry
      have hlooking : Looking config name entry thread first := by
        refine ⟨hlegacy, read, _, _, List.getElem?_set_self hlt, hkey.2.1, ?_⟩
        rw [hnewer]
        exact hmiss
      rcases found_along (.inl hlooking) hrun halong' hlives with hstill | hfound
      · exact absurd hreturned (looking_not_returned hstill value)
      · rw [Returned, hreturned] at hfound
        obtain rfl := Answer.value.inj (Option.some.inj hfound)
        exact Option.some_ne_none entry.value

/-! ## A deletion between the lookups -/

instance (pool : Callers) (move : Move Call Nat) : Decidable (InWindow pool move) := by
  unfold InWindow
  split
  · split <;> infer_instance
  · infer_instance

instance (config : Config) (pool : Callers) (move : Move Call Nat) :
    Decidable (Unhidden config pool move) := by
  unfold Unhidden
  split
  · split <;> infer_instance
  · infer_instance

instance (config : Config) (pool : Callers) (move : Move Call Nat) :
    Decidable (Undisturbed config pool move) := inferInstanceAs (Decidable (_ ∧ _))

/-- Reads of legacy keys for a day, in a stack that migrates. -/
def migrating : Config where
  keyPrefix := "groovemap:"
  mode := .migrate
  window := 86400000
  float := fun _ => none

/-- A legacy revocation of one minute. -/
def oneRevocation : Keyspace where
  clock := 0
  entries := fun key => if key = "revoked:jti:a" then some ⟨[49], some 60000⟩ else none

/-- A read of that revocation's prefixed name, in a process that knows the cutover. -/
def revocationRead : DenyRead where
  key := "groovemap:revoked:jti:a"
  cutover := some 0
  windowClosed := false

/-- A migration whose scans find that revocation alone. -/
def revocationMigration : Call :=
  .migrate fun family => if family = .revokedJti then ["revoked:jti:a"] else []

/-- The migration and the read start, and the migration has read the legacy value. -/
def readAndMigration : List (Move Call Nat) :=
  [.start revocationMigration, .start (.read revocationRead), .step 0, .step 0]

/-- The read misses the prefixed name before the copy and finds the legacy one before the deletion. -/
theorem read_before_deletion_finds :
    ∃ pool next, Runs.execute (calls migrating).step ((calls migrating).idle oneRevocation)
        readAndMigration = .ok pool ∧
      Runs.execute (calls migrating).step pool
        (.step 1 :: [.step 0, .change 5, .step 1, .step 1, .step 0]) = .ok next ∧
      Returned 1 (some [49]) next ∧ (some [49] : Option Bytes) ≠ none := by
  obtain ⟨pool, next, hpool, hread, hnext, hmarked, hreturned⟩ : ∃ pool next,
      Runs.execute (calls migrating).step ((calls migrating).idle oneRevocation)
        readAndMigration = .ok pool ∧
      pool.threads[1]? = some ((calls migrating).begin' (.read revocationRead)) ∧
      Runs.execute (calls migrating).step pool
        (.step 1 :: [.step 0, .change 5, .step 1, .step 1, .step 0]) = .ok next ∧
      Marked pool.state "groovemap:revoked:jti:a" "revoked:jti:a" next.state.clock ∧
      Returned 1 (some [49]) next :=
    ⟨_, _, rfl, rfl, rfl, ⟨_, .inr rfl, by rintro deadline ⟨⟩; decide⟩, rfl⟩
  refine ⟨pool, next, hpool, hnext, hreturned, ?_⟩
  exact migration_never_hides migrating oneRevocation _ _ pool next 1 revocationRead
    "revoked:jti:a" _ ⟨by decide, by decide, by decide⟩ ⟨by decide, by decide⟩ hpool hread hnext
    (by decide +kernel) hmarked hreturned

/-- The read misses the prefixed name before the copy and the legacy one after the deletion, while the
revocation is in force. -/
theorem deletion_between_lookups_hides :
    ¬∀ (config : Config) (start : Keyspace) (before during : List (Move Call Nat))
      (pool next : Callers) (thread : Nat) (read : DenyRead) (name : String) (value : Option Bytes),
      DenyKey config read.key name → config.mode ≠ .off ∧ read.windowClosed = false →
      Runs.execute (calls config).step ((calls config).idle start) before = .ok pool →
      pool.threads[thread]? = some ((calls config).begin' (.read read)) →
      Runs.execute (calls config).step pool (.step thread :: during) = .ok next →
      Runs.Along (calls config).step InWindow ((calls config).idle start)
        (before ++ .step thread :: during) →
      Marked pool.state read.key name next.state.clock →
      Returned thread value next → value ≠ none := by
  intro h
  obtain ⟨pool, next, hpool, hread, hnext, hmarked, hreturned⟩ : ∃ pool next,
      Runs.execute (calls migrating).step ((calls migrating).idle oneRevocation)
        readAndMigration = .ok pool ∧
      pool.threads[1]? = some ((calls migrating).begin' (.read revocationRead)) ∧
      Runs.execute (calls migrating).step pool
        (.step 1 :: [.step 0, .step 0, .step 1, .step 1]) = .ok next ∧
      Marked pool.state "groovemap:revoked:jti:a" "revoked:jti:a" next.state.clock ∧
      Returned 1 none next :=
    ⟨_, _, rfl, rfl, rfl, ⟨_, .inr rfl, by rintro deadline ⟨⟩; decide⟩, rfl⟩
  exact h migrating oneRevocation readAndMigration [.step 0, .step 0, .step 1, .step 1] pool next 1
    revocationRead "revoked:jti:a" none ⟨by decide, by decide, by decide⟩ ⟨by decide, by decide⟩
    hpool hread hnext (by decide +kernel) hmarked hreturned rfl

end CatalogApi.LegacyKeys
