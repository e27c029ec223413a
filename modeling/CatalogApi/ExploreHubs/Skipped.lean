import CatalogApi.ExploreHubs.Refresh
import CatalogApi.ValkeyRouting.Isolation

/-!
# Which hubs a refresh skips

A lock that another builder holds makes a refresh skip a hub, and without Valkey it builds the hub
itself. The routing client answers a lock that an unavailable cache instance could not take as one that
is held, so then the hub is skipped although nobody builds it (`skips_unlocked`). A stored result that
raises an error `_decode` does not catch ends the call at that hub, or is taken for a failed build under
its lock. These, and an error that ends the call before other hubs, are all that can leave a hub unbuilt
(`skipped_only_if_locked`).
-/

namespace CatalogApi.ExploreHubs

open ValkeyRouting

variable {Row : Type} {config : Config Row} {state : State Row} {hub : Hub} {around : Around Row}

/-! ## What may become of a hub -/

/-- The result a read found; one that raised found none. -/
def answer (read : Except Escaped (Option (HubResult Row))) : Option (HubResult Row) :=
  read.toOption.join

/-- The hub is missing or stale, and its retry time has come. -/
def Needed (config : Config Row) (state : State Row) (hub : Hub) (around : Around Row) : Prop :=
  ((answer (hubResult config state hub.key around.read).1).any
      (·.current config.maxAge hub around.checkedAt)) = false ∧
    ((state.failures hub.key).getD (0, 0)).2 ≤ around.dueAt

/-- What the instance of the lock keys holds. -/
def Client.contents (moment : Moment) : Client → Contents
  | .routed _ => moment.cache
  | _ => moment.auth

/-- When the lock is asked for, another builder's token is under its key. -/
def Locked (config : Config Row) (hub : Hub) (around : Around Row) : Prop :=
  ∃ other, (config.client.contents around.lock).lookup (config.lockKey hub.key).key = some other ∧
    other ≠ around.token

/-- The hub was passed to `_build_hub`, or found fresh under its lock, or skipped for another
builder's lock. -/
def Handled (config : Config Row) (record : Record Row) : Prop :=
  match record.outcome with
  | .built | .failed | .overflowed => True
  | .found => True
  | .locked => Locked config record.hub record.around
  | .current | .waiting | .unread | .lost | .escaped | .unreached => False

/-- The cache instance of a routing client is unavailable when the lock is asked for, and nobody holds
it. -/
def Unserved (config : Config Row) (hub : Hub) (around : Around Row) : Prop :=
  config.client = .routed false ∧ ¬Locked config hub around ∧
    ∃ failure applied, around.lock.cacheFate = .fails failure applied ∧ failure.unavailable = true

/-- When the hub's turn comes, decoding what is stored for it raises. -/
def Unreadable (config : Config Row) (state : State Row) (hub : Hub) (around : Around Row) : Prop :=
  ∃ escaped, (hubResult config state hub.key around.read).1 = .error escaped

/-- The lock as it is asked for after the first read. -/
def lockAfter (config : Config Row) (state : State Row) (hub : Hub) (around : Around Row) :
    Bool × State Row :=
  takeLock config (hubResult config state hub.key around.read).2 hub.key around.token around.lock

/-- The second read, under the lock. -/
def secondRead (config : Config Row) (state : State Row) (hub : Hub) (around : Around Row) :
    Except Escaped (Option (HubResult Row)) :=
  (hubResult config (dropChanged (lockAfter config state hub around).2 hub
    (answer (hubResult config state hub.key around.read).1)) hub.key around.reread).1

/-- The hub needs its turn and its lock is taken. -/
def Takes (config : Config Row) (state : State Row) (hub : Hub) (around : Around Row) : Prop :=
  Needed config state hub around ∧ ¬Unreadable config state hub around ∧
    (lockAfter config state hub around).1 = true

/-- Under the lock, decoding what is stored for the hub raises. -/
def Spoiled (config : Config Row) (state : State Row) (hub : Hub) (around : Around Row) : Prop :=
  Takes config state hub around ∧ ∃ escaped, secondRead config state hub around = .error escaped

/-- The hub is passed to `_build_hub`. -/
def Builds (config : Config Row) (state : State Row) (hub : Hub) (around : Around Row) : Prop :=
  Takes config state hub around ∧ ∃ fresh, secondRead config state hub around = .ok fresh ∧
    fresh.any (·.current config.maxAge hub around.recheckedAt) = false

/-- An error under the lock comes with a delay that is no float after that many failures. -/
def Overflows (config : Config Row) (state : State Row) (hub : Hub) (around : Around Row) : Prop :=
  (Builds config state hub around ∧ around.build = none ∨ Spoiled config state hub around) ∧
    1024 ≤ ((state.failures hub.key).getD (0, 0)).1

/-- The call ends at the hub. -/
def Ends (config : Config Row) (state : State Row) (hub : Hub) (around : Around Row) : Prop :=
  Unreadable config state hub around ∨ Overflows config state hub around

/-- In the state before each hub's turn: no lock goes unserved of a hub that needs it, nothing stored
for such a hub raises when it is decoded, and the call does not end before another hub that needs its
turn. -/
def Clear (config : Config Row) : State Row → List (Hub × Around Row) → Prop
  | _, [] => True
  | state, (hub, around) :: rest =>
      let next := (refreshHub config state hub around).2
      (Needed config state hub around → ¬Unserved config hub around ∧
        ¬Unreadable config state hub around ∧ ¬Spoiled config state hub around) ∧
        (Ends config state hub around → ∀ later ∈ rest, ¬Needed config next later.1 later.2) ∧
        (¬Ends config state hub around → Clear config next rest)

/-! ## The lock -/

theorem lock_key_is_cache (config : Config Row) (key : HubKey) :
    isCacheName config.keyPrefix (config.lockKey key) = true := by
  refine (is_cache_name_iff _ _).mpr ⟨"explore-hub:", by decide, "v1:lock:" ++ key.1 ++ ":" ++ key.2, ?_⟩
  rw [Config.lockKey, Config.valkeyKey, Name.text,
    show "explore-hub:v1:lock:" = "explore-hub:" ++ "v1:lock:" by decide]
  simp only [String.append_assoc]

/-- What a SET NX of an instance replies. -/
theorem run_lock (contents : Contents) (name : Name) (token : String) :
    truthy (contents.run (.keyed .set name (.set token true (some hubLockSeconds)))).2 =
      (contents.lookup name.key).isNone := by
  rw [Contents.run]
  cases contents.lookup name.key with
  | none => rfl
  | some other => rfl

/-- What asking for the lock gives. -/
theorem ask_lock (config : Config Row) (key : HubKey) (token : String) (moment : Moment) :
    config.client.ask config.keyPrefix moment
        (.keyed .set (config.lockKey key) (.set token true (some hubLockSeconds))) =
      let reply := ((config.client.contents moment).run
        (.keyed .set (config.lockKey key) (.set token true (some hubLockSeconds)))).2
      match config.client with
      | .absent => none
      | .single => some (match moment.authFate with
          | .answers => .ok reply
          | .fails failure _ => .error (.valkey failure))
      | .routed strict => some (match moment.cacheFate with
          | .answers => .ok reply
          | .fails failure _ => orMiss strict .none (.error failure)) := by
  cases config.client with
  | absent => rfl
  | single =>
      rw [Client.ask, toAuth]
      cases moment.authFate with
      | answers | fails => rfl
  | routed strict =>
      rw [Client.ask, call]
      dsimp only
      rw [lock_key_is_cache]
      cases hfate : moment.cacheFate with
      | answers | fails =>
          simp only [Bool.not_true, Bool.false_eq_true, if_false, toCache]
          rfl

/-- The lock is not taken exactly where it is held and its instance answers, or where a routing client
takes an unavailable cache instance for a miss. -/
theorem take_lock_eq_false_iff (config : Config Row) (state : State Row) (key : HubKey)
    (token : String) (moment : Moment) :
    (takeLock config state key token moment).1 = false ↔
      match config.client with
      | .absent => False
      | .single => moment.authFate = .answers ∧
          (moment.auth.lookup (config.lockKey key).key).isSome = true
      | .routed strict =>
          (moment.cacheFate = .answers ∧
            (moment.cache.lookup (config.lockKey key).key).isSome = true) ∨
          strict = false ∧ ∃ failure applied,
            moment.cacheFate = .fails failure applied ∧ failure.unavailable = true := by
  have hreply : ∀ (contents : Contents),
      (if truthy (contents.run (.keyed .set (config.lockKey key)
          (.set token true (some hubLockSeconds)))).2 = true then
        (true, { state with lockTokens := Function.update state.lockTokens key (some token) })
      else (false, state)).1 = false ↔ (contents.lookup (config.lockKey key).key).isSome = true := by
    intro contents
    rw [run_lock]
    cases contents.lookup (config.lockKey key).key with
    | none | some => simp
  rw [takeLock, ask_lock]
  cases config.client with
  | absent => simp
  | single =>
      cases moment.authFate with
      | answers =>
          simp only [true_and]
          exact hreply moment.auth
      | fails failure applied => simp
  | routed strict =>
      cases moment.cacheFate with
      | answers =>
          simp only [true_and, reduceCtorEq, false_and, exists_false, and_false, or_false]
          exact hreply moment.cache
      | fails failure applied =>
          cases hunavailable : failure.unavailable with
          | false => simp [orMiss, hunavailable]
          | true => cases strict <;> simp [orMiss, miss, hunavailable, truthy]

/-- A lock is held by another builder wherever it is held: the token of this one is new. -/
theorem locked_iff (config : Config Row) (hub : Hub) (around : Around Row) :
    Locked config hub around ↔
      ((config.client.contents around.lock).lookup (config.lockKey hub.key).key).isSome = true := by
  refine ⟨fun ⟨other, hother, _⟩ => Option.isSome_iff_exists.mpr ⟨other, hother⟩, fun h => ?_⟩
  obtain ⟨other, hother⟩ := Option.isSome_iff_exists.mp h
  refine ⟨other, hother, around.fresh ((config.lockKey hub.key).key, other) ?_⟩
  obtain ⟨before, after, heq, -⟩ := List.lookup_eq_some_iff.mp hother
  have hmem : ((config.lockKey hub.key).key, other) ∈ config.client.contents around.lock := by
    rw [heq]
    exact List.mem_append_right _ (List.mem_cons_self ..)
  cases hclient : config.client with
  | absent | single =>
      rw [hclient] at hmem
      exact List.mem_append_left _ hmem
  | routed strict =>
      rw [hclient] at hmem
      exact List.mem_append_right _ hmem

/-- A lock that is not taken is another builder's, or it is unserved. -/
theorem locked_or_unserved {read : State Row}
    (h : (takeLock config read hub.key around.token around.lock).1 = false) :
    Locked config hub around ∨ Unserved config hub around := by
  have hcases := (take_lock_eq_false_iff config read hub.key around.token around.lock).mp h
  cases hclient : config.client with
  | absent =>
      rw [hclient] at hcases
      exact hcases.elim
  | single =>
      rw [hclient] at hcases
      refine Or.inl ((locked_iff config hub around).mpr ?_)
      rw [hclient]
      exact hcases.2
  | routed strict =>
      rw [hclient] at hcases
      by_cases hlocked : Locked config hub around
      · exact Or.inl hlocked
      · rcases hcases with ⟨-, hsome⟩ | ⟨rfl, hfails⟩
        · refine Or.inl ((locked_iff config hub around).mpr ?_)
          rw [hclient]
          exact hsome
        · exact Or.inr ⟨hclient, hlocked, hfails⟩

/-- An unserved lock is not taken. -/
theorem take_lock_of_unserved (read : State Row) (h : Unserved config hub around) :
    (takeLock config read hub.key around.token around.lock).1 = false := by
  obtain ⟨hclient, -, hfails⟩ := h
  rw [take_lock_eq_false_iff, hclient]
  exact Or.inr ⟨rfl, hfails⟩

/-! ## One hub -/

theorem hub_result_failures (config : Config Row) (state : State Row) (key : HubKey)
    (moment : Moment) : (hubResult config state key moment).2.failures = state.failures := by
  rw [hubResult]
  split
  · rfl
  · split
    · split
      · rfl
      · split <;> rfl
    · rfl

theorem take_lock_failures (config : Config Row) (state : State Row) (key : HubKey) (token : String)
    (moment : Moment) :
    (takeLock config state key token moment).2.failures = state.failures := by
  rw [takeLock]
  split
  · rfl
  · rfl
  · split <;> rfl

theorem drop_changed_failures (state : State Row) (hub : Hub) (held : Option (HubResult Row)) :
    (dropChanged state hub held).failures = state.failures := by
  cases held with
  | none => rfl
  | some result =>
      rw [dropChanged]
      split <;> rfl

/-- A first read that raises ends the call. -/
theorem refresh_hub_of_unreadable (h : Unreadable config state hub around) :
    (refreshHub config state hub around).1 = .escaped := by
  obtain ⟨escaped, hread⟩ := h
  rw [refreshHub]
  cases hresult : hubResult config state hub.key around.read with
  | mk read next =>
      rw [hresult] at hread
      obtain rfl := hread
      rfl

theorem answer_ok (held : Option (HubResult Row)) : answer (.ok held) = held := by
  cases held <;> rfl

/-- A first read that does not raise has an answer. -/
theorem first_read_of_readable (h : ¬Unreadable config state hub around) :
    ∃ held next, hubResult config state hub.key around.read = (.ok held, next) ∧
      next.failures = state.failures := by
  have hfailures := hub_result_failures config state hub.key around.read
  cases hresult : hubResult config state hub.key around.read with
  | mk read next =>
      rw [hresult] at hfailures
      cases read with
      | ok held => exact ⟨held, next, rfl, hfailures⟩
      | error escaped => exact absurd ⟨escaped, by rw [hresult]⟩ h

/-- A hub that needs its turn and can be read gets it. -/
theorem refresh_hub_of_needed (h : Needed config state hub around)
    (hreadable : ¬Unreadable config state hub around) :
    refreshHub config state hub around =
      rebuild config (hubResult config state hub.key around.read).2 hub
        (answer (hubResult config state hub.key around.read).1) around := by
  obtain ⟨held, next, hread, hfailures⟩ := first_read_of_readable hreadable
  obtain ⟨hstale, hdue⟩ := h
  rw [hread, answer_ok] at hstale
  rw [refreshHub, hread]
  dsimp only
  rw [hstale, if_neg Bool.false_ne_true, hfailures, if_neg (not_lt.mpr hdue), answer_ok]

/-- A hub that can be read and does not need its turn is current or waits. -/
theorem refresh_hub_of_not_needed (h : ¬Needed config state hub around)
    (hreadable : ¬Unreadable config state hub around) :
    (refreshHub config state hub around).1 = .current ∨
      (refreshHub config state hub around).1 = .waiting := by
  obtain ⟨held, next, hread, hfailures⟩ := first_read_of_readable hreadable
  rw [Needed, hread, answer_ok] at h
  rw [refreshHub, hread]
  dsimp only
  by_cases hstale : held.any (·.current config.maxAge hub around.checkedAt) = true
  · rw [if_pos hstale]
    exact Or.inl rfl
  · rw [if_neg hstale, hfailures]
    have hwaits : around.dueAt < ((state.failures hub.key).getD (0, 0)).2 :=
      not_le.mp fun hdue => h ⟨Bool.eq_false_iff.mpr hstale, hdue⟩
    rw [if_pos hwaits]
    exact Or.inr rfl

/-- What an error under the lock comes to. -/
theorem record_failure_outcome (state : State Row) (hub : Hub) (failedAt : ℚ)
    (recorded ended : Outcome) :
    (recordFailure state hub failedAt recorded ended).1 =
      if 1024 ≤ ((state.failures hub.key).getD (0, 0)).1 then ended else recorded := by
  rw [recordFailure, retryDelay]
  by_cases hmany : 1024 ≤ ((state.failures hub.key).getD (0, 0)).1
  · rw [if_pos hmany, if_pos (Nat.lt_succ_of_le hmany)]
  · rw [if_neg hmany, if_neg (by omega)]

/-- What becomes of a hub under its lock. -/
theorem under_lock_outcome (config : Config Row) (state : State Row) (hub : Hub)
    (around : Around Row) :
    (underLock config state hub around).1 =
      match (hubResult config state hub.key around.reread).1 with
      | .error _ =>
          if 1024 ≤ ((state.failures hub.key).getD (0, 0)).1 then .lost else .unread
      | .ok fresh =>
          if fresh.any (·.current config.maxAge hub around.recheckedAt) then .found
          else if around.build.isSome then .built
          else if 1024 ≤ ((state.failures hub.key).getD (0, 0)).1 then .overflowed else .failed := by
  have hfailures := hub_result_failures config state hub.key around.reread
  rw [underLock]
  cases hresult : hubResult config state hub.key around.reread with
  | mk read next =>
      rw [hresult] at hfailures
      dsimp only at hfailures
      cases read with
      | error escaped =>
          dsimp only
          rw [record_failure_outcome, hfailures]
      | ok fresh =>
          dsimp only
          split
          · rfl
          · cases around.build with
            | some built => rfl
            | none =>
                simp only [Option.isSome_none, Bool.false_eq_true, if_false]
                rw [record_failure_outcome, hfailures]

/-- A hub that needs its turn and whose lock is not taken is skipped. -/
theorem outcome_of_not_taken (h : Needed config state hub around)
    (hreadable : ¬Unreadable config state hub around)
    (htaken : (lockAfter config state hub around).1 = false) :
    (refreshHub config state hub around).1 = .locked := by
  rw [refresh_hub_of_needed h hreadable, rebuild]
  rw [lockAfter] at htaken
  cases hlock : takeLock config (hubResult config state hub.key around.read).2 hub.key around.token
      around.lock with
  | mk taken next =>
      rw [hlock] at htaken
      obtain rfl := htaken
      rfl

/-- What becomes of a hub whose lock is taken, by its second read. -/
theorem outcome_of_taken (h : Takes config state hub around) :
    (refreshHub config state hub around).1 =
      match secondRead config state hub around with
      | .error _ =>
          if 1024 ≤ ((state.failures hub.key).getD (0, 0)).1 then .lost else .unread
      | .ok fresh =>
          if fresh.any (·.current config.maxAge hub around.recheckedAt) then .found
          else if around.build.isSome then .built
          else if 1024 ≤ ((state.failures hub.key).getD (0, 0)).1 then .overflowed else .failed := by
  obtain ⟨hneeded, hreadable, htaken⟩ := h
  have hfailures : (lockAfter config state hub around).2.failures = state.failures := by
    rw [lockAfter, take_lock_failures, hub_result_failures]
  rw [refresh_hub_of_needed hneeded hreadable, rebuild, secondRead]
  rw [lockAfter] at htaken hfailures ⊢
  cases hlock : takeLock config (hubResult config state hub.key around.read).2 hub.key around.token
      around.lock with
  | mk taken next =>
      rw [hlock] at htaken hfailures
      dsimp only at htaken hfailures
      obtain rfl := htaken
      dsimp only
      rw [under_lock_outcome, drop_changed_failures, hfailures]

/-- A hub that needs its turn is handled exactly where its lock does not go unserved and neither of its
reads raises. -/
theorem handled_iff (config : Config Row) (state : State Row) (hub : Hub) (around : Around Row) :
    (Needed config state hub around →
        Handled config ⟨state, hub, around, (refreshHub config state hub around).1⟩) ↔
      (Needed config state hub around → ¬Unserved config hub around ∧
        ¬Unreadable config state hub around ∧ ¬Spoiled config state hub around) := by
  refine imp_congr_right fun hneeded => ?_
  rw [Handled]
  dsimp only
  by_cases hreadable : Unreadable config state hub around
  · rw [refresh_hub_of_unreadable hreadable]
    exact iff_of_false nofun fun hserved => hserved.2.1 hreadable
  cases htaken : (lockAfter config state hub around).1 with
  | false =>
      rw [outcome_of_not_taken hneeded hreadable htaken]
      refine ⟨fun hlocked => ⟨fun hunserved => hunserved.2.1 hlocked, hreadable, fun hspoiled => ?_⟩,
        fun hserved => ?_⟩
      · rw [hspoiled.1.2.2] at htaken
        cases htaken
      · exact (locked_or_unserved htaken).resolve_right hserved.1
  | true =>
      have htakes : Takes config state hub around := ⟨hneeded, hreadable, htaken⟩
      have hserved : ¬Unserved config hub around := by
        intro hunserved
        rw [lockAfter, take_lock_of_unserved _ hunserved] at htaken
        cases htaken
      rw [outcome_of_taken htakes]
      cases hsecond : secondRead config state hub around with
      | error escaped =>
          refine iff_of_false ?_ fun hclear => hclear.2.2 ⟨htakes, escaped, hsecond⟩
          by_cases hmany : 1024 ≤ ((state.failures hub.key).getD (0, 0)).1 <;> simp [hmany]
      | ok fresh =>
          refine iff_of_true ?_ ⟨hserved, hreadable, fun ⟨_, escaped, hraises⟩ => ?_⟩
          · cases hfound : fresh.any (·.current config.maxAge hub around.recheckedAt) with
            | true => simp [hfound]
            | false =>
                cases around.build with
                | some built => simp [hfound]
                | none =>
                    by_cases hmany : 1024 ≤ ((state.failures hub.key).getD (0, 0)).1 <;>
                      simp [hfound, hmany]
          · rw [hsecond] at hraises
            cases hraises

/-- An error leaves the call at a hub exactly where its first read raises or a delay overflows. -/
theorem ends_iff (config : Config Row) (state : State Row) (hub : Hub) (around : Around Row) :
    (refreshHub config state hub around).1.ends = true ↔ Ends config state hub around := by
  by_cases hreadable : Unreadable config state hub around
  · rw [refresh_hub_of_unreadable hreadable]
    exact iff_of_true rfl (Or.inl hreadable)
  rw [Ends, or_iff_right hreadable]
  by_cases htakes : Takes config state hub around
  · rw [outcome_of_taken htakes, Overflows, Builds, Spoiled, and_iff_right htakes,
      and_iff_right htakes]
    cases hsecond : secondRead config state hub around with
    | error escaped =>
        by_cases hmany : 1024 ≤ ((state.failures hub.key).getD (0, 0)).1 <;>
          simp [hmany, Outcome.ends]
    | ok fresh =>
        cases hfound : fresh.any (·.current config.maxAge hub around.recheckedAt) with
        | true => simp [hfound, Outcome.ends]
        | false =>
            cases around.build with
            | some built => simp [hfound, Outcome.ends]
            | none =>
                by_cases hmany : 1024 ≤ ((state.failures hub.key).getD (0, 0)).1 <;>
                  simp [hfound, hmany, Outcome.ends]
  · have hnot : ¬Overflows config state hub around := by
      rintro ⟨⟨⟨hbuilds, -⟩, -⟩ | ⟨hspoiled, -⟩, -⟩
      · exact htakes hbuilds
      · exact htakes hspoiled
    refine iff_of_false ?_ hnot
    by_cases hneeded : Needed config state hub around
    · have htaken : (lockAfter config state hub around).1 = false :=
        Bool.eq_false_iff.mpr fun h => htakes ⟨hneeded, hreadable, h⟩
      rw [outcome_of_not_taken hneeded hreadable htaken]
      nofun
    · rcases refresh_hub_of_not_needed hneeded hreadable with houtcome | houtcome <;>
        rw [houtcome] <;> nofun

/-! ## A call -/

/-- Every hub that a call's list names has one record. -/
theorem records_hubs (config : Config Row) (state : State Row) (hubs : List (Hub × Around Row)) :
    (refreshEach config state hubs).1.map (fun record => (record.hub, record.around)) = hubs := by
  induction hubs generalizing state with
  | nil => rfl
  | cons item rest ih =>
      obtain ⟨hub, around⟩ := item
      rw [refreshEach]
      dsimp only
      split
      · simp [unreached, Function.comp_def]
      · exact congrArg (_ :: ·) (ih _)

theorem each_handled_iff (config : Config Row) (state : State Row) (hubs : List (Hub × Around Row)) :
    (∀ record ∈ (refreshEach config state hubs).1,
        Needed config record.state record.hub record.around → Handled config record) ↔
      Clear config state hubs := by
  induction hubs generalizing state with
  | nil =>
      rw [refreshEach, Clear]
      exact iff_of_true (fun _ hmem => absurd hmem List.not_mem_nil) trivial
  | cons item rest ih =>
      obtain ⟨hub, around⟩ := item
      have hhead := handled_iff config state hub around
      rw [refreshEach, Clear]
      dsimp only
      by_cases hends : Ends config state hub around
      · rw [if_pos ((ends_iff config state hub around).mpr hends), List.forall_mem_cons, hhead]
        refine and_congr_right fun _ => ?_
        -- The hubs that are not reached are not handled either.
        have hrest : (∀ record ∈ unreached (refreshHub config state hub around).2 rest,
            Needed config record.state record.hub record.around → Handled config record) ↔
            ∀ later ∈ rest,
              ¬Needed config (refreshHub config state hub around).2 later.1 later.2 := by
          rw [unreached, List.forall_mem_map]
          exact Iff.rfl
        rw [hrest]
        exact ⟨fun h => ⟨fun _ => h, fun hnot => absurd hends hnot⟩, fun h => h.1 hends⟩
      · rw [if_neg fun h => hends ((ends_iff config state hub around).mp h),
          List.forall_mem_cons, hhead, ih]
        refine and_congr_right fun _ => ?_
        exact ⟨fun h => ⟨fun h => absurd h hends, fun _ => h⟩, fun h => h.2 hends⟩

theorem records_of_refresh (config : Config Row) (state : State Row)
    (hubs : List (Hub × Around Row)) :
    (refreshHubs config state (some hubs)).records = (refreshEach config state hubs).1 := by
  rw [refreshHubs]
  dsimp only
  split <;> rfl

/-- In a call with any list of hubs, each hub that is missing or stale and due is built, found fresh
under its lock or skipped for another builder's lock, exactly where no such hub's lock goes unserved,
nothing stored for such a hub raises when it is decoded, and no error ends the call before another such
hub. -/
theorem skipped_only_if_locked (config : Config Row) (state : State Row)
    (hubs : List (Hub × Around Row)) :
    (refreshHubs config state (some hubs)).records.map (fun record => (record.hub, record.around)) =
        hubs ∧
      ((∀ record ∈ (refreshHubs config state (some hubs)).records,
          Needed config record.state record.hub record.around → Handled config record) ↔
        Clear config state hubs) := by
  rw [records_of_refresh]
  exact ⟨records_hubs config state hubs, each_handled_iff config state hubs⟩

/-- With the cache instance down, a missing hub is skipped although nothing holds its lock. -/
theorem skips_unlocked :
    let down : Moment := ⟨[], [], .answers, .fails .connection false⟩
    let around : Around Unit :=
      { read := down, checkedAt := 0, dueAt := 0, token := "a", lock := down, reread := down
        recheckedAt := 0, build := some ([], 0), failedAt := 0, counted := down, fresh := nofun }
    let config : Config Unit :=
      { keyPrefix := "groovemap:", client := .routed false, maxAge := 604800, decode := fun _ => .ok none }
    let state : State Unit := ⟨fun _ => none, fun _ => none, fun _ => none⟩
    ∃ record ∈ (refreshHubs config state (some [(⟨"genre", "Rock", 953658⟩, around)])).records,
      Needed config record.state record.hub record.around ∧ ¬Handled config record := by
  intro down around config state
  have hneeded : Needed config state ⟨"genre", "Rock", 953658⟩ around := by
    refine ⟨?_, le_refl _⟩
    have hmissing : answer (hubResult config state ("genre", "Rock") down).1 = none := by
      unfold hubResult
      dsimp only [state, config]
      split
      · split <;> rfl
      · rfl
    exact congrArg (Option.any _) hmissing
  have hunserved : Unserved config ⟨"genre", "Rock", 953658⟩ around :=
    ⟨rfl, fun ⟨_, hother, _⟩ => (by cases hother), .connection, false, rfl, rfl⟩
  refine ⟨⟨state, ⟨"genre", "Rock", 953658⟩, around,
    (refreshHub config state ⟨"genre", "Rock", 953658⟩ around).1⟩, ?_, hneeded, fun hhandled => ?_⟩
  · rw [records_of_refresh, refreshEach]
    dsimp only
    split <;> exact List.mem_cons_self ..
  · exact (handled_iff config state _ around).mp (fun _ => hhandled) hneeded |>.1 hunserved

end CatalogApi.ExploreHubs
