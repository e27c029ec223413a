import CatalogApi.TwoFactor.Enabled

/-!
# Second factors are used once

Any number of requests and logins, interleaved command by command. A challenge is taken by at most one
request and only that one gets a token; a redeemed code is gone for good; and the lockout is the counter
of `Lockouts`, so every 15 minutes without a reset hold at most five wrong codes.
-/

namespace CatalogApi.TwoFactor

open Programs

/-- The hash is one of the codes of the row. -/
def Account.holds (account : Account) (hash : String) : Bool :=
  account.totpRecoveryCodes.any (hash ∈ ·)

/-- What happened so far, in order. -/
def Server.events (server : Server) : List Event := server.history.map (·.2)

/-- The event stores or redeems the hash. -/
def Event.mentions (hash : String) : Event → Bool
  | .stored _ codes => hash ∈ codes
  | .redeemed other => other = hash
  | _ => false

/-- A login issues a challenge that is new, and a setup stores codes that neither the row nor the history
knows. -/
def Fresh (pool : Requests) : Move Call Change → Prop
  | .change (.login jti) =>
      pool.state.hasChallenge jti = false ∧ Event.issued jti ∉ pool.state.events ∧
        Event.taken jti ∉ pool.state.events
  | .step thread =>
      match pool.threads[thread]? with
      | some ⟨_, _, .issue (.storeSetup _ codes) _⟩ =>
          ∀ hash ∈ codes, pool.state.account.holds hash = false ∧
            ∀ event ∈ pool.state.events, event.mentions hash = false
      | _ => True
  | _ => True

theorem events_record (server : Server) (event : Event) :
    (server.record event).events = server.events ++ [event] := List.map_append

/-! ## Challenges -/

/-- Every challenge is there or taken, and that once. -/
def ChallengesOnce (server : Server) : Prop :=
  ∀ jti, server.events.count (.taken jti) + (if server.hasChallenge jti then 1 else 0) ≤ 1

variable {config : Config} {server next : Server} {command : Command}

theorem hasChallenge_drop (server : Server) (jti other : String) :
    (server.dropChallenge jti).hasChallenge other =
      (server.hasChallenge other && decide (other ≠ jti)) := by
  rw [Bool.eq_iff_iff, Server.hasChallenge, Server.hasChallenge, Server.dropChallenge]
  rw [List.any_filter, Bool.and_eq_true, List.any_eq_true, List.any_eq_true]
  constructor
  · rintro ⟨challenge, hmem, hboth⟩
    obtain ⟨hne, hsame⟩ := (Bool.and_eq_true _ _).mp hboth
    refine ⟨⟨challenge, hmem, hsame⟩, ?_⟩
    rw [← of_decide_eq_true hsame]
    exact hne
  · rintro ⟨⟨challenge, hmem, hsame⟩, hne⟩
    refine ⟨challenge, hmem, (Bool.and_eq_true _ _).mpr ⟨?_, hsame⟩⟩
    rw [of_decide_eq_true hsame]
    exact hne

theorem challengesOnce_effect (heffect : Effect server command next) (h : ChallengesOnce server) :
    ChallengesOnce next := by
  intro jti
  have hjti := h jti
  cases heffect with
  | none => exact hjti
  | taken other hthere =>
      rw [events_record, List.count_append]
      change _ + (if (server.dropChallenge other).hasChallenge jti = true then 1 else 0) ≤ 1
      rw [hasChallenge_drop]
      by_cases hsame : jti = other
      · subst hsame
        rw [if_pos hthere] at hjti
        have hnone : server.events.count (.taken jti) = 0 := by omega
        change List.count (Event.taken jti) server.events + _ + _ ≤ 1
        rw [hnone, List.count_singleton_self]
        simp
      · have hother : List.count (Event.taken jti) [Event.taken other] = 0 :=
          List.count_eq_zero.mpr fun hmem =>
            hsame (Event.taken.inj (List.mem_singleton.mp hmem))
        rw [hother, decide_eq_true hsame, Bool.and_true]
        exact hjti
  | _ =>
      rw [events_record, List.count_append]
      exact hjti

theorem challengesOnce_tick (elapsed : Nat) (h : ChallengesOnce server) :
    ChallengesOnce (server.tick elapsed) := by
  intro jti
  refine Nat.le_trans (Nat.add_le_add_left ?_ _) (h jti)
  have hkept : (server.tick elapsed).hasChallenge jti = true → server.hasChallenge jti = true := by
    intro hthere
    obtain ⟨challenge, hmem, hsame⟩ := List.any_eq_true.mp hthere
    exact List.any_eq_true.mpr ⟨challenge, List.mem_of_mem_filter hmem, hsame⟩
  by_cases hthere : (server.tick elapsed).hasChallenge jti = true
  · exact Nat.le_of_eq ((if_pos hthere).trans (if_pos (hkept hthere)).symm)
  · rw [if_neg hthere]
    exact Nat.zero_le _

theorem challengesOnce_login {jti : String} (hnew : Event.taken jti ∉ server.events)
    (h : ChallengesOnce server) : ChallengesOnce (change (.login jti) server) := by
  intro other
  have hother := h other
  rw [change, events_record, List.count_append]
  have hnone : List.count (Event.taken other) [Event.issued jti] = 0 := rfl
  change server.events.count (.taken other) + _ + _ ≤ 1
  rw [hnone, Nat.add_zero]
  have hthere : (server.putChallenge jti (server.clock + 300000000)).hasChallenge other =
      ((server.dropChallenge jti).hasChallenge other || decide (jti = other)) := by
    rw [Server.hasChallenge, Server.putChallenge, List.any_append, List.any_cons, List.any_nil,
      Bool.or_false]
    rfl
  change _ + (if (server.putChallenge jti _).hasChallenge other = true then 1 else 0) ≤ 1
  rw [hthere, hasChallenge_drop]
  by_cases hsame : jti = other
  · subst hsame
    rw [List.count_eq_zero.mpr hnew]
    simp
  · rw [decide_eq_false hsame, decide_eq_true (Ne.symm hsame), Bool.and_true, Bool.or_false]
    exact hother

/-! ## Recovery codes -/

/-- A code is redeemed at most once, and not while the row holds it. -/
def CodesOnce (server : Server) : Prop :=
  ∀ hash, server.events.count (.redeemed hash) ≤ 1 ∧
    (server.account.holds hash = true → server.events.count (.redeemed hash) = 0)

theorem CodesOnce.other {event : Event} (h : CodesOnce server)
    (hevents : next.events = server.events ++ [event]) (hevent : ∀ hash, event ≠ .redeemed hash)
    (hholds : ∀ hash, next.account.holds hash = true → server.account.holds hash = true) :
    CodesOnce next := by
  intro hash
  have hnone : List.count (Event.redeemed hash) [event] = 0 :=
    List.count_eq_zero.mpr fun hmem => hevent hash (List.mem_singleton.mp hmem).symm
  rw [hevents, List.count_append, hnone, Nat.add_zero]
  exact ⟨(h hash).1, fun hheld => (h hash).2 (hholds hash hheld)⟩

/-- A setup stores codes that were not redeemed. -/
theorem codesOnce_stored {secret : String} {codes : List String} (h : CodesOnce server)
    (hnew : ∀ hash ∈ codes, Event.redeemed hash ∉ server.events) :
    CodesOnce ((server.setAccount
      { server.account with
        totpSecret := some secret
        totpRecoveryCodes := some codes }).record (.stored secret codes)) := by
  intro hash
  rw [events_record, List.count_append]
  refine ⟨(h hash).1, fun hheld => ?_⟩
  exact List.count_eq_zero.mpr (hnew hash (of_decide_eq_true hheld))

/-- A redeemed code is removed. -/
theorem codesOnce_redeemed {hash : String} {codes : List String} (h : CodesOnce server)
    (hcodes : server.account.totpRecoveryCodes = some codes) (hmem : hash ∈ codes) :
    CodesOnce ((server.setAccount
      { server.account with
        totpRecoveryCodes := some (codes.filter (· ≠ hash))
        lockout := ⟨0, none⟩ }).record (.redeemed hash)) := by
  intro other
  obtain ⟨honce, hheld⟩ := h other
  have hholds : ∀ code ∈ codes, server.account.holds code = true := by
    intro code hcode
    rw [Account.holds, hcodes]
    exact decide_eq_true hcode
  rw [events_record, List.count_append]
  change List.count _ server.events + _ ≤ 1 ∧ (_ → List.count _ server.events + _ = 0)
  by_cases hsame : other = hash
  · subst hsame
    rw [hheld (hholds other hmem), List.count_singleton_self]
    refine ⟨Nat.le_refl 1, fun hstill => ?_⟩
    have hleft : other ∈ codes.filter (· ≠ other) := of_decide_eq_true hstill
    exact absurd rfl (of_decide_eq_true (List.mem_filter.mp hleft).2)
  · have hnone : List.count (Event.redeemed other) [Event.redeemed hash] = 0 :=
      List.count_eq_zero.mpr fun hmem => hsame (Event.redeemed.inj (List.mem_singleton.mp hmem))
    rw [hnone, Nat.add_zero]
    refine ⟨honce, fun hstill => hheld (hholds other ?_)⟩
    have hleft : other ∈ codes.filter (· ≠ hash) := of_decide_eq_true hstill
    exact List.mem_of_mem_filter hleft

theorem codesOnce_effect (heffect : Effect server command next) (h : CodesOnce server)
    (hfresh : ∀ secret codes, command = .storeSetup secret codes →
      ∀ hash ∈ codes, Event.redeemed hash ∉ server.events) : CodesOnce next := by
  cases heffect with
  | none => exact h
  | stored secret codes _ => exact codesOnce_stored h (hfresh secret codes rfl)
  | redeemed hash codes hcodes hmem => exact codesOnce_redeemed h hcodes hmem
  | cleared => exact h.other (events_record _ _) nofun fun _ (hheld : false = true) => nomatch hheld
  | _ => exact h.other (events_record _ _) nofun fun _ hheld => hheld

/-! ## Guesses -/

/-- What an event is to the lockout. -/
def Event.lockout : Event → Option Lockouts.Event
  | .guessed => some .failure
  | .reset | .redeemed _ | .cleared => some .reset
  | _ => none

/-- The history of the lockout. -/
def lockoutHistory (history : List (Int × Event)) : List (Int × Lockouts.Event) :=
  history.filterMap fun event => event.2.lockout.map (event.1, ·)

/-- The counter of the row is that of the history, which respects its locks. -/
structure Counted (first : Lockouts.Counter) (start : Int) (server : Server) : Prop where
  gated : policy.Gated first start (lockoutHistory server.history)
  counter : server.account.lockout = (lockoutHistory server.history).foldl policy.step first
  late : Lockouts.Policy.lastInstant start (lockoutHistory server.history) ≤ server.clock

variable {first : Lockouts.Counter} {start : Int}

/-- An event that the lockout does not see. -/
theorem Counted.other {event : Event} (h : Counted first start server)
    (hevent : event.lockout = none) (haccount : next.account.lockout = server.account.lockout)
    (hclock : next.clock = server.clock)
    (hhistory : next.history = server.history ++ [(server.clock, event)]) :
    Counted first start next := by
  have hsame : lockoutHistory next.history = lockoutHistory server.history := by
    rw [hhistory, lockoutHistory, List.filterMap_append, List.filterMap_cons, hevent]
    exact List.append_nil _
  refine ⟨hsame ▸ h.gated, ?_, ?_⟩
  · rw [haccount, hsame, h.counter]
  · rw [hsame, hclock]
    exact h.late

/-- An event of the lockout, taken at the present instant. -/
theorem Counted.event {event : Event} {kind : Lockouts.Event} (h : Counted first start server)
    (hevent : event.lockout = some kind)
    (hfree : kind = .failure → server.account.lockout.locked server.clock = false)
    (haccount : next.account.lockout = policy.step server.account.lockout (server.clock, kind))
    (hclock : next.clock = server.clock)
    (hhistory : next.history = server.history ++ [(server.clock, event)]) :
    Counted first start next := by
  have hmore : lockoutHistory next.history =
      lockoutHistory server.history ++ [(server.clock, kind)] := by
    rw [hhistory, lockoutHistory, List.filterMap_append, List.filterMap_cons, hevent]
    rfl
  refine ⟨?_, ?_, ?_⟩
  · rw [hmore]
    exact Lockouts.Policy.gated_snoc h.gated h.late fun hkind => h.counter ▸ hfree hkind
  · rw [haccount, hmore, List.foldl_append, ← h.counter]
    rfl
  · rw [hmore, hclock, Lockouts.Policy.lastInstant, List.foldl_append]
    exact Int.le_refl _

theorem counted_effect (heffect : Effect server command next) (h : Counted first start server) :
    Counted first start next := by
  cases heffect with
  | none => exact h
  | guessed code hfree => exact h.event rfl (fun _ => hfree) rfl rfl rfl
  | reset =>
      have hkind : Event.reset.lockout = some .reset := rfl
      exact h.event hkind nofun rfl rfl rfl
  | redeemed hash codes _ _ =>
      have hkind : (Event.redeemed hash).lockout = some .reset := rfl
      exact h.event hkind nofun rfl rfl rfl
  | cleared =>
      have hkind : Event.cleared.lockout = some .reset := rfl
      exact h.event hkind nofun rfl rfl rfl
  | _ => exact h.other rfl rfl rfl rfl

theorem counted_change (move : Change) (h : Counted first start server) :
    Counted first start (change move server) := by
  cases move with
  | passes elapsed =>
      refine ⟨h.gated, h.counter, ?_⟩
      have hlate := h.late
      change _ ≤ server.clock + elapsed
      exact Int.le_trans hlate (Int.le_add_of_nonneg_right (Int.natCast_nonneg elapsed))
  | login jti => exact h.other rfl rfl rfl rfl

/-- A wrong code evaluated in the 15 minutes from an instant on. -/
def guessedIn (from' : Int) (event : Int × Event) : Bool :=
  event.2 = .guessed ∧ from' ≤ event.1 ∧ event.1 < from' + 15 * 60 * 1000000

/-- No reset in the 15 minutes from an instant on. -/
def NoResetIn (from' : Int) (history : List (Int × Event)) : Prop :=
  ∀ event ∈ history, event.2.lockout = some .reset → from' ≤ event.1 →
    from' + 15 * 60 * 1000000 ≤ event.1

/-- Every 15 minutes without a reset hold at most five wrong codes. -/
theorem Counted.guesses (h : Counted first start server) (from' : Int)
    (hreset : NoResetIn from' server.history) : server.history.countP (guessedIn from') ≤ 5 := by
  have hsame : server.history.countP (guessedIn from') =
      (lockoutHistory server.history).countP (policy.failsIn from') := by
    rw [lockoutHistory, List.countP_filterMap]
    refine List.countP_congr fun event _ => ?_
    obtain ⟨instant, event⟩ := event
    cases event <;> simp [guessedIn, Event.lockout, Lockouts.Policy.failsIn, policy]
  rw [hsame]
  refine Lockouts.Policy.failures_in_window h.gated from' fun event hevent hkind hfrom => ?_
  obtain ⟨⟨instant, happened⟩, hmem, hmap⟩ := List.mem_filterMap.mp hevent
  obtain ⟨kind, hlockout, rfl⟩ := Option.map_eq_some_iff.mp hmap
  obtain rfl : kind = .reset := hkind
  exact hreset _ hmem hlockout hfrom

/-! ## Tokens -/

/-- The challenge of a request that can yield a token. -/
def Call.challenge : Call → Option String
  | .verify jti _ => some jti
  | .recovery jti _ => some jti
  | _ => none

/-- The request returned an access token for the challenge. -/
def yieldsToken (jti : String) (thread : Thread Command Reply Response Call) : Bool :=
  match thread.returned with
  | some (.ok (.token _)) => thread.call.challenge = some jti
  | _ => false

/-- The challenge that a thread has taken. -/
abbrev TakenRole := Option String

/-- A thread with a token has taken its challenge. -/
def TookChallenge (role : TakenRole) (thread : Thread Command Reply Response Call) : Prop :=
  ∀ jti, yieldsToken jti thread = true → role = some jti

/-- Every challenge was taken at least as often as threads have it. -/
def TakenBy (server : Server) (roles : List TakenRole) : Prop :=
  ∀ jti, roles.count (some jti) ≤ server.events.count (.taken jti)

variable {roles : List TakenRole} {thread : Nat}

theorem count_effect (heffect : Effect server command next) (event : Event) :
    server.events.count event ≤ next.events.count event := by
  cases heffect with
  | none => exact Nat.le_refl _
  | _ =>
      rw [events_record, List.count_append]
      exact Nat.le_add_right _ _

theorem TakenBy.effect (h : TakenBy server roles) (heffect : Effect server command next) :
    TakenBy next roles :=
  fun jti => Nat.le_trans (h jti) (count_effect heffect _)

/-- A step that takes nothing keeps the role of its thread. -/
theorem TakenBy.set_same {role : TakenRole} (h : TakenBy server roles)
    (heffect : Effect server command next) (hrole : roles[thread]? = some role) :
    TakenBy next (roles.set thread role) := by
  rw [Programs.set_same hrole]
  exact h.effect heffect

/-- The thread that takes a challenge has it. -/
theorem TakenBy.take {jti : String} (h : TakenBy server roles) (hrole : roles[thread]? = some none) :
    TakenBy ((server.dropChallenge jti).record (.taken jti)) (roles.set thread (some jti)) := by
  intro other
  obtain ⟨before, after, hroles, hset⟩ := set_split hrole
  have hother := h other
  rw [hroles, List.count_append, List.count_cons_of_ne (by simp)] at hother
  rw [hset, events_record, List.count_append, List.count_append]
  change _ ≤ server.events.count (.taken other) + _
  by_cases hsame : jti = other
  · subst hsame
    rw [List.count_cons_self, List.count_singleton_self]
    omega
  · rw [List.count_cons_of_ne (by simpa using hsame)]
    omega

theorem tookChallenge_of_ne {role : TakenRole} {thread : Thread Command Reply Response Call}
    (h : ∀ jti, yieldsToken jti thread = false) : TookChallenge role thread :=
  fun jti hyields => absurd (h jti) (by rw [hyields]; exact nofun)

variable {condition : Requests → Move Call Change → Prop}

/-- The end of a verification or recovery: the challenge is taken, and then there is a token. -/
theorem take_outlined {call : Call} {jti : String}
    (last : Option ((command : Command) × Reply command)) {next : Task Response}
    (hnext : ∀ last, (requests config).Outlined TakenBy TookChallenge condition call (some jti) last
      next) :
    (requests config).Outlined TakenBy TookChallenge condition call none last
      (Valkey.getdel jti >>= fun consumed => if consumed then next else challengeGone) := by
  refine System.Outlined.reply _ (tookChallenge_of_ne fun _ => rfl) fun state roles thread h hrole => ?_
  by_cases hthere : state.hasChallenge jti = true
  · exact ⟨true, _, some jti, if_pos hthere, h.take hrole, hnext _⟩
  · exact ⟨false, state, none, if_neg hthere, h.set_same (.none (.takeChallenge jti)) hrole,
      tookChallenge_of_ne fun _ => rfl⟩

theorem fail_outlined {call : Call} {role : TakenRole}
    (last : Option ((command : Command) × Reply command)) (status : Nat) (detail : String) :
    (requests config).Outlined TakenBy TookChallenge condition call role last (fail status detail) :=
  tookChallenge_of_ne fun _ => rfl

/-- A command that takes no challenge, whatever it replies. -/
theorem stay_outlined {call : Call} {role : TakenRole}
    (last : Option ((command : Command) × Reply command)) (command : Command)
    {next : Reply command → Task Response}
    (hnext : ∀ reply, (requests config).Outlined TakenBy TookChallenge condition call role
      (some ⟨command, reply⟩) (next reply)) :
    (requests config).Outlined TakenBy TookChallenge condition call role last
      (.issue command next) :=
  System.Outlined.stay _ (tookChallenge_of_ne fun _ => rfl)
    (fun state _ h => h.effect (exec_effect config command state)) hnext

theorem verify_outlined (jti code : String) :
    (requests config).Outlined TakenBy TookChallenge condition (.verify jti code) none none
      (twofaVerify jti code) := by
  rw [twofaVerify]
  by_cases hempty : jti = ""
  · rw [if_pos hempty]
    exact fail_outlined _ _ _
  rw [if_neg hempty]
  refine stay_outlined _ (.getChallenge jti) fun challenged => ?_
  cases challenged with
  | false => exact fail_outlined _ _ _
  | true =>
      refine stay_outlined _ (.attempt code) fun attempt => ?_
      cases attempt with
      | verified =>
          refine take_outlined _ fun last => ?_
          exact stay_outlined _ .resetAttempts fun _ other hyields => of_decide_eq_true hyields
      | _ => exact fail_outlined _ _ _

theorem recovery_outlined (jti code : String) :
    (requests config).Outlined TakenBy TookChallenge condition (.recovery jti code) none none
      (twofaRecovery config jti code) := by
  rw [twofaRecovery]
  by_cases hempty : jti = ""
  · rw [if_pos hempty]
    exact fail_outlined _ _ _
  rw [if_neg hempty]
  refine stay_outlined _ (.getChallenge jti) fun challenged => ?_
  cases challenged with
  | false => exact fail_outlined _ _ _
  | true =>
      refine stay_outlined _ (.redeem (config.hashRecoveryCode code)) fun updated => ?_
      cases updated with
      | none => exact fail_outlined _ _ _
      | some remaining => exact take_outlined _ fun last other hyields => of_decide_eq_true hyields

/-! ## Runs -/

/-- A call that starts has taken no challenge. -/
theorem start_challenge (pool : Requests) (roles : List TakenRole)
    (call : Call) (h : TakenBy pool.state roles)
    (_ : List.Forall₂ TookChallenge roles pool.threads) (_ : condition pool (.start call)) :
    ∃ role, TakenBy pool.state (roles ++ [role]) ∧
      (requests config).Outlined TakenBy TookChallenge condition call role none
        ((requests config).program call) := by
  refine ⟨none, fun jti => ?_, ?_⟩
  · rw [List.count_append, List.count_singleton]
    exact h jti
  · have hkept : call.challenge = none →
        (requests config).Outlined TakenBy TookChallenge condition call none none
          ((requests config).program call) := by
      intro hcall
      refine System.Outlined.kept _ (fun last program jti hyields => ?_) (fun command state roles h =>
        h.effect (exec_effect config command state)) none _
      rw [yieldsToken] at hyields
      split at hyields
      · rw [hcall] at hyields
        cases hyields
      · cases hyields
    cases call with
    | verify jti code => exact verify_outlined jti code
    | recovery jti code => exact recovery_outlined jti code
    | setup secret codes => exact hkept rfl
    | confirm code => exact hkept rfl
    | disable password code => exact hkept rfl

theorem change_taken (pool : Requests) (roles : List TakenRole)
    (move : Change) (h : TakenBy pool.state roles)
    (_ : List.Forall₂ TookChallenge roles pool.threads) (_ : condition pool (.change move)) :
    TakenBy ((requests config).change move pool.state) roles := by
  intro jti
  cases move with
  | passes elapsed => exact h jti
  | login other =>
      change _ ≤ ((pool.state.putChallenge other _).record _).events.count _
      rw [events_record, List.count_append]
      exact Nat.le_trans (h jti) (Nat.le_add_right _ _)

/-- Second factors are used once and guesses are bounded: a challenge yields at most one token, a code is
redeemed at most once and then gone, and 15 minutes without a reset hold at most five wrong codes. -/
structure SingleUse (pool : Requests) : Prop where
  tokens : ∀ jti, pool.threads.countP (yieldsToken jti) ≤ 1
  redeemed : ∀ hash, pool.state.events.count (.redeemed hash) ≤ 1
  gone : ∀ hash, Event.redeemed hash ∈ pool.state.events → pool.state.account.holds hash = false
  guesses : ∀ from', NoResetIn from' pool.state.history →
    pool.state.history.countP (guessedIn from') ≤ 5

/-- A user's row and challenges, where the history begins. -/
def Server.beginning (clock : Int) (account : Account) (challenges : List (String × Int)) : Server :=
  { clock, account, challenges, history := [] }

/-- Second factors are used once in every interleaving of requests and logins with fresh challenges and
codes. -/
theorem second_factors_single_use (config : Config) (clock : Int) (account : Account)
    (challenges : List (String × Int)) {moves : List (Move Call Change)}
    {pool : Requests}
    (hrun : Runs.execute (requests config).step
      ((requests config).idle (.beginning clock account challenges)) moves = .ok pool)
    (hfresh : Runs.Along (requests config).step Fresh
      ((requests config).idle (.beginning clock account challenges)) moves) : SingleUse pool := by
  have hstate : ChallengesOnce pool.state ∧ CodesOnce pool.state ∧
      Counted account.lockout clock pool.state := by
    refine (requests config).state_along (motive := fun server => ChallengesOnce server ∧
      CodesOnce server ∧ Counted account.lockout clock server) ?_ ?_ ?_ hrun hfresh
    · refine ⟨fun jti => ?_, fun hash => ⟨Nat.zero_le 1, fun _ => rfl⟩, ⟨trivial, rfl, Int.le_refl _⟩⟩
      change 0 + (if _ then 1 else 0) ≤ 1
      split <;> omega
    · rintro pool thread call last command rest hthread hcondition ⟨hchallenges, hcodes, hcounted⟩
      have heffect := exec_effect config command pool.state
      refine ⟨challengesOnce_effect heffect hchallenges, codesOnce_effect heffect hcodes ?_,
        counted_effect heffect hcounted⟩
      rintro secret codes rfl hash hhash hredeemed
      rw [Fresh, hthread] at hcondition
      have hunknown := (hcondition hash hhash).2 _ hredeemed
      rw [Event.mentions, decide_eq_true rfl] at hunknown
      cases hunknown
    · rintro pool move hcondition ⟨hchallenges, hcodes, hcounted⟩
      refine ⟨?_, ?_, counted_change move hcounted⟩
      · cases move with
        | passes elapsed => exact challengesOnce_tick elapsed hchallenges
        | login jti => exact challengesOnce_login hcondition.2.2 hchallenges
      · cases move with
        | passes elapsed => exact hcodes
        | login jti => exact hcodes.other (events_record _ _) nofun fun _ hheld => hheld
  obtain ⟨hchallenges, hcodes, hcounted⟩ := hstate
  obtain ⟨roles, htaken, hroles⟩ := (requests config).outlined_along
    (fun jti => Nat.zero_le _) start_challenge change_taken hrun hfresh
  refine ⟨fun jti => ?_, fun hash => (hcodes hash).1, fun hash hredeemed => ?_, hcounted.guesses⟩
  · have hthreads : pool.threads.countP (yieldsToken jti) ≤ roles.count (some jti) :=
      countP_le_of_forall₂ hroles.flip fun thread role htook hyields =>
        beq_iff_eq.mpr (htook jti hyields)
    have htimes := htaken jti
    have honce := hchallenges jti
    omega
  · by_contra hheld
    have hnone := (hcodes hash).2 ((Bool.not_eq_false _).mp hheld)
    exact List.count_eq_zero.mp hnone hredeemed

instance (pool : Requests) (move : Move Call Change) : Decidable (Fresh pool move) := by
  unfold Fresh
  split
  · infer_instance
  · split <;> infer_instance
  · infer_instance

/-- A fifth wrong code, a right one while locked, and after the lock a login with a recovery code. -/
def lockedOut : List (Move Call Change) :=
  [.start (.verify "j" "x"), .step 0, .step 0, .start (.verify "j" "s"), .step 1, .step 1,
    .change (.passes 900000000), .change (.login "k"), .start (.recovery "k" "h"), .step 2, .step 2,
    .step 2]

/-- A user with four wrong codes so far. -/
def fourWrong : Account := ⟨"p", some "s", true, some ["h", "g"], ⟨4, none⟩⟩

/-- The locked-out login uses its second factors once. -/
theorem locked_out_login_single_use :
    ∃ pool, Runs.execute (requests spelled).step
        ((requests spelled).idle (.beginning 0 fourWrong [("j", 300000000)])) lockedOut = .ok pool ∧
      pool.threads.map (·.returned) =
        [some (.error ⟨401, "Invalid TOTP code"⟩),
          some (.error ⟨429, "Account temporarily locked due to failed 2FA attempts"⟩),
          some (.ok (.token none))] ∧
      SingleUse pool := by
  obtain ⟨pool, hrun, hreturned⟩ : ∃ pool, Runs.execute (requests spelled).step
        ((requests spelled).idle (.beginning 0 fourWrong [("j", 300000000)])) lockedOut = .ok pool ∧
      pool.threads.map (·.returned) =
        [some (.error ⟨401, "Invalid TOTP code"⟩),
          some (.error ⟨429, "Account temporarily locked due to failed 2FA attempts"⟩),
          some (.ok (.token none))] := ⟨_, rfl, rfl⟩
  exact ⟨pool, hrun, hreturned, second_factors_single_use spelled 0 fourWrong _ hrun
    (by decide +kernel)⟩

/-- A wrong code under the challenge `k`, by the request with this number. -/
def wrongCode (thread : Nat) : List (Move Call Change) :=
  [.start (.verify "k" "x"), .step thread, .step thread]

/-- Five wrong codes, a recovery whose challenge ends before it is taken, and five more. -/
def refusedRecovery : List (Move Call Change) :=
  (List.range 5).flatMap wrongCode ++
    [.start (.recovery "j" "h"), .step 5, .step 5, .change (.passes 1), .step 5] ++
      [6, 7, 8, 9, 10].flatMap wrongCode

/-- A recovery that is refused has reset the counter all the same: within 15 minutes ten wrong codes
are evaluated, no request of the run succeeds and none disables the second factor. -/
theorem refused_recovery_resets :
    ∃ pool, Runs.execute (requests spelled).step
        ((requests spelled).idle (.beginning 0 ⟨"p", some "s", true, some ["h", "g"], ⟨0, none⟩⟩
          [("j", 1), ("k", 300000000)])) refusedRecovery = .ok pool ∧
      Runs.Along (requests spelled).step Fresh
        ((requests spelled).idle (.beginning 0 ⟨"p", some "s", true, some ["h", "g"], ⟨0, none⟩⟩
          [("j", 1), ("k", 300000000)])) refusedRecovery ∧
      (pool.threads.all fun thread => thread.returned =
        some (.error (if thread.call = .recovery "j" "h" then
          ⟨401, "Challenge expired or already used"⟩ else ⟨401, "Invalid TOTP code"⟩))) = true ∧
      Event.cleared ∉ pool.state.events ∧
      pool.state.history.countP (guessedIn 0) = 10 := by
  refine ⟨_, rfl, by decide +kernel, by decide +kernel, by decide +kernel, by decide +kernel⟩

end CatalogApi.TwoFactor
