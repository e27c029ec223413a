import CatalogApi.Passwords.Store

/-!
# What a password change revokes

One password change among any number of logins, verifications and mints. A token that rests on the old
password carries the second in which its login began, which is not after the commit, and the marker that
the change leaves has a later second. So the marker rejects the token while it lives, and it outlives
the token if the token was not signed long after. A row of an app token is revoked if it was there when
the change revoked the rows. Two steps break this: a token signed after the marker was written, whose
end is counted from then, and a row inserted after the rows were revoked.
-/

namespace CatalogApi.Passwords

open Programs

/-- A pool of requests. -/
abbrev Requests := Pool Server Command Reply Response Call

/-- The request is a password change. -/
def Call.isChange : Call → Bool
  | .change .. => true
  | _ => false

/-- Requests present tokens that were signed, and there is one password change, to a new hash. -/
def OneChange (old : String) (pool : Requests) : Move Call Change → Prop
  | .start (.verify challenge _ _) => challenge ∈ pool.state.issued
  | .start (.mint session _) => session ∈ pool.state.issued
  | .start (.change hash _) => hash ≠ old ∧ ∀ thread ∈ pool.threads, thread.call.isChange = false
  | _ => True

/-- No token that rests on the old password is signed so late that it outlives the last marker. -/
def EndsInTime (config : Config) (old : String) (pool : Requests) : Move Call Change → Prop
  | .step thread =>
      match pool.threads[thread]? with
      | some ⟨_, _, .issue (.sign kind _ _ restsOn) _⟩ =>
          restsOn = old →
            if pool.state.restamped then
              ∀ marker ∈ pool.state.marker,
                ofSeconds (stamp pool.state.clock + config.lifetimeOf kind) ≤ marker.deadline
            else config.lifetimeOf kind ≤ config.lifetime
      | _ => True
  | _ => True

/-- No app token of a session that rests on the old password is inserted after the rows were revoked. -/
def InsertedInTime (old : String) (pool : Requests) : Move Call Change → Prop
  | .step thread =>
      match pool.threads[thread]? with
      | some ⟨_, _, .issue (.insertAppToken _ restsOn) _⟩ =>
          restsOn = old → pool.state.swept = false
      | _ => True
  | _ => True

/-- The token is accepted at this instant. -/
def Accepted (config : Config) (server : Server) (jwt : Jwt) : Prop :=
  ((validateToken jwt jwt.kind).run (exec config) server).1 = true

/-- Nothing that rests on the old password is accepted. -/
structure Revoked (config : Config) (old : String) (server : Server) : Prop where
  jwts : ∀ jwt ∈ server.issued, jwt.restsOn = old → ¬Accepted config server jwt
  appTokens : ∀ token ∈ server.appTokens, token.restsOn = old → token.revoked = true

/-! ## Acceptance -/

/-- A token at or before the marker is found revoked. -/
theorem revocation_of_marker {config : Config} {server : Server} {jwt : Jwt} {value : Int}
    (hmarker : server.markerValue = some value) (hle : jwt.iat ≤ value) :
    ((tokenRevocationReason jwt).run (exec config) server).1 ≠ none := by
  have hread : (Valkey.getMarker.run (exec config) server) = (server.markerValue, server) := rfl
  rw [tokenRevocationReason, Program.run_bind]
  have hquiet : ((isRevoked jwt).run (exec config) server).2 = server := by
    rw [isRevoked]
    split <;> rfl
  rw [hquiet]
  split
  · exact Option.some_ne_none _
  · rw [Program.run_bind, hread, hmarker]
    dsimp only
    rw [if_pos hle]
    exact Option.some_ne_none _

/-- An accepted token has not expired, and no marker at or after its second is there. -/
theorem accepted_fresh {config : Config} {server : Server} {jwt : Jwt}
    (h : Accepted config server jwt) :
    (jwt.exp = 0 ∨ server.clock ≤ ofSeconds jwt.exp) ∧
      ∀ value ∈ server.markerValue, value < jwt.iat := by
  rw [Accepted, validateToken, Program.run_bind] at h
  have htime : time.run (exec config) server = (server.clock, server) := rfl
  rw [htime] at h
  dsimp only at h
  by_cases hover : jwt.exp ≠ 0 ∧ ofSeconds jwt.exp < server.clock
  · rw [if_pos hover] at h
    cases h
  rw [if_neg hover, if_neg (not_not_intro rfl), Program.run_bind] at h
  refine ⟨?_, fun value hvalue => ?_⟩
  · by_contra hboth
    rw [not_or, Int.not_le] at hboth
    exact hover hboth
  · by_contra hlate
    have hreason : ((tokenRevocationReason jwt).run (exec config) server).1 ≠ none :=
      revocation_of_marker hvalue (Int.not_lt.mp hlate)
    exact hreason (of_decide_eq_true h)

/-! ## The invariant -/

/-- How far a password change has come. -/
inductive Phase where
  | started
  | updated
  | swept
  | committed
  | timed (value : Int)
  | returned
  | aborted

/-- What a request holds: the second in which a login began, the second and the hash of the credential
it is about to sign, or a place in the change. -/
inductive Role where
  | free
  | began (iat : Int)
  | holding (iat : Int) (restsOn : String)
  | changing (phase : Phase)

def Role.phase : Role → Option Phase
  | .changing phase => some phase
  | _ => none

/-- The last second in which a token that rests on the old password may begin. -/
def bound (server : Server) : Int := stamp (server.committedAt.getD server.clock)

/-- The last instant at which such a token may end. -/
def horizon (config : Config) (server : Server) : Int :=
  match server.restamped, server.marker with
  | true, some marker => marker.deadline
  | _, _ => server.clock + ofSeconds config.lifetime

/-- Every row of an old session is revoked, or will be by the commit. -/
def Sweeping (old : String) (server : Server) : Prop :=
  server.swept = true ∧
    ∀ token ∈ server.appTokens, token.restsOn = old → token.revoked = true ∨ token.revoking = true

/-- Every row of an old session is revoked. -/
def Swept (old : String) (server : Server) : Prop :=
  server.swept = true ∧ ∀ token ∈ server.appTokens, token.restsOn = old → token.revoked = true

/-- No change is committed. -/
def Uncommitted (old : String) (server : Server) : Prop :=
  server.hashedPassword = old ∧ server.committedAt = none ∧ server.restamped = false

/-- A change is committed. -/
def Committed (old : String) (server : Server) : Prop :=
  server.hashedPassword ≠ old ∧ server.committedAt.isSome = true ∧ Swept old server

/-- What holds of the server at a phase of the change. -/
def AtPhase (old : String) (server : Server) : Phase → Prop
  | .started => Uncommitted old server ∧ server.pending = none
  | .updated => Uncommitted old server ∧ ∃ hash, server.pending = some hash ∧ hash ≠ old
  | .swept => Uncommitted old server ∧ (∃ hash, server.pending = some hash ∧ hash ≠ old) ∧
      Sweeping old server
  | .committed => Committed old server ∧ server.restamped = false ∧
      bound server ≤ stamp server.clock
  | .timed value => Committed old server ∧ server.restamped = false ∧ bound server ≤ value
  | .returned => Committed old server ∧ server.restamped = true ∧
      ∃ marker, server.marker = some marker ∧ bound server ≤ marker.value
  | .aborted => Uncommitted old server

/-- A token of the old password began in time and ends in time. -/
def Timely (config : Config) (old : String) (server : Server) (jwt : Jwt) : Prop :=
  jwt.restsOn = old →
    jwt.iat ≤ bound server ∧ 0 < jwt.exp ∧ ofSeconds jwt.exp ≤ horizon config server

/-- What a request holds began in time. -/
def Holds (old : String) (server : Server) : Role → Prop
  | .began iat => iat ≤ stamp server.clock
  | .holding iat restsOn => restsOn = old → iat ≤ bound server
  | _ => True

/-- What holds all along. -/
structure Tracked (config : Config) (old : String) (server : Server) (roles : List Role) : Prop where
  positive : 0 < stamp server.clock
  issued : ∀ jwt ∈ server.issued, Timely config old server jwt
  held : ∀ role ∈ roles, Holds old server role
  phases : ∃ phase : Option Phase, roles.filterMap Role.phase = phase.toList ∧
    AtPhase old server (phase.getD .started)

section Steps

variable {config : Config} {old : String} {server next : Server} {roles : List Role} {index : Nat}
  {role role' : Role}

/-- What decides how far the change has come is the same. -/
structure Kept (server next : Server) : Prop where
  clock : next.clock = server.clock
  hashedPassword : next.hashedPassword = server.hashedPassword
  pending : next.pending = server.pending
  marker : next.marker = server.marker
  swept : next.swept = server.swept
  committedAt : next.committedAt = server.committedAt
  restamped : next.restamped = server.restamped

theorem Kept.bound (h : Kept server next) : bound next = bound server := by
  rw [Passwords.bound, Passwords.bound, h.committedAt, h.clock]

theorem Kept.horizon (h : Kept server next) : horizon config next = horizon config server := by
  rw [Passwords.horizon, Passwords.horizon, h.restamped, h.marker, h.clock]

/-- Rows of old sessions are not added once the rows were revoked. -/
def RowsKept (old : String) (server next : Server) : Prop :=
  ∀ token ∈ next.appTokens, token ∈ server.appTokens ∨ (server.swept = true → token.restsOn ≠ old)

theorem RowsKept.refl (old : String) (server : Server) : RowsKept old server server :=
  fun _ htoken => .inl htoken

theorem Swept.kept (h : Swept old server) (hkept : Kept server next)
    (hrows : RowsKept old server next) : Swept old next := by
  refine ⟨hkept.swept.trans h.1, fun token htoken hold => ?_⟩
  rcases hrows token htoken with hthere | hnew
  · exact h.2 token hthere hold
  · exact absurd hold (hnew h.1)

theorem Sweeping.kept (h : Sweeping old server) (hkept : Kept server next)
    (hrows : RowsKept old server next) : Sweeping old next := by
  refine ⟨hkept.swept.trans h.1, fun token htoken hold => ?_⟩
  rcases hrows token htoken with hthere | hnew
  · exact h.2 token hthere hold
  · exact absurd hold (hnew h.1)

theorem Uncommitted.kept (h : Uncommitted old server) (hkept : Kept server next) :
    Uncommitted old next :=
  ⟨hkept.hashedPassword.trans h.1, hkept.committedAt.trans h.2.1, hkept.restamped.trans h.2.2⟩

theorem Committed.kept (h : Committed old server) (hkept : Kept server next)
    (hrows : RowsKept old server next) : Committed old next :=
  ⟨hkept.hashedPassword ▸ h.1, hkept.committedAt ▸ h.2.1, h.2.2.kept hkept hrows⟩

theorem atPhase_kept {phase : Phase} (h : AtPhase old server phase) (hkept : Kept server next)
    (hrows : RowsKept old server next) : AtPhase old next phase := by
  cases phase with
  | started => exact ⟨h.1.kept hkept, hkept.pending.trans h.2⟩
  | updated => exact ⟨h.1.kept hkept, hkept.pending ▸ h.2⟩
  | swept => exact ⟨h.1.kept hkept, hkept.pending ▸ h.2.1, h.2.2.kept hkept hrows⟩
  | committed =>
      exact ⟨h.1.kept hkept hrows, hkept.restamped.trans h.2.1, by
        rw [hkept.bound, hkept.clock]
        exact h.2.2⟩
  | timed value =>
      exact ⟨h.1.kept hkept hrows, hkept.restamped.trans h.2.1, hkept.bound ▸ h.2.2⟩
  | returned =>
      obtain ⟨hcommitted, hrestamped, marker, hmarker, hvalue⟩ := h
      exact ⟨hcommitted.kept hkept hrows, hkept.restamped.trans hrestamped, marker,
        hkept.marker.trans hmarker, hkept.bound ▸ hvalue⟩
  | aborted => exact h.kept hkept

theorem holds_kept (h : Holds old server role) (hkept : Kept server next) : Holds old next role := by
  cases role with
  | began iat =>
      rw [Holds, hkept.clock]
      exact h
  | holding iat restsOn =>
      rw [Holds, hkept.bound]
      exact h
  | _ => trivial

theorem timely_kept {jwt : Jwt} (h : Timely config old server jwt) (hkept : Kept server next) :
    Timely config old next jwt := by
  rw [Timely, hkept.bound, hkept.horizon]
  exact h

theorem filterMap_set_none (hrole : roles[index]? = some role) (h : role.phase = none)
    (h' : role'.phase = none) :
    (roles.set index role').filterMap Role.phase = roles.filterMap Role.phase := by
  obtain ⟨before, after, hroles, hset⟩ := set_split hrole
  rw [hset, hroles, List.filterMap_append, List.filterMap_append, List.filterMap_cons_none h,
    List.filterMap_cons_none h']

/-- The one change is the only role with a phase. -/
theorem filterMap_set_changing {phase : Phase} (hrole : roles[index]? = some (.changing phase))
    {found : Option Phase} (h : roles.filterMap Role.phase = found.toList) :
    found = some phase ∧
      ∀ phase', (roles.set index (.changing phase')).filterMap Role.phase = [phase'] := by
  obtain ⟨before, after, hroles, hset⟩ := set_split hrole
  have hphase : ∀ phase, (Role.changing phase).phase = some phase := fun _ => rfl
  rw [hroles, List.filterMap_append, List.filterMap_cons_some (hphase phase)] at h
  cases found with
  | none => exact absurd h (List.append_ne_nil_of_right_ne_nil _ (List.cons_ne_nil _ _))
  | some only =>
      rcases List.append_eq_singleton_iff.mp h with ⟨hbefore, hafter⟩ | ⟨_, hnone⟩
      · obtain ⟨rfl, hnone⟩ := List.cons.inj hafter
        refine ⟨rfl, fun phase' => ?_⟩
        rw [hset, List.filterMap_append, List.filterMap_cons_some (hphase phase'), hbefore, hnone]
        rfl
      · cases hnone

/-- A step of a request other than the change. -/
theorem Tracked.keep (h : Tracked config old server roles) (hkept : Kept server next)
    (hrows : RowsKept old server next)
    (hissued : ∀ jwt ∈ next.issued, jwt ∈ server.issued ∨ Timely config old server jwt)
    (hrole : roles[index]? = some role) (hphase : role.phase = none) (hphase' : role'.phase = none)
    (hholds : Holds old server role') : Tracked config old next (roles.set index role') where
  positive := hkept.clock ▸ h.positive
  issued := by
    intro jwt hjwt
    rcases hissued jwt hjwt with hthere | hnew
    · exact timely_kept (h.issued jwt hthere) hkept
    · exact timely_kept hnew hkept
  held := by
    intro other hother
    rcases List.mem_or_eq_of_mem_set hother with hold | rfl
    · exact holds_kept (h.held other hold) hkept
    · exact holds_kept hholds hkept
  phases := by
    obtain ⟨phase, hphases, hat⟩ := h.phases
    exact ⟨phase, (filterMap_set_none hrole hphase hphase').trans hphases,
      atPhase_kept hat hkept hrows⟩

/-- A step of the change. -/
theorem Tracked.advance {phase phase' : Phase} (h : Tracked config old server roles)
    (hrole : roles[index]? = some (.changing phase)) (hclock : next.clock = server.clock)
    (hbound : bound next = bound server) (hhorizon : horizon config next = horizon config server)
    (hissued : next.issued = server.issued)
    (hat : AtPhase old server phase → AtPhase old next phase') :
    Tracked config old next (roles.set index (.changing phase')) where
  positive := hclock ▸ h.positive
  issued := by
    intro jwt hjwt hold
    rw [hissued] at hjwt
    rw [hbound, hhorizon]
    exact h.issued jwt hjwt hold
  held := by
    intro other hother
    rcases List.mem_or_eq_of_mem_set hother with hthere | rfl
    · have hheld := h.held other hthere
      cases other with
      | began iat =>
          rw [Holds, hclock]
          exact hheld
      | holding iat restsOn =>
          rw [Holds, hbound]
          exact hheld
      | _ => trivial
    · trivial
  phases := by
    obtain ⟨found, hphases, hphase⟩ := h.phases
    obtain ⟨rfl, hset⟩ := filterMap_set_changing hrole hphases
    exact ⟨some phase', hset phase', hat hphase⟩

end Steps

/-! ## Requests -/

/-- The premises and the two conditions on a step. -/
def Undisturbed (config : Config) (old : String) (pool : Requests) (move : Move Call Change) : Prop :=
  OneChange old pool move ∧ EndsInTime config old pool move ∧ InsertedInTime old pool move

/-- Only a change has a phase, and it has returned success only after its last phase. -/
def Through (role : Role) (thread : Thread Command Reply Response Call) : Prop :=
  (thread.call.isChange = false → role.phase = none) ∧
    (thread.returned = some (.ok .changed) → role = .changing .returned)

section Requests

variable {config : Config} {old : String} {call : Call} {role : Role}

/-- A program from a role on. -/
abbrev Traced (config : Config) (old : String) (call : Call) (role : Role)
    (last : Option ((command : Command) × Reply command)) (program : Task Response) : Prop :=
  (requests config).Outlined (Tracked config old) Through (Undisturbed config old) call role last
    program

theorem traced_fail (hrole : call.isChange = false → role.phase = none)
    (last : Option ((command : Command) × Reply command)) (status : Nat) (detail : String) :
    Traced config old call role last (fail status detail) :=
  ⟨hrole, nofun⟩

/-- The command reads, or writes challenges alone. -/
def Command.quiet : Command → Bool
  | .time | .selectUser | .putChallenge _ | .getChallenge _ | .takeChallenge _ | .getRevoked _
  | .getMarker => true
  | _ => false

theorem kept_of_quiet (config : Config) {command : Command} (h : command.quiet = true) (server : Server) :
    Kept server (exec config command server).2 ∧
      (exec config command server).2.appTokens = server.appTokens ∧
      (exec config command server).2.issued = server.issued := by
  cases command <;> first | exact ⟨⟨rfl, rfl, rfl, rfl, rfl, rfl, rfl⟩, rfl, rfl⟩ | cases h

/-- A quiet command of a request other than the change, after which the request holds what `role'` says. -/
theorem Tracked.quiet {server : Server} {roles : List Role} {index : Nat} {role' : Role}
    (h : Tracked config old server roles) (command : Command) (hquiet : command.quiet = true)
    (hrole : roles[index]? = some role) (hphase : role.phase = none) (hphase' : role'.phase = none)
    (hholds : Holds old server role') :
    Tracked config old (exec config command server).2 (roles.set index role') := by
  obtain ⟨hkept, hrows, hissued⟩ := kept_of_quiet config hquiet server
  refine h.keep hkept (fun token htoken => .inl (hrows ▸ htoken))
    (fun jwt hjwt => .inl (hissued ▸ hjwt)) hrole hphase hphase' hholds

/-- After a quiet command a request holds what it held. -/
theorem traced_quiet (last : Option ((command : Command) × Reply command)) (command : Command)
    {next : Reply command → Task Response} (hquiet : command.quiet = true)
    (hphase : role.phase = none)
    (hnext : ∀ reply, Traced config old call role (some ⟨command, reply⟩) (next reply)) :
    Traced config old call role last (.issue command next) := by
  refine System.Outlined.issue _ ⟨fun _ => hphase, nofun⟩ fun server roles index h hrole => ?_
  refine ⟨role, ?_, hnext _⟩
  exact h.quiet command hquiet hrole hphase hphase (h.held role (List.mem_of_getElem? hrole))

/-- The rest of `token_revocation_reason` once the token's own key is not there. -/
def markerReason (jwt : Jwt) : Task (Option Reason) :=
  Valkey.getMarker >>= fun changed => match changed with
    | none => pure none
    | some value => pure (if jwt.iat ≤ value then some Reason.credentialsChanged else none)

theorem traced_validate (last : Option ((command : Command) × Reply command)) (jwt : Jwt)
    (kind : JwtKind) {next : Bool → Task Response} (hphase : role.phase = none)
    (hnext : ∀ last valid, Traced config old call role last (next valid)) :
    Traced config old call role last (validateToken jwt kind >>= next) := by
  refine traced_quiet _ .time rfl hphase fun (now : Int) => ?_
  change Traced _ _ _ _ _ ((if jwt.exp ≠ 0 ∧ ofSeconds jwt.exp < now then pure false
    else if jwt.kind ≠ kind then pure false
    else tokenRevocationReason jwt >>= fun reason => pure (reason = none)) >>= next)
  split
  · exact hnext _ _
  split
  · exact hnext _ _
  have hmarker : ∀ last, Traced config old call role last
      ((markerReason jwt >>= fun reason => pure (decide (reason = none))) >>= next) := by
    intro last
    refine traced_quiet _ .getMarker rfl hphase fun changed => ?_
    cases changed with
    | none => exact hnext _ _
    | some value => exact hnext _ _
  rw [tokenRevocationReason, isRevoked]
  split
  · exact hmarker _
  · refine traced_quiet _ (.getRevoked jwt.jti) rfl hphase fun revoked => ?_
    cases revoked with
    | true => exact hnext _ _
    | false => exact hmarker _

/-- The marker is there once it was stamped again. -/
theorem marker_of_restamped {server : Server} {phase : Phase} (h : AtPhase old server phase)
    (hrestamped : server.restamped = true) : ∃ marker, server.marker = some marker := by
  have hnever : server.restamped = false → ∃ marker, server.marker = some marker := by
    intro hfalse
    rw [hrestamped] at hfalse
    cases hfalse
  cases phase with
  | started => exact hnever h.1.2.2
  | updated => exact hnever h.1.2.2
  | swept => exact hnever h.1.2.2
  | committed => exact hnever h.2.1
  | timed value => exact hnever h.2.1
  | returned =>
      obtain ⟨_, _, marker, hmarker, _⟩ := h
      exact ⟨marker, hmarker⟩
  | aborted => exact hnever h.2.2

theorem ofSeconds_stamp_le (instant : Int) : ofSeconds (stamp instant) ≤ instant := by
  rw [ofSeconds, stamp]
  omega

theorem ofSeconds_add (first second : Int) :
    ofSeconds (first + second) = ofSeconds first + ofSeconds second := Int.add_mul _ _ _

/-- A token of the old password that is signed in time is timely. -/
theorem timely_signed {server : Server} {roles : List Role} {kind : JwtKind} {iat : Int}
    {jti restsOn : String} (h : Tracked config old server roles)
    (hheld : Holds old server (.holding iat restsOn))
    (hends : restsOn = old →
      if server.restamped then
        ∀ marker ∈ server.marker,
          ofSeconds (stamp server.clock + config.lifetimeOf kind) ≤ marker.deadline
      else config.lifetimeOf kind ≤ config.lifetime) :
    Timely config old server (signed config server kind iat jti restsOn) := by
  intro hold
  have hpositive := h.positive
  refine ⟨hheld hold, ?_, ?_⟩
  · change 0 < stamp server.clock + config.lifetimeOf kind
    omega
  · change ofSeconds (stamp server.clock + config.lifetimeOf kind) ≤ _
    have hend := hends hold
    obtain ⟨phase, _, hphase⟩ := h.phases
    rw [horizon]
    cases hrestamped : server.restamped with
    | false =>
        rw [hrestamped, if_neg Bool.false_ne_true] at hend
        have hsecond := ofSeconds_stamp_le server.clock
        rw [ofSeconds_add]
        dsimp only
        have hlife : ofSeconds (config.lifetimeOf kind) ≤ ofSeconds config.lifetime := by
          rw [ofSeconds, ofSeconds]
          omega
        omega
    | true =>
        obtain ⟨marker, hmarker⟩ := marker_of_restamped hphase hrestamped
        rw [hrestamped, if_pos rfl] at hend
        rw [hmarker] at hend ⊢
        exact hend marker rfl

/-- The signing of a token that a request holds. -/
theorem traced_sign (last : Option ((command : Command) × Reply command)) (kind : JwtKind) (iat : Int)
    (jti restsOn : String) {next : Jwt → Task Response}
    (hnext : ∀ last token, Traced config old call .free last (next token)) :
    Traced config old call (.holding iat restsOn) last (sign kind iat jti restsOn >>= next) := by
  refine ⟨⟨fun _ => rfl, nofun⟩, fun pool roles index h _ hrole hthread hcondition => ?_⟩
  refine ⟨.free, ?_, hnext _ _⟩
  refine h.keep ⟨rfl, rfl, rfl, rfl, rfl, rfl, rfl⟩ (RowsKept.refl _ _) ?_ hrole rfl rfl trivial
  intro jwt hjwt
  rcases List.mem_append.mp hjwt with hthere | hnew
  · exact .inl hthere
  · right
    rw [List.mem_singleton.mp hnew]
    have hends := hcondition.2.1
    rw [EndsInTime, hthread] at hends
    exact timely_signed h (h.held _ (List.mem_of_getElem? hrole)) hends

/-- An app token of the session is inserted in time. -/
theorem traced_insert (last : Option ((command : Command) × Reply command))
    (tokenHash restsOn : String) {next : Unit → Task Response}
    (hnext : ∀ last, Traced config old call .free last (next ())) :
    Traced config old call .free last (Sql.insertAppToken tokenHash restsOn >>= next) := by
  refine ⟨⟨fun _ => rfl, nofun⟩, fun pool roles index h _ hrole hthread hcondition => ?_⟩
  refine ⟨.free, ?_, hnext _⟩
  have hinserted := hcondition.2.2
  rw [InsertedInTime, hthread] at hinserted
  refine h.keep ⟨rfl, rfl, rfl, rfl, rfl, rfl, rfl⟩ ?_ (fun jwt hjwt => .inl hjwt) hrole rfl rfl trivial
  intro token htoken
  rcases List.mem_append.mp htoken with hthere | hnew
  · exact .inl hthere
  · right
    rw [List.mem_singleton.mp hnew]
    intro hswept hold
    rw [hinserted hold] at hswept
    cases hswept

/-- Who reads the old hash reads it before the commit. -/
theorem bound_of_old {server : Server} {phase : Phase} (h : AtPhase old server phase)
    (hold : server.hashedPassword = old) : bound server = stamp server.clock := by
  have hnow : server.committedAt = none → bound server = stamp server.clock := by
    intro hnone
    rw [bound, hnone]
    rfl
  cases phase with
  | started => exact hnow h.1.2.1
  | updated => exact hnow h.1.2.1
  | swept => exact hnow h.1.2.1
  | committed => exact absurd hold h.1.1
  | timed value => exact absurd hold h.1.1
  | returned => exact absurd hold h.1.1
  | aborted => exact hnow h.2.1

/-- The outline of a login: the token's second is read before the hash. -/
theorem traced_login (password jti : String) :
    Traced config old call .free none (login config password jti) := by
  refine System.Outlined.issue _ ⟨fun _ => rfl, nofun⟩ fun server roles index h hrole => ?_
  refine ⟨.began (stamp server.clock), h.quiet .time rfl hrole rfl rfl (Int.le_refl _), ?_⟩
  change Traced config old call _ _ (Sql.selectUser >>= fun user =>
    if ¬config.verifyPassword password user.hashedPassword ∨ ¬user.isActive then incorrectPassword
    else if user.totpEnabled then
      sign .challenge (stamp server.clock) jti user.hashedPassword >>= fun challenge =>
        Valkey.putChallenge jti >>= fun _ => pure (.ok (.challenge challenge))
    else
      sign .access (stamp server.clock) jti user.hashedPassword >>= fun token =>
        pure (.ok (.token token)))
  generalize stamp server.clock = iat
  refine System.Outlined.issue _ ⟨fun _ => rfl, nofun⟩ fun server roles index h hrole => ?_
  refine ⟨.holding iat server.hashedPassword, ?_, ?_⟩
  · refine h.quiet .selectUser rfl hrole rfl rfl fun hold => ?_
    obtain ⟨phase, _, hphase⟩ := h.phases
    rw [bound_of_old hphase hold]
    exact h.held _ (List.mem_of_getElem? hrole)
  change Traced config old call _ _
    (if ¬config.verifyPassword password server.hashedPassword ∨ ¬server.isActive then incorrectPassword
    else if server.totpEnabled then
      sign .challenge iat jti server.hashedPassword >>= fun challenge =>
        Valkey.putChallenge jti >>= fun _ => pure (.ok (.challenge challenge))
    else
      sign .access iat jti server.hashedPassword >>= fun token => pure (.ok (.token token)))
  split
  · exact traced_fail (fun _ => rfl) _ _ _
  split
  · exact traced_sign _ _ _ _ _ fun last token =>
      traced_quiet last (.putChallenge jti) rfl rfl fun _ => ⟨fun _ => rfl, nofun⟩
  · exact traced_sign _ _ _ _ _ fun last token => ⟨fun _ => rfl, nofun⟩

theorem traced_verify (challenge : Jwt) (codeOk : Bool) (jti : String) :
    Traced config old call (.holding challenge.iat challenge.restsOn) none
      (twofaVerify challenge codeOk jti) := by
  refine traced_validate _ _ _ rfl fun last valid => ?_
  cases valid with
  | false => exact traced_fail (fun _ => rfl) _ _ _
  | true =>
      refine traced_quiet _ (.getChallenge challenge.jti) rfl rfl fun there => ?_
      cases there with
      | false => exact traced_fail (fun _ => rfl) _ _ _
      | true =>
          cases codeOk with
          | false => exact traced_fail (fun _ => rfl) _ _ _
          | true =>
              refine traced_quiet _ (.takeChallenge challenge.jti) rfl rfl fun consumed => ?_
              cases consumed with
              | false => exact traced_fail (fun _ => rfl) _ _ _
              | true => exact traced_sign _ _ _ _ _ fun last token => ⟨fun _ => rfl, nofun⟩

theorem traced_mint (session : Jwt) (tokenHash : String) :
    Traced config old call .free none (mintAppToken session tokenHash) := by
  refine traced_validate _ _ _ rfl fun last valid => ?_
  cases valid with
  | false => exact traced_fail (fun _ => rfl) _ _ _
  | true => exact traced_insert _ _ _ fun last => ⟨fun _ => rfl, nofun⟩

/-! ## The change -/

/-- A step of the change whose effect does not depend on the other requests. -/
theorem traced_step (hcall : call.isChange = true) {phase : Phase} (phase' : Phase)
    (last : Option ((command : Command) × Reply command)) (command : Command)
    {next : Reply command → Task Response}
    (hclock : ∀ server, (exec config command server).2.clock = server.clock)
    (hissued : ∀ server, (exec config command server).2.issued = server.issued)
    (hat : ∀ server, AtPhase old server phase → AtPhase old (exec config command server).2 phase' ∧
      bound (exec config command server).2 = bound server ∧
      horizon config (exec config command server).2 = horizon config server)
    (hnext : ∀ reply, Traced config old call (.changing phase') (some ⟨command, reply⟩) (next reply)) :
    Traced config old call (.changing phase) last (.issue command next) := by
  refine System.Outlined.issue _ ⟨fun hother => ?_, nofun⟩ fun server roles index h hrole => ?_
  · rw [hcall] at hother
    cases hother
  refine ⟨.changing phase', ?_, hnext _⟩
  obtain ⟨found, hphases, hphase⟩ := h.phases
  obtain ⟨rfl, _⟩ := filterMap_set_changing hrole hphases
  obtain ⟨hafter, hbound, hhorizon⟩ := hat server hphase
  exact h.advance hrole (hclock server) hbound hhorizon (hissued server) fun _ => hafter

theorem horizon_of_not_restamped {server : Server} (h : server.restamped = false) :
    horizon config server = server.clock + ofSeconds config.lifetime := by
  rw [horizon, h]

theorem swept_of_revoke {server : Server} (h : AtPhase old server .updated) :
    AtPhase old (exec config .revokeAppTokens server).2 .swept := by
  refine ⟨h.1, h.2, rfl, fun token htoken _ => ?_⟩
  obtain ⟨before, _, rfl⟩ := List.mem_map.mp htoken
  cases hrevoked : before.revoked with
  | true => exact .inl rfl
  | false => exact .inr rfl

theorem committed_of_commit {server : Server} (h : AtPhase old server .swept) :
    AtPhase old (exec config .commit server).2 .committed := by
  obtain ⟨⟨_, _, hrestamped⟩, ⟨hash, hpending, hnew⟩, hswept, hrows⟩ := h
  refine ⟨⟨?_, rfl, hswept, fun token htoken hold => ?_⟩, hrestamped, Int.le_refl _⟩
  · change server.pending.getD server.hashedPassword ≠ old
    rw [hpending]
    exact hnew
  · obtain ⟨before, hbefore, rfl⟩ := List.mem_map.mp htoken
    exact (Bool.or_eq_true _ _).mpr (hrows before hbefore hold)

/-- Before the commit the marker does not move the horizon. -/
theorem swept_of_marker {server : Server} (value : Int) (h : AtPhase old server .swept) :
    AtPhase old (exec config (.setMarker value) server).2 .swept ∧
      horizon config (exec config (.setMarker value) server).2 = horizon config server := by
  obtain ⟨⟨hhash, hnone, hrestamped⟩, hpending, hswept⟩ := h
  have hstill : (exec config (.setMarker value) server).2.restamped = false := by
    change server.committedAt.isSome = false
    rw [hnone]
    rfl
  refine ⟨⟨⟨hhash, hnone, hstill⟩, hpending, hswept⟩, ?_⟩
  rw [horizon_of_not_restamped hstill, horizon_of_not_restamped hrestamped]
  rfl

/-- The last marker ends where the horizon is. -/
theorem returned_of_marker {server : Server} {value : Int} (h : AtPhase old server (.timed value)) :
    AtPhase old (exec config (.setMarker value) server).2 .returned ∧
      horizon config (exec config (.setMarker value) server).2 = horizon config server := by
  obtain ⟨hcommitted, hrestamped, hvalue⟩ := h
  have hnow : (exec config (.setMarker value) server).2.restamped = true := hcommitted.2.1
  refine ⟨⟨hcommitted, hnow, _, rfl, hvalue⟩, ?_⟩
  rw [horizon_of_not_restamped hrestamped, horizon, hnow]
  rfl

/-- The end of a change: the commit and the second marker. -/
theorem traced_commit (hcall : call.isChange = true)
    (last : Option ((command : Command) × Reply command)) :
    Traced config old call (.changing .swept) last
      (Sql.commit >>= fun _ => writePasswordChangedMarker >>= fun _ => pure (.ok .changed)) := by
  refine traced_step hcall .committed _ .commit (fun _ => rfl) (fun _ => rfl) (fun server h => ?_) fun _ => ?_
  · refine ⟨committed_of_commit h, ?_, ?_⟩
    · obtain ⟨⟨_, hnone, _⟩, _⟩ := h
      rw [bound, bound, hnone]
      rfl
    · have hrestamped : server.restamped = false := h.1.2.2
      rw [horizon_of_not_restamped hrestamped]
      exact horizon_of_not_restamped hrestamped
  refine System.Outlined.issue _ ⟨fun hother => ?_, nofun⟩ fun server roles index h hrole => ?_
  · rw [hcall] at hother
    cases hother
  refine ⟨.changing (.timed (stamp server.clock)), h.advance hrole rfl rfl rfl rfl fun hphase => hphase,
    ?_⟩
  refine traced_step hcall .returned _ (.setMarker (stamp server.clock)) (fun _ => rfl) (fun _ => rfl)
    (fun server h => ?_) fun _ => ⟨fun hother => ?_, fun _ => rfl⟩
  · obtain ⟨hreturned, hhorizon⟩ := returned_of_marker h
    exact ⟨hreturned, rfl, hhorizon⟩
  · rw [hcall] at hother
    cases hother

/-- The outline of a change to a new hash. -/
theorem traced_change {hash : String} (hnew : hash ≠ old) (hcall : call.isChange = true)
    (resetTokenKey : Option String) :
    Traced config old call (.changing .started) none (commitPasswordChange hash resetTokenKey) := by
  refine traced_step hcall .updated _ (.updatePassword hash) (fun _ => rfl) (fun _ => rfl)
    (fun server h => ⟨⟨h.1, hash, rfl, hnew⟩, rfl, rfl⟩) fun _ => ?_
  refine traced_step hcall .swept _ .revokeAppTokens (fun _ => rfl) (fun _ => rfl)
    (fun server h => ⟨swept_of_revoke h, rfl, rfl⟩) fun _ => ?_
  refine traced_step hcall .swept _ .time (fun _ => rfl) (fun _ => rfl)
    (fun server h => ⟨h, rfl, rfl⟩) fun (now : Int) => ?_
  refine traced_step hcall .swept _ (.setMarker (stamp now)) (fun _ => rfl) (fun _ => rfl)
    (fun server h => ?_) fun _ => ?_
  · obtain ⟨hswept, hhorizon⟩ := swept_of_marker (stamp now) h
    exact ⟨hswept, rfl, hhorizon⟩
  cases resetTokenKey with
  | none => exact traced_commit hcall _
  | some key =>
      refine traced_step hcall .swept _ (.takeResetToken key) (fun _ => rfl) (fun _ => rfl)
        (fun server h => ⟨h, rfl, rfl⟩) fun taken => ?_
      cases taken with
      | true => exact traced_commit hcall _
      | false =>
          refine traced_step hcall .aborted _ .rollback (fun _ => rfl) (fun _ => rfl)
            (fun server h => ⟨h.1, rfl, rfl⟩) fun _ => traced_fail (fun hother => ?_) _ _ _
          rw [hcall] at hother
          cases hother

/-! ## Runs -/

/-- A request starts with nothing in hand, a verification with its challenge. -/
theorem Tracked.start {server : Server} {roles : List Role} (h : Tracked config old server roles)
    (hphase : role.phase = none) (hholds : Holds old server role) :
    Tracked config old server (roles ++ [role]) where
  positive := h.positive
  issued := h.issued
  held := by
    intro other hother
    rcases List.mem_append.mp hother with hthere | hnew
    · exact h.held other hthere
    · rw [List.mem_singleton.mp hnew]
      exact hholds
  phases := by
    obtain ⟨phase, hphases, hat⟩ := h.phases
    refine ⟨phase, ?_, hat⟩
    rw [List.filterMap_append, List.filterMap_cons_none hphase, hphases]
    exact List.append_nil _

theorem no_phase {roles : List Role} {threads : List (Thread Command Reply Response Call)}
    (hroles : List.Forall₂ Through roles threads)
    (hnone : ∀ thread ∈ threads, thread.call.isChange = false) : roles.filterMap Role.phase = [] := by
  refine List.filterMap_eq_nil_iff.mpr fun role hrole => ?_
  obtain ⟨index, hindex⟩ := List.mem_iff_getElem?.mp hrole
  obtain ⟨thread, hthread, hthrough⟩ := forall₂_get hroles.flip hindex
  exact hthrough.1 (hnone thread (List.mem_of_getElem? hthread))

/-- A call that starts is traced. -/
theorem traced_start (pool : Requests) (roles : List Role) (call : Call)
    (h : Tracked config old pool.state roles) (hroles : List.Forall₂ Through roles pool.threads)
    (hcondition : Undisturbed config old pool (.start call)) :
    ∃ role, Tracked config old pool.state (roles ++ [role]) ∧
      Traced config old call role none ((requests config).program call) := by
  have hsetting := hcondition.1
  cases call with
  | login password jti => exact ⟨.free, h.start rfl trivial, traced_login password jti⟩
  | verify challenge codeOk jti =>
      refine ⟨.holding challenge.iat challenge.restsOn, h.start rfl fun hold => ?_,
        traced_verify challenge codeOk jti⟩
      exact (h.issued challenge hsetting hold).1
  | mint session tokenHash => exact ⟨.free, h.start rfl trivial, traced_mint session tokenHash⟩
  | change hash resetTokenKey =>
      obtain ⟨hnew, hnone⟩ := hsetting
      have hphases := no_phase hroles hnone
      refine ⟨.changing .started, ⟨h.positive, h.issued, fun other hother => ?_, some .started, ?_, ?_⟩,
        traced_change hnew rfl resetTokenKey⟩
      · rcases List.mem_append.mp hother with hthere | hnew
        · exact h.held other hthere
        · rw [List.mem_singleton.mp hnew]
          trivial
      · rw [List.filterMap_append, hphases]
        rfl
      · obtain ⟨found, hfound, hat⟩ := h.phases
        rw [hphases] at hfound
        cases found with
        | none => exact hat
        | some phase => cases hfound

theorem stamp_mono {first second : Int} (h : first ≤ second) : stamp first ≤ stamp second :=
  Int.ediv_le_ediv (by decide) h

/-- Time keeps what holds: the bound and the horizon only grow. -/
theorem Tracked.tick {server : Server} {roles : List Role} (h : Tracked config old server roles)
    (elapsed : Nat) : Tracked config old { server with clock := server.clock + elapsed } roles := by
  have hlater : server.clock ≤ server.clock + elapsed :=
    Int.le_add_of_nonneg_right (Int.natCast_nonneg elapsed)
  have hstamp : stamp server.clock ≤ stamp (server.clock + elapsed) := stamp_mono hlater
  have hbound : bound server ≤ bound { server with clock := server.clock + elapsed } := by
    rw [bound, bound]
    cases server.committedAt with
    | none => exact hstamp
    | some instant => exact Int.le_refl _
  have hhorizon : horizon config server ≤
      horizon config { server with clock := server.clock + elapsed } := by
    have hplus : server.clock + ofSeconds config.lifetime ≤
        server.clock + elapsed + ofSeconds config.lifetime := Int.add_le_add_right hlater _
    rw [horizon, horizon]
    cases server.restamped with
    | false => exact hplus
    | true =>
        cases server.marker with
        | none => exact hplus
        | some marker => exact Int.le_refl _
  have hsame : server.committedAt.isSome = true →
      bound { server with clock := server.clock + elapsed } = bound server := by
    intro hsome
    obtain ⟨instant, hinstant⟩ := Option.isSome_iff_exists.mp hsome
    rw [bound, bound, hinstant]
    rfl
  refine ⟨Int.lt_of_lt_of_le h.positive hstamp, fun jwt hjwt hold => ?_, fun role hrole => ?_, ?_⟩
  · obtain ⟨hiat, hexp, hend⟩ := h.issued jwt hjwt hold
    exact ⟨Int.le_trans hiat hbound, hexp, Int.le_trans hend hhorizon⟩
  · have hheld := h.held role hrole
    cases role with
    | began iat => exact Int.le_trans hheld hstamp
    | holding iat restsOn => exact fun hold => Int.le_trans (hheld hold) hbound
    | _ => trivial
  · obtain ⟨found, hphases, hat⟩ := h.phases
    refine ⟨found, hphases, ?_⟩
    generalize found.getD .started = phase at hat ⊢
    cases phase with
    | committed =>
        refine ⟨hat.1, hat.2.1, ?_⟩
        rw [hsame hat.1.2.1]
        exact Int.le_trans hat.2.2 hstamp
    | timed value =>
        refine ⟨hat.1, hat.2.1, ?_⟩
        rw [hsame hat.1.2.1]
        exact hat.2.2
    | returned =>
        obtain ⟨hcommitted, hrestamped, marker, hmarker, hvalue⟩ := hat
        refine ⟨hcommitted, hrestamped, marker, hmarker, ?_⟩
        rw [hsame hcommitted.2.1]
        exact hvalue
    | _ => exact hat

theorem traced_passes (pool : Requests) (roles : List Role) (move : Change)
    (h : Tracked config old pool.state roles) (_ : List.Forall₂ Through roles pool.threads)
    (_ : Undisturbed config old pool (.change move)) :
    Tracked config old ((requests config).change move pool.state) roles := by
  have hkept : ∀ next : Server, Kept pool.state next → next.appTokens = pool.state.appTokens →
      next.issued = pool.state.issued → Tracked config old next roles := by
    intro next hkept hrows hissued
    refine ⟨hkept.clock ▸ h.positive, fun jwt hjwt => ?_, fun role hrole => ?_, ?_⟩
    · exact timely_kept (h.issued jwt (hissued ▸ hjwt)) hkept
    · exact holds_kept (h.held role hrole) hkept
    · obtain ⟨found, hphases, hat⟩ := h.phases
      exact ⟨found, hphases, atPhase_kept hat hkept fun token htoken => .inl (hrows ▸ htoken)⟩
  cases move with
  | passes elapsed => exact h.tick elapsed
  | challengeExpires jti => exact hkept _ ⟨rfl, rfl, rfl, rfl, rfl, rfl, rfl⟩ rfl rfl
  | logout jti => exact hkept _ ⟨rfl, rfl, rfl, rfl, rfl, rfl, rfl⟩ rfl rfl
  | secondFactor enabled => exact hkept _ ⟨rfl, rfl, rfl, rfl, rfl, rfl, rfl⟩ rfl rfl

/-- After the last phase nothing that rests on the old password is accepted. -/
theorem revoked_of_returned {server : Server} {roles : List Role}
    (h : Tracked config old server roles) (hat : AtPhase old server .returned) :
    Revoked config old server := by
  obtain ⟨hcommitted, hrestamped, marker, hmarker, hvalue⟩ := hat
  refine ⟨fun jwt hjwt hold haccepted => ?_, hcommitted.2.2.2⟩
  obtain ⟨hiat, hexp, hend⟩ := h.issued jwt hjwt hold
  obtain ⟨hfresh, hnewer⟩ := accepted_fresh haccepted
  rw [horizon, hrestamped, hmarker] at hend
  by_cases hthere : server.clock ≤ marker.deadline
  · have hread : server.markerValue = some marker.value := by
      rw [Server.markerValue, hmarker, Option.filter_some, if_pos (decide_eq_true hthere)]
      rfl
    have hlater := hnewer marker.value hread
    omega
  · rcases hfresh with hzero | hbefore
    · omega
    · have hover : server.clock ≤ marker.deadline := Int.le_trans hbefore hend
      exact hthere hover

end Requests

/-- No change is under way, and the tokens of the old password are as old as they say. -/
structure Opening (config : Config) (server : Server) : Prop where
  pending : server.pending = none
  committedAt : server.committedAt = none
  restamped : server.restamped = false
  positive : 0 < stamp server.clock
  issued : ∀ jwt ∈ server.issued, jwt.restsOn = server.hashedPassword →
    jwt.iat ≤ stamp server.clock ∧ 0 < jwt.exp ∧
      ofSeconds jwt.exp ≤ server.clock + ofSeconds config.lifetime

/-- Once a password change has returned, no token or app token that rests on the old password or on a
session obtained with it is accepted, if none of them was signed or inserted too late. -/
theorem password_change_revokes (config : Config) (start : Server) (hstart : Opening config start)
    {moves : List (Move Call Change)} {pool : Requests}
    (hrun : Runs.execute (requests config).step ((requests config).idle start) moves = .ok pool)
    (halong : Runs.Along (requests config).step (Undisturbed config start.hashedPassword)
      ((requests config).idle start) moves)
    (hreturned : ∃ thread ∈ pool.threads, thread.returned = some (.ok .changed)) :
    Revoked config start.hashedPassword pool.state := by
  have hbound : bound start = stamp start.clock := by
    rw [bound, hstart.committedAt]
    rfl
  have hidle : Tracked config start.hashedPassword start [] := by
    refine ⟨hstart.positive, fun jwt hjwt hold => ?_, fun role hrole => absurd hrole List.not_mem_nil,
      none, rfl, ⟨rfl, hstart.committedAt, hstart.restamped⟩, hstart.pending⟩
    rw [hbound, horizon_of_not_restamped hstart.restamped]
    exact hstart.issued jwt hjwt hold
  obtain ⟨roles, htracked, hroles⟩ := (requests config).outlined_along hidle traced_start traced_passes
    hrun halong
  obtain ⟨thread, hthread, hchanged⟩ := hreturned
  obtain ⟨index, hindex⟩ := List.mem_iff_getElem?.mp hthread
  obtain ⟨role, hrole, hthrough⟩ := forall₂_get hroles hindex
  obtain rfl := hthrough.2 hchanged
  obtain ⟨found, hphases, hat⟩ := htracked.phases
  obtain ⟨rfl, _⟩ := filterMap_set_changing hrole hphases
  exact revoked_of_returned htracked hat

/-! ## A change and late steps -/

instance (old : String) (pool : Requests) (move : Move Call Change) :
    Decidable (OneChange old pool move) := by
  unfold OneChange
  split <;> infer_instance

instance (config : Config) (old : String) (pool : Requests) (move : Move Call Change) :
    Decidable (EndsInTime config old pool move) := by
  unfold EndsInTime
  split
  · split <;> infer_instance
  · infer_instance

instance (old : String) (pool : Requests) (move : Move Call Change) :
    Decidable (InsertedInTime old pool move) := by
  unfold InsertedInTime
  split
  · split <;> infer_instance
  · infer_instance

instance (config : Config) (old : String) (pool : Requests) (move : Move Call Change) :
    Decidable (Undisturbed config old pool move) := inferInstanceAs (Decidable (_ ∧ _ ∧ _))

/-- Tokens live for half an hour, and passwords are their own hashes. -/
def halfHour : Config where
  lifetime := 1800
  verifyPassword := fun password hash => password = hash

/-- A session of the old password. -/
def oldSession : Jwt := ⟨.access, 900, 2700, "s", "old"⟩

/-- A user with one session, at second 1000. -/
def oneSession : Server where
  clock := 1000000000
  hashedPassword := "old"
  isActive := true
  totpEnabled := false
  pending := none
  appTokens := [⟨"a", "old", false, false⟩]
  marker := none
  revokedJtis := []
  challenges := []
  resetTokens := []
  issued := [oldSession]
  swept := false
  committedAt := none
  restamped := false

theorem opening_oneSession : Opening halfHour oneSession where
  pending := rfl
  committedAt := rfl
  restamped := rfl
  positive := by decide
  issued := by
    rintro jwt (_ | ⟨_, ⟨⟩⟩) -
    decide

/-- A login reads the old hash, then the password changes. -/
def loginThenChange : List (Move Call Change) :=
  [.start (.login "old" "j"), .step 0, .step 0, .start (.change "new" none), .step 1, .step 1, .step 1,
    .step 1, .step 1, .step 1, .step 1]

/-- A mint validates the old session, then the password changes. -/
def mintThenChange : List (Move Call Change) :=
  [.start (.mint oldSession "t"), .step 0, .step 0, .step 0, .start (.change "new" none), .step 1,
    .step 1, .step 1, .step 1, .step 1, .step 1, .step 1]

/-- A login that signs its token in the second of the change gains nothing. -/
theorem login_in_time_revoked :
    ∃ pool, Runs.execute (requests halfHour).step ((requests halfHour).idle oneSession)
        (loginThenChange ++ [.step 0, .change (.passes 1700000000)]) = .ok pool ∧
      pool.state.issued.length = 2 ∧ Revoked halfHour "old" pool.state := by
  obtain ⟨pool, hrun, hissued, hreturned⟩ : ∃ pool, Runs.execute (requests halfHour).step
      ((requests halfHour).idle oneSession)
        (loginThenChange ++ [.step 0, .change (.passes 1700000000)]) = .ok pool ∧
      pool.state.issued.length = 2 ∧
      ∃ thread ∈ pool.threads, thread.returned = some (.ok .changed) :=
    ⟨_, rfl, rfl, _, List.mem_cons_of_mem _ List.mem_cons_self, rfl⟩
  exact ⟨pool, hrun, hissued,
    password_change_revokes halfHour oneSession opening_oneSession hrun (by decide +kernel) hreturned⟩

/-- A token signed two seconds after the change outlives the marker, and an app token inserted after the
change is never revoked. -/
theorem late_steps_escape :
    (∃ pool, Runs.execute (requests halfHour).step ((requests halfHour).idle oneSession)
        (loginThenChange ++ [.change (.passes 2000000), .step 0, .change (.passes 1799000000)]) =
          .ok pool ∧
      Runs.Along (requests halfHour).step (OneChange "old") ((requests halfHour).idle oneSession)
        (loginThenChange ++ [.change (.passes 2000000), .step 0, .change (.passes 1799000000)]) ∧
      (∃ thread ∈ pool.threads, thread.returned = some (.ok .changed)) ∧
      ∃ jwt ∈ pool.state.issued, jwt.restsOn = "old" ∧ Accepted halfHour pool.state jwt) ∧
    ∃ pool, Runs.execute (requests halfHour).step ((requests halfHour).idle oneSession)
        (mintThenChange ++ [.step 0]) = .ok pool ∧
      Runs.Along (requests halfHour).step (OneChange "old") ((requests halfHour).idle oneSession)
        (mintThenChange ++ [.step 0]) ∧
      (∃ thread ∈ pool.threads, thread.returned = some (.ok .changed)) ∧
      ∃ token ∈ pool.state.appTokens, token.restsOn = "old" ∧ token.revoked = false := by
  refine ⟨⟨_, rfl, by decide +kernel, ⟨_, List.mem_cons_of_mem _ List.mem_cons_self, rfl⟩,
    ⟨.access, 1000, 2802, "j", "old"⟩, List.mem_cons_of_mem _ List.mem_cons_self, rfl, rfl⟩, ?_⟩
  exact ⟨_, rfl, by decide +kernel, ⟨_, List.mem_cons_of_mem _ List.mem_cons_self, rfl⟩,
    ⟨"t", "old", false, false⟩, List.mem_cons_of_mem _ List.mem_cons_self, rfl, rfl⟩

end CatalogApi.Passwords
