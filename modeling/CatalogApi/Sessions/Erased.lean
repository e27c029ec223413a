import CatalogApi.Sessions.Credentials

/-!
# Acting as an erased user

After an erasure the account is inactive, has no second factor and no app tokens, and nothing signs a
token for it again. What remains are the access tokens signed before: the erasure revokes the one
that asked, and `require_user` reads no account. `erased_inert_iff` says that nobody acts as the
erased user exactly when every other access token has ended and that revocation is stored.
-/

namespace CatalogApi.Sessions

open Passwords (HttpError stamp ofSeconds)

variable {lifetime : Nat} {service service' : Service} {token payload : Jwt} {user other : User}

/-! ## What a request does -/

/-- The change that a request makes: it signs for an account that can log in, and otherwise works for
the user of an accepted token or for the user as whom the caller acts. -/
inductive Effect (lifetime : Nat) (service : Service) : Service → Prop where
  | unchanged : Effect lifetime service service
  | passed (elapsed : Nat) :
      Effect lifetime service { service with clock := service.clock + elapsed }
  | signed (duration : Nat) (user : User) (kind : JwtKind) (iat : Int) (jti : String)
      (challenges : List String)
      (hopen : (service.accounts user).isActive = true ∨
        (service.accounts user).totpConfigured = true)
      (hfresh : ∀ token ∈ service.issued, token.jti ≠ jti) :
      Effect lifetime service
        { service.sign duration user kind iat jti with challenges := challenges }
  | revoked (payload : Jwt) (haccepted : Accepted service payload) :
      Effect lifetime service (service.revoke payload)
  | handled (user : User) (handler : Handler) (hacts : ∃ bearer, ActsAs service user bearer) :
      Effect lifetime service (service.handle user handler)
  | erased (payload : Jwt) (call : ErasureCall) (haccepted : Accepted service payload) :
      Effect lifetime service
        (((service.recordEvent payload.sub).erasePostgres payload.sub).revokeCallerToken payload call)

theorem acts_of_user {dependency : Dependency} {credentials : Option Bearer}
    (h : dependency.user service credentials = some user) : ∃ bearer, ActsAs service user bearer := by
  cases credentials with
  | none => cases dependency <;> cases h
  | some bearer => exact ⟨bearer, dependency, h⟩

theorem accepted_of_required {credentials : Option Bearer}
    (h : requireUser service credentials = .ok payload) : Accepted service payload := by
  cases credentials with
  | none => cases h
  | some bearer => exact (require_user_iff.mp h).2

theorem login_effect {passwordOk : Bool} {jti : String}
    (hfresh : ∀ token ∈ service.issued, token.jti ≠ jti) :
    Effect lifetime service (service.login lifetime user passwordOk jti) := by
  unfold Service.login
  split
  · exact .unchanged
  · rename_i hallowed
    have hactive := not_not.mp (not_or.mp hallowed).2
    split
    · exact .signed 300 user .challenge _ jti _ (Or.inl hactive) hfresh
    · exact .signed lifetime user .access _ jti service.challenges (Or.inl hactive) hfresh

theorem verify_effect {bearer : Bearer} {codeOk : Bool} {jti : String}
    (hfresh : ∀ token ∈ service.issued, token.jti ≠ jti) :
    Effect lifetime service (service.twofaVerify lifetime bearer codeOk jti) := by
  unfold Service.twofaVerify
  split
  · exact .unchanged
  · rename_i payload _
    split
    · exact .unchanged
    · split
      · exact .unchanged
      · rename_i hallowed
        have hconfigured := not_not.mp (not_or.mp hallowed).1
        exact .signed lifetime payload.sub .access _ jti _ (Or.inr hconfigured) hfresh

theorem serve_effect {request : Request} (hdraws : Draws service request) :
    Effect lifetime service (serve lifetime service request) := by
  cases request with
  | passes elapsed => exact .passed elapsed
  | login user passwordOk jti => exact login_effect hdraws
  | verify bearer codeOk jti => exact verify_effect hdraws
  | logout credentials =>
      rw [serve, Service.logout]
      cases hrequired : requireUser service credentials with
      | error error => exact .unchanged
      | ok payload => exact .revoked payload (accepted_of_required hrequired)
  | call dependency credentials handler =>
      rw [serve]
      cases huser : dependency.user service credentials with
      | none => exact .unchanged
      | some user => exact .handled user handler (acts_of_user huser)
  | erase credentials call =>
      rw [serve, requestErasure]
      cases hrequired : requireUser service credentials with
      | error error => exact .unchanged
      | ok payload =>
          dsimp only
          cases call.refusal with
          | some error => exact .unchanged
          | none => exact .erased payload call (accepted_of_required hrequired)

/-! ## What a request changes -/

/-- The rows of the user. -/
def Service.rowsOf (service : Service) (user : User) : List (Table × User) :=
  service.rows.filter fun row => row.2 = user

theorem record_event_eq (service : Service) (user : User) : ∃ added : List (Table × User),
    (∀ row ∈ added, row.2 = user) ∧
      service.recordEvent user = { service with rows := added ++ service.rows } := by
  unfold Service.recordEvent Service.subjectFor
  split
  · refine ⟨[(.events, user)], fun row hrow => ?_, rfl⟩
    rw [List.mem_singleton.mp hrow]
  · refine ⟨[(.events, user), (.userSubjects, user)], fun row hrow => ?_, rfl⟩
    rcases List.mem_pair.mp hrow with rfl | rfl <;> rfl

theorem rows_of_append {added : List (Table × User)} (hadded : ∀ row ∈ added, row.2 = other)
    (hne : other ≠ user) :
    { service with rows := added ++ service.rows }.rowsOf user = service.rowsOf user := by
  have hnone : added.filter (fun row => row.2 = user) = [] :=
    List.filter_eq_nil_iff.mpr fun row hrow hsame =>
      hne ((hadded row hrow).symm.trans (of_decide_eq_true hsame))
  rw [Service.rowsOf, List.filter_append, hnone, List.nil_append, Service.rowsOf]

/-- A handler adds rows or an app token of its user, or changes the account. -/
theorem handle_cases (service : Service) (user : User) (handler : Handler) :
    (∃ added : List (Table × User), (∀ row ∈ added, row.2 = user) ∧
      service.handle user handler = { service with rows := added ++ service.rows }) ∨
    (∃ row : AppToken, row.userId = user ∧
      service.handle user handler = { service with appTokens := service.appTokens ++ [row] }) ∨
    ∃ account : Account, service.handle user handler =
      { service with accounts := Function.update service.accounts user account } := by
  have hrecorded : ∀ table : Table, ∃ added : List (Table × User), (∀ row ∈ added, row.2 = user) ∧
      (service.insert table user).recordEvent user =
        { service with rows := added ++ service.rows } := by
    intro table
    obtain ⟨added, hadded, heq⟩ := record_event_eq (service.insert table user) user
    refine ⟨added ++ [(table, user)], fun row hrow => ?_, ?_⟩
    · rcases List.mem_append.mp hrow with hrow | hrow
      · exact hadded row hrow
      · rw [List.mem_singleton.mp hrow]
    · rw [heq, List.append_assoc]
      rfl
  cases handler with
  | read => exact Or.inl ⟨[], nofun, rfl⟩
  | recordEvent => exact Or.inl (record_event_eq service user)
  | setConsent => exact Or.inl (hrecorded .consentGrants)
  | syncCollection => exact Or.inl (hrecorded .userCollections)
  | mintAppToken id tokenHash scopes =>
      exact Or.inr (Or.inl ⟨⟨id, tokenHash, user, scopes, false⟩, rfl, rfl⟩)
  | changeTotp enabled configured =>
      exact Or.inr (Or.inr ⟨{ service.accounts user with
        totpEnabled := enabled, totpConfigured := configured }, rfl⟩)

theorem revoke_eq (service : Service) (payload : Jwt) : ∃ revokedJtis : String → Option Int,
    service.revoke payload = { service with revokedJtis := revokedJtis } := by
  unfold Service.revoke
  split
  · exact ⟨service.revokedJtis, rfl⟩
  · exact ⟨_, rfl⟩

/-- An erasure in PostgreSQL leaves the rows of other users. -/
theorem erase_postgres_eq (service : Service) (user : User) : ∃ rows : List (Table × User),
    (service.recordEvent user).erasePostgres user =
      { service with
        rows := rows
        appTokens := service.appTokens.filter fun token => token.userId ≠ user
        accounts := Function.update service.accounts user ⟨false, false, false⟩ } ∧
      ∀ other ≠ user, rows.filter (fun row => row.2 = other) = service.rowsOf other := by
  obtain ⟨added, hadded, heq⟩ := record_event_eq service user
  refine ⟨_, by rw [heq, Service.erasePostgres], fun other hother => ?_⟩
  rw [← rows_of_append hadded hother.symm, Service.rowsOf, List.filter_filter]
  refine List.filter_congr fun row _ => ?_
  by_cases hrow : row.2 = other
  · simp [hrow, hother]
  · simp [hrow]

/-! ## The erased account -/

theorem DistinctJtis.sign {duration : Nat} {kind : JwtKind} {iat : Int} {jti : String}
    (h : DistinctJtis service) (hfresh : ∀ token ∈ service.issued, token.jti ≠ jti) :
    DistinctJtis (service.sign duration user kind iat jti) := by
  intro token htoken other hother heq
  rcases List.mem_append.mp htoken with htoken | htoken <;>
    rcases List.mem_append.mp hother with hother | hother
  · exact h token htoken other hother heq
  · rw [List.mem_singleton.mp hother] at heq
    exact absurd heq (hfresh token htoken)
  · rw [List.mem_singleton.mp htoken] at heq
    exact absurd heq.symm (hfresh other hother)
  · rw [List.mem_singleton.mp htoken, List.mem_singleton.mp hother]

theorem Effect.distinct (heffect : Effect lifetime service service') (h : DistinctJtis service) :
    DistinctJtis service' := by
  cases heffect with
  | unchanged => exact h
  | passed elapsed => exact h
  | signed duration user kind iat jti challenges hopen hfresh => exact h.sign hfresh
  | revoked payload haccepted =>
      obtain ⟨keys, hkeys⟩ := revoke_eq service payload
      rw [hkeys]
      exact h
  | handled user handler hacts =>
      rcases handle_cases service user handler with
        ⟨added, -, heq⟩ | ⟨row, -, heq⟩ | ⟨account, heq⟩ <;> rw [heq] <;> exact h
  | erased payload call haccepted =>
      obtain ⟨rows, heq, -⟩ := erase_postgres_eq service payload.sub
      rw [heq, Service.revokeCallerToken]
      split
      · obtain ⟨keys, hkeys⟩ := revoke_eq _ payload
        rw [hkeys]
        exact h
      · exact h

/-- The account of an erased user, without a credential that could be accepted. -/
structure Gone (service : Service) (user : User) : Prop where
  inactive : (service.accounts user).isActive = false
  unconfigured : (service.accounts user).totpConfigured = false
  appTokens : ∀ row ∈ service.appTokens, row.userId ≠ user
  ended : ∀ token ∈ service.issued, token.kind = .access → token.sub = user → Ended service token
  distinct : DistinctJtis service

theorem Gone.not_acts (h : Gone service user) (bearer : Bearer) : ¬ActsAs service user bearer := by
  intro hacts
  rcases acts_as_cases hacts with ⟨token, -, hsub, haccepted⟩ | ⟨row, hrow, hsub, -⟩
  · exact (h.ended token haccepted.signed haccepted.access hsub).not_accepted haccepted
  · exact h.appTokens row hrow hsub

theorem Gone.revoke (h : Gone service user) (haccepted : Accepted service payload) :
    Gone (service.revoke payload) user := by
  have hended : ∀ token ∈ service.issued, token.kind = .access → token.sub = user →
      Ended (service.revoke payload) token := fun token htoken haccess hsub =>
    (h.ended token htoken haccess hsub).revoke htoken h.distinct haccepted
  obtain ⟨keys, hkeys⟩ := revoke_eq service payload
  rw [hkeys] at hended ⊢
  exact ⟨h.inactive, h.unconfigured, h.appTokens, hended, h.distinct⟩

/-- A step of the service does nothing for an erased user. -/
theorem Gone.effect (h : Gone service user) (heffect : Effect lifetime service service') :
    Gone service' user ∧ service'.rowsOf user = service.rowsOf user := by
  have hdistinct := heffect.distinct h.distinct
  cases heffect with
  | unchanged => exact ⟨h, rfl⟩
  | passed elapsed =>
      refine ⟨⟨h.inactive, h.unconfigured, h.appTokens, fun token htoken haccess hsub => ?_,
        hdistinct⟩, rfl⟩
      exact (h.ended token htoken haccess hsub).congr (by dsimp only; omega) rfl rfl
  | signed duration other kind iat jti challenges hopen hfresh =>
      -- an erased account is inactive and unconfigured, so no handler signs for it
      have hne : other ≠ user := by
        rintro rfl
        rcases hopen with hactive | hconfigured
        · exact Bool.false_ne_true (h.inactive.symm.trans hactive)
        · exact Bool.false_ne_true (h.unconfigured.symm.trans hconfigured)
      refine ⟨⟨h.inactive, h.unconfigured, h.appTokens, fun token htoken haccess hsub => ?_,
        hdistinct⟩, rfl⟩
      rcases List.mem_append.mp htoken with htoken | htoken
      · exact h.ended token htoken haccess hsub
      · rw [List.mem_singleton.mp htoken] at hsub
        exact absurd hsub hne
  | revoked payload haccepted =>
      refine ⟨h.revoke haccepted, ?_⟩
      obtain ⟨keys, hkeys⟩ := revoke_eq service payload
      rw [hkeys]
      rfl
  | handled other handler hacts =>
      have hne : other ≠ user := by
        rintro rfl
        exact hacts.elim fun bearer hacts => h.not_acts bearer hacts
      rcases handle_cases service other handler with
        ⟨added, hadded, heq⟩ | ⟨row, hrow, heq⟩ | ⟨account, heq⟩
      · rw [heq]
        exact ⟨⟨h.inactive, h.unconfigured, h.appTokens, h.ended, h.distinct⟩,
          rows_of_append hadded hne⟩
      · rw [heq]
        refine ⟨⟨h.inactive, h.unconfigured, fun token htoken => ?_, h.ended, h.distinct⟩, rfl⟩
        rcases List.mem_append.mp htoken with htoken | htoken
        · exact h.appTokens token htoken
        · rw [List.mem_singleton.mp htoken, hrow]
          exact hne
      · have hsame : Function.update service.accounts other account user = service.accounts user :=
          Function.update_of_ne hne.symm account service.accounts
        rw [heq]
        exact ⟨⟨(congrArg Account.isActive hsame).trans h.inactive,
          (congrArg Account.totpConfigured hsame).trans h.unconfigured, h.appTokens, h.ended,
          h.distinct⟩, rfl⟩
  | erased payload call haccepted =>
      have hne : payload.sub ≠ user := by
        rintro rfl
        exact h.not_acts _ (acts_of_accepted haccepted)
      obtain ⟨rows, heq, hrows⟩ := erase_postgres_eq service payload.sub
      have hsame : Function.update service.accounts payload.sub ⟨false, false, false⟩ user =
          service.accounts user :=
        Function.update_of_ne hne.symm _ service.accounts
      have herased : Gone ((service.recordEvent payload.sub).erasePostgres payload.sub) user := by
        rw [heq]
        exact ⟨(congrArg Account.isActive hsame).trans h.inactive,
          (congrArg Account.totpConfigured hsame).trans h.unconfigured,
          fun token htoken => h.appTokens token (List.mem_of_mem_filter htoken), h.ended,
          h.distinct⟩
      have hstill : Accepted ((service.recordEvent payload.sub).erasePostgres payload.sub)
          payload := by
        rw [heq]
        exact ⟨haccepted.signed, haccepted.access, haccepted.subject, haccepted.live,
          haccepted.unrevoked, haccepted.unchanged⟩
      rw [Service.revokeCallerToken]
      split
      · refine ⟨herased.revoke hstill, ?_⟩
        obtain ⟨keys, hkeys⟩ := revoke_eq
          ((service.recordEvent payload.sub).erasePostgres payload.sub) payload
        rw [hkeys, heq]
        exact hrows user hne.symm
      · refine ⟨herased, ?_⟩
        rw [heq]
        exact hrows user hne.symm

theorem Gone.run {requests : List Request} (h : Gone service user)
    (hfresh : FreshRun lifetime service requests) :
    Gone (run lifetime service requests) user ∧
      (run lifetime service requests).rowsOf user = service.rowsOf user := by
  induction requests generalizing service with
  | nil => exact ⟨h, rfl⟩
  | cons request requests ih =>
      obtain ⟨hstep, hrows⟩ := h.effect (serve_effect hfresh.1)
      obtain ⟨hend, hsame⟩ := ih hstep hfresh.2
      exact ⟨hend, hsame.trans hrows⟩

theorem DistinctJtis.run {requests : List Request} (h : DistinctJtis service)
    (hfresh : FreshRun lifetime service requests) :
    DistinctJtis (Sessions.run lifetime service requests) := by
  induction requests generalizing service with
  | nil => exact h
  | cons request requests ih => exact ih ((serve_effect hfresh.1).distinct h) hfresh.2

/-! ## The erasure -/

/-- From `after` on, whatever is requested, no credential that was the user's at `before` acts as the
user, and the user gets no row and no app token. -/
def NobodyActs (lifetime : Nat) (before after : Service) (user : User) : Prop :=
  ∀ requests, FreshRun lifetime after requests →
    (∀ bearer, IssuedTo before user bearer → ¬ActsAs (run lifetime after requests) user bearer) ∧
      (run lifetime after requests).rowsOf user = after.rowsOf user ∧
      ∀ row ∈ (run lifetime after requests).appTokens, row.userId ≠ user

/-- The session is the last of its user, and its erasure can end it. -/
structure LastSession (service : Service) (token : Jwt) (call : ErasureCall) : Prop where
  others : ∀ other ∈ service.issued, other.kind = .access → other.sub = token.sub →
    other ≠ token → Ended service other
  stored : call.revocationStored = true
  identified : token.jti ≠ ""
  ends : token.exp ≠ 0

/-- What an erasure by the session of the token leaves. -/
structure Erases (service : Service) (token : Jwt) (call : ErasureCall) (after : Service) :
    Prop where
  clock : after.clock = service.clock
  issued : after.issued = service.issued
  markers : after.markers = service.markers
  account : after.accounts token.sub = ⟨false, false, false⟩
  appTokens : ∀ row ∈ after.appTokens, row.userId ≠ token.sub
  revoked : call.revocationStored = true → token.jti ≠ "" → after.revokedJtis token.jti =
    some (service.clock + ofSeconds (service.revocationSeconds token))
  kept : ∀ jti, call.revocationStored = false ∨ token.jti = "" ∨ jti ≠ token.jti →
    after.revokedJtis jti = service.revokedJtis jti

variable {call : ErasureCall} {after : Service}

theorem erases (service : Service) (token : Jwt) (call : ErasureCall) :
    Erases service token call
      (((service.recordEvent token.sub).erasePostgres token.sub).revokeCallerToken token call) := by
  obtain ⟨rows, heq, -⟩ := erase_postgres_eq service token.sub
  have hrows : ∀ row ∈ service.appTokens.filter (fun row => row.userId ≠ token.sub),
      row.userId ≠ token.sub := fun row hrow => of_decide_eq_true (List.mem_filter.mp hrow).2
  rw [heq, Service.revokeCallerToken]
  by_cases hstored : call.revocationStored = true
  · rw [if_pos hstored, Service.revoke]
    by_cases hjti : token.jti = ""
    · rw [if_pos hjti]
      exact ⟨rfl, rfl, rfl, Function.update_self _ _ _, hrows, fun _ h => absurd hjti h,
        fun _ _ => rfl⟩
    · rw [if_neg hjti]
      refine ⟨rfl, rfl, rfl, Function.update_self _ _ _, hrows,
        fun _ _ => Function.update_self _ _ _, fun jti h => ?_⟩
      rcases h with h | h | h
      · exact absurd (h.symm.trans hstored) Bool.false_ne_true
      · exact absurd h hjti
      · exact Function.update_of_ne h _ _
  · rw [if_neg hstored]
    exact ⟨rfl, rfl, rfl, Function.update_self _ _ _, hrows, fun h => absurd h hstored,
      fun _ _ => rfl⟩

theorem request_erasure_ok {incomplete : List Incomplete}
    (h : requestErasure service (some (.jwt token)) call = (.ok incomplete, after)) :
    Accepted service token ∧ Erases service token call after := by
  unfold requestErasure at h
  cases hrequired : requireUser service (some (.jwt token)) with
  | error error =>
      rw [hrequired] at h
      cases h
  | ok payload =>
      obtain ⟨hbearer, haccepted⟩ := require_user_iff.mp hrequired
      obtain rfl := Bearer.jwt.inj hbearer
      rw [hrequired] at h
      dsimp only at h
      cases hrefusal : call.refusal with
      | some error =>
          rw [hrefusal] at h
          cases h
      | none =>
          rw [hrefusal] at h
          obtain rfl := congrArg Prod.snd h
          exact ⟨haccepted, erases service token call⟩

/-- An erasure leaves another token as it was. -/
theorem Erases.ended_iff (h : Erases service token call after) {other : Jwt}
    (hkept : call.revocationStored = false ∨ token.jti = "" ∨ other.jti ≠ token.jti) :
    Ended after other ↔ Ended service other := by
  rw [Ended, Ended, h.clock, h.markers, h.kept other.jti hkept]

/-- The revocation of the caller's token is kept to the end of the token. -/
theorem Erases.ended (h : Erases service token call after)
    (hstored : call.revocationStored = true) (hjti : token.jti ≠ "") (hexp : token.exp ≠ 0) :
    Ended after token := by
  refine ⟨hexp, Or.inr (Or.inl ⟨hjti, _, h.revoked hstored hjti, ?_⟩)⟩
  rw [Service.revocationSeconds, if_pos hexp]
  unfold ofSeconds stamp
  omega

theorem Erases.gone (h : Erases service token call after) (hdistinct : DistinctJtis service)
    (haccepted : Accepted service token) (hlast : LastSession service token call) :
    Gone after token.sub := by
  refine ⟨?_, ?_, h.appTokens, fun other hother haccess hsub => ?_, ?_⟩
  · rw [h.account]
  · rw [h.account]
  · rw [h.issued] at hother
    by_cases hsame : other = token
    · rw [hsame]
      exact h.ended hlast.stored hlast.identified hlast.ends
    · have hjti : other.jti ≠ token.jti := fun heq =>
        hsame (hdistinct other hother token haccepted.signed heq)
      exact (h.ended_iff (Or.inr (Or.inr hjti))).mpr (hlast.others other hother haccess hsub hsame)
  · rw [DistinctJtis, h.issued]
    exact hdistinct

/-- While nobody acts as the user, every access token of the user has ended. -/
theorem NobodyActs.ended (h : NobodyActs lifetime service after token.sub)
    (herases : Erases service token call after) (haccepted : Accepted service token) {other : Jwt}
    (hother : other ∈ service.issued) (haccess : other.kind = .access)
    (hsub : other.sub = token.sub) : Ended after other := by
  by_contra hended
  have hsigned : other ∈ after.issued := by
    rw [herases.issued]
    exact hother
  obtain ⟨elapsed, hlater⟩ := exists_accepted lifetime hsigned haccess
    (hsub ▸ haccepted.subject) hended
  have hacts := acts_of_accepted hlater
  rw [hsub] at hacts
  exact (h [.passes elapsed] ⟨trivial, trivial⟩).1 (.jwt other) ⟨hother, hsub⟩ hacts

/-- In every run, after an erasure that reports nothing incomplete nobody acts as the erased user, and
the user gets no rows, exactly when every other access token of the user is rejected until its end
and the caller's has an id and an end and its revocation is stored. -/
theorem erased_inert_iff (lifetime : Nat) (start : Service) (history : List Request)
    (hstart : DistinctJtis start) (hfresh : FreshRun lifetime start history) (token : Jwt)
    (call : ErasureCall) (after : Service)
    (h : requestErasure (run lifetime start history) (some (.jwt token)) call = (.ok [], after)) :
    NobodyActs lifetime (run lifetime start history) after token.sub ↔
      LastSession (run lifetime start history) token call := by
  have hdistinct := hstart.run hfresh
  obtain ⟨haccepted, herases⟩ := request_erasure_ok h
  constructor
  · intro hnobody
    have hcaller := hnobody.ended herases haccepted haccepted.signed haccepted.access rfl
    have hbefore : ¬Ended (run lifetime start history) token := fun hended =>
      hended.not_accepted haccepted
    refine ⟨fun other hother haccess hsub hne => ?_, ?_, ?_, hcaller.1⟩
    · have hjti : other.jti ≠ token.jti := fun heq =>
        hne (hdistinct other hother token haccepted.signed heq)
      exact (herases.ended_iff (Or.inr (Or.inr hjti))).mp
        (hnobody.ended herases haccepted hother haccess hsub)
    · by_contra hstored
      exact hbefore ((herases.ended_iff (Or.inl (Bool.not_eq_true _ ▸ hstored))).mp hcaller)
    · intro hjti
      exact hbefore ((herases.ended_iff (Or.inr (Or.inl hjti))).mp hcaller)
  · intro hlast requests hrequests
    have hgone := herases.gone hdistinct haccepted hlast
    obtain ⟨hend, hrows⟩ := hgone.run hrequests
    exact ⟨fun bearer _ => hend.not_acts bearer, hrows, hend.appTokens⟩

/-- A service where everyone may log in and nobody has. -/
def opened : Service where
  clock := ofSeconds 1000
  accounts _ := ⟨true, false, false⟩
  appTokens := []
  rows := []
  revokedJtis _ := none
  markers _ := none
  challenges := []
  issued := []

/-- The token of a login at the opening, for an hour. -/
def session (jti : String) : Jwt := ⟨"ada", .access, 1000, 4600, jti⟩

/-- Every step of the erasure succeeds. -/
def complete : ErasureCall := ⟨none, true, true, true⟩

/-- A user whose phone recorded an event and was logged out, and another user. -/
def phoneLeft : List Request :=
  [.login "ada" true "phone", .call .requireUser (some (.jwt (session "phone"))) .recordEvent,
    .logout (some (.jwt (session "phone"))), .login "bob" true "tablet", .login "ada" true "laptop"]

/-- After the logout of the phone nobody acts as the user once the laptop has erased it. -/
theorem phone_left_inert :
    NobodyActs 3600 (run 3600 opened phoneLeft)
      (requestErasure (run 3600 opened phoneLeft) (some (.jwt (session "laptop"))) complete).2
      "ada" := by
  have hfresh : FreshRun 3600 opened phoneLeft := by
    refine ⟨nofun, trivial, trivial, ?_, ?_, trivial⟩
    · show ∀ token ∈ [session "phone"], token.jti ≠ "tablet"
      decide
    · show ∀ token ∈ [session "phone", ⟨"bob", .access, 1000, 4600, "tablet"⟩], token.jti ≠ "laptop"
      decide
  refine (erased_inert_iff 3600 opened phoneLeft nofun hfresh
    (session "laptop") complete _ rfl).mpr ⟨fun other hother _ hsub hne => ?_, rfl, by decide,
      by decide⟩
  have hissued : other ∈ [session "phone", ⟨"bob", .access, 1000, 4600, "tablet"⟩,
    session "laptop"] := hother
  simp only [List.mem_cons, List.not_mem_nil, or_false] at hissued
  rcases hissued with rfl | rfl | rfl
  · exact ⟨by decide, Or.inr (Or.inl ⟨by decide, _, rfl, by decide⟩)⟩
  · exact absurd hsub (by decide)
  · exact absurd rfl hne

/-- The logins of one user on two devices. -/
def twoLogins : List Request := [.login "ada" true "laptop", .login "ada" true "phone"]

/-- After the erasure from the laptop the phone still acts as the user, and its next event links the
user again. -/
theorem second_device_acts :
    let before := run 3600 opened twoLogins
    let (result, after) := requestErasure before (some (.jwt (session "laptop"))) complete
    let later := serve 3600 after (.call .requireUser (some (.jwt (session "phone"))) .recordEvent)
    FreshRun 3600 opened twoLogins ∧ result = .ok [] ∧
      IssuedTo before "ada" (.jwt (session "phone")) ∧
      ActsAs after "ada" (.jwt (session "phone")) ∧
      after.rows = [] ∧ later.rows = [(.events, "ada"), (.userSubjects, "ada")] ∧
      ¬NobodyActs 3600 before after "ada" := by
  have hacts : ActsAs (requestErasure (run 3600 opened twoLogins) (some (.jwt (session "laptop")))
      complete).2 "ada" (.jwt (session "phone")) := ⟨.requireUser, by decide⟩
  have hissued : IssuedTo (run 3600 opened twoLogins) "ada" (.jwt (session "phone")) :=
    ⟨by decide, rfl⟩
  have hfresh : Draws (run 3600 opened [.login "ada" true "laptop"]) (.login "ada" true "phone") := by
    show ∀ token ∈ [session "laptop"], token.jti ≠ "phone"
    decide
  refine ⟨⟨nofun, hfresh, trivial⟩, rfl, hissued, hacts, by decide, by decide, fun h => ?_⟩
  exact (h [] trivial).1 (.jwt (session "phone")) hissued hacts

end CatalogApi.Sessions
