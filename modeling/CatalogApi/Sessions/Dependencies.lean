import CatalogApi.Passwords.Store

/-!
# Who a credential acts as

`validate_token`, `get_optional_user`, `require_user` and `require_user_or_app_token` of
`api/dependencies.py`, with `token_revocation_reason` of `api/auth.py` and `_lookup_active_token` of
`api/app_tokens.py`, over the accounts, the app tokens and the Valkey keys of one service. A
signature verifies for the tokens that were signed. The secret, the pool and Valkey are configured,
and reads succeed. Instants are in microseconds.
-/

namespace CatalogApi.Sessions

open Passwords (Marker HttpError Reason stamp ofSeconds)

abbrev User := String

/-- The purpose of a JWT: `type` is absent from an access token. -/
inductive JwtKind where
  | access
  | admin
  | challenge
  deriving DecidableEq

/-- The payload of a signed token; a missing `exp` is zero, a missing `jti` empty. -/
structure Jwt where
  sub : User
  kind : JwtKind
  iat : Int
  exp : Int
  jti : String
  deriving DecidableEq

/-- A row of `app_tokens`. -/
structure AppToken where
  id : Nat
  tokenHash : String
  userId : User
  scope : List String
  revoked : Bool

/-- The columns of a user's row that a login or a second factor reads. -/
structure Account where
  isActive : Bool
  totpEnabled : Bool
  totpConfigured : Bool

/-- The tables with rows of a user, apart from `app_tokens`. -/
inductive Table where
  | userSubjects
  | events
  | consentGrants
  | userCollections
  deriving DecidableEq

/-- The service: the clock, PostgreSQL, and the keys of Valkey with their deadlines. `issued` has
every token signed. -/
structure Service where
  clock : Int
  accounts : User → Account
  appTokens : List AppToken
  rows : List (Table × User)
  revokedJtis : String → Option Int
  markers : User → Option Marker
  challenges : List String
  issued : List Jwt

/-- What stands in the `Authorization` header: a JWT, or an app token by its hash. -/
inductive Bearer where
  | jwt (token : Jwt)
  | appToken (tokenHash : String)

/-! ## Validation -/

/-- `decode_token`: the signature and the end of the token. -/
def decodeToken (service : Service) : Bearer → Option Jwt
  | .jwt token =>
      if token ∈ service.issued ∧ ¬(token.exp ≠ 0 ∧ ofSeconds token.exp < service.clock) then
        some token
      else none
  | .appToken _ => none

/-- The revocation key of an id is there. -/
def Service.hasRevoked (service : Service) (jti : String) : Bool :=
  (service.revokedJtis jti).any fun deadline => service.clock ≤ deadline

/-- The value of the user's `password_changed` key, while it is there. -/
def Service.changedAt (service : Service) (user : User) : Option Int :=
  ((service.markers user).filter fun marker => service.clock ≤ marker.deadline).map (·.value)

/-- `token_revocation_reason`. -/
def tokenRevocationReason (service : Service) (payload : Jwt) : Option Reason :=
  if payload.jti ≠ "" ∧ service.hasRevoked payload.jti then some .revoked
  else
    match service.changedAt payload.sub with
    | some changed => if payload.iat ≤ changed then some .credentialsChanged else none
    | none => none

/-- The error of a token of another kind. -/
def kindError (expected actual : JwtKind) (exposeAdminMismatch : Bool) : HttpError :=
  match expected with
  | .access =>
      if actual = .admin ∧ exposeAdminMismatch then
        ⟨403, "Admin tokens cannot be used for user endpoints"⟩
      else ⟨401, "Invalid token"⟩
  | .admin => ⟨403, "Admin access required"⟩
  | .challenge => ⟨401, "Invalid challenge token type"⟩

/-- The error of a revoked token. -/
def revocationError (expected : JwtKind) : Reason → HttpError
  | .revoked =>
      if expected = .challenge then ⟨401, "Challenge invalidated by password change"⟩
      else ⟨401, "Token has been revoked"⟩
  | .credentialsChanged =>
      if expected = .challenge then ⟨401, "Challenge invalidated by password change"⟩
      else ⟨401, "Token invalidated by password change (revoked)"⟩

/-- `validate_token`. -/
def validateToken (service : Service) (bearer : Bearer) (kind : JwtKind)
    (exposeAdminMismatch : Bool) : Except HttpError Jwt :=
  match decodeToken service bearer with
  | none =>
      .error ⟨401, if kind = .challenge then "Invalid or expired challenge token"
        else "Invalid or expired token"⟩
  | some payload =>
      if payload.kind ≠ kind then .error (kindError kind payload.kind exposeAdminMismatch)
      else if payload.sub = "" then
        .error ⟨401, if kind = .challenge then "Invalid challenge token" else "Invalid token"⟩
      else
        match tokenRevocationReason service payload with
        | some reason => .error (revocationError kind reason)
        | none => .ok payload

/-- `get_optional_user`. -/
def getOptionalUser (service : Service) : Option Bearer → Option Jwt
  | none => none
  | some bearer =>
      match validateToken service bearer .access false with
      | .ok payload => some payload
      | .error _ => none

/-- `require_user`. -/
def requireUser (service : Service) : Option Bearer → Except HttpError Jwt
  | none => .error ⟨401, "Authentication required"⟩
  | some bearer => validateToken service bearer .access true

/-- `_lookup_active_token`. -/
def lookupActiveToken (service : Service) (tokenHash : String) : Option AppToken :=
  service.appTokens.find? fun token =>
    token.tokenHash = tokenHash ∧ ¬token.revoked ∧ (service.accounts token.userId).isActive

/-- Which credential a request came in with. -/
inductive Via where
  | jwt
  | appToken (tokenId : Nat)

/-- `UnifiedAuth`. -/
structure UnifiedAuth where
  userId : User
  via : Via
  scopes : List String

/-- `require_user_or_app_token`. -/
def requireUserOrAppToken (service : Service) (scopes : List String) :
    Option Bearer → Except HttpError UnifiedAuth
  | some (.appToken tokenHash) =>
      match lookupActiveToken service tokenHash with
      | none => .error ⟨401, "Invalid or revoked app token"⟩
      | some row =>
          let missing := scopes.filter fun scope => scope ∉ row.scope
          if missing ≠ [] then
            .error ⟨403, "App token missing required scope(s): " ++ ", ".intercalate missing⟩
          else .ok ⟨row.userId, .appToken row.id, row.scope⟩
  | credentials =>
      match requireUser service credentials with
      | .error error => .error error
      | .ok payload => .ok ⟨payload.sub, .jwt, []⟩

/-! ## Acceptance -/

/-- A token is accepted: signed, of access, not at its end, and neither revoked nor before a
password change. -/
structure Accepted (service : Service) (token : Jwt) : Prop where
  signed : token ∈ service.issued
  access : token.kind = .access
  subject : token.sub ≠ ""
  live : token.exp = 0 ∨ service.clock ≤ ofSeconds token.exp
  unrevoked : token.jti = "" ∨ ∀ deadline ∈ service.revokedJtis token.jti, deadline < service.clock
  unchanged : ∀ marker ∈ service.markers token.sub,
    token.iat ≤ marker.value → marker.deadline < service.clock

variable {service : Service} {token : Jwt} {bearer : Bearer}

/-- A token is not revoked: no entry for its `jti` and no later marker for its user. -/
theorem revocation_reason_eq_none : tokenRevocationReason service token = none ↔
    (token.jti = "" ∨ ∀ deadline ∈ service.revokedJtis token.jti, deadline < service.clock) ∧
      ∀ marker ∈ service.markers token.sub,
        token.iat ≤ marker.value → marker.deadline < service.clock := by
  have hkey : (token.jti ≠ "" ∧ service.hasRevoked token.jti) ↔
      ¬(token.jti = "" ∨ ∀ deadline ∈ service.revokedJtis token.jti, deadline < service.clock) := by
    rw [not_or, Service.hasRevoked]
    refine and_congr_right fun _ => ?_
    cases service.revokedJtis token.jti with
    | none => simp
    | some deadline => simp
  have hchanged : (match service.changedAt token.sub with
      | some changed => if token.iat ≤ changed then some Reason.credentialsChanged else none
      | none => none) = none ↔ ∀ marker ∈ service.markers token.sub,
        token.iat ≤ marker.value → marker.deadline < service.clock := by
    rw [Service.changedAt]
    cases service.markers token.sub with
    | none => simp
    | some marker =>
        have hread : ((some marker).filter fun marker => service.clock ≤ marker.deadline).map
            (·.value) = if service.clock ≤ marker.deadline then some marker.value else none := by
          by_cases halive : service.clock ≤ marker.deadline <;> simp [Option.filter_some, halive]
        rw [hread]
        simp only [Option.mem_def, Option.some.injEq, forall_eq']
        by_cases halive : service.clock ≤ marker.deadline
        · rw [if_pos halive]
          dsimp only
          by_cases hle : token.iat ≤ marker.value
          · rw [if_pos hle]
            exact iff_of_false nofun fun h => Int.not_lt.mpr halive (h hle)
          · rw [if_neg hle]
            exact iff_of_true rfl fun h => absurd h hle
        · rw [if_neg halive]
          exact iff_of_true rfl fun _ => Int.not_le.mp halive
  rw [tokenRevocationReason]
  by_cases hrevoked : token.jti ≠ "" ∧ service.hasRevoked token.jti
  · rw [if_pos hrevoked]
    exact iff_of_false (Option.some_ne_none _) fun h => hkey.mp hrevoked h.1
  · rw [if_neg hrevoked, hchanged]
    exact (and_iff_right (not_not.mp fun h => hrevoked (hkey.mpr h))).symm

/-- The tokens that `validate_token` lets through. -/
theorem validate_token_iff {exposeAdminMismatch : Bool} :
    validateToken service bearer .access exposeAdminMismatch = .ok token ↔
      bearer = .jwt token ∧ Accepted service token := by
  unfold validateToken
  cases bearer with
  | appToken tokenHash =>
      exact iff_of_false nofun fun h => Bearer.noConfusion h.1
  | jwt presented =>
      rw [Bearer.jwt.injEq, decodeToken]
      by_cases hdecoded : presented ∈ service.issued ∧
          ¬(presented.exp ≠ 0 ∧ ofSeconds presented.exp < service.clock)
      · rw [if_pos hdecoded]
        dsimp only
        have hlive : presented.exp = 0 ∨ service.clock ≤ ofSeconds presented.exp := by
          by_contra hboth
          rw [not_or, Int.not_le] at hboth
          exact hdecoded.2 hboth
        by_cases hkind : presented.kind = .access
        · rw [if_neg (not_not_intro hkind)]
          by_cases hsub : presented.sub = ""
          · rw [if_pos hsub]
            refine iff_of_false nofun ?_
            rintro ⟨rfl, h⟩
            exact h.subject hsub
          · rw [if_neg hsub]
            cases hreason : tokenRevocationReason service presented with
            | none =>
                obtain ⟨hunrevoked, hunchanged⟩ := revocation_reason_eq_none.mp hreason
                rw [Except.ok.injEq]
                refine (and_iff_left_of_imp ?_).symm
                rintro rfl
                exact ⟨hdecoded.1, hkind, hsub, hlive, hunrevoked, hunchanged⟩
            | some reason =>
                refine iff_of_false nofun ?_
                rintro ⟨rfl, h⟩
                rw [revocation_reason_eq_none.mpr ⟨h.unrevoked, h.unchanged⟩] at hreason
                cases hreason
        · rw [if_pos hkind]
          refine iff_of_false nofun ?_
          rintro ⟨rfl, h⟩
          exact hkind h.access
      · rw [if_neg hdecoded]
        refine iff_of_false nofun ?_
        rintro ⟨rfl, h⟩
        refine hdecoded ⟨h.signed, fun hover => ?_⟩
        rcases h.live with hzero | hle
        · exact hover.1 hzero
        · exact absurd hover.2 (Int.not_lt.mpr hle)

theorem require_user_iff :
    requireUser service (some bearer) = .ok token ↔ bearer = .jwt token ∧ Accepted service token :=
  validate_token_iff

theorem get_optional_user_iff :
    getOptionalUser service (some bearer) = some token ↔
      bearer = .jwt token ∧ Accepted service token := by
  rw [← @validate_token_iff service token bearer false, getOptionalUser]
  cases validateToken service bearer .access false with
  | ok payload => simp
  | error error => simp

/-- An app token authenticates through an active row with its hash and the scopes. -/
theorem require_app_token_ok {scopes : List String} {tokenHash : String} {auth : UnifiedAuth}
    (h : requireUserOrAppToken service scopes (some (.appToken tokenHash)) = .ok auth) :
    ∃ row ∈ service.appTokens, row.userId = auth.userId ∧
      (service.accounts row.userId).isActive = true := by
  unfold requireUserOrAppToken at h
  dsimp only at h
  cases hrow : lookupActiveToken service tokenHash with
  | none =>
      rw [hrow] at h
      cases h
  | some row =>
      rw [hrow] at h
      dsimp only at h
      split at h
      · cases h
      · obtain rfl := Except.ok.inj h
        have hactive := List.find?_some hrow
        simp only [Bool.decide_and, Bool.and_eq_true, decide_eq_true_eq] at hactive
        exact ⟨row, List.mem_of_find?_eq_some hrow, rfl, hactive.2.2⟩

/-- A session authenticates there as `require_user` does. -/
theorem require_user_or_app_token_jwt {scopes : List String} {presented : Jwt} {auth : UnifiedAuth}
    (h : requireUserOrAppToken service scopes (some (.jwt presented)) = .ok auth) :
    auth.userId = presented.sub ∧ Accepted service presented := by
  unfold requireUserOrAppToken at h
  dsimp only at h
  cases hrequired : requireUser service (some (.jwt presented)) with
  | error error =>
      rw [hrequired] at h
      cases h
  | ok payload =>
      rw [hrequired] at h
      obtain rfl := Except.ok.inj h
      obtain ⟨heq, haccepted⟩ := require_user_iff.mp hrequired
      obtain rfl := Bearer.jwt.inj heq
      exact ⟨rfl, haccepted⟩

end CatalogApi.Sessions
