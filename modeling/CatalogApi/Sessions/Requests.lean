import CatalogApi.Sessions.Dependencies

/-!
# The requests of a service

Logins, second factors, logouts, handlers behind a dependency and `request_erasure` of
`api/routers/activity.py`, each as one step of the service. A handler writes rows of the user that
its dependency returns; what it reads is left out. No password changes. A refused request changes
nothing.
-/

namespace CatalogApi.Sessions

open Passwords (HttpError stamp ofSeconds)

/-- The dependency of an endpoint. -/
inductive Dependency where
  | requireUser
  | requireUserOrAppToken (scopes : List String)
  | getOptionalUser

/-- The user whom a dependency returns, if it returns one. -/
def Dependency.user (service : Service) (credentials : Option Bearer) : Dependency → Option User
  | .requireUser => (Sessions.requireUser service credentials).toOption.map (·.sub)
  | .requireUserOrAppToken scopes =>
      (Sessions.requireUserOrAppToken service scopes credentials).toOption.map (·.userId)
  | .getOptionalUser => (Sessions.getOptionalUser service credentials).map (·.sub)

/-- What an endpoint does for its user. -/
inductive Handler where
  | read
  | recordEvent
  | setConsent
  | syncCollection
  | mintAppToken (id : Nat) (tokenHash : String) (scopes : List String)
  | changeTotp (enabled configured : Bool)

namespace Service

/-- A row of the user is there. -/
def insert (service : Service) (table : Table) (user : User) : Service :=
  { service with rows := (table, user) :: service.rows }

/-- `subject_for`: the link is created on first use. -/
def subjectFor (service : Service) (user : User) : Service :=
  if (Table.userSubjects, user) ∈ service.rows then service else service.insert .userSubjects user

/-- `record_event`. -/
def recordEvent (service : Service) (user : User) : Service :=
  (service.subjectFor user).insert .events user

/-- What a handler writes. -/
def handle (service : Service) (user : User) : Handler → Service
  | .read => service
  | .recordEvent => service.recordEvent user
  | .setConsent => (service.insert .consentGrants user).recordEvent user
  | .syncCollection => (service.insert .userCollections user).recordEvent user
  | .mintAppToken id tokenHash scopes =>
      { service with appTokens := service.appTokens ++ [⟨id, tokenHash, user, scopes, false⟩] }
  | .changeTotp enabled configured =>
      { service with
        accounts := Function.update service.accounts user
          { service.accounts user with totpEnabled := enabled, totpConfigured := configured } }

/-- A signed token of the user, ending a lifetime from now. -/
def sign (service : Service) (lifetime : Nat) (user : User) (kind : JwtKind) (iat : Int)
    (jti : String) : Service :=
  { service with issued := service.issued ++ [⟨user, kind, iat, stamp service.clock + lifetime, jti⟩] }

/-- The seconds that the revocation of a token is kept. -/
def revocationSeconds (service : Service) (payload : Jwt) : Int :=
  if payload.exp ≠ 0 then max (payload.exp - stamp service.clock) 60 else 3600

/-- `setex` of the revocation key of a token, if it has an id. -/
def revoke (service : Service) (payload : Jwt) : Service :=
  if payload.jti = "" then service
  else
    { service with
      revokedJtis := Function.update service.revokedJtis payload.jti
        (some (service.clock + ofSeconds (service.revocationSeconds payload))) }

/-- `login`, with the id of the token it may sign. -/
def login (service : Service) (lifetime : Nat) (user : User) (passwordOk : Bool) (jti : String) :
    Service :=
  if ¬passwordOk ∨ ¬(service.accounts user).isActive then service
  else if (service.accounts user).totpEnabled then
    let challenged := service.sign 300 user .challenge (stamp service.clock) jti
    { challenged with challenges := jti :: service.challenges }
  else service.sign lifetime user .access (stamp service.clock) jti

/-- `twofa_verify` and `twofa_recovery`, whose code is right or not. -/
def twofaVerify (service : Service) (lifetime : Nat) (bearer : Bearer) (codeOk : Bool)
    (jti : String) : Service :=
  match validateToken service bearer .challenge false with
  | .error _ => service
  | .ok payload =>
      if payload.jti = "" ∨ payload.jti ∉ service.challenges then service
      else if ¬(service.accounts payload.sub).totpConfigured ∨ ¬codeOk then service
      else
        let consumed :=
          { service with challenges := service.challenges.filter (· ≠ payload.jti) }
        consumed.sign lifetime payload.sub .access payload.iat jti

/-- `logout`. -/
def logout (service : Service) (credentials : Option Bearer) : Service :=
  match requireUser service credentials with
  | .error _ => service
  | .ok payload => service.revoke payload

end Service

/-! ## Erasure -/

/-- How the steps of an erasure come out: the check of the credentials in its body, the Neo4j and
Valkey steps, and the command that revokes the caller's token. -/
structure ErasureCall where
  refusal : Option HttpError
  neo4jOk : Bool
  valkeyOk : Bool
  revocationStored : Bool

/-- A step that an erasure reports as incomplete. -/
inductive Incomplete where
  | neo4j
  | valkey

/-- `_erase_postgres`: the rows of the user are deleted, and the account is erased in place. -/
def Service.erasePostgres (service : Service) (user : User) : Service :=
  { service with
    rows := service.rows.filter fun row => row.2 ≠ user ∨ row.1 = .consentGrants
    appTokens := service.appTokens.filter fun token => token.userId ≠ user
    accounts := Function.update service.accounts user ⟨false, false, false⟩ }

/-- `_revoke_caller_token`; a failed command is suppressed. -/
def Service.revokeCallerToken (service : Service) (payload : Jwt) (call : ErasureCall) : Service :=
  if call.revocationStored then service.revoke payload else service

/-- `request_erasure`. -/
def requestErasure (service : Service) (credentials : Option Bearer) (call : ErasureCall) :
    Except HttpError (List Incomplete) × Service :=
  match requireUser service credentials with
  | .error error => (.error error, service)
  | .ok payload =>
      match call.refusal with
      | some error => (.error error, service)
      | none =>
          let recorded := service.recordEvent payload.sub
          let erased := recorded.erasePostgres payload.sub
          let incomplete := (if call.neo4jOk then [] else [Incomplete.neo4j]) ++
            if call.valkeyOk then [] else [Incomplete.valkey]
          (.ok incomplete, erased.revokeCallerToken payload call)

/-! ## Runs -/

/-- A request, or time that passes. -/
inductive Request where
  | passes (elapsed : Nat)
  | login (user : User) (passwordOk : Bool) (jti : String)
  | verify (bearer : Bearer) (codeOk : Bool) (jti : String)
  | logout (credentials : Option Bearer)
  | call (dependency : Dependency) (credentials : Option Bearer) (handler : Handler)
  | erase (credentials : Option Bearer) (call : ErasureCall)

variable (lifetime : Nat)

/-- One step of the service. -/
def serve (service : Service) : Request → Service
  | .passes elapsed => { service with clock := service.clock + elapsed }
  | .login user passwordOk jti => service.login lifetime user passwordOk jti
  | .verify bearer codeOk jti => service.twofaVerify lifetime bearer codeOk jti
  | .logout credentials => service.logout credentials
  | .call dependency credentials handler =>
      match dependency.user service credentials with
      | none => service
      | some user => service.handle user handler
  | .erase credentials call => (requestErasure service credentials call).2

/-- The requests one after the other. -/
def run (service : Service) (requests : List Request) : Service :=
  requests.foldl (serve lifetime) service

/-- The id of a token to be signed has not been drawn before. -/
def Draws (service : Service) : Request → Prop
  | .login _ _ jti | .verify _ _ jti => ∀ token ∈ service.issued, token.jti ≠ jti
  | _ => True

/-- Every id along the requests is new when it is drawn. -/
def FreshRun (service : Service) : List Request → Prop
  | [] => True
  | request :: requests =>
      Draws service request ∧ FreshRun (serve lifetime service request) requests

end CatalogApi.Sessions
