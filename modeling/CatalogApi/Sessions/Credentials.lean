import CatalogApi.Sessions.Requests

/-!
# The credentials of a user

A credential acts as a user if one of the dependencies returns the user for it: a session through an
accepted token, an app token through a row of the active account. A token has ended when it is
rejected from now on.
-/

namespace CatalogApi.Sessions

open Passwords (HttpError stamp ofSeconds)

/-- The credential is the user's. -/
def IssuedTo (service : Service) (user : User) : Bearer → Prop
  | .jwt token => token ∈ service.issued ∧ token.sub = user
  | .appToken tokenHash => ∃ row ∈ service.appTokens, row.tokenHash = tokenHash ∧ row.userId = user

/-- A dependency returns the user for the credential. -/
def ActsAs (service : Service) (user : User) (bearer : Bearer) : Prop :=
  ∃ dependency : Dependency, dependency.user service (some bearer) = some user

/-- The token is rejected from now on: it is at its end, or a key that rejects it stays until then. -/
def Ended (service : Service) (token : Jwt) : Prop :=
  token.exp ≠ 0 ∧ (ofSeconds token.exp < service.clock ∨
    (token.jti ≠ "" ∧
      ∃ deadline ∈ service.revokedJtis token.jti, ofSeconds token.exp ≤ deadline) ∨
    ∃ marker ∈ service.markers token.sub,
      token.iat ≤ marker.value ∧ ofSeconds token.exp ≤ marker.deadline)

/-- No two signed tokens have one id. -/
def DistinctJtis (service : Service) : Prop :=
  ∀ token ∈ service.issued, ∀ other ∈ service.issued, token.jti = other.jti → token = other

variable {service : Service} {token payload : Jwt} {user : User} {bearer : Bearer}

theorem Ended.not_accepted (h : Ended service token) : ¬Accepted service token := by
  intro haccepted
  obtain ⟨hexp, hend⟩ := h
  have hlive := haccepted.live.resolve_left hexp
  rcases hend with hover | ⟨hjti, deadline, hdeadline, hle⟩ | ⟨marker, hmarker, hiat, hle⟩
  · exact absurd hlive (Int.not_le.mpr hover)
  · have hgone := haccepted.unrevoked.resolve_left hjti deadline hdeadline
    omega
  · have hgone := haccepted.unchanged marker hmarker hiat
    omega

/-- Only the clock and the keys decide whether a token has ended. -/
theorem Ended.congr {service' : Service} (h : Ended service token)
    (hclock : service.clock ≤ service'.clock)
    (hrevoked : service'.revokedJtis token.jti = service.revokedJtis token.jti)
    (hmarkers : service'.markers = service.markers) : Ended service' token := by
  obtain ⟨hexp, hend⟩ := h
  refine ⟨hexp, ?_⟩
  rw [hrevoked, hmarkers]
  exact hend.imp_left fun hover => Int.lt_of_lt_of_le hover hclock

/-- Revoking an accepted token leaves the ended ones ended. -/
theorem Ended.revoke (h : Ended service token) (hsigned : token ∈ service.issued)
    (hdistinct : DistinctJtis service) (hpayload : Accepted service payload) :
    Ended (service.revoke payload) token := by
  rw [Service.revoke]
  split
  · exact h
  · refine h.congr (Int.le_refl _) ?_ rfl
    refine Function.update_of_ne (fun heq => ?_) _ _
    have hsame := hdistinct token hsigned payload hpayload.signed heq
    exact (hsame ▸ h).not_accepted hpayload

/-- A token that has not ended is accepted now or at some later instant. -/
theorem exists_accepted (lifetime : Nat) (hsigned : token ∈ service.issued)
    (haccess : token.kind = .access) (hsub : token.sub ≠ "") (h : ¬Ended service token) :
    ∃ elapsed, Accepted (serve lifetime service (.passes elapsed)) token := by
  -- the deadlines of the keys that may reject the token
  obtain ⟨revoked, hrevoked⟩ : ∃ bound : Int, ∀ deadline ∈ service.revokedJtis token.jti,
      deadline ≤ bound := by
    cases service.revokedJtis token.jti with
    | none => exact ⟨0, nofun⟩
    | some deadline => exact ⟨deadline, fun other hother => Option.some.inj hother ▸ Int.le_refl _⟩
  obtain ⟨changed, hchanged⟩ : ∃ bound : Int, ∀ marker ∈ service.markers token.sub,
      marker.deadline ≤ bound := by
    cases service.markers token.sub with
    | none => exact ⟨0, nofun⟩
    | some marker => exact ⟨marker.deadline, fun other hother =>
        Option.some.inj hother ▸ Int.le_refl _⟩
  by_cases hexp : token.exp = 0
  · refine ⟨(max revoked changed + 1 - service.clock).toNat, hsigned, haccess, hsub, Or.inl hexp,
      Or.inr fun deadline hdeadline => ?_, fun marker hmarker _ => ?_⟩
    · have hle := hrevoked deadline hdeadline
      simp only [serve]
      omega
    · have hle := hchanged marker hmarker
      simp only [serve]
      omega
  · have hend := fun hend => h ⟨hexp, hend⟩
    obtain ⟨hlive, hrest⟩ := not_or.mp hend
    obtain ⟨hunrevoked, hunchanged⟩ := not_or.mp hrest
    refine ⟨(ofSeconds token.exp - service.clock).toNat, hsigned, haccess, hsub, Or.inr ?_, ?_,
      fun marker hmarker hiat => ?_⟩
    · simp only [serve]
      omega
    · by_cases hjti : token.jti = ""
      · exact Or.inl hjti
      · refine Or.inr fun deadline hdeadline => ?_
        have hlt : deadline < ofSeconds token.exp := by
          by_contra hle
          exact hunrevoked ⟨hjti, deadline, hdeadline, Int.not_lt.mp hle⟩
        simp only [serve]
        omega
    · have hlt : marker.deadline < ofSeconds token.exp := by
        by_contra hle
        exact hunchanged ⟨marker, hmarker, hiat, Int.not_lt.mp hle⟩
      simp only [serve]
      omega

theorem of_to_option_eq_some {α : Type} {result : Except HttpError α} {value : α}
    (h : result.toOption = some value) : result = .ok value := by
  cases result with
  | error error => cases h
  | ok found => rw [Option.some.inj h]

/-- Who acts as a user has an accepted token of the user or an app token of the active account. -/
theorem acts_as_cases (h : ActsAs service user bearer) :
    (∃ token, bearer = .jwt token ∧ token.sub = user ∧ Accepted service token) ∨
      ∃ row ∈ service.appTokens, row.userId = user ∧ (service.accounts user).isActive = true := by
  obtain ⟨dependency, huser⟩ := h
  cases dependency with
  | requireUser =>
      obtain ⟨payload, hpayload, rfl⟩ := Option.map_eq_some_iff.mp huser
      obtain ⟨rfl, haccepted⟩ := require_user_iff.mp (of_to_option_eq_some hpayload)
      exact Or.inl ⟨payload, rfl, rfl, haccepted⟩
  | requireUserOrAppToken scopes =>
      obtain ⟨auth, hauth, rfl⟩ := Option.map_eq_some_iff.mp huser
      have hok := of_to_option_eq_some hauth
      cases bearer with
      | jwt presented =>
          obtain ⟨heq, haccepted⟩ := require_user_or_app_token_jwt hok
          exact Or.inl ⟨presented, rfl, heq.symm, haccepted⟩
      | appToken tokenHash =>
          obtain ⟨row, hrow, heq, hactive⟩ := require_app_token_ok hok
          exact Or.inr ⟨row, hrow, heq, heq ▸ hactive⟩
  | getOptionalUser =>
      obtain ⟨payload, hpayload, rfl⟩ := Option.map_eq_some_iff.mp huser
      obtain ⟨rfl, haccepted⟩ := get_optional_user_iff.mp hpayload
      exact Or.inl ⟨payload, rfl, rfl, haccepted⟩

theorem acts_of_accepted (h : Accepted service token) : ActsAs service token.sub (.jwt token) := by
  refine ⟨.requireUser, ?_⟩
  rw [Dependency.user, require_user_iff.mpr ⟨rfl, h⟩]
  rfl

end CatalogApi.Sessions
