import CatalogApi.TwoFactor.Store

/-!
# Enabled with the means to pass

Any number of requests, interleaved statement by statement. The secret and the codes of the row are
always those of the last setup, without the codes redeemed since, and the row is enabled only while they
are there: a setup never writes over an enabled row, and a confirm enables only the secret it read.
-/

namespace CatalogApi.TwoFactor

open Programs

/-- A pool of requests. -/
abbrev Requests := Pool Server Command Reply Response Call

/-- The event replaces or clears what a setup stored. -/
def Event.ends : Event → Bool
  | .stored .. => true
  | .cleared => true
  | _ => false

/-- The secret and the codes are those of the last setup of the history, without the codes redeemed
since. -/
def FromSetup (history : List (Int × Event)) (secret : String) (codes : List String) : Prop :=
  ∃ before instant stored after,
    history = before ++ (instant, .stored secret stored) :: after ∧
      (∀ event ∈ after, event.2.ends = false) ∧
      codes = stored.filter fun hash => Event.redeemed hash ∉ after.map (·.2)

/-- A setup has just stored them. -/
theorem fromSetup_stored (history : List (Int × Event)) (instant : Int) (secret : String)
    (codes : List String) :
    FromSetup (history ++ [(instant, .stored secret codes)]) secret codes := by
  refine ⟨history, instant, codes, [], rfl, fun event hevent => absurd hevent List.not_mem_nil, ?_⟩
  exact (List.filter_eq_self.mpr fun hash _ => decide_eq_true List.not_mem_nil).symm

variable {history : List (Int × Event)} {secret : String} {codes : List String}

/-- Another event leaves them. -/
theorem FromSetup.other (h : FromSetup history secret codes) (instant : Int) {event : Event}
    (hends : event.ends = false) (hredeemed : ∀ hash, event ≠ .redeemed hash) :
    FromSetup (history ++ [(instant, event)]) secret codes := by
  obtain ⟨before, first, stored, after, rfl, hafter, rfl⟩ := h
  refine ⟨before, first, stored, after ++ [(instant, event)], by simp, ?_, ?_⟩
  · rintro other hother
    rcases List.mem_append.mp hother with hother | hother
    · exact hafter other hother
    · rw [List.mem_singleton.mp hother]
      exact hends
  · refine List.filter_congr fun hash _ => ?_
    simp [(hredeemed hash).symm]

/-- A redeemed code goes. -/
theorem FromSetup.redeemed (h : FromSetup history secret codes) (instant : Int) (hash : String) :
    FromSetup (history ++ [(instant, .redeemed hash)]) secret (codes.filter (· ≠ hash)) := by
  obtain ⟨before, first, stored, after, rfl, hafter, rfl⟩ := h
  refine ⟨before, first, stored, after ++ [(instant, .redeemed hash)], by simp, ?_, ?_⟩
  · rintro other hother
    rcases List.mem_append.mp hother with hother | hother
    · exact hafter other hother
    · rw [List.mem_singleton.mp hother]
      rfl
  · rw [List.filter_filter]
    refine List.filter_congr fun other _ => ?_
    by_cases hsame : other = hash <;> simp [hsame]

/-- The row has no secret and no codes, or those of the last setup, and is enabled only in the second
case. -/
def Provided (server : Server) : Prop :=
  (server.account.totpSecret = none ∧ server.account.totpRecoveryCodes = none ∧
      server.account.totpEnabled = false) ∨
    ∃ secret codes, server.account.totpSecret = some secret ∧
      server.account.totpRecoveryCodes = some codes ∧ FromSetup server.history secret codes

/-- Every secret that was enabled was that of the last setup at the time. -/
def EnabledInPlace (history : List (Int × Event)) : Prop :=
  ∀ before instant secret, before ++ [(instant, Event.enabled secret)] <+: history →
    ∃ codes, FromSetup before secret codes

theorem EnabledInPlace.record (h : EnabledInPlace history) (instant : Int) {event : Event}
    (hevent : ∀ secret, event = .enabled secret → ∃ codes, FromSetup history secret codes) :
    EnabledInPlace (history ++ [(instant, event)]) := by
  intro before instant' secret hprefix
  rcases List.prefix_concat_iff.mp hprefix with hlast | hearlier
  · obtain ⟨rfl, hsame⟩ := List.append_inj' hlast rfl
    exact hevent secret (Prod.mk.inj (List.singleton_inj.mp hsame)).2.symm
  · exact h before instant' secret hearlier

/-! ## Steps -/

variable {config : Config} {server next : Server} {command : Command}

/-- No command leaves an enabled account without means. -/
theorem provided_effect (heffect : Effect server command next) (h : Provided server) : Provided next := by
  cases heffect with
  | none => exact h
  | taken jti _ =>
      rcases h with hbare | ⟨secret, codes, hsecret, hcodes, hfrom⟩
      · exact .inl hbare
      · exact .inr ⟨secret, codes, hsecret, hcodes, hfrom.other _ rfl nofun⟩
  | stored secret codes _ => exact .inr ⟨secret, codes, rfl, rfl, fromSetup_stored _ _ _ _⟩
  | enabled secret hmatch =>
      rcases h with ⟨hnone, _⟩ | ⟨secret, codes, hsecret, hcodes, hfrom⟩
      · rw [hnone] at hmatch
        cases hmatch
      · exact .inr ⟨secret, codes, hsecret, hcodes, hfrom.other _ rfl nofun⟩
  | guessed _ _ =>
      rcases h with hbare | ⟨secret, codes, hsecret, hcodes, hfrom⟩
      · exact .inl hbare
      · exact .inr ⟨secret, codes, hsecret, hcodes, hfrom.other _ rfl nofun⟩
  | reset =>
      rcases h with hbare | ⟨secret, codes, hsecret, hcodes, hfrom⟩
      · exact .inl hbare
      · exact .inr ⟨secret, codes, hsecret, hcodes, hfrom.other _ rfl nofun⟩
  | redeemed hash codes hmatch _ =>
      rcases h with ⟨_, hnone, _⟩ | ⟨secret, held, hsecret, hcodes, hfrom⟩
      · rw [hnone] at hmatch
        cases hmatch
      · rw [hcodes] at hmatch
        obtain rfl := Option.some.inj hmatch
        exact .inr ⟨secret, _, hsecret, rfl, hfrom.redeemed _ hash⟩
  | cleared => exact .inl ⟨rfl, rfl, rfl⟩

/-- A command adds at most one event. -/
theorem history_effect (heffect : Effect server command next) :
    next.history = server.history ∨
      ∃ event, next.history = server.history ++ [(server.clock, event)] := by
  cases heffect with
  | none => exact .inl rfl
  | _ => exact .inr ⟨_, rfl⟩

theorem mem_history_effect (heffect : Effect server command next) {event : Int × Event}
    (h : event ∈ server.history) : event ∈ next.history := by
  rcases history_effect heffect with hsame | ⟨event', hmore⟩
  · rw [hsame]
    exact h
  · rw [hmore]
    exact List.mem_append_left _ h

theorem enabledInPlace_effect (heffect : Effect server command next)
    (h : EnabledInPlace server.history) (hprovided : Provided server) :
    EnabledInPlace next.history := by
  cases heffect with
  | none => exact h
  | enabled secret hmatch =>
      refine h.record _ fun other hother => ?_
      obtain rfl := Event.enabled.inj hother
      rcases hprovided with ⟨hnone, _⟩ | ⟨held, codes, hsecret, _, hfrom⟩
      · rw [hnone] at hmatch
        cases hmatch
      · rw [hsecret] at hmatch
        obtain rfl := Option.some.inj hmatch
        exact ⟨codes, hfrom⟩
  | _ => exact h.record _ nofun

/-- Time and logins leave the row and what a setup stored. -/
theorem provided_change (move : Change) (h : Provided server) : Provided (change move server) := by
  cases move with
  | passes elapsed => exact h
  | login jti =>
      rcases h with hbare | ⟨secret, codes, hsecret, hcodes, hfrom⟩
      · exact .inl hbare
      · exact .inr ⟨secret, codes, hsecret, hcodes, hfrom.other _ rfl nofun⟩

theorem enabledInPlace_change (move : Change) (h : EnabledInPlace server.history) :
    EnabledInPlace (change move server).history := by
  cases move with
  | passes elapsed => exact h
  | login jti => exact h.record _ nofun

/-! ## Confirms -/

/-- A confirm that returned success verified its code against some secret, enabled that secret by its
last statement, and the history has it. -/
def Confirmed (config : Config) (history : List (Int × Event))
    (thread : Thread Command Reply Response Call) : Prop :=
  ∀ code, thread.call = .confirm code → thread.returned = some (.ok .confirmed) →
    ∃ secret now, config.verifyTotpCode secret code now = some true ∧
      thread.last = some ⟨.enable secret, true⟩ ∧
      ∃ instant, (instant, Event.enabled secret) ∈ history

/-- The secret that a thread has enabled. -/
abbrev EnabledRole := Option String

/-- A thread has enabled the secret of its role. -/
def ConfirmedAs (config : Config) (role : EnabledRole)
    (thread : Thread Command Reply Response Call) : Prop :=
  ∀ code, thread.call = .confirm code → thread.returned = some (.ok .confirmed) →
    ∃ secret now, config.verifyTotpCode secret code now = some true ∧
      thread.last = some ⟨.enable secret, true⟩ ∧ role = some secret

/-- The history has every secret that a thread has enabled. -/
def Remembered (server : Server) (roles : List EnabledRole) : Prop :=
  ∀ secret, some secret ∈ roles → ∃ instant, (instant, Event.enabled secret) ∈ server.history

theorem Remembered.effect {roles : List EnabledRole} (h : Remembered server roles)
    (heffect : Effect server command next) : Remembered next roles := by
  intro secret hsecret
  obtain ⟨instant, hmem⟩ := h secret hsecret
  exact ⟨instant, mem_history_effect heffect hmem⟩

theorem confirmedAs_of_ne {role : EnabledRole} {thread : Thread Command Reply Response Call}
    (h : thread.returned ≠ some (.ok .confirmed)) : ConfirmedAs config role thread :=
  fun _ _ hreturned => absurd hreturned h

/-- A step that enables nothing keeps the role of its thread. -/
theorem Remembered.set_same {roles : List EnabledRole} {thread : Nat} {role : EnabledRole}
    (h : Remembered server roles) (heffect : Effect server command next)
    (hrole : roles[thread]? = some role) : Remembered next (roles.set thread role) := by
  rw [Programs.set_same hrole]
  exact h.effect heffect

/-- A step that enables a secret gives its thread the role. -/
theorem Remembered.set_enabled {roles : List EnabledRole} {thread : Nat} {secret : String}
    (h : Remembered server roles) (heffect : Effect server command next)
    (hmem : ∃ instant, (instant, Event.enabled secret) ∈ next.history) :
    Remembered next (roles.set thread (some secret)) := by
  intro other hother
  rcases List.mem_or_eq_of_mem_set hother with hold | hnew
  · exact h.effect heffect other hold
  · obtain rfl := Option.some.inj hnew
    exact hmem

/-- A command that enables nothing, whatever it replies. -/
theorem stay_confirmed {condition : Requests → Move Call Change → Prop} {call : Call}
    {role : EnabledRole} (last : Option ((command : Command) × Reply command)) (command : Command)
    {next : Reply command → Task Response}
    (hnext : ∀ reply, (requests config).Outlined Remembered (ConfirmedAs config) condition call role
      (some ⟨command, reply⟩) (next reply)) :
    (requests config).Outlined Remembered (ConfirmedAs config) condition call role last
      (.issue command next) :=
  System.Outlined.stay _ (confirmedAs_of_ne nofun)
    (fun state _ h => h.effect (exec_effect config command state)) hnext

/-- The outline of `twofa_confirm`: it enables the secret it verified. -/
theorem confirm_outlined {condition : Requests → Move Call Change → Prop} (code : String) :
    (requests config).Outlined Remembered (ConfirmedAs config) condition (.confirm code) none none
      (twofaConfirm config code) := by
  rw [twofaConfirm]
  by_cases hkey : ¬config.totpKey
  · rw [if_pos hkey]
    exact confirmedAs_of_ne fun h => by cases h
  rw [if_neg hkey]
  refine stay_confirmed _ .selectSecret fun held => ?_
  dsimp only [Program.bind]
  cases Option.filter (· ≠ "") held with
  | none => exact confirmedAs_of_ne fun h => by cases h
  | some secret =>
      refine stay_confirmed _ .time fun (now : Int) => ?_
      dsimp only [Program.bind]
      cases hverified : config.verifyTotpCode secret code now with
      | none => exact confirmedAs_of_ne fun h => by cases h
      | some accepted =>
          cases accepted with
          | false => exact confirmedAs_of_ne fun h => by cases h
          | true =>
              refine System.Outlined.reply _ (confirmedAs_of_ne fun h => by cases h)
                fun state roles thread h hrole => ?_
              by_cases hmatch : state.account.totpSecret = some secret
              · refine ⟨true, _, some secret, if_pos hmatch, h.set_enabled (.enabled secret hmatch)
                  ⟨_, List.mem_append_right _ (List.mem_singleton_self _)⟩, ?_⟩
                rintro code ⟨⟩ -
                exact ⟨secret, now, hverified, rfl, rfl⟩
              · exact ⟨false, _, none, if_neg hmatch, h.set_same (.none (.enable secret)) hrole,
                  confirmedAs_of_ne fun h => by cases h⟩

/-- Every request starts with nothing enabled by it. -/
theorem start_outlined (config : Config) {condition : Requests → Move Call Change → Prop}
    (pool : Requests) (roles : List EnabledRole) (call : Call)
    (h : Remembered pool.state roles) (_ : List.Forall₂ (ConfirmedAs config) roles pool.threads)
    (_ : condition pool (.start call)) :
    ∃ role, Remembered pool.state (roles ++ [role]) ∧
      (requests config).Outlined Remembered (ConfirmedAs config) condition call role none
        ((requests config).program call) := by
  refine ⟨none, fun secret hsecret => ?_, ?_⟩
  · rcases List.mem_append.mp hsecret with hold | hnew
    · exact h secret hold
    · cases List.mem_singleton.mp hnew
  · by_cases hconfirm : ∃ code, call = .confirm code
    · obtain ⟨code, rfl⟩ := hconfirm
      exact confirm_outlined code
    · refine System.Outlined.kept _ (fun last program code hcall => ?_) (fun command state roles h =>
        h.effect (exec_effect config command state)) none _
      exact absurd ⟨code, hcall⟩ hconfirm

theorem change_remembered (config : Config) {condition : Requests → Move Call Change → Prop}
    (pool : Requests) (roles : List EnabledRole) (move : Change)
    (h : Remembered pool.state roles) (_ : List.Forall₂ (ConfirmedAs config) roles pool.threads)
    (_ : condition pool (.change move)) : Remembered ((requests config).change move pool.state) roles := by
  intro secret hsecret
  obtain ⟨instant, hmem⟩ := h secret hsecret
  cases move with
  | passes elapsed => exact ⟨instant, hmem⟩
  | login jti => exact ⟨instant, List.mem_append_left _ hmem⟩

/-! ## Runs -/

/-- A user without second factor, whose history begins. -/
def Server.withoutSecondFactor (clock : Int) (hashedPassword : String) (lockout : Lockouts.Counter) :
    Server where
  clock := clock
  account := ⟨hashedPassword, none, false, none, lockout⟩
  challenges := []
  history := []

variable (config) in
/-- The second factor can be passed: while it is enabled, the secret and the codes are there, both from
the last setup, without the codes redeemed since; and every confirm that returned success enabled the
secret it verified, which was the last setup's at the time. -/
structure Passable (pool : Requests) : Prop where
  enabled : pool.state.account.totpEnabled = true →
    ∃ secret codes, pool.state.account.totpSecret = some secret ∧
      pool.state.account.totpRecoveryCodes = some codes ∧ FromSetup pool.state.history secret codes
  confirmed : ∀ thread ∈ pool.threads, Confirmed config pool.state.history thread
  inPlace : EnabledInPlace pool.state.history

/-- After any interleaving of setups, confirms, disables, verifications and recoveries the second factor
can be passed. -/
theorem enabled_with_means (config : Config) (clock : Int) (hashedPassword : String)
    (lockout : Lockouts.Counter) {moves : List (Move Call Change)} {pool : Requests}
    (hrun : Runs.execute (requests config).step
      ((requests config).idle (.withoutSecondFactor clock hashedPassword lockout)) moves = .ok pool) :
    Passable config pool := by
  have halong : Runs.Along (requests config).step (fun _ _ => True)
      ((requests config).idle (.withoutSecondFactor clock hashedPassword lockout)) moves :=
    Runs.along_of_forall (fun _ _ => trivial) _ moves
  have hstate : Provided pool.state ∧ EnabledInPlace pool.state.history := by
    refine (requests config).state_along (motive := fun server =>
      Provided server ∧ EnabledInPlace server.history) ?_ ?_ ?_ hrun halong
    · refine ⟨.inl ⟨rfl, rfl, rfl⟩, fun before instant secret hprefix => ?_⟩
      exact absurd (List.prefix_nil.mp hprefix) (List.append_ne_nil_of_right_ne_nil _ nofun)
    · rintro pool thread call last command rest - - ⟨hprovided, hplace⟩
      have heffect := exec_effect config command pool.state
      exact ⟨provided_effect heffect hprovided, enabledInPlace_effect heffect hplace hprovided⟩
    · rintro pool move - ⟨hprovided, hplace⟩
      exact ⟨provided_change move hprovided, enabledInPlace_change move hplace⟩
  obtain ⟨roles, hremembered, hroles⟩ := (requests config).outlined_along
    (fun secret hsecret => absurd hsecret List.not_mem_nil)
    (start_outlined config) (change_remembered config) hrun halong
  refine ⟨fun henabled => ?_, fun thread hthread code hcall hreturned => ?_, hstate.2⟩
  · rcases hstate.1 with ⟨_, _, hdisabled⟩ | hprovided
    · rw [hdisabled] at henabled
      cases henabled
    · exact hprovided
  · obtain ⟨index, hindex⟩ := List.mem_iff_getElem?.mp hthread
    obtain ⟨role, hrole, hconfirmed⟩ := forall₂_get hroles hindex
    obtain ⟨secret, now, hverified, hlast, rfl⟩ := hconfirmed code hcall hreturned
    exact ⟨secret, now, hverified, hlast, hremembered secret (List.mem_of_getElem? hrole)⟩

/-- Codes are right when they spell the secret, and hashed to themselves. -/
def spelled : Config where
  totpKey := true
  verifyTotpCode := fun secret code _ => some (secret = code)
  verifyPassword := fun password hash => password = hash
  hashRecoveryCode := id

/-- A setup and its confirm, a login and the recovery of one of two codes. -/
def recoveredLogin : List (Move Call Change) :=
  [.start (.setup "s" ["h", "g"]), .start (.confirm "s"), .step 0, .step 0, .step 1, .step 1, .step 1,
    .change (.login "j"), .start (.recovery "j" "h"), .step 2, .step 2, .step 2]

/-- A second factor with one code redeemed can be passed. -/
theorem recovered_login_leaves_means :
    ∃ pool, Runs.execute (requests spelled).step
        ((requests spelled).idle (.withoutSecondFactor 0 "p" ⟨0, none⟩)) recoveredLogin = .ok pool ∧
      pool.state.account.totpEnabled = true ∧
      pool.state.account.totpRecoveryCodes = some ["g"] ∧ Passable spelled pool := by
  obtain ⟨pool, hrun, henabled, hcodes⟩ : ∃ pool, Runs.execute (requests spelled).step
      ((requests spelled).idle (.withoutSecondFactor 0 "p" ⟨0, none⟩)) recoveredLogin = .ok pool ∧
      pool.state.account.totpEnabled = true ∧
      pool.state.account.totpRecoveryCodes = some ["g"] := ⟨_, rfl, rfl, rfl⟩
  exact ⟨pool, hrun, henabled, hcodes, enabled_with_means spelled 0 "p" ⟨0, none⟩ hrun⟩

end CatalogApi.TwoFactor
