import CatalogApi.Snapshots.Store
import Mathlib.Data.List.Nodup

/-!
# Rejected writes

Any number of saves of one user, interleaved command by command on a Valkey that fills up and frees at
any time, while the counter lives. The counter is the number of saves that returned and of those in
progress that hold a slot; a save that raised left no snapshot. A full Valkey breaks this in one place:
the `DECR` of a save that lost the race for the last slot.
-/

namespace CatalogApi.Snapshots

open Programs

/-- A pool of saves. -/
abbrev Savers := Pool Keyspace Command Reply Saved SaveCall

/-- A save that returned a token. -/
def returnedToken (thread : Thread Command Reply Saved SaveCall) : Bool :=
  match thread.returned with
  | some (.ok _) => true
  | _ => false

/-- A save that raised. -/
def raisedError (thread : Thread Command Reply Saved SaveCall) : Bool :=
  match thread.returned with
  | some (.error _) => true
  | _ => false

/-- A save in progress whose `INCR` is accepted and not given back: its next command is the `EXPIRE`,
the `DEL` after it or the `DECR`. -/
def holdsSlot (thread : Thread Command Reply Saved SaveCall) : Bool :=
  match thread.program, thread.last with
  | .issue (.expireNx ..) _, _ => true
  | .issue (.decr _) _, _ => true
  | .issue (.delete _) _, some ⟨.expireNx .., _⟩ => true
  | _, _ => false

/-- The saves are of one user, each with a fresh token, and the counter does not expire. -/
def OneLifetime (user : String) (pool : Savers) : Move SaveCall Change → Prop
  | .start call => call.userId = some user ∧ ∀ thread ∈ pool.threads, thread.call.token ≠ call.token
  | .change (.passes elapsed) => ∀ counter ∈ pool.state.counts user,
      Keyspace.lives (pool.state.clock + elapsed) counter = true
  | _ => True

/-- No `DECR` meets a full Valkey. -/
def GivesBack (pool : Savers) : Move SaveCall Change → Prop
  | .step thread =>
      match pool.threads[thread]? with
      | some ⟨_, _, .issue (.decr _) _⟩ => pool.state.full = false
      | _ => True
  | _ => True

/-! ## The invariant -/

/-- How far a save has come. -/
inductive Phase where
  | deciding
  | stored
  | undoing
  | won
  | lost
  | dropped
  | kept
  | raised
  deriving DecidableEq

namespace Phase

/-- The save holds a slot of the counter. -/
def slot : Phase → Bool
  | .won | .lost | .dropped | .kept => true
  | _ => false

/-- The save has one of the slots up to the cap. -/
def winner : Phase → Bool
  | .won | .kept => true
  | _ => false

/-- The save's snapshot may be stored. -/
def snapshot : Phase → Bool
  | .stored | .undoing | .won | .lost | .kept => true
  | _ => false

/-- The save is in progress and holds a slot. -/
def holds : Phase → Bool
  | .won | .lost | .dropped => true
  | _ => false

end Phase

theorem winner_slot (phase : Phase) (h : phase.winner = true) : phase.slot = true := by
  cases phase with
  | won => rfl
  | kept => rfl
  | deciding => cases h
  | stored => cases h
  | undoing => cases h
  | lost => cases h
  | dropped => cases h
  | raised => cases h

/-- A save's token and how far it has come. -/
structure Stage where
  token : String
  phase : Phase

/-- The counter is the number of slots held, no more than the cap are won, and every snapshot belongs to
a save that may have one. -/
structure Accounted (cap : Int) (user : String) (keys : Keyspace) (stages : List Stage) : Prop where
  count : keys.count user = stages.countP (·.phase.slot)
  winners : stages.countP (·.phase.winner) ≤ cap.toNat
  tokens : (stages.map (·.token)).Nodup
  owned : ∀ snapshot ∈ keys.stored, ∃ stage ∈ stages, stage.token = snapshot.token ∧
    stage.phase.snapshot = true

section Transitions

variable {cap : Int} {user : String} {keys next : Keyspace} {stages : List Stage} {thread : Nat}
  {token : String} {phase phase' : Phase}

/-- A save whose snapshot is stored may have one. -/
theorem Accounted.own (h : Accounted cap user keys stages)
    (hstage : stages[thread]? = some ⟨token, phase⟩) {snapshot : Snapshot}
    (hmem : snapshot ∈ keys.stored) (htoken : snapshot.token = token) :
    phase.snapshot = true := by
  obtain ⟨stage, hstages, hsame, hmay⟩ := h.owned snapshot hmem
  have hself : (⟨token, phase⟩ : Stage) ∈ stages := List.mem_of_getElem? hstage
  have heq : stage = ⟨token, phase⟩ :=
    List.inj_on_of_nodup_map h.tokens hstages hself (hsame.trans htoken)
  rw [heq] at hmay
  exact hmay

/-- One save goes on: what it adds to the counter is what its slot says, a new winner is within the cap,
and of its own snapshots at most one is left that it may have. -/
theorem Accounted.go (h : Accounted cap user keys stages)
    (hstage : stages[thread]? = some ⟨token, phase⟩)
    (hcount : next.count user + phase.slot.toNat = keys.count user + phase'.slot.toNat)
    (hwinner : phase'.winner = true → phase.winner = true ∨ keys.count user < cap)
    (hstored : ∀ snapshot ∈ next.stored,
      snapshot ∈ keys.stored ∧ snapshot.token ≠ token ∨
        snapshot.token = token ∧ phase'.snapshot = true) :
    Accounted cap user next (stages.set thread ⟨token, phase'⟩) := by
  obtain ⟨before, after, rfl, hset⟩ := set_split hstage
  rw [hset]
  have hslots := h.count
  have hwinners := h.winners
  have htokens := h.tokens
  rw [List.countP_append, List.countP_cons] at hslots hwinners
  refine ⟨?_, ?_, ?_, ?_⟩
  · rw [List.countP_append, List.countP_cons]
    revert hcount hslots
    cases phase.slot <;> cases phase'.slot <;> simp <;> omega
  · rw [List.countP_append, List.countP_cons]
    by_cases hnew : phase'.winner = true
    · rcases hwinner hnew with hold | hroom
      · rw [if_pos hold] at hwinners
        rw [if_pos hnew]
        exact hwinners
      · have hle : (before ++ ⟨token, phase⟩ :: after).countP (·.phase.winner) ≤
            (before ++ ⟨token, phase⟩ :: after).countP (·.phase.slot) :=
          List.countP_mono_left fun stage _ => winner_slot stage.phase
        rw [List.countP_append, List.countP_cons, List.countP_append, List.countP_cons] at hle
        rw [if_pos hnew]
        omega
    · rw [if_neg hnew]
      omega
  · rw [List.map_append, List.map_cons] at htokens ⊢
    exact htokens
  · intro snapshot hsnapshot
    rcases hstored snapshot hsnapshot with ⟨hold, hother⟩ | ⟨hown, hmay⟩
    · obtain ⟨stage, hmem, htoken, hmay⟩ := h.owned snapshot hold
      refine ⟨stage, ?_, htoken, hmay⟩
      rw [List.mem_append, List.mem_cons] at hmem ⊢
      rcases hmem with hmem | rfl | hmem
      · exact Or.inl hmem
      · exact absurd htoken.symm hother
      · exact Or.inr (Or.inr hmem)
    · exact ⟨⟨token, phase'⟩, by simp, hown.symm, hmay⟩

end Transitions

/-! ## Outlines -/

/-- What a save's stage shows of it. -/
structure StageOf (stage : Stage) (thread : Thread Command Reply Saved SaveCall) : Prop where
  token : thread.call.token = stage.token
  kept : returnedToken thread = decide (stage.phase = .kept)
  raised : raisedError thread = decide (stage.phase = .raised)
  holds : holdsSlot thread = stage.phase.holds

/-- The moves of saves of one user within the counter's lifetime whose `DECR`s are accepted. -/
def Undisturbed (user : String) (pool : Savers) (move : Move SaveCall Change) : Prop :=
  OneLifetime user pool move ∧ GivesBack pool move

section Outlines

variable (store : SnapshotStore) (user : String)

/-- The save keeps the accounts from this phase on. -/
def Traced (call : SaveCall) (phase : Phase)
    (last : Option ((command : Command) × Reply command)) (task : Task Saved) : Prop :=
  (saves store).Outlined (Accounted store.maxPerUser user) StageOf (Undisturbed user) call
    ⟨call.token, phase⟩ last task

variable {store user} {call : SaveCall} {last : Option ((command : Command) × Reply command)}

theorem traced_raised (error : SaveError) :
    Traced store user call .raised last (.done (.error error)) :=
  ⟨rfl, rfl, rfl, rfl⟩

theorem traced_kept (answer : String × Int) :
    Traced store user call .kept last (.done (.ok answer)) :=
  ⟨rfl, rfl, rfl, rfl⟩

/-- The accounts stay as they are. -/
theorem Accounted.stay {cap : Int} {keys next : Keyspace} {stages : List Stage} {thread : Nat}
    {token : String} {phase phase' : Phase} (h : Accounted cap user keys stages)
    (hstage : stages[thread]? = some ⟨token, phase⟩) (hcount : next.count user = keys.count user)
    (hstored : next.stored = keys.stored) (hslot : phase'.slot = phase.slot)
    (hwinner : phase'.winner = true → phase.winner = true)
    (hsnapshot : phase.snapshot = true → phase'.snapshot = true) :
    Accounted cap user next (stages.set thread ⟨token, phase'⟩) := by
  refine h.go hstage (by rw [hcount, hslot]) (fun hnew => Or.inl (hwinner hnew)) ?_
  intro snapshot hmem
  rw [hstored] at hmem
  by_cases htoken : snapshot.token = token
  · exact Or.inr ⟨htoken, hsnapshot (h.own hstage hmem htoken)⟩
  · exact Or.inl ⟨hmem, htoken⟩

theorem count_arm_count (keys : Keyspace) (deadline : Int) :
    (keys.armCount user deadline).count user = keys.count user := by
  rw [Keyspace.armCount]
  split
  · rename_i value hcounter
    simp [Keyspace.count, Keyspace.setCount, hcounter]
  · rfl

theorem count_add_count (keys : Keyspace) (amount : Int) :
    (keys.addCount user amount).count user = keys.count user + amount := by
  simp [Keyspace.count, Keyspace.addCount, Keyspace.setCount]

theorem stored_arm_count (keys : Keyspace) (deadline : Int) :
    (keys.armCount user deadline).stored = keys.stored := by
  rw [Keyspace.armCount]
  split <;> rfl

/-- `DEL` of its snapshot: the save has none any more. -/
theorem Accounted.del {cap : Int} {keys : Keyspace} {stages : List Stage} {thread : Nat}
    {token : String} {phase phase' : Phase} (h : Accounted cap user keys stages)
    (hstage : stages[thread]? = some ⟨token, phase⟩) (hslot : phase'.slot = phase.slot)
    (hwinner : phase'.winner = true → phase.winner = true) :
    Accounted cap user (keys.remove token) (stages.set thread ⟨token, phase'⟩) := by
  refine h.go hstage (by rw [hslot]; rfl) (fun hnew => Or.inl (hwinner hnew)) ?_
  intro snapshot hmem
  obtain ⟨hold, hother⟩ := List.mem_filter.mp hmem
  exact Or.inl ⟨hold, by simpa using hother⟩

/-- A command of a save whose reply and effect are known in each case. -/
theorem traced_issue {phase : Phase} {command : Command} {next : Reply command → Task Saved}
    (hat : StageOf ⟨call.token, phase⟩ ⟨call, last, .issue command next⟩)
    (h : ∀ (keys : Keyspace) (stages : List Stage) (thread : Nat),
      Accounted store.maxPerUser user keys stages → stages[thread]? = some ⟨call.token, phase⟩ →
      ∃ reply keys' phase', exec command keys = (reply, keys') ∧
        Accounted store.maxPerUser user keys' (stages.set thread ⟨call.token, phase'⟩) ∧
        Traced store user call phase' (some ⟨command, reply⟩) (next reply)) :
    Traced store user call phase last (.issue command next) := by
  refine System.Outlined.reply (saves store) hat fun keys stages thread haccounted hstage => ?_
  obtain ⟨reply, keys', phase', hexec, hnext, hrest⟩ := h keys stages thread haccounted hstage
  exact ⟨reply, keys', ⟨call.token, phase'⟩, hexec, hnext, hrest⟩

/-- A save that lost the race gives its slot back. -/
theorem traced_lost (count : Int) :
    Traced store user call .lost (some ⟨.expireNx user store.ttlSeconds, ()⟩) (do
      Valkey.delete call.token
      let given ← Valkey.decr user
      if given then pure (.error (.quotaExceeded (count - 1) store.maxPerUser))
      else pure (.error .rejected)) := by
  refine traced_issue ⟨rfl, rfl, rfl, rfl⟩ fun keys stages thread h hstage => ?_
  refine ⟨(), keys.remove call.token, .dropped, rfl, h.del hstage rfl (by nofun), ?_⟩
  refine ⟨⟨rfl, rfl, rfl, rfl⟩, fun pool stages thread h _ hstage hthread hmove => ?_⟩
  have hfull := hmove.2
  simp only [GivesBack, hthread] at hfull
  have hdecr : (saves store).exec (.decr user) pool.state =
      (true, pool.state.addCount user (-1)) := if_neg (by rw [hfull]; nofun)
  rw [hdecr]
  refine ⟨⟨call.token, .raised⟩, h.go hstage ?_ (by nofun) ?_, traced_raised _⟩
  · rw [count_add_count]
    simp only [Phase.slot, Bool.toNat_true, Bool.toNat_false]
    omega
  · intro snapshot hmem
    refine Or.inl ⟨hmem, fun htoken => ?_⟩
    have hmay := h.own hstage hmem htoken
    cases hmay

/-- A save whose snapshot is stored takes a slot, or is undone. -/
theorem traced_stored (now : Int) (last : Option ((command : Command) × Reply command)) :
    Traced store user call .stored last (do
      let counted ← Valkey.incr user
      match counted with
      | none => do
          Valkey.delete call.token
          pure (.error .rejected)
      | some count => do
          Valkey.expireNx user store.ttlSeconds
          if store.maxPerUser < count then do
            Valkey.delete call.token
            let given ← Valkey.decr user
            if given then pure (.error (.quotaExceeded (count - 1) store.maxPerUser))
            else pure (.error .rejected)
          else pure (.ok (call.token, now + store.ttlSeconds))) := by
  refine traced_issue ⟨rfl, rfl, rfl, rfl⟩ fun keys stages thread h hstage => ?_
  by_cases hfull : keys.full = true
  · refine ⟨none, keys, .undoing, if_pos hfull, h.stay hstage rfl rfl rfl id id, ?_⟩
    refine traced_issue ⟨rfl, rfl, rfl, rfl⟩ fun keys stages thread h hstage => ?_
    exact ⟨(), _, .raised, rfl, h.del hstage rfl (by nofun), traced_raised _⟩
  · have hincr : exec (.incr user) keys = (some (keys.count user + 1), keys.addCount user 1) :=
      if_neg hfull
    have hown : ∀ snapshot ∈ keys.stored,
        snapshot ∈ keys.stored ∧ snapshot.token ≠ call.token ∨ snapshot.token = call.token :=
      fun snapshot hmem => (ne_or_eq snapshot.token call.token).imp_left (And.intro hmem)
    by_cases hlost : store.maxPerUser < keys.count user + 1
    · refine ⟨_, _, .lost, hincr, h.go hstage ?_ (by nofun) ?_, ?_⟩
      · rw [count_add_count]
        exact Int.add_zero _
      · exact fun snapshot hmem => (hown snapshot hmem).imp_right fun htoken => ⟨htoken, rfl⟩
      · refine traced_issue ⟨rfl, rfl, rfl, rfl⟩ fun keys' stages thread h hstage => ?_
        refine ⟨(), _, .lost, rfl,
          h.stay hstage (count_arm_count _ _) (stored_arm_count _ _) rfl id id, ?_⟩
        change Traced store user call .lost _
          (if store.maxPerUser < keys.count user + 1 then _ else _)
        rw [if_pos hlost]
        exact traced_lost _
    · refine ⟨_, _, .won, hincr, h.go hstage ?_ (fun _ => Or.inr (by omega)) ?_, ?_⟩
      · rw [count_add_count]
        exact Int.add_zero _
      · exact fun snapshot hmem => (hown snapshot hmem).imp_right fun htoken => ⟨htoken, rfl⟩
      · refine traced_issue ⟨rfl, rfl, rfl, rfl⟩ fun keys' stages thread h hstage => ?_
        refine ⟨(), _, .kept, rfl,
          h.stay hstage (count_arm_count _ _) (stored_arm_count _ _) rfl id id, ?_⟩
        change Traced store user call .kept _
          (if store.maxPerUser < keys.count user + 1 then _ else _)
        rw [if_neg hlost]
        exact traced_kept _

/-- A save of the user once its payload is built. -/
theorem traced_counted (now : Int) (last : Option ((command : Command) × Reply command)) :
    Traced store user call .deciding last (saveCounted store call now user) := by
  refine traced_issue ⟨rfl, rfl, rfl, rfl⟩ fun keys stages thread h hstage => ?_
  have hstay : ∀ phase : Phase, phase = .deciding ∨ phase = .raised →
      Accounted store.maxPerUser user keys (stages.set thread ⟨call.token, phase⟩) := by
    rintro phase (rfl | rfl)
    · exact h.stay hstage rfl rfl rfl id id
    · exact h.stay hstage rfl rfl rfl (fun h => by cases h) (fun h => by cases h)
  cases hheld : ((keys.counts user).map (·.value)).filter (store.maxPerUser ≤ ·) with
  | some held =>
      refine ⟨_, keys, .raised, rfl, hstay .raised (Or.inr rfl), ?_⟩
      dsimp only [Program.bind]
      rw [hheld]
      exact traced_raised _
  | none =>
      refine ⟨_, keys, .deciding, rfl, hstay .deciding (Or.inl rfl), ?_⟩
      dsimp only [Program.bind]
      rw [hheld]
      refine traced_issue ⟨rfl, rfl, rfl, rfl⟩ fun keys stages thread h hstage => ?_
      by_cases hfull : keys.full = true
      · refine ⟨false, keys, .raised, if_pos hfull, ?_, traced_raised _⟩
        exact h.stay hstage rfl rfl rfl (fun h => by cases h) (fun h => by cases h)
      · refine ⟨true, _, .stored, if_neg hfull, h.go hstage rfl (fun h => by cases h) ?_, traced_stored _ _⟩
        intro snapshot hmem
        rcases List.mem_append.mp hmem with hold | hnew
        · obtain ⟨hold, hother⟩ := List.mem_filter.mp hold
          exact Or.inl ⟨hold, by simpa using hother⟩
        · rw [List.mem_singleton.mp hnew]
          exact Or.inr ⟨rfl, rfl⟩

/-- A call of `save` by the user. -/
theorem traced_save (huser : user ≠ "") (hcall : call.userId = some user) :
    ∃ phase : Phase, phase.slot = false ∧ phase.winner = false ∧
      Traced store user call phase none (save store call) := by
  rw [save]
  split
  · exact ⟨.raised, rfl, rfl, traced_raised _⟩
  refine ⟨.deciding, rfl, rfl, ?_⟩
  refine traced_issue ⟨rfl, rfl, rfl, rfl⟩ fun keys stages thread h hstage => ?_
  by_cases hlarge : store.maxPayloadBytes < (call.payload keys.clock).length
  · refine ⟨keys.clock, keys, .raised, rfl, h.stay hstage rfl rfl rfl (fun h => by cases h) (fun h => by cases h), ?_⟩
    change Traced store user call .raised _
      (if store.maxPayloadBytes < (call.payload keys.clock).length then _ else _)
    rw [if_pos hlarge]
    exact traced_raised _
  · refine ⟨keys.clock, keys, .deciding, rfl, h.stay hstage rfl rfl rfl id id, ?_⟩
    dsimp only [Program.bind]
    rw [if_neg hlarge, hcall, Option.filter_some, if_pos (decide_eq_true huser)]
    exact traced_counted _ _

end Outlines

/-! ## Runs -/

/-- A save that raised left nothing, the counter is the number of saves that returned and of those in
progress that hold a slot, and no more return than the cap. -/
structure NoTrace (store : SnapshotStore) (user : String) (pool : Savers) : Prop where
  snapshots : ∀ thread ∈ pool.threads, raisedError thread = true →
    ∀ snapshot ∈ pool.state.stored, snapshot.token ≠ thread.call.token
  counted : pool.state.count user =
    pool.threads.countP returnedToken + pool.threads.countP holdsSlot
  capped : pool.threads.countP returnedToken ≤ store.maxPerUser.toNat

theorem slot_count (stages : List Stage) :
    stages.countP (·.phase.slot) =
      stages.countP (fun stage => stage.phase = .kept) + stages.countP (·.phase.holds) := by
  induction stages with
  | nil => rfl
  | cons stage stages ih =>
      rw [List.countP_cons, List.countP_cons, List.countP_cons, ih]
      cases stage.phase <;> simp [Phase.slot, Phase.holds] <;> omega

/-- The stages say who returned and who holds a slot. -/
theorem stages_count {stages : List Stage} {threads : List (Thread Command Reply Saved SaveCall)}
    (hstages : List.Forall₂ StageOf stages threads) :
    stages.countP (fun stage => stage.phase = .kept) = threads.countP returnedToken ∧
      stages.countP (·.phase.holds) = threads.countP holdsSlot :=
  ⟨countP_eq_of_forall₂ hstages fun _ _ hshows => hshows.kept.symm,
    countP_eq_of_forall₂ hstages fun _ _ hshows => hshows.holds.symm⟩

theorem Accounted.no_trace {store : SnapshotStore} {user : String} {pool : Savers}
    {stages : List Stage} (h : Accounted store.maxPerUser user pool.state stages)
    (hstages : List.Forall₂ StageOf stages pool.threads) : NoTrace store user pool where
  snapshots := by
    intro thread hthread hraised snapshot hmem htoken
    obtain ⟨index, hindex⟩ := List.mem_iff_getElem?.mp hthread
    obtain ⟨stage, hstage, hshows⟩ := forall₂_get hstages hindex
    rw [hshows.raised, decide_eq_true_iff] at hraised
    have hmay := h.own hstage hmem (htoken.trans hshows.token)
    rw [hraised] at hmay
    cases hmay
  counted := by
    obtain ⟨hkept, hholds⟩ := stages_count hstages
    rw [h.count, slot_count, hkept, hholds, Int.natCast_add]
  capped := by
    rw [← (stages_count hstages).1]
    refine Nat.le_trans (List.countP_mono_left fun stage _ hkept => ?_) h.winners
    rw [decide_eq_true_iff] at hkept
    rw [hkept]
    rfl

theorem counts_tick {user : String} {keys : Keyspace} {elapsed : Nat}
    (hlives : ∀ counter ∈ keys.counts user, Keyspace.lives (keys.clock + elapsed) counter = true) :
    (keys.tick elapsed).counts user = keys.counts user := by
  change (keys.counts user).filter (Keyspace.lives (keys.clock + elapsed)) = keys.counts user
  cases hcounter : keys.counts user with
  | none => rfl
  | some counter => rw [Option.filter_some, if_pos (hlives counter hcounter)]

/-- In every run of saves of one user within the counter's lifetime whose `DECR`s are accepted, a save
that fails leaves no trace. -/
theorem failed_save_leaves_no_trace (store : SnapshotStore) {user : String} (huser : user ≠ "")
    (clock : Int) {moves : List (Move SaveCall Change)} {pool : Savers}
    (hrun : Runs.execute (saves store).step ((saves store).idle (Keyspace.empty clock)) moves =
      .ok pool)
    (halong : Runs.Along (saves store).step (Undisturbed user)
      ((saves store).idle (Keyspace.empty clock)) moves) : NoTrace store user pool := by
  have hidle : Accounted store.maxPerUser user (Keyspace.empty clock) [] :=
    ⟨rfl, Nat.zero_le _, List.nodup_nil, by nofun⟩
  have hstart : ∀ (pool : Savers) (stages : List Stage) (call : SaveCall),
      Accounted store.maxPerUser user pool.state stages →
      List.Forall₂ StageOf stages pool.threads → Undisturbed user pool (.start call) →
      ∃ stage, Accounted store.maxPerUser user pool.state (stages ++ [stage]) ∧
        (saves store).Outlined (Accounted store.maxPerUser user) StageOf (Undisturbed user) call
          stage none (save store call) := by
    rintro pool stages call h hstages ⟨⟨hcall, hfresh⟩, -⟩
    obtain ⟨phase, hslot, hwinner, htraced⟩ : ∃ phase : Phase, phase.slot = false ∧
        phase.winner = false ∧ Traced store user call phase none (save store call) :=
      traced_save huser hcall
    refine ⟨⟨call.token, phase⟩, ⟨?_, ?_, ?_, ?_⟩, htraced⟩
    · rw [List.countP_append, List.countP_singleton, if_neg (by rw [hslot]; nofun)]
      exact h.count
    · rw [List.countP_append, List.countP_singleton, if_neg (by rw [hwinner]; nofun)]
      exact h.winners
    · rw [List.map_append, List.nodup_append]
      refine ⟨h.tokens, List.nodup_singleton _, ?_⟩
      intro token htoken last hlast
      obtain ⟨stage, hstage, rfl⟩ := List.mem_map.mp htoken
      obtain ⟨index, hindex⟩ := List.mem_iff_getElem?.mp hstage
      obtain ⟨thread, hthread, hshows⟩ := forall₂_get hstages.flip hindex
      rw [List.map_singleton, List.mem_singleton] at hlast
      rw [hlast, ← hshows.token]
      exact hfresh thread (List.mem_of_getElem? hthread)
    · intro snapshot hmem
      obtain ⟨stage, hstage, hsame⟩ := h.owned snapshot hmem
      exact ⟨stage, List.mem_append_left _ hstage, hsame⟩
  have hchange : ∀ (pool : Savers) (stages : List Stage) (next : Change),
      Accounted store.maxPerUser user pool.state stages →
      List.Forall₂ StageOf stages pool.threads → Undisturbed user pool (.change next) →
      Accounted store.maxPerUser user (change next pool.state) stages := by
    rintro pool stages next h - ⟨hlives, -⟩
    cases next with
    | fills => exact ⟨h.count, h.winners, h.tokens, h.owned⟩
    | frees => exact ⟨h.count, h.winners, h.tokens, h.owned⟩
    | passes elapsed =>
        refine ⟨?_, h.winners, h.tokens, fun snapshot hmem => ?_⟩
        · have hkept : (pool.state.tick elapsed).counts user = pool.state.counts user :=
            counts_tick hlives
          rw [← h.count, change, Keyspace.count, hkept, Keyspace.count]
        · exact h.owned snapshot (List.mem_filter.mp hmem).1
  obtain ⟨stages, h, hstages⟩ := (saves store).outlined_along hidle hstart hchange hrun halong
  exact h.no_trace hstages

/-! ## The race for the last slot -/

instance (user : String) (pool : Savers) (move : Move SaveCall Change) :
    Decidable (OneLifetime user pool move) := by
  unfold OneLifetime
  split <;> infer_instance

instance (pool : Savers) (move : Move SaveCall Change) : Decidable (GivesBack pool move) := by
  unfold GivesBack
  split
  · split <;> infer_instance
  · infer_instance

instance (user : String) (pool : Savers) (move : Move SaveCall Change) :
    Decidable (Undisturbed user pool move) := inferInstanceAs (Decidable (_ ∧ _))

/-- A store with room for one snapshot of a user, for 28 days. -/
def oneSlot : SnapshotStore where
  ttlSeconds := 28 * 86400
  maxNodes := 100
  maxPayloadBytes := 65536
  maxPerUser := 1
  ttl_pos := by decide

/-- A save of no nodes by a user. -/
def saveOf (token : String) : SaveCall where
  nodes := 0
  payload := fun _ => []
  token := token
  userId := some "user"

/-- Two saves up to the `DECR` of the one that lost the race. -/
def lastSlotRace : List (Move SaveCall Change) :=
  [.start (saveOf "first"), .start (saveOf "second"), .step 0, .step 0, .step 1, .step 1,
    .step 0, .step 1, .step 0, .step 1, .step 0, .step 1, .step 1]

/-- A `DECR` that meets a full Valkey leaves its save counted. -/
theorem rejected_decr_keeps_slot :
    ¬∀ (store : SnapshotStore) (user : String) (clock : Int) (moves : List (Move SaveCall Change))
      (pool : Savers), user ≠ "" →
      Runs.execute (saves store).step ((saves store).idle (Keyspace.empty clock)) moves = .ok pool →
      Runs.Along (saves store).step (OneLifetime user) ((saves store).idle (Keyspace.empty clock))
        moves → NoTrace store user pool := by
  intro h
  let moves : List (Move SaveCall Change) := lastSlotRace ++ [.change .fills, .step 1]
  have hend : (Runs.execute (saves oneSlot).step ((saves oneSlot).idle (Keyspace.empty 0))
      moves).map (fun pool => (pool.state.count "user", pool.threads.countP returnedToken,
        pool.threads.countP holdsSlot)) = .ok (2, 1, 0) := by decide +kernel
  have halong : Runs.Along (saves oneSlot).step (OneLifetime "user")
      ((saves oneSlot).idle (Keyspace.empty 0)) moves := by decide +kernel
  cases hrun : Runs.execute (saves oneSlot).step ((saves oneSlot).idle (Keyspace.empty 0))
      moves with
  | error failure =>
      rw [hrun] at hend
      cases hend
  | ok pool =>
      have hcounted := (h oneSlot "user" 0 moves pool (by decide) hrun halong).counted
      rw [hrun] at hend
      have hvalues := Except.ok.inj hend
      simp only [Prod.mk.injEq] at hvalues
      obtain ⟨hcount, hreturned, hholds⟩ := hvalues
      rw [hcount, hreturned, hholds] at hcounted
      exact absurd hcounted (by decide)

/-- The race for the last slot, with the slot given back. -/
theorem last_slot_race_leaves_no_trace :
    ∃ pool, Runs.execute (saves oneSlot).step ((saves oneSlot).idle (Keyspace.empty 0))
        (lastSlotRace ++ [.step 1]) = .ok pool ∧ NoTrace oneSlot "user" pool := by
  have hend : (Runs.execute (saves oneSlot).step ((saves oneSlot).idle (Keyspace.empty 0))
      (lastSlotRace ++ [.step 1])).map (fun pool => pool.state.count "user") = .ok 1 := by
    decide +kernel
  cases hrun : Runs.execute (saves oneSlot).step ((saves oneSlot).idle (Keyspace.empty 0))
      (lastSlotRace ++ [.step 1]) with
  | error failure =>
      rw [hrun] at hend
      cases hend
  | ok pool =>
      exact ⟨pool, rfl, failed_save_leaves_no_trace oneSlot (by decide) 0 hrun (by decide +kernel)⟩

end CatalogApi.Snapshots
