import CatalogApi.GenreTree.Store

/-!
# Whose lock is released

The DELETE of `_release_lock` does not look at the key. It removes the lock of the call that issues it,
and a build keeps the lock it took, exactly in the runs where every DELETE that reaches Valkey comes less
than `LOCK_SECONDS` after that call's own SET, or finds no lock (`lock_released_by_holder`).
-/

namespace CatalogApi.GenreTree

open Runs

variable {Tree : Type}

/-! ## The two guarantees and the condition -/

/-- A DELETE removes the lock only while the same call has set it. -/
def ReleasesOwn (state : State Tree) (action : Action Tree) : Prop :=
  ∀ index fate next, action = .releaseLock index fate → step state action = .ok next →
    ∀ lock, state.live = some lock → next.live = none → lock.setBy = index

/-- When a call that has not finished took the lock, if it did. -/
def Phase.took : Phase Tree → Option Nat
  | .building _ took | .storing _ took | .releasing _ took => took
  | _ => none

/-- A build that took the lock less than `LOCK_SECONDS` ago and has not finished holds it. -/
def Holding (state : State Tree) : Prop :=
  ∀ (index : Nat) (call : Call Tree) (took : Nat), state.calls[index]? = some call →
    call.phase.took = some took → state.now < took + lockSeconds → ∃ lock, state.live = some lock ∧ lock.setBy = index

/-- A DELETE that reaches Valkey is of a call that took the lock less than `LOCK_SECONDS` ago, or finds
no lock. -/
def InTime (state : State Tree) : Action Tree → Prop
  | .releaseLock index fate =>
      match state.calls[index]? with
      | some ⟨_, true, _, _, .releasing _ took⟩ =>
          fate.applies → state.live = none ∨ took.any fun took => state.now < took + lockSeconds
      | _ => True
  | _ => True

instance (state : State Tree) (action : Action Tree) : Decidable (InTime state action) := by
  unfold InTime
  repeat' split
  all_goals infer_instance

/-! ## The invariant -/

/-- A call at this point may have set a lock that expires then. -/
def Phase.Sets (expiresAt : Nat) : Phase Tree → Prop
  | .loading | .signing | .locking _ => False
  | .building _ took | .storing _ took | .releasing _ took =>
      took.map (· + lockSeconds) = some expiresAt
  | .returned _ => True

/-- What holds between two steps. -/
structure Inv (state : State Tree) : Prop where
  owner : ∀ lock, state.lock = some lock → ∃ call : Call Tree, state.calls[lock.setBy]? = some call ∧
    call.phase.Sets lock.expiresAt
  past : ∀ (index : Nat) (call : Call Tree) (took : Nat), state.calls[index]? = some call →
    call.phase.took = some took → took ≤ state.now
  holding : Holding state

section Steps

variable {state : State Tree} {index : Nat} {call : Call Tree} {phase : Phase Tree}

theorem live_some {lock : Lock} :
    state.live = some lock ↔ state.lock = some lock ∧ state.now < lock.expiresAt := by
  rw [State.live, Option.filter_eq_some_iff, decide_eq_true_iff]

/-- A call is replaced by itself at a later point. -/
theorem get_go_on {i : Nat} {other : Call Tree}
    (h : (state.goOn index call phase).calls[i]? = some other) :
    (i = index ∧ other = { call with phase }) ∨ (i ≠ index ∧ state.calls[i]? = some other) := by
  rw [State.goOn, List.getElem?_set] at h
  split at h
  · rename_i heq
    split at h
    · exact Or.inl ⟨heq.symm, (Option.some.inj h).symm⟩
    · cases h
  · rename_i hne
    exact Or.inr ⟨Ne.symm hne, h⟩

/-- A call goes on, and leaves the lock alone. -/
theorem Inv.go_on (h : Inv state) (hcall : state.calls[index]? = some call)
    (hsets : ∀ expiresAt, call.phase.Sets expiresAt → phase.Sets expiresAt)
    (htook : phase.took = call.phase.took ∨ phase.took = none) :
    Inv (state.goOn index call phase) := by
  have hlt := (List.getElem?_eq_some_iff.mp hcall).1
  have hbefore : ∀ (i : Nat) (other : Call Tree) (took : Nat),
      (state.goOn index call phase).calls[i]? = some other → other.phase.took = some took → ∃ old, state.calls[i]? = some old ∧ old.phase.took = some took := by
    intro i other took hother hsome
    obtain ⟨rfl, rfl⟩ | ⟨-, hold⟩ := get_go_on hother
    · obtain hsame | hnone := htook
      · exact ⟨call, hcall, hsame.symm.trans hsome⟩
      · cases hnone.symm.trans hsome
    · exact ⟨other, hold, hsome⟩
  constructor
  case owner =>
    intro lock hlock
    obtain ⟨setter, hsetter, hset⟩ := h.owner lock hlock
    by_cases heq : lock.setBy = index
    · rw [heq] at hsetter ⊢
      obtain rfl := Option.some.inj (hsetter.symm.trans hcall)
      exact ⟨_, List.getElem?_set_self hlt, hsets _ hset⟩
    · exact ⟨setter, (List.getElem?_set_ne (Ne.symm heq)).trans hsetter, hset⟩
  case past =>
    intro i other took hother hsome
    obtain ⟨old, hold, hsame⟩ := hbefore i other took hother hsome
    exact h.past i old took hold hsame
  case holding =>
    intro i other took hother hsome hyoung
    obtain ⟨old, hold, hsame⟩ := hbefore i other took hother hsome
    exact h.holding i old took hold hsame hyoung

/-- What is held in the processes and stored beside the lock does not matter. -/
theorem Inv.congr {next : State Tree} (h : Inv state) (hnow : next.now = state.now)
    (hlock : next.lock = state.lock) (hcalls : next.calls = state.calls) : Inv next := by
  obtain ⟨howner, hpast, hholding⟩ := h
  have hlive : next.live = state.live := by rw [State.live, State.live, hlock, hnow]
  constructor
  case owner =>
    rw [hlock, hcalls]
    exact howner
  case past =>
    rw [hnow, hcalls]
    exact hpast
  case holding =>
    unfold Holding
    rw [hnow, hcalls, hlive]
    exact hholding

/-- A call takes a free lock. -/
theorem Inv.takes (h : Inv state) (hcall : state.calls[index]? = some call)
    (hfree : state.live = none)
    (hphase : phase.Sets (state.now + lockSeconds))
    (htook : phase.took = some state.now ∨ phase.took = none) :
    Inv ((state.setLock index).goOn index call phase) := by
  have hlt := (List.getElem?_eq_some_iff.mp hcall).1
  have hset : state.setLock index =
      { state with lock := some { setBy := index, expiresAt := state.now + lockSeconds } } := by
    rw [State.setLock, hfree]
  have hlive : ((state.setLock index).goOn index call phase).live =
      some { setBy := index, expiresAt := state.now + lockSeconds } := by
    rw [live_some, hset]
    exact ⟨rfl, Nat.lt_add_of_pos_right (by decide)⟩
  have hnow : ((state.setLock index).goOn index call phase).now = state.now := by rw [hset]; rfl
  have hcalls : (state.setLock index).calls = state.calls := by rw [hset]
  constructor
  case owner =>
    intro lock hlock
    rw [hset] at hlock ⊢
    obtain rfl := Option.some.inj hlock
    exact ⟨_, List.getElem?_set_self hlt, hphase⟩
  case past =>
    intro i other took hother hsome
    rw [hnow]
    obtain ⟨rfl, rfl⟩ | ⟨-, hold⟩ := get_go_on hother
    · obtain hnew | hnone := htook
      · obtain rfl := Option.some.inj (hnew.symm.trans hsome)
        exact Nat.le_refl _
      · cases hnone.symm.trans hsome
    · exact h.past i other took (hcalls ▸ hold) hsome
  case holding =>
    intro i other took hother hsome hyoung
    obtain ⟨rfl, rfl⟩ | ⟨-, hold⟩ := get_go_on hother
    · exact ⟨_, hlive, rfl⟩
    · obtain ⟨lock, hlock, -⟩ := h.holding i other took (hcalls ▸ hold) hsome (hnow ▸ hyoung)
      cases hfree.symm.trans hlock

/-- A call deletes the lock, or finds it deleted, where no other call holds it. -/
theorem Inv.deletes (h : Inv state) (hcall : state.calls[index]? = some call) {rebuilt : Bool}
    (hown : ∀ lock, state.live = some lock → lock.setBy = index) :
    Inv ({ state with lock := none }.goOn index call (.returned rebuilt)) := by
  constructor
  case owner => exact nofun
  case past =>
    intro i other took hother hsome
    obtain ⟨rfl, rfl⟩ | ⟨-, hold⟩ := get_go_on hother
    · cases hsome
    · exact h.past i other took hold hsome
  case holding =>
    intro i other took hother hsome hyoung
    obtain ⟨rfl, rfl⟩ | ⟨hne, hold⟩ := get_go_on hother
    · cases hsome
    · obtain ⟨lock, hlock, hset⟩ := h.holding i other took hold hsome hyoung
      exact absurd (hset.symm.trans (hown lock hlock)) hne

/-- The lock that a call took expires `LOCK_SECONDS` later. -/
theorem Inv.expires (h : Inv state) {lock : Lock} (hlock : state.lock = some lock)
    (hcall : state.calls[lock.setBy]? = some call) {took : Nat} (htook : call.phase.took = some took) :
    lock.expiresAt = took + lockSeconds := by
  obtain ⟨setter, hsetter, hset⟩ := h.owner lock hlock
  obtain rfl := Option.some.inj (hsetter.symm.trans hcall)
  cases hphase : setter.phase <;> rw [hphase] at hset htook
  case building | storing | releasing =>
    cases htook
    exact (Option.some.inj hset).symm
  all_goals cases htook

/-- A step is taken from where a call awaits. -/
theorem at_ok {next : Call Tree → Option (State Tree)} {after : State Tree}
    (h : state.at' index next = .ok after) :
    ∃ call, state.calls[index]? = some call ∧ next call = some after := by
  rw [State.at'] at h
  split at h
  · rename_i hbind
    obtain rfl := Except.ok.inj h
    exact Option.bind_eq_some_iff.mp hbind
  · cases h

/-- A SET of the lock keeps the invariant. -/
theorem Inv.take_lock (h : Inv state) (hcall : state.calls[index]? = some call) {signature : String}
    (hphase : call.phase = .locking signature) (fate : Fate) :
    Inv (state.takeLock index call signature fate) := by
  have hgo : ∀ phase : Phase Tree, phase.took = none → Inv (state.goOn index call phase) := by
    intro phase htook
    exact h.go_on hcall (by rw [hphase]; exact nofun) (Or.inr htook)
  unfold State.takeLock
  split
  · exact hgo _ rfl
  cases fate with
  | answers =>
      cases hlive : state.live with
      | none =>
          simp only [Fate.applies]
          exact h.takes hcall hlive rfl (Or.inl rfl)
      | some lock =>
          simp only [Fate.applies, hlive, State.setLock]
          exact hgo _ rfl
  | fails applied cancelled =>
      cases applied with
      | false => cases cancelled with
        | false => exact hgo _ rfl
        | true => exact hgo _ rfl
      | true =>
          cases hlive : state.live with
          | none => cases cancelled with
            | false =>
                simp only [Fate.applies]
                exact h.takes hcall hlive rfl (Or.inl rfl)
            | true =>
                simp only [Fate.applies]
                exact h.takes hcall hlive trivial (Or.inr rfl)
          | some lock => cases cancelled with
            | false =>
                simp only [Fate.applies, hlive, State.setLock]
                exact hgo _ rfl
            | true =>
                simp only [Fate.applies, hlive, State.setLock]
                exact hgo _ rfl

/-- The call that a release belongs to. -/
theorem release_cases {fate : Fate} {next : State Tree}
    (h : step state (.releaseLock index fate) = .ok next) :
    ∃ call rebuilt took, state.calls[index]? = some call ∧ call.phase = .releasing rebuilt took ∧
      next = state.releaseLock index call rebuilt fate := by
  obtain ⟨call, hcall, hnext⟩ := at_ok h
  split at hnext
  · rename_i rebuilt took hphase
    exact ⟨call, rebuilt, took, hcall, hphase, (Option.some.inj hnext).symm⟩
  · cases hnext

/-- A DELETE that reaches Valkey leaves no lock, any other release the one there is. -/
theorem live_release_lock (state : State Tree) (index : Nat) (call : Call Tree) (rebuilt : Bool)
    (fate : Fate) :
    (state.releaseLock index call rebuilt fate).live =
      if call.valkey && fate.applies then none else state.live := by
  unfold State.releaseLock State.goOn State.live
  dsimp only
  split <;> rfl

/-- One step in which the lock of no other call is released. -/
theorem Inv.step {action : Action Tree} {next : State Tree} (h : Inv state)
    (hown : ReleasesOwn state action) (hstep : step state action = .ok next) : Inv next := by
  cases action with
  | start replica valkey maxAge force =>
      obtain rfl := Except.ok.inj hstep
      -- the new call has taken nothing yet
      have hnew : ∀ (i : Nat) (other : Call Tree) (took : Nat),
          (state.calls ++ [{ replica, valkey, maxAge, force, phase := .loading }])[i]? = some other →
          other.phase.took = some took → state.calls[i]? = some other := by
        intro i other took hother hsome
        rw [List.getElem?_append] at hother
        split at hother
        · exact hother
        · obtain rfl := List.mem_singleton.mp (List.mem_of_getElem? hother)
          cases hsome
      constructor
      case owner =>
        intro lock hlock
        obtain ⟨setter, hsetter, hset⟩ := h.owner lock hlock
        have hlt := (List.getElem?_eq_some_iff.mp hsetter).1
        exact ⟨setter, (List.getElem?_append_left hlt).trans hsetter, hset⟩
      case past =>
        intro i other took hother hsome
        exact h.past i other took (hnew i other took hother hsome) hsome
      case holding =>
        intro i other took hother hsome hyoung
        exact h.holding i other took (hnew i other took hother hsome) hsome hyoung
  | load index fate =>
      obtain ⟨call, hcall, hnext⟩ := at_ok hstep
      split at hnext
      · rename_i hphase
        obtain rfl := Option.some.inj hnext
        -- a call before its SET may go to any phase that holds no lock
        have hgo : ∀ phase : Phase Tree, phase.took = none → Inv (state.goOn index call phase) :=
          fun phase htook => h.go_on hcall (by rw [hphase]; exact nofun) (Or.inr htook)
        refine (hgo _ ?_).congr rfl rfl rfl
        split <;> rfl
      · cases hnext
  | sign index fate =>
      obtain ⟨call, hcall, hnext⟩ := at_ok hstep
      split at hnext
      · rename_i hphase
        obtain rfl := Option.some.inj hnext
        refine h.go_on hcall (by rw [hphase]; exact nofun) (Or.inr ?_)
        split <;> rfl
      · cases hnext
  | takeLock index fate =>
      obtain ⟨call, hcall, hnext⟩ := at_ok hstep
      split at hnext
      · rename_i signature hphase
        obtain rfl := Option.some.inj hnext
        exact h.take_lock hcall hphase fate
      · cases hnext
  | build index genres =>
      obtain ⟨call, hcall, hnext⟩ := at_ok hstep
      split at hnext
      · rename_i signature took hphase
        obtain rfl := Option.some.inj hnext
        have hgo : ∀ phase : Phase Tree, phase.took = took →
            (∀ expiresAt, took.map (· + lockSeconds) = some expiresAt → phase.Sets expiresAt) →
            Inv (state.goOn index call phase) := by
          intro phase htook hsets
          refine h.go_on hcall ?_ (Or.inl (htook.trans (by rw [hphase]; rfl)))
          rw [hphase]
          exact hsets
        cases genres with
        | none => exact hgo _ rfl fun _ hset => hset
        | some genres => exact (hgo (.storing ⟨genres, signature, state.now⟩ took) rfl
            fun _ hset => hset).congr rfl rfl rfl
      · cases hnext
  | store index fate =>
      obtain ⟨call, hcall, hnext⟩ := at_ok hstep
      split at hnext
      · rename_i snapshot took hphase
        obtain rfl := Option.some.inj hnext
        have hgo : Inv (state.goOn index call (.releasing (!(call.valkey && fate.cancelled)) took)) := by
          refine h.go_on hcall ?_ (Or.inl (by rw [hphase]; rfl))
          rw [hphase]
          exact fun _ hset => hset
        exact hgo.congr rfl rfl rfl
      · cases hnext
  | releaseLock index fate =>
      obtain ⟨call, rebuilt, took, hcall, hphase, rfl⟩ := release_cases hstep
      have hlive := live_release_lock state index call rebuilt fate
      by_cases hdeletes : call.valkey && fate.applies
      · rw [if_pos hdeletes] at hlive
        have hdeleted : state.releaseLock index call rebuilt fate =
            { state with lock := none }.goOn index call (.returned rebuilt) := by
          rw [State.releaseLock, if_pos hdeletes]
        rw [hdeleted]
        exact h.deletes hcall fun lock hlock => hown index fate _ rfl hstep lock hlock hlive
      · have hkept : state.releaseLock index call rebuilt fate =
            state.goOn index call (.returned rebuilt) := by
          rw [State.releaseLock, if_neg hdeletes]
        rw [hkept]
        exact h.go_on hcall (fun _ _ => trivial) (Or.inr rfl)
  | tick seconds =>
      obtain rfl := Except.ok.inj hstep
      constructor
      case owner => exact h.owner
      case past =>
        intro i other took hother hsome
        exact Nat.le_trans (h.past i other took hother hsome) (Nat.le_add_right _ _)
      case holding =>
        intro i other took hother hsome hyoung
        have hbefore : state.now < took + lockSeconds :=
          Nat.lt_of_le_of_lt (Nat.le_add_right _ _) hyoung
        obtain ⟨lock, hlock, rfl⟩ := h.holding i other took hother hsome hbefore
        have hheld := (live_some.mp hlock).1
        exact ⟨lock, live_some.mpr ⟨hheld, h.expires hheld hother hsome ▸ hyoung⟩, rfl⟩
  | imported signature =>
      obtain rfl := Except.ok.inj hstep
      exact h.congr rfl rfl rfl

/-- At one step, no other call's lock is released exactly where the release is in time. -/
theorem releases_own_iff {action : Action Tree} (h : Inv state) :
    ReleasesOwn state action ↔ InTime state action := by
  constructor
  · intro hown
    unfold InTime
    split
    case h_2 => trivial
    split
    case h_2 => trivial
    rename_i index fate _ replica maxAge force rebuilt took hcall
    intro happlies
    cases hlive : state.live with
    | none => exact Or.inl rfl
    | some lock =>
        obtain ⟨hlock, hyoung⟩ := live_some.mp hlive
        have hdeleted := live_release_lock state index
          ⟨replica, true, maxAge, force, .releasing rebuilt took⟩ rebuilt fate
        rw [happlies] at hdeleted
        have hstep : GenreTree.step state (.releaseLock index fate) = .ok
            (state.releaseLock index ⟨replica, true, maxAge, force, .releasing rebuilt took⟩ rebuilt
              fate) := by
          simp only [GenreTree.step, State.at', hcall, Option.bind_some]
        obtain rfl := hown index fate _ rfl hstep lock hlive hdeleted
        obtain ⟨setter, hsetter, hset⟩ := h.owner lock hlock
        obtain rfl := Option.some.inj (hsetter.symm.trans hcall)
        obtain ⟨instant, rfl, hexpires⟩ := Option.map_eq_some_iff.mp hset
        exact Or.inr (decide_eq_true (hexpires ▸ hyoung))
  · rintro hin index fate next rfl hstep lock hlive hnone
    obtain ⟨call, rebuilt, took, hcall, hphase, rfl⟩ := release_cases hstep
    rw [live_release_lock] at hnone
    split at hnone
    case isFalse => cases hnone.symm.trans hlive
    rename_i hdeletes
    obtain ⟨hvalkey, happlies⟩ := Bool.and_eq_true_iff.mp hdeletes
    obtain ⟨replica, valkey, maxAge, force, phase⟩ := call
    obtain rfl : valkey = true := hvalkey
    obtain rfl : phase = .releasing rebuilt took := hphase
    simp only [InTime, hcall] at hin
    obtain hfree | htook := hin happlies
    · cases hfree.symm.trans hlive
    · obtain ⟨instant, hinstant, hyoung⟩ := (Option.any_eq_true _ _).mp htook
      obtain ⟨other, hother, hset⟩ :=
        h.holding index _ instant hcall hinstant (of_decide_eq_true hyoung)
      obtain rfl := Option.some.inj (hother.symm.trans hlive)
      exact hset

end Steps

/-! ## Every run -/

theorem Inv.initial (now : Nat) (stored : Option (Snapshot Tree)) (signature : String) :
    Inv (.initial now stored signature) where
  owner := nofun
  past := nofun
  holding := nofun

/-- In a run no call releases the lock of another, and at its end every build that took the lock less
than `LOCK_SECONDS` ago and has not finished holds it, if and only if every release is in time. -/
theorem lock_released_by_holder (now : Nat) (stored : Option (Snapshot Tree)) (signature : String)
    (actions : List (Action Tree)) (state : State Tree)
    (h : execute step (.initial now stored signature) actions = .ok state) :
    (Along step ReleasesOwn (.initial now stored signature) actions ∧ Holding state) ↔
      Along step InTime (.initial now stored signature) actions := by
  have hstart := Inv.initial now stored signature
  constructor
  · rintro ⟨hown, -⟩
    refine along_mono hstart (fun state action next h hown hstep => h.step hown hstep) ?_ hown
    exact fun state action h => (releases_own_iff h).mp
  · intro hin
    have hkept : ∀ (state : State Tree) (action : Action Tree) (next : State Tree),
        Inv state → InTime state action → step state action = .ok next → Inv next :=
      fun state action next h hin hstep => h.step ((releases_own_iff h).mpr hin) hstep
    refine ⟨along_mono hstart hkept (fun state action h => (releases_own_iff h).mpr) hin, ?_⟩
    have hinv : Inv state := along_induction (motive := fun _ state => Inv state) hstart
      (fun _ action state next h hin hstep => hkept state action next h hin hstep) h hin
    exact hinv.holding

/-- Two replicas build one after the other. -/
def inTurn : List (Action String) :=
  [.start 0 true 86400 false, .load 0 .answers, .sign 0 .answers, .takeLock 0 .answers, .tick 60,
    .build 0 (some "tree"), .store 0 .answers, .releaseLock 0 .answers, .imported "new",
    .start 1 true 86400 false, .load 1 .answers, .sign 1 .answers, .takeLock 1 .answers]

/-- A build that runs over `LOCK_SECONDS`; a second replica takes the lock when it has expired. -/
def overrun : List (Action String) :=
  [.start 0 true 86400 false, .start 1 true 86400 false, .load 0 .answers, .load 1 .answers,
    .sign 0 .answers, .sign 1 .answers, .takeLock 0 .answers, .tick 901, .takeLock 1 .answers, .tick 10,
    .build 0 (some "tree"), .store 0 .answers, .releaseLock 0 .answers]

theorem released_in_turn :
    ∃ state, execute step (.initial 0 none "old") inTurn = .ok state ∧
      ((Along step ReleasesOwn (.initial 0 none "old") inTurn ∧ Holding state) ↔
        Along step InTime (.initial 0 none "old") inTurn) := by
  refine ⟨_, rfl, ?_⟩
  exact lock_released_by_holder 0 none "old" inTurn _ rfl

/-- The overrun build releases the lock of the second, which took it ten seconds ago. -/
theorem overrun_releases_other :
    ∃ state, execute step (.initial 0 none "old") overrun = .ok state ∧
      state.calls[1]?.map (·.phase) = some (.building "old" (some 901)) ∧ state.now = 911 ∧
      state.live = none ∧ ¬Holding state := by
  refine ⟨_, rfl, rfl, rfl, rfl, fun hholding => ?_⟩
  obtain ⟨lock, hlock, -⟩ := hholding 1 _ 901 rfl rfl (by decide)
  cases hlock

end CatalogApi.GenreTree
