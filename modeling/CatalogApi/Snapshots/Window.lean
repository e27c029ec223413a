import CatalogApi.Snapshots.Store
import Mathlib.Algebra.Order.Ring.Int

/-!
# The counter and the snapshots it counts

Saves of one user one after the other, each at one instant. The counter's TTL is armed by the save that
creates it and every snapshot has a TTL of its own, so the counter goes while snapshots it counted are
still live: `stale` is their number. `live_within_cap` holds the cap for as long as every save that is
let through finds the stale snapshots and the counter together below it.
-/

namespace CatalogApi.Snapshots

open Programs

variable (store : SnapshotStore) (user : String)

/-! ## Saves one after the other -/

/-- A save after some time, alone, at one instant. -/
def saveAfter (keys : Keyspace) (elapsed : Nat) (call : SaveCall) : Saved × Keyspace :=
  (save store call).run exec (keys.tick elapsed)

/-- Saves one after the other, each after some time. -/
def saveAll (keys : Keyspace) (calls : List (Nat × SaveCall)) : Keyspace :=
  calls.foldl (fun keys call => (saveAfter store keys call.1 call.2).2) keys

/-- The live snapshots that the counter does not count: those that expire before it, or all when there
is none. -/
def Keyspace.stale (keys : Keyspace) (user : String) : Nat :=
  match (keys.counts user).bind (·.deadline) with
  | some deadline => keys.stored.countP fun snapshot => snapshot.deadline < deadline
  | none => keys.stored.length

/-- The save is small enough and the counter is below the cap. -/
def LetThrough (keys : Keyspace) (call : SaveCall) : Prop :=
  call.nodes ≤ store.maxNodes ∧ (call.payload keys.clock).length ≤ store.maxPayloadBytes ∧
    keys.count user < store.maxPerUser

instance (keys : Keyspace) (call : SaveCall) : Decidable (LetThrough store user keys call) :=
  inferInstanceAs (Decidable (_ ∧ _ ∧ _))

/-- A save that is let through finds fewer stale snapshots than the counter leaves of the cap. -/
def Covered (keys : Keyspace) (call : SaveCall) : Prop :=
  LetThrough store user keys call → keys.stale user + keys.count user < store.maxPerUser

/-- The keys after a save that is let through. -/
def Keyspace.saved (keys : Keyspace) (call : SaveCall) : Keyspace :=
  ((keys.put ⟨call.token, call.payload keys.clock, keys.clock + store.ttlSeconds⟩).addCount
    user 1).armCount user (keys.clock + store.ttlSeconds)

variable {store user} {keys : Keyspace} {call : SaveCall}

/-- Below the cap, the rest of the save writes the snapshot and counts it. -/
theorem run_saveCounted (hfull : keys.full = false) (hcount : keys.count user < store.maxPerUser) :
    ((saveCounted store call keys.clock user).run exec keys).2 = keys.saved store user call := by
  have hbelow : ((keys.counts user).map (·.value)).filter (store.maxPerUser ≤ ·) = none := by
    rw [Keyspace.count] at hcount
    cases hcounter : keys.counts user with
    | none => rfl
    | some counter =>
        rw [hcounter] at hcount
        have hvalue : counter.value < store.maxPerUser := hcount
        rw [Option.map_some, Option.filter_some, if_neg]
        simpa using hvalue
  rw [saveCounted, Program.run_bind]
  have hget : (Valkey.get user).run exec keys = ((keys.counts user).map (·.value), keys) := rfl
  rw [hget]
  dsimp only
  rw [hbelow]
  dsimp only
  rw [Program.run_bind]
  have hset : (Valkey.set call.token (call.payload keys.clock) store.ttlSeconds).run exec keys =
      (true, keys.put ⟨call.token, call.payload keys.clock, keys.clock + store.ttlSeconds⟩) := by
    change (exec (.set call.token (call.payload keys.clock) store.ttlSeconds) keys) = _
    rw [exec, hfull]
    rfl
  rw [hset]
  dsimp only
  rw [if_pos rfl, Program.run_bind]
  set put := keys.put ⟨call.token, call.payload keys.clock, keys.clock + store.ttlSeconds⟩ with hput
  have hincr : (Valkey.incr user).run exec put =
      (some (put.count user + 1), put.addCount user 1) := by
    change (exec (.incr user) put) = _
    rw [exec, hput, Keyspace.put, hfull]
    rfl
  rw [hincr]
  dsimp only
  rw [Program.run_bind]
  have hroom : ¬ store.maxPerUser < put.count user + 1 := by
    have hsame : put.count user = keys.count user := rfl
    omega
  rw [if_neg hroom]
  rfl

/-- A save alone: let through or without effect. -/
theorem run_save (hfull : keys.full = false) (hcap : 1 ≤ store.maxPerUser) (huser : user ≠ "")
    (hcall : call.userId = some user) :
    ((save store call).run exec keys).2 =
      if LetThrough store user keys call then keys.saved store user call else keys := by
  rw [save]
  by_cases hnodes : store.maxNodes < call.nodes
  · rw [if_pos hnodes, if_neg fun h => absurd h.1 (Nat.not_le.mpr hnodes)]
    rfl
  rw [if_neg hnodes, Program.run_bind]
  have htime : time.run exec keys = (keys.clock, keys) := rfl
  rw [htime]
  dsimp only
  by_cases hlarge : store.maxPayloadBytes < (call.payload keys.clock).length
  · rw [if_pos hlarge, if_neg fun h => absurd h.2.1 (Nat.not_le.mpr hlarge)]
    rfl
  rw [if_neg hlarge, hcall, Option.filter_some, if_pos (decide_eq_true huser)]
  dsimp only
  by_cases hcount : keys.count user < store.maxPerUser
  · rw [if_pos ⟨Nat.le_of_not_lt hnodes, Nat.le_of_not_lt hlarge, hcount⟩]
    exact run_saveCounted hfull hcount
  · rw [if_neg fun h => hcount h.2.2, saveCounted, Program.run_bind]
    have hget : (Valkey.get user).run exec keys = ((keys.counts user).map (·.value), keys) := rfl
    rw [hget]
    dsimp only
    rw [Keyspace.count] at hcount
    cases hcounter : keys.counts user with
    | none =>
        rw [hcounter] at hcount
        exact absurd (show (0 : Int) < store.maxPerUser from hcap) hcount
    | some counter =>
        rw [hcounter] at hcount
        have hvalue : store.maxPerUser ≤ counter.value := Int.not_lt.mp hcount
        rw [Option.map_some, Option.filter_some, if_pos (decide_eq_true hvalue)]
        rfl

/-! ## The invariant -/

/-- The counter counts at least the snapshots that do not expire before it, and without one every
snapshot is older than the present instant. -/
structure Windowed (store : SnapshotStore) (user : String) (keys : Keyspace) : Prop where
  room : keys.full = false
  short : ∀ snapshot ∈ keys.stored, snapshot.deadline ≤ keys.clock + store.ttlSeconds
  counter : ∀ counter ∈ keys.counts user, ∃ deadline, counter.deadline = some deadline ∧
    keys.clock < deadline ∧ deadline ≤ keys.clock + store.ttlSeconds ∧
    (keys.stored.countP fun snapshot => deadline ≤ snapshot.deadline) ≤ counter.value
  lapsed : keys.counts user = none →
    ∀ snapshot ∈ keys.stored, snapshot.deadline < keys.clock + store.ttlSeconds
  capped : keys.stored.length ≤ store.maxPerUser

theorem windowed_empty (hcap : 1 ≤ store.maxPerUser) (clock : Int) :
    Windowed store user (Keyspace.empty clock) where
  room := rfl
  short := fun snapshot hsnapshot => absurd hsnapshot (List.not_mem_nil)
  counter := fun counter hcounter => absurd hcounter (Option.not_mem_none counter)
  lapsed := fun _ snapshot hsnapshot => absurd hsnapshot (List.not_mem_nil)
  capped := by
    change ((0 : Nat) : Int) ≤ store.maxPerUser
    omega

/-- Time keeps the invariant: the counter goes only when its TTL ends, and the snapshots saved later
than its first are not older than it. -/
theorem Windowed.tick (h : Windowed store user keys) (elapsed : Nat) :
    Windowed store user (keys.tick elapsed) where
  room := h.room
  short := by
    intro snapshot hsnapshot
    have hshort := h.short snapshot (List.mem_of_mem_filter hsnapshot)
    change snapshot.deadline ≤ keys.clock + elapsed + store.ttlSeconds
    omega
  counter := by
    intro counter hcounter
    obtain ⟨hheld, hlives⟩ := Option.filter_eq_some_iff.mp hcounter
    obtain ⟨deadline, hdeadline, _, hshort, hcount⟩ := h.counter counter hheld
    have hlater : keys.clock + elapsed < deadline := by
      rw [Keyspace.lives, hdeadline] at hlives
      exact of_decide_eq_true hlives
    refine ⟨deadline, hdeadline, hlater, ?_, le_trans ?_ hcount⟩
    · change deadline ≤ keys.clock + elapsed + store.ttlSeconds
      omega
    · exact Int.ofNat_le.mpr (List.Sublist.countP_le List.filter_sublist)
  lapsed := by
    intro hnone snapshot hsnapshot
    have hheld := List.mem_of_mem_filter hsnapshot
    change snapshot.deadline < keys.clock + elapsed + store.ttlSeconds
    cases hcounter : keys.counts user with
    | none =>
        have hshort := h.lapsed hcounter snapshot hheld
        omega
    | some counter =>
        obtain ⟨deadline, hdeadline, hlater, _, _⟩ := h.counter counter hcounter
        have hgone : Keyspace.lives (keys.clock + elapsed) counter = false := by
          have hfilter : (keys.counts user).filter (Keyspace.lives (keys.clock + elapsed)) = none :=
            hnone
          rw [hcounter, Option.filter_some] at hfilter
          by_contra hlives
          rw [if_pos (Bool.not_eq_false _ ▸ hlives)] at hfilter
          cases hfilter
        have hpast : deadline ≤ keys.clock + elapsed := by
          rw [Keyspace.lives, hdeadline] at hgone
          exact Int.not_lt.mp (of_decide_eq_false hgone)
        have hshort := h.short snapshot hheld
        omega
  capped := by
    have hsub : (keys.tick elapsed).stored.length ≤ keys.stored.length :=
      List.length_filter_le _ _
    have hcapped := h.capped
    omega

/-- The snapshots of a save that is let through: those of other tokens and its own. -/
theorem saved_stored :
    (keys.saved store user call).stored = (keys.remove call.token).stored ++
      [⟨call.token, call.payload keys.clock, keys.clock + store.ttlSeconds⟩] := by
  rw [Keyspace.saved, Keyspace.armCount]
  split <;> rfl

/-- The counter after a save that is let through, which the first save alone arms. -/
theorem saved_counts :
    (keys.saved store user call).counts user =
      some ⟨keys.count user + 1, some (((keys.counts user).bind (·.deadline)).getD
        (keys.clock + store.ttlSeconds))⟩ := by
  rw [Keyspace.saved]
  set put := keys.put ⟨call.token, call.payload keys.clock, keys.clock + store.ttlSeconds⟩
  have hadded : (put.addCount user 1).counts user =
      some ⟨keys.count user + 1, (keys.counts user).bind (·.deadline)⟩ := if_pos rfl
  rw [Keyspace.armCount, hadded]
  cases hdeadline : (keys.counts user).bind (·.deadline) with
  | none => exact if_pos rfl
  | some deadline =>
      rw [hdeadline] at hadded
      exact hadded

theorem saved_clock : (keys.saved store user call).clock = keys.clock := by
  rw [Keyspace.saved, Keyspace.armCount]
  split <;> rfl

theorem saved_full : (keys.saved store user call).full = keys.full := by
  rw [Keyspace.saved, Keyspace.armCount]
  split <;> rfl

/-- The snapshots that the counter does not leave out are at most as many as it counts. -/
theorem Windowed.length_le (h : Windowed store user keys) :
    (keys.stored.length : Int) ≤ keys.stale user + keys.count user := by
  cases hcounter : keys.counts user with
  | none =>
      rw [Keyspace.stale, Keyspace.count, hcounter]
      exact Int.le_of_eq (Int.add_zero _).symm
  | some counter =>
      obtain ⟨deadline, hdeadline, _, _, hcount⟩ := h.counter counter hcounter
      rw [Keyspace.stale, Keyspace.count, hcounter, Option.bind_some, hdeadline]
      have hsplit : keys.stored.length = _ + _ := List.length_eq_countP_add_countP
        fun snapshot : Snapshot => decide (snapshot.deadline < deadline)
      have hrest : (keys.stored.countP fun snapshot => ¬ (decide (snapshot.deadline < deadline)) = true)
          = keys.stored.countP fun snapshot => deadline ≤ snapshot.deadline := by
        refine List.countP_congr fun snapshot _ => ?_
        simp
      rw [hrest] at hsplit
      change (keys.stored.length : Int) ≤
        ((keys.stored.countP fun snapshot => snapshot.deadline < deadline : Nat) : Int) + counter.value
      omega

/-- A save let through under `Covered` keeps the invariant. -/
theorem Windowed.saved (h : Windowed store user keys) (hlet : LetThrough store user keys call)
    (hcovered : Covered store user keys call) :
    Windowed store user (keys.saved store user call) where
  room := saved_full.trans h.room
  short := by
    rw [saved_stored, saved_clock]
    intro snapshot hsnapshot
    rcases List.mem_append.mp hsnapshot with hold | hnew
    · exact h.short snapshot (List.mem_of_mem_filter hold)
    · rw [List.mem_singleton.mp hnew]
  counter := by
    rw [saved_counts, saved_stored, saved_clock]
    rintro counter ⟨⟩
    refine ⟨_, rfl, ?_⟩
    rw [List.countP_append]
    have hone : (List.countP (α := Snapshot) (fun snapshot => decide
        (((keys.counts user).bind (·.deadline)).getD (keys.clock + store.ttlSeconds) ≤
          snapshot.deadline))
        [⟨call.token, call.payload keys.clock, keys.clock + store.ttlSeconds⟩]) ≤ 1 :=
      List.countP_le_length
    have hkept : ∀ p : Snapshot → Bool,
        List.countP p (keys.remove call.token).stored ≤ List.countP p keys.stored := fun p =>
      List.Sublist.countP_le List.filter_sublist
    cases hcounter : keys.counts user with
    | none =>
        have hnone : (keys.stored.countP fun snapshot =>
            keys.clock + store.ttlSeconds ≤ snapshot.deadline) = 0 := by
          refine List.countP_eq_zero.mpr fun snapshot hsnapshot hle => ?_
          have hshort := h.lapsed hcounter snapshot hsnapshot
          have hlong := of_decide_eq_true hle
          omega
        have hle := hkept fun snapshot => keys.clock + store.ttlSeconds ≤ snapshot.deadline
        rw [hcounter] at hone
        rw [Keyspace.count, hcounter]
        have hpos := store.ttl_pos
        refine ⟨?_, le_refl _, ?_⟩
        · change keys.clock < keys.clock + store.ttlSeconds
          omega
        · simp only [Option.bind_none, Option.getD_none, Option.map_none] at hone ⊢
          omega
    | some held =>
        obtain ⟨deadline, hdeadline, hlater, hshort, hcount⟩ := h.counter held hcounter
        have hle := hkept fun snapshot => deadline ≤ snapshot.deadline
        rw [hcounter, Option.bind_some, hdeadline] at hone
        rw [Keyspace.count, hcounter, Option.bind_some, hdeadline]
        refine ⟨hlater, hshort, ?_⟩
        simp only [Option.getD_some, Option.map_some] at hone ⊢
        omega
  lapsed := by
    intro hnone
    rw [saved_counts] at hnone
    cases hnone
  capped := by
    have hroom := hcovered hlet
    have hlength := h.length_le
    have hkept : (keys.remove call.token).stored.length ≤ keys.stored.length :=
      List.length_filter_le _ _
    rw [saved_stored, List.length_append, List.length_singleton]
    omega

/-! ## Runs -/

/-- Every save of the run finds the cap covered. -/
def AllCovered (store : SnapshotStore) (user : String) : Keyspace → List (Nat × SaveCall) → Prop
  | _, [] => True
  | keys, (elapsed, call) :: rest =>
      Covered store user (keys.tick elapsed) call ∧
        AllCovered store user (saveAfter store keys elapsed call).2 rest

instance AllCovered.decide : (keys : Keyspace) → (calls : List (Nat × SaveCall)) →
    Decidable (AllCovered store user keys calls)
  | _, [] => inferInstanceAs (Decidable True)
  | keys, (elapsed, call) :: rest =>
      haveI : Decidable (AllCovered store user (saveAfter store keys elapsed call).2 rest) :=
        AllCovered.decide _ rest
      inferInstanceAs (Decidable ((_ → _) ∧ _))

/-- The invariant holds after every save of a covered run. -/
theorem windowed_along (hcap : 1 ≤ store.maxPerUser) (huser : user ≠ "")
    (h : Windowed store user keys) {calls : List (Nat × SaveCall)}
    (hcalls : ∀ call ∈ calls, call.2.userId = some user)
    (hcovered : AllCovered store user keys calls) :
    Windowed store user (saveAll store keys calls) := by
  induction calls generalizing keys with
  | nil => exact h
  | cons timed rest ih =>
      obtain ⟨elapsed, call⟩ := timed
      obtain ⟨hcall, hrest⟩ := List.forall_mem_cons.mp hcalls
      refine ih ?_ hrest hcovered.2
      have hticked := h.tick elapsed
      change Windowed store user ((save store call).run exec (keys.tick elapsed)).2
      rw [run_save hticked.room hcap huser hcall]
      split
      · rename_i hlet
        exact hticked.saved hlet hcovered.1
      · exact hticked

/-- At every instant of a run whose saves are all covered, the user has at most `max_per_user` live
snapshots. -/
theorem live_within_cap (store : SnapshotStore) (hcap : 1 ≤ store.maxPerUser) (user : String)
    (huser : user ≠ "") (clock : Int) (calls : List (Nat × SaveCall))
    (hcalls : ∀ call ∈ calls, call.2.userId = some user)
    (hcovered : AllCovered store user (Keyspace.empty clock) calls) (elapsed : Nat) :
    (((saveAll store (Keyspace.empty clock) calls).tick elapsed).stored.length : Int) ≤
      store.maxPerUser :=
  ((windowed_along hcap huser (windowed_empty hcap clock) hcalls hcovered).tick elapsed).capped

theorem day_pos : 1 ≤ 86400 := by decide

/-- A store that keeps snapshots for a day, two a user. -/
def dayStore : SnapshotStore := ⟨86400, 100, 1000, 2, day_pos⟩

/-- A save of one node for the user `u`. -/
def smallSave (token : String) : SaveCall := ⟨1, fun _ => [], token, some "u"⟩

/-- A full counter, then one save more than a day after each of the saves it counted. -/
theorem spaced_saves_within_cap :
    (((saveAll dayStore (Keyspace.empty 0)
      [(0, smallSave "a"), (100, smallSave "b"), (5, smallSave "c"), (86400, smallSave "d"),
        (7, smallSave "e")]).tick 3).stored.length : Int) ≤ dayStore.maxPerUser :=
  live_within_cap dayStore (by decide) "u" (by decide) 0 _ (by decide) (by decide) 3

/-- Two saves just before the counter's end and two just after it: three of them are live. -/
theorem late_save_outlives_counter :
    (saveAll dayStore (Keyspace.empty 0)
      [(0, smallSave "a"), (86399, smallSave "b"), (1, smallSave "c"), (0, smallSave "d")]).stored.map
        (·.token) = ["b", "c", "d"] ∧
    ¬ (((saveAll dayStore (Keyspace.empty 0)
      [(0, smallSave "a"), (86399, smallSave "b"), (1, smallSave "c"),
        (0, smallSave "d")]).tick 0).stored.length : Int) ≤ dayStore.maxPerUser := by
  decide

end CatalogApi.Snapshots
