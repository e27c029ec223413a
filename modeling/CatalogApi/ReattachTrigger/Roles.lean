import CatalogApi.ReattachTrigger.Run
import Mathlib.Data.List.Nodup

/-!
# What a maintenance run relies on

A call's role is what it may rely on between two commands of any of the calls: the session it has, the
grant under which that took the lock, the version it found unhandled, its job and what its entry says.
`Inv` holds of the state and all the roles together, and each lemma about it says what one command, or
one change from outside, leaves to rely on.
-/

namespace CatalogApi.ReattachTrigger

open Programs

/-- What a call relies on. -/
structure Role where
  session : Option Session := none
  grant : Option Nat := none
  version : Option Version := none
  job : Option Job := none
  progress : Option (List Milestone) := none

/-- No entry is the version's marker. -/
def Unmarked (state : State) (version : Version) : Prop :=
  ∀ entry ∈ state.entries, entry.action = .auto → entry.target ≠ extractionTarget version

/-- What a run has done under one grant of the lock when it writes its marker. -/
def finished (grant : Nat) : List Milestone :=
  [.started (some grant), .reattached true (some grant), .projected true (some grant),
    .marked (some grant)]

/-- What holds of a role: while its session is not lost it holds the lock, the version is unmarked, and
the entry says what the run has done. -/
structure Role.Holds (state : State) (role : Role) : Prop where
  held : ∀ session grant, role.session = some session → role.grant = some grant →
    session ∉ state.lost → state.heldBy session = some grant
  unmarked : ∀ session version, role.session = some session → role.version = some version →
    session ∉ state.lost → (state.heldBy session).isSome = true ∧ Unmarked state version
  numbered : ∀ job, role.job = some job → job < state.jobs
  fresh : ∀ job, role.job = some job → role.progress = none → ∀ entry ∈ state.entries, entry.id ≠ job
  entered : ∀ session job progress, role.session = some session → role.job = some job →
    role.progress = some progress → ∃ entry ∈ state.entries, entry.id = job ∧ entry.action = .started ∧
      (∀ version, role.version = some version → entry.target = extractionTarget version) ∧
      (session ∉ state.lost → entry.milestones = progress)

/-- What holds between two commands. -/
structure Inv (state : State) (roles : List Role) : Prop where
  ids : (state.entries.map (·.id)).Nodup
  fresh : ∀ entry ∈ state.entries, entry.id < state.jobs
  marked : ∀ entry ∈ state.entries, entry.action = .auto → ∃ grant, entry.milestones = finished grant
  single : ∀ a ∈ state.entries, ∀ b ∈ state.entries, a.action = .auto → b.action = .auto →
    a.target = b.target → a.id = b.id
  refs : ∀ ref ∈ state.refs, ∃ entry ∈ state.entries, entry.id = ref
  lock : ∀ lock, state.lock = some lock → lock.session ∉ state.lost
  sessions : ∀ (i j : Nat) (a b : Role) (session : Session), roles[i]? = some a →
    roles[j]? = some b → a.session = some session → b.session = some session → i = j
  busy : ∀ role ∈ roles, ∀ session, role.session = some session → session ∈ state.busy
  jobs : ∀ (i j : Nat) (a b : Role) (job : Job), roles[i]? = some a → roles[j]? = some b →
    a.job = some job → b.job = some job → i = j
  roles : ∀ role ∈ roles, role.Holds state

variable {state after : State} {roles : List Role} {index : Nat} {role next : Role}

/-- A role holds as before where nothing that it speaks of has changed. -/
theorem Role.Holds.congr (h : role.Holds state) (hentries : after.entries = state.entries)
    (hlock : after.lock = state.lock) (hlost : after.lost = state.lost)
    (hjobs : state.jobs ≤ after.jobs) : role.Holds after := by
  have hheld : ∀ session, after.heldBy session = state.heldBy session := fun session => by
    rw [State.heldBy, hlock, State.heldBy]
  have hunmarked : ∀ version, Unmarked after version ↔ Unmarked state version := fun version => by
    rw [Unmarked, hentries, Unmarked]
  refine ⟨?_, ?_, fun job hjob => Nat.lt_of_lt_of_le (h.numbered job hjob) hjobs, ?_, ?_⟩
  · simpa only [hheld, hlost] using h.held
  · simpa only [hheld, hlost, hunmarked] using h.unmarked
  · simpa only [hentries] using h.fresh
  · simpa only [hentries, hlost] using h.entered

/-- A call that relies on nothing but its session. -/
theorem Role.Holds.only (session : Option Session) : ({ session } : Role).Holds state :=
  ⟨nofun, nofun, nofun, nofun, nofun⟩

/-- A call goes on: the rule for every command that changes what the invariant speaks of. -/
theorem Inv.update (h : Inv state roles) (hrole : roles[index]? = some role)
    (hids : (after.entries.map (·.id)).Nodup)
    (hfresh : ∀ entry ∈ after.entries, entry.id < after.jobs)
    (hmarked : ∀ entry ∈ after.entries, entry.action = .auto →
      ∃ grant, entry.milestones = finished grant)
    (hsingle : ∀ a ∈ after.entries, ∀ b ∈ after.entries, a.action = .auto → b.action = .auto →
      a.target = b.target → a.id = b.id)
    (hrefs : ∀ ref ∈ after.refs, ∃ entry ∈ after.entries, entry.id = ref)
    (hlock : ∀ lock, after.lock = some lock → lock.session ∉ after.lost)
    (hsession : ∀ session, next.session = some session → session ∈ after.busy ∧
      (role.session = some session ∨
        ∀ (i : Nat) (other : Role), roles[i]? = some other → other.session ≠ some session))
    (hjob : ∀ job, next.job = some job → role.job = some job ∨
      ∀ (i : Nat) (other : Role), roles[i]? = some other → other.job ≠ some job)
    (hothers : ∀ (i : Nat) (other : Role), i ≠ index → roles[i]? = some other →
      other.Holds after ∧ ∀ session, other.session = some session → session ∈ after.busy)
    (hself : next.Holds after) : Inv after (roles.set index next) := by
  have hback : ∀ (i : Nat) (other : Role), (roles.set index next)[i]? = some other →
      i = index ∧ other = next ∨ i ≠ index ∧ roles[i]? = some other := by
    intro i other hother
    rw [List.getElem?_set] at hother
    grind
  refine ⟨hids, hfresh, hmarked, hsingle, hrefs, hlock, ?_, ?_, ?_, ?_⟩
  · intro i j a b session ha hb hasession hbsession
    rcases hback i a ha with ⟨rfl, rfl⟩ | ⟨-, hold⟩
    · rcases hback j b hb with ⟨rfl, -⟩ | ⟨-, hother⟩
      · rfl
      · rcases (hsession session hasession).2 with hkept | hnew
        · exact h.sessions i j role b session hrole hother hkept hbsession
        · exact absurd hbsession (hnew j b hother)
    · rcases hback j b hb with ⟨rfl, rfl⟩ | ⟨-, hother⟩
      · rcases (hsession session hbsession).2 with hkept | hnew
        · exact h.sessions i j a role session hold hrole hasession hkept
        · exact absurd hasession (hnew i a hold)
      · exact h.sessions i j a b session hold hother hasession hbsession
  · intro other hmem session hother
    obtain ⟨i, hi⟩ := List.mem_iff_getElem?.mp hmem
    rcases hback i other hi with ⟨-, rfl⟩ | ⟨hne, hold⟩
    · exact (hsession session hother).1
    · exact (hothers i other hne hold).2 session hother
  · intro i j a b job ha hb hajob hbjob
    rcases hback i a ha with ⟨rfl, rfl⟩ | ⟨-, hold⟩
    · rcases hback j b hb with ⟨rfl, -⟩ | ⟨-, hother⟩
      · rfl
      · rcases hjob job hajob with hkept | hnew
        · exact h.jobs i j role b job hrole hother hkept hbjob
        · exact absurd hbjob (hnew j b hother)
    · rcases hback j b hb with ⟨rfl, rfl⟩ | ⟨-, hother⟩
      · rcases hjob job hbjob with hkept | hnew
        · exact h.jobs i j a role job hold hrole hajob hkept
        · exact absurd hajob (hnew i a hold)
      · exact h.jobs i j a b job hold hother hajob hbjob
  · intro other hmem
    obtain ⟨i, hi⟩ := List.mem_iff_getElem?.mp hmem
    rcases hback i other hi with ⟨-, rfl⟩ | ⟨hne, hold⟩
    · exact hself
    · exact (hothers i other hne hold).1

/-- A command that changes nothing: its call may rely on what it learned. -/
theorem Inv.learn (h : Inv state roles) (hrole : roles[index]? = some role)
    (hsession : next.session = role.session) (hjob : ∀ job, next.job = some job → role.job = some job)
    (hself : next.Holds state) : Inv state (roles.set index next) := by
  refine h.update hrole h.ids h.fresh h.marked h.single h.refs h.lock ?_
    (fun job heq => Or.inl (hjob job heq)) ?_ hself
  · intro session heq
    rw [hsession] at heq
    exact ⟨h.busy role (List.mem_of_getElem? hrole) session heq, Or.inl heq⟩
  · intro i other _ hother
    have hmem := List.mem_of_getElem? hother
    exact ⟨h.roles other hmem, h.busy other hmem⟩

/-- The call relies on its session alone from here on. -/
theorem Inv.forget (h : Inv state roles) (hrole : roles[index]? = some role) :
    Inv state (roles.set index { session := role.session }) :=
  h.learn hrole rfl nofun (Role.Holds.only _)

/-! ## Sessions and the lock -/

theorem Inv.connect (h : Inv state roles) (hrole : roles[index]? = some {})
    (hfree : state.offered ∉ state.busy) :
    Inv { state with busy := state.offered :: state.busy }
      (roles.set index { session := some state.offered }) := by
  refine h.update hrole h.ids h.fresh h.marked h.single h.refs h.lock ?_ nofun ?_ (Role.Holds.only _)
  · intro session heq
    cases heq
    refine ⟨List.mem_cons_self .., Or.inr fun i other hother hsession => hfree ?_⟩
    exact h.busy other (List.mem_of_getElem? hother) _ hsession
  · intro i other _ hother
    have hmem := List.mem_of_getElem? hother
    exact ⟨(h.roles other hmem).congr rfl rfl rfl (Nat.le_refl _),
      fun session heq => List.mem_cons_of_mem _ (h.busy other hmem session heq)⟩

theorem Inv.release (h : Inv state roles) {session : Session}
    (hrole : roles[index]? = some { session := some session }) :
    Inv { state with busy := state.busy.erase session } (roles.set index {}) := by
  refine h.update hrole h.ids h.fresh h.marked h.single h.refs h.lock nofun nofun ?_ (Role.Holds.only _)
  intro i other hne hother
  refine ⟨(h.roles other (List.mem_of_getElem? hother)).congr rfl rfl rfl (Nat.le_refl _), ?_⟩
  intro used heq
  have hdistinct : used ≠ session := by
    rintro rfl
    exact hne (h.sessions i index other _ used hother hrole heq rfl)
  exact (List.mem_erase_of_ne hdistinct).mpr (h.busy other (List.mem_of_getElem? hother) used heq)

/-- Another session's lock is as before. -/
theorem Role.Holds.lock_changed (h : role.Holds state) {session : Session}
    (hentries : after.entries = state.entries) (hlost : after.lost = state.lost)
    (hjobs : after.jobs = state.jobs)
    (hheld : ∀ other, other ≠ session → after.heldBy other = state.heldBy other)
    (hother : role.session ≠ some session) : role.Holds after := by
  have hrole : ∀ own, role.session = some own → after.heldBy own = state.heldBy own := by
    intro own heq
    exact hheld own fun heq' => hother (heq' ▸ heq)
  have hunmarked : ∀ version, Unmarked after version ↔ Unmarked state version := fun version => by
    rw [Unmarked, hentries, Unmarked]
  refine ⟨?_, ?_, ?_, ?_, ?_⟩
  · intro own grant heq hgrant hlive
    rw [hrole own heq]
    exact h.held own grant heq hgrant (hlost ▸ hlive)
  · intro own version heq hversion hlive
    rw [hrole own heq, hunmarked]
    exact h.unmarked own version heq hversion (hlost ▸ hlive)
  · simpa only [hjobs] using h.numbered
  · simpa only [hentries] using h.fresh
  · simpa only [hentries, hlost] using h.entered

/-- A session takes or gives up the lock, that nobody else held. -/
theorem Inv.relock (h : Inv state roles) (hrole : roles[index]? = some role) {session : Session}
    (hsession : role.session = some session) {lock : Option Lock} {grants : Nat}
    (hheld : ∀ other, other ≠ session →
      ({ state with lock, grants } : State).heldBy other = state.heldBy other)
    (hlock : ∀ held, lock = some held → held.session ∉ state.lost)
    (hnext : next.session = some session) (hjob : next.job = none)
    (hself : next.Holds { state with lock, grants }) :
    Inv { state with lock, grants } (roles.set index next) := by
  refine h.update hrole h.ids h.fresh h.marked h.single h.refs hlock ?_
    (fun job heq => by rw [hjob] at heq; cases heq) ?_ hself
  · intro own heq
    rw [hnext] at heq
    cases heq
    exact ⟨h.busy role (List.mem_of_getElem? hrole) session hsession, Or.inl hsession⟩
  · intro i other hne hother
    have hmem := List.mem_of_getElem? hother
    refine ⟨(h.roles other hmem).lock_changed rfl rfl rfl hheld fun heq => hne ?_, h.busy other hmem⟩
    exact h.sessions i index other role session hother hrole heq hsession

theorem held_by_lock {lock : Option Lock} {grants : Nat} (session : Session) :
    ({ state with lock, grants } : State).heldBy session =
      lock.bind fun lock => if lock.session = session then some lock.grant else none :=
  rfl

section

variable {session : Session} (h : Inv state roles)
  (hrole : roles[index]? = some { session := some session })
include h hrole

/-- The lock is granted, or granted again to the session that has kept it. -/
theorem Inv.try_lock (hlive : session ∉ state.lost)
    (htaken : (state.tryLock session).1 = true) :
    ∃ grant, Inv (state.tryLock session).2
      (roles.set index { session := some session, grant := some grant }) := by
  rw [State.tryLock] at htaken ⊢
  cases hlock : state.lock with
  | none =>
      refine ⟨state.grants + 1, h.relock hrole rfl ?_ ?_ rfl rfl ⟨?_, nofun, nofun, nofun, nofun⟩⟩
      · intro other hne
        rw [held_by_lock, State.heldBy, hlock]
        exact if_neg (Ne.symm hne)
      · intro held heq
        cases heq
        exact hlive
      · intro own grant heq hgrant _
        cases heq
        cases hgrant
        exact if_pos rfl
  | some lock =>
      rw [hlock] at htaken
      dsimp only at htaken ⊢
      by_cases heq : lock.session = session
      · rw [if_pos heq]
        refine ⟨lock.grant, h.relock hrole rfl ?_ ?_ rfl rfl ⟨?_, nofun, nofun, nofun, nofun⟩⟩
        · intro other hne
          rw [held_by_lock, State.heldBy, hlock]
          rfl
        · intro held hheld
          cases hheld
          exact heq ▸ hlive
        · intro own grant hown hgrant _
          cases hown
          cases hgrant
          exact if_pos heq
      · rw [if_neg heq] at htaken
        cases htaken

/-- Trying the lock, whatever comes of it, keeps what a call with a session alone relies on. -/
theorem Inv.try_lock_failed (hlive : session ∉ state.lost) :
    Inv (state.tryLock session).2 (roles.set index { session := some session }) := by
  cases htaken : (state.tryLock session).1 with
  | true =>
      obtain ⟨grant, hinv⟩ := h.try_lock hrole hlive htaken
      have hlt := (List.getElem?_eq_some_iff.mp hrole).1
      have hforget := hinv.forget (List.getElem?_set_self hlt)
      rwa [List.set_set] at hforget
  | false =>
      have hsame : (state.tryLock session).2 = state := by
        rw [State.tryLock] at htaken ⊢
        split at htaken
        · cases htaken
        · split at htaken
          · cases htaken
          · rename_i lock hlock hne
            rw [if_neg hne]
      rw [hsame]
      exact h.forget hrole

theorem Inv.unlock :
    Inv (state.unlock session) (roles.set index { session := some session }) := by
  rw [State.unlock]
  cases hlock : state.lock with
  | none => exact h.forget hrole
  | some lock =>
      dsimp only
      by_cases heq : lock.session = session
      · rw [if_pos heq]
        refine h.relock hrole rfl ?_ ?_ rfl rfl (Role.Holds.only _)
        · intro other hne
          have hnot : lock.session ≠ other := fun heq' => hne (heq' ▸ heq)
          rw [held_by_lock, State.heldBy, hlock]
          split
          · exact (if_neg hnot).symm
          · rfl
        · intro held hheld
          split at hheld
          · cases hheld
          · cases hheld
            exact h.lock lock hlock
      · rw [if_neg heq]
        exact h.forget hrole

end

/-- A session that is lost takes its lock with it: whoever relied on it relies on nothing more. -/
theorem Inv.lose (h : Inv state roles) (session : Session) : Inv (state.lose session) roles := by
  have hlive : ∀ own, own ∉ (state.lose session).lost → own ≠ session ∧ own ∉ state.lost :=
    fun own hown => not_or.mp fun hmem => hown (List.mem_cons.mpr hmem)
  have hheld : ∀ own, own ≠ session → (state.lose session).heldBy own = state.heldBy own := by
    intro own hne
    rw [State.lose, State.heldBy, State.heldBy]
    cases hlock : state.lock with
    | none => rfl
    | some lock =>
        dsimp only [Option.map_some]
        split
        · rename_i heq
          have hnot : lock.session ≠ own := fun heq' => hne (heq' ▸ Option.some.inj heq)
          exact (if_neg hnot).symm
        · rfl
  refine ⟨h.ids, h.fresh, h.marked, h.single, h.refs, ?_, h.sessions, h.busy, h.jobs, ?_⟩
  · intro lock hlock
    rw [State.lose] at hlock
    dsimp only at hlock
    split at hlock
    · cases hlock
    · rename_i hne
      intro hmem
      rcases List.mem_cons.mp hmem with heq | hold
      · exact hne (by rw [hlock, ← heq]; rfl)
      · exact h.lock lock hlock hold
  · intro role hmem
    obtain ⟨hgranted, hunmarked, hnumbered, hfresh, hentered⟩ := h.roles role hmem
    refine ⟨?_, ?_, hnumbered, hfresh, ?_⟩
    · intro own grant heq hgrant hown
      rw [hheld own (hlive own hown).1]
      exact hgranted own grant heq hgrant (hlive own hown).2
    · intro own version heq hversion hown
      rw [hheld own (hlive own hown).1]
      exact hunmarked own version heq hversion (hlive own hown).2
    · intro own job progress heq hjob hprogress
      obtain ⟨entry, hentry, hid, haction, htarget, hmilestones⟩ :=
        hentered own job progress heq hjob hprogress
      exact ⟨entry, hentry, hid, haction, htarget, fun hown => hmilestones (hlive own hown).2⟩

/-! ## Entries -/

/-- The call draws its job id, that no entry and no other call has. -/
theorem Inv.uuid4 (h : Inv state roles) {session : Session} {grant : Nat} {version : Version}
    (hrole : roles[index]? =
      some { session := some session, grant := some grant, version := some version }) :
    Inv { state with jobs := state.jobs + 1 } (roles.set index
      { session := some session, grant := some grant, version := some version
        job := some state.jobs }) := by
  have hmem := List.mem_of_getElem? hrole
  have hself := (h.roles _ hmem)
  refine h.update hrole h.ids ?_ h.marked h.single h.refs h.lock ?_ ?_ ?_ ?_
  · exact fun entry hentry => Nat.lt_succ_of_lt (h.fresh entry hentry)
  · intro own heq
    cases heq
    exact ⟨h.busy _ hmem session rfl, Or.inl rfl⟩
  · intro job heq
    cases heq
    refine Or.inr fun i other hother hjob => ?_
    exact absurd ((h.roles other (List.mem_of_getElem? hother)).numbered _ hjob) (Nat.lt_irrefl _)
  · intro i other _ hother
    have hmem := List.mem_of_getElem? hother
    exact ⟨(h.roles other hmem).congr rfl rfl rfl (Nat.le_succ _), h.busy other hmem⟩
  · refine ⟨hself.held, hself.unmarked, ?_, ?_, nofun⟩
    · intro job heq
      cases heq
      exact Nat.lt_succ_self _
    · intro job heq _ entry hentry
      cases heq
      exact Nat.ne_of_lt (h.fresh entry hentry)

/-- The started entry of a job is written. -/
theorem Inv.insert (h : Inv state roles) {session : Session} {grant : Nat} {version : Version}
    {job : Job}
    (hrole : roles[index]? =
      some { session := some session, grant := some grant, version := some version, job := some job }) :
    let entry : Entry :=
      { id := job, action := .started, target := extractionTarget version
        milestones := [.started (state.heldBy session)] }
    Inv { state with entries := state.entries ++ [entry] } (roles.set index
      { session := some session, grant := some grant, version := some version, job := some job
        progress := some [.started (some grant)] }) := by
  intro entry
  have hmem := List.mem_of_getElem? hrole
  obtain ⟨hheld, hunmarked, hnumbered, hnew, -⟩ := h.roles _ hmem
  have hnew := hnew job rfl rfl
  -- the appended entry is the only one that is not an entry from before
  have hback : ∀ other ∈ state.entries ++ [entry], other ∈ state.entries ∨ other = entry :=
    fun other hother => (List.mem_append.mp hother).imp_right List.mem_singleton.mp
  have hstill : ∀ version, Unmarked state version →
      Unmarked { state with entries := state.entries ++ [entry] } version := by
    intro version hnone other hother hauto
    rcases hback other hother with hold | rfl
    · exact hnone other hold hauto
    · cases hauto
  refine h.update hrole ?_ ?_ ?_ ?_ ?_ h.lock ?_ (fun _ heq => Or.inl heq) ?_ ?_
  · rw [List.map_append, List.nodup_append]
    refine ⟨h.ids, List.pairwise_singleton _ _, fun id hid other hother => ?_⟩
    obtain ⟨old, hold, rfl⟩ := List.mem_map.mp hid
    rw [List.mem_singleton.mp hother]
    exact hnew old hold
  · intro other hother
    rcases hback other hother with hold | rfl
    · exact h.fresh other hold
    · exact hnumbered job rfl
  · intro other hother hauto
    rcases hback other hother with hold | rfl
    · exact h.marked other hold hauto
    · cases hauto
  · intro a ha b hb haauto hbauto
    rcases hback a ha with ha | rfl
    · rcases hback b hb with hb | rfl
      · exact h.single a ha b hb haauto hbauto
      · cases hbauto
    · cases haauto
  · intro ref href
    obtain ⟨old, hold, hid⟩ := h.refs ref href
    exact ⟨old, List.mem_append_left _ hold, hid⟩
  · intro own heq
    cases heq
    exact ⟨h.busy _ hmem session rfl, Or.inl rfl⟩
  · intro i other hne hother
    have hother' := List.mem_of_getElem? hother
    obtain ⟨oheld, ounmarked, onumbered, ofresh, oentered⟩ := h.roles other hother'
    refine ⟨⟨oheld, ?_, onumbered, ?_, ?_⟩, h.busy other hother'⟩
    · intro own version heq hversion hlive
      obtain ⟨hsome, hnone⟩ := ounmarked own version heq hversion hlive
      exact ⟨hsome, hstill version hnone⟩
    · intro own heq hprogress e he
      rcases hback e he with hold | rfl
      · exact ofresh own heq hprogress e hold
      · rintro rfl
        exact hne (h.jobs i index other _ job hother hrole heq rfl)
    · intro own otherJob progress heq hjob hprogress
      obtain ⟨e, he, hrest⟩ := oentered own otherJob progress heq hjob hprogress
      exact ⟨e, List.mem_append_left _ he, hrest⟩
  · refine ⟨hheld, ?_, hnumbered, nofun, ?_⟩
    · intro own version heq hversion hlive
      obtain ⟨hsome, hnone⟩ := hunmarked own version heq hversion hlive
      exact ⟨hsome, hstill version hnone⟩
    · intro own other progress heq hjob hprogress
      cases heq
      cases hjob
      cases hprogress
      refine ⟨entry, List.mem_append_right _ (List.mem_singleton.mpr rfl), rfl, rfl, ?_, ?_⟩
      · intro other heq
        cases heq
        rfl
      · intro hlive
        exact congrArg (fun held => [Milestone.started held]) (hheld session grant rfl rfl hlive)

/-- `run_reattachment` is given the id of an entry that exists. -/
theorem Inv.refer (h : Inv state roles) (hrole : roles[index]? = some role) {session : Session}
    {job : Job} {progress : List Milestone} (hsession : role.session = some session)
    (hjob : role.job = some job) (hprogress : role.progress = some progress) :
    Inv { state with refs := state.refs ++ [job] } roles := by
  obtain ⟨entry, hentry, hid, -⟩ :=
    (h.roles role (List.mem_of_getElem? hrole)).entered session job progress hsession hjob hprogress
  refine ⟨h.ids, h.fresh, h.marked, h.single, ?_, h.lock, h.sessions, h.busy, h.jobs, ?_⟩
  · intro ref href
    rcases List.mem_append.mp href with hold | hnew
    · exact h.refs ref hold
    · rw [List.mem_singleton.mp hnew]
      exact ⟨entry, hentry, hid⟩
  · exact fun other hmem => (h.roles other hmem).congr rfl rfl rfl (Nat.le_refl _)

/-- One session holds the lock. -/
theorem held_by_unique {session other : Session} (hsession : (state.heldBy session).isSome = true)
    (hother : (state.heldBy other).isSome = true) : session = other := by
  rw [State.heldBy] at hsession hother
  cases hlock : state.lock with
  | none =>
      rw [hlock] at hsession
      cases hsession
  | some lock =>
      rw [hlock, Option.bind_some] at hsession hother
      split at hsession
      · rename_i hown
        split at hother
        · rename_i hsame
          exact hown.symm.trans hsame
        · cases hother
      · cases hsession

theorem mem_change {job : Job} {edit : Entry → Entry} {entry : Entry}
    (h : entry ∈ (state.change job edit).entries) :
    ∃ old ∈ state.entries, old.id = job ∧ entry = edit old ∨ old.id ≠ job ∧ entry = old := by
  obtain ⟨old, hold, rfl⟩ := List.mem_map.mp h
  by_cases heq : old.id = job
  · exact ⟨old, hold, Or.inl ⟨heq, if_pos heq⟩⟩
  · exact ⟨old, hold, Or.inr ⟨heq, if_neg heq⟩⟩

theorem change_mem (job : Job) (edit : Entry → Entry) {entry : Entry} (h : entry ∈ state.entries) :
    (if entry.id = job then edit entry else entry) ∈ (state.change job edit).entries :=
  List.mem_map.mpr ⟨entry, h, rfl⟩

/-- The entry of a call's own job is edited: to a marker only if the run has done all of it, under a
lock that it holds still. -/
theorem Inv.change (h : Inv state roles) (hrole : roles[index]? = some role) {session : Session}
    {job : Job} (hsession : role.session = some session) (hjob : role.job = some job)
    {edit : Entry → Entry}
    (hid : ∀ entry, (edit entry).id = entry.id) (htarget : ∀ entry, (edit entry).target = entry.target)
    (hmark : ∀ entry ∈ state.entries, entry.id = job → (edit entry).action = .auto →
      (∃ grant, (edit entry).milestones = finished grant) ∧ session ∉ state.lost ∧
        ∃ version, role.version = some version ∧ entry.target = extractionTarget version)
    (hnext : next.session = some session) (hnextJob : ∀ other, next.job = some other → other = job)
    (hself : next.Holds (state.change job edit)) :
    Inv (state.change job edit) (roles.set index next) := by
  have hrolemem := List.mem_of_getElem? hrole
  have hroleholds := h.roles role hrolemem
  have hids : ((state.change job edit).entries.map (·.id)) = state.entries.map (·.id) := by
    rw [State.change, List.map_map]
    refine List.map_congr_left fun entry _ => ?_
    dsimp only [Function.comp_apply]
    split
    · exact hid entry
    · rfl
  -- A marker of this call's version is new.
  have hnone : ∀ entry ∈ state.entries, entry.id = job → (edit entry).action = .auto →
      ∀ other ∈ state.entries, other.action = .auto → other.target ≠ entry.target := by
    intro entry hentry heq hauto other hother hotherauto
    obtain ⟨-, hlive, version, hversion, htargeted⟩ := hmark entry hentry heq hauto
    rw [htargeted]
    exact (hroleholds.unmarked session version hsession hversion hlive).2 other hother hotherauto
  refine h.update hrole (hids ▸ h.ids) ?_ ?_ ?_ ?_ h.lock ?_ ?_ ?_ hself
  · intro entry hentry
    obtain ⟨old, hold, ⟨-, rfl⟩ | ⟨-, rfl⟩⟩ := mem_change hentry
    · rw [hid]
      exact h.fresh old hold
    · exact h.fresh entry hold
  · intro entry hentry hauto
    obtain ⟨old, hold, ⟨heq, rfl⟩ | ⟨-, rfl⟩⟩ := mem_change hentry
    · exact (hmark old hold heq hauto).1
    · exact h.marked entry hold hauto
  · intro a ha b hb haauto hbauto hsame
    obtain ⟨x, hx, ⟨hxjob, rfl⟩ | ⟨-, rfl⟩⟩ := mem_change ha
    · obtain ⟨y, hy, ⟨hyjob, rfl⟩ | ⟨-, rfl⟩⟩ := mem_change hb
      · rw [hid, hid, hxjob, hyjob]
      · rw [htarget] at hsame
        exact absurd hsame.symm (hnone x hx hxjob haauto b hy hbauto)
    · obtain ⟨y, hy, ⟨hyjob, rfl⟩ | ⟨-, rfl⟩⟩ := mem_change hb
      · rw [htarget] at hsame
        exact absurd hsame (hnone y hy hyjob hbauto a hx haauto)
      · exact h.single a hx b hy haauto hbauto hsame
  · intro ref href
    obtain ⟨old, hold, rfl⟩ := h.refs ref href
    refine ⟨_, change_mem job edit hold, ?_⟩
    split
    · exact hid old
    · rfl
  · intro own heq
    rw [hnext] at heq
    cases heq
    exact ⟨h.busy role hrolemem session hsession, Or.inl hsession⟩
  · intro other heq
    rw [hnextJob other heq]
    exact Or.inl hjob
  · intro i other hne hother
    have hmem := List.mem_of_getElem? hother
    obtain ⟨oheld, ounmarked, onumbered, ofresh, oentered⟩ := h.roles other hmem
    refine ⟨⟨oheld, ?_, onumbered, ?_, ?_⟩, h.busy other hmem⟩
    · intro own version heq hversion hlive
      obtain ⟨hsome, hunmarked⟩ := ounmarked own version heq hversion hlive
      refine ⟨hsome, fun entry hentry hauto => ?_⟩
      obtain ⟨old, hold, ⟨hold', rfl⟩ | ⟨-, rfl⟩⟩ := mem_change hentry
      · -- Both calls would hold the lock.
        obtain ⟨-, hownlive, own', hown', -⟩ := hmark old hold hold' hauto
        have hownheld := (hroleholds.unmarked session own' hsession hown' hownlive).1
        have hsessions := held_by_unique hownheld hsome
        subst hsessions
        exact absurd (h.sessions i index other role session hother hrole heq hsession) hne
      · exact hunmarked entry hold hauto
    · intro own heq hnoprogress entry hentry
      obtain ⟨old, hold, ⟨-, rfl⟩ | ⟨-, rfl⟩⟩ := mem_change hentry
      · rw [hid]
        exact ofresh own heq hnoprogress old hold
      · exact ofresh own heq hnoprogress entry hold
    · intro own otherJob otherProgress heq hotherJob hotherProgress
      obtain ⟨entry, hentry, hentryid, hrest⟩ := oentered own otherJob otherProgress heq hotherJob
        hotherProgress
      have hdistinct : entry.id ≠ job := by
        rw [hentryid]
        rintro rfl
        exact hne (h.jobs i index other role otherJob hother hrole hotherJob hjob)
      refine ⟨entry, ?_, hentryid, hrest⟩
      have hkept := change_mem job edit hentry
      rwa [if_neg hdistinct] at hkept

/-- What a call's own entry says. -/
theorem Inv.own (h : Inv state roles) (hrole : roles[index]? = some role) {session : Session}
    {job : Job} {progress : List Milestone} (hsession : role.session = some session)
    (hjob : role.job = some job) (hprogress : role.progress = some progress) :
    ∀ entry ∈ state.entries, entry.id = job → entry.action = .started ∧
      (∀ version, role.version = some version → entry.target = extractionTarget version) ∧
      (session ∉ state.lost → entry.milestones = progress) := by
  intro entry hentry hid
  obtain ⟨own, hown, hownid, hrest⟩ :=
    (h.roles role (List.mem_of_getElem? hrole)).entered session job progress hsession hjob hprogress
  obtain rfl : entry = own := List.inj_on_of_nodup_map h.ids hentry hown (hid.trans hownid.symm)
  exact hrest

/-- A call that has its entry. -/
def Role.running (session : Session) (grant : Nat) (version : Version) (job : Job)
    (progress : List Milestone) : Role where
  session := some session
  grant := some grant
  version := some version
  job := some job
  progress := some progress

/-- A job ends: its run has one milestone more. -/
theorem Inv.note (h : Inv state roles) {session : Session} {grant : Nat} {version : Version}
    {job : Job} {progress : List Milestone}
    (hrole : roles[index]? = some (.running session grant version job progress))
    (milestone : Option Nat → Milestone) :
    Inv (state.note job (milestone (state.heldBy session))) (roles.set index
      (.running session grant version job (progress ++ [milestone (some grant)]))) := by
  have hown := h.own hrole rfl rfl rfl
  obtain ⟨hheld, hunmarked, hnumbered, -, hentered⟩ := h.roles _ (List.mem_of_getElem? hrole)
  refine h.change hrole rfl rfl (fun _ => rfl) (fun _ => rfl) ?_ rfl
    (fun _ heq => (Option.some.inj heq).symm) ⟨hheld, ?_, hnumbered, nofun, ?_⟩
  · intro entry hentry hid hauto
    exact absurd ((hown entry hentry hid).1.symm.trans hauto) nofun
  · intro own other heq hversion hlive
    obtain ⟨hsome, hnone⟩ := hunmarked own other heq hversion hlive
    refine ⟨hsome, fun entry hentry hauto => ?_⟩
    obtain ⟨old, hold, ⟨-, rfl⟩ | ⟨-, rfl⟩⟩ := mem_change hentry
    · exact hnone old hold hauto
    · exact hnone entry hold hauto
  · intro own other otherProgress heq hjob hprogress
    cases heq
    cases hjob
    cases hprogress
    obtain ⟨entry, hentry, hid, haction, htarget, hmilestones⟩ :=
      hentered session job progress rfl rfl rfl
    refine ⟨_, change_mem job _ hentry, ?_⟩
    rw [if_pos hid]
    refine ⟨hid, haction, htarget, fun hlive => ?_⟩
    have hgrant := hheld session grant rfl rfl hlive
    dsimp only
    rw [hmilestones hlive, hgrant]

/-- A run that failed is recorded, or not. -/
theorem Inv.finalize (h : Inv state roles) {session : Session} {grant : Nat} {version : Version}
    {job : Job} {progress : List Milestone}
    (hrole : roles[index]? = some (.running session grant version job progress)) :
    Inv (exec (.finalizeAuditEntry job) state).2 (roles.set index { session := some session }) := by
  rw [exec]
  dsimp only
  split
  · exact h.forget hrole
  · exact h.change hrole rfl rfl (fun _ => rfl) (fun _ => rfl) nofun rfl nofun
      (Role.Holds.only _)

/-- A run that has done everything writes its marker. -/
theorem Inv.mark (h : Inv state roles) {session : Session} {grant : Nat} {version : Version}
    {job : Job}
    (hrole : roles[index]? = some (.running session grant version job
      [.started (some grant), .reattached true (some grant), .projected true (some grant)]))
    (hlive : session ∉ state.lost) :
    Inv (state.change job fun entry => { entry with
        action := .auto, milestones := entry.milestones ++ [.marked (state.heldBy session)] })
      (roles.set index { session := some session }) := by
  have hown := h.own hrole rfl rfl rfl
  have hheld := (h.roles _ (List.mem_of_getElem? hrole)).held session grant rfl rfl hlive
  refine h.change hrole rfl rfl (fun _ => rfl) (fun _ => rfl) ?_ rfl nofun (Role.Holds.only _)
  intro entry hentry hid _
  obtain ⟨-, htarget, hmilestones⟩ := hown entry hentry hid
  refine ⟨⟨grant, ?_⟩, hlive, version, rfl, htarget version rfl⟩
  dsimp only
  rw [hmilestones hlive, hheld]
  rfl

/-! ## From outside -/

/-- Nothing that the invariant speaks of has changed. -/
theorem Inv.congr (h : Inv state roles) (hentries : after.entries = state.entries)
    (hlock : after.lock = state.lock) (hlost : after.lost = state.lost)
    (hjobs : after.jobs = state.jobs) (hrefs : after.refs = state.refs)
    (hbusy : after.busy = state.busy) : Inv after roles := by
  refine ⟨hentries ▸ h.ids, ?_, hentries ▸ h.marked, hentries ▸ h.single, ?_, ?_, h.sessions, ?_,
    h.jobs, fun role hmem => (h.roles role hmem).congr hentries hlock hlost (Nat.le_of_eq hjobs.symm)⟩
  · simpa only [hentries, hjobs] using h.fresh
  · simpa only [hentries, hrefs] using h.refs
  · simpa only [hlock, hlost] using h.lock
  · simpa only [hbusy] using h.busy

theorem Inv.initial : Inv .initial [] :=
  ⟨List.nodup_nil, nofun, nofun, nofun, nofun, nofun, nofun, nofun, nofun, nofun⟩

/-- One call more. -/
theorem Inv.start (h : Inv state roles) : Inv state (roles ++ [({} : Role)]) := by
  have hback : ∀ (i : Nat) (role : Role), (roles ++ [({} : Role)])[i]? = some role →
      roles[i]? = some role ∨ role = {} := by
    intro i role hrole
    rw [List.getElem?_append] at hrole
    grind
  refine ⟨h.ids, h.fresh, h.marked, h.single, h.refs, h.lock, ?_, ?_, ?_, ?_⟩
  · intro i j a b session ha hb hasession hbsession
    rcases hback i a ha with ha | rfl
    · rcases hback j b hb with hb | rfl
      · exact h.sessions i j a b session ha hb hasession hbsession
      · cases hbsession
    · cases hasession
  · intro role hmem session heq
    rcases List.mem_append.mp hmem with hold | hnew
    · exact h.busy role hold session heq
    · rw [List.mem_singleton.mp hnew] at heq
      cases heq
  · intro i j a b job ha hb hajob hbjob
    rcases hback i a ha with ha | rfl
    · rcases hback j b hb with hb | rfl
      · exact h.jobs i j a b job ha hb hajob hbjob
      · cases hbjob
    · cases hajob
  · intro role hmem
    rcases List.mem_append.mp hmem with hold | hnew
    · exact h.roles role hold
    · rw [List.mem_singleton.mp hnew]
      exact Role.Holds.only none

theorem Inv.external (h : Inv state roles) (change : Change) : Inv (trigger.change change state) roles := by
  cases change with
  | lose session => exact h.lose session
  | latch present rows => exact h.congr rfl rfl rfl rfl rfl rfl
  | actor actor => exact h.congr rfl rfl rfl rfl rfl rfl
  | fate fate => exact h.congr rfl rfl rfl rfl rfl rfl
  | offer session => exact h.congr rfl rfl rfl rfl rfl rfl

end CatalogApi.ReattachTrigger
