import CatalogApi.ImportCache.Watch

/-!
# What the marker promises

A value is stale for an import when it was read before the maintenance of the import finished. A poll
that invalidates takes every stale value out of the Explore family (`Swept`): its scan owes each one that
existed at its first page. Only a handler that stores a stale value behind the scan can bring one back.
-/

namespace CatalogApi.ImportCache

open CacheBudget Runs

variable {config : Config} {state after : State}

/-! ## Staleness -/

/-- The maintenance of the version has finished. -/
def Maintained (state : State) (version : Version) : Prop :=
  ∃ extraction ∈ state.imports, extraction.version = version ∧ extraction.maintainedAt.isSome

/-- The key is of the Explore family and holds a value that was read before the maintenance of the
version finished. -/
def Stale (config : Config) (state : State) (version : Version) (key : Key) : Prop :=
  Family.explore.covers config.keyPrefix key ∧ state.present key ∧
    ∃ extraction ∈ state.imports, extraction.version = version ∧
      ∃ finished ∈ extraction.maintainedAt, state.readAt key < finished

/-- The Explore keys of an invalidation for the version are being deleted, or are deleted. -/
def PollPhase.sweeps (version : Version) : PollPhase → Bool
  | .scanning mark family _ owed => mark.1 = version ∧ (family ≠ .explore ∨ owed.isSome)
  | .deleting mark _ _ _ _ _ => mark.1 = version
  | .marking mark invalidated => mark.1 = version ∧ invalidated
  | _ => false

/-- A poll has begun to delete the Explore keys for the version, or its marker is set. -/
def State.swept (state : State) (version : Version) : Bool :=
  state.marker.any (fun marker => marker.mark.1 = version ∧ marker.invalidated) ∨
    state.polls.any (·.sweeps version)

/-- A handler does not store a value that is stale for an import that has been swept. -/
def storesFresh (state : State) : Move → Bool
  | .store index =>
      match state.handlers[index]? with
      | some { phase := .storing readAt (.issue (.setex _ _ _) _), .. } =>
          state.imports.all fun extraction =>
            extraction.maintainedAt.any (readAt < ·) → ¬state.swept extraction.version
      | _ => true
  | _ => true

/-! ## The invariant -/

/-- What a poll that is under way relies on. -/
def Sweeping (config : Config) (state : State) : PollPhase → Prop
  | .maintained mark | .dropping mark _ | .marking mark false => Maintained state mark.1
  | .scanning mark .explore _ none => Maintained state mark.1
  | .scanning mark .explore _ (some owed) =>
      Maintained state mark.1 ∧
        ∀ key, Stale config state mark.1 key → (key, state.births key) ∈ owed
  | .deleting mark .explore _ owed page last =>
      Maintained state mark.1 ∧
        ∀ key, Stale config state mark.1 key →
          key ∈ page ∨ last = false ∧ (key, state.births key) ∈ owed
  | .scanning mark _ _ _ | .deleting mark _ _ _ _ _ | .marking mark true =>
      Maintained state mark.1 ∧ ∀ key, ¬Stale config state mark.1 key
  | .began | .latched _ | .complete _ | .returned _ | .raised => True

/-- The invariant. -/
structure Sound (config : Config) (state : State) : Prop where
  known : ∀ key, state.present key → key ∈ state.names
  versions : (state.imports.map (·.version)).Nodup
  polls : ∀ phase ∈ state.polls, Sweeping config state phase
  marker : ∀ marker ∈ state.marker, Maintained state marker.mark.1 ∧
    (marker.invalidated → ∀ key, ¬Stale config state marker.mark.1 key)

/-- No version that is being swept has a stale value that it had not before. -/
structure Calm (config : Config) (state after : State) : Prop where
  maintained : ∀ version, Maintained state version → Maintained after version
  stale : ∀ version, Maintained state version → state.swept version → ∀ key,
    Stale config after version key →
      Stale config state version key ∧ after.births key = state.births key

theorem swept_of_poll {version : Version} {phase : PollPhase} (hphase : phase ∈ state.polls)
    (h : phase.sweeps version) : state.swept version :=
  decide_eq_true (Or.inr (List.any_eq_true.mpr ⟨phase, hphase, h⟩))

/-- What a poll relies on outlasts a calm step of something else. -/
theorem Sweeping.calm {phase : PollPhase} (h : Sweeping config state phase)
    (hphase : phase ∈ state.polls) (hcalm : Calm config state after) :
    Sweeping config after phase := by
  cases phase with
  | began | latched | complete | returned | raised => trivial
  | maintained mark | dropping mark left => exact hcalm.maintained mark.1 h
  | marking mark invalidated =>
      cases invalidated with
      | false => exact hcalm.maintained mark.1 h
      | true =>
          refine ⟨hcalm.maintained mark.1 h.1, fun key hstale => h.2 key ?_⟩
          have hswept := swept_of_poll hphase (decide_eq_true ⟨rfl, rfl⟩)
          exact (hcalm.stale mark.1 h.1 hswept key hstale).1
  | scanning mark family left owed =>
      cases family with
      | explore =>
          cases owed with
          | none => exact hcalm.maintained mark.1 h
          | some owed =>
              refine ⟨hcalm.maintained mark.1 h.1, fun key hstale => ?_⟩
              have hswept := swept_of_poll hphase (decide_eq_true ⟨rfl, Or.inr rfl⟩)
              obtain ⟨hbefore, hbirths⟩ := hcalm.stale mark.1 h.1 hswept key hstale
              rw [hbirths]
              exact h.2 key hbefore
      | trends | expand | enrichmentStatus =>
          refine ⟨hcalm.maintained mark.1 h.1, fun key hstale => h.2 key ?_⟩
          have hswept := swept_of_poll hphase (decide_eq_true ⟨rfl, Or.inl (by decide)⟩)
          exact (hcalm.stale mark.1 h.1 hswept key hstale).1
  | deleting mark family left owed page last =>
      have hswept : ∀ version, mark.1 = version → state.swept version := fun version hversion =>
        swept_of_poll hphase (decide_eq_true hversion)
      cases family with
      | explore =>
          refine ⟨hcalm.maintained mark.1 h.1, fun key hstale => ?_⟩
          obtain ⟨hbefore, hbirths⟩ := hcalm.stale mark.1 h.1 (hswept mark.1 rfl) key hstale
          rw [hbirths]
          exact h.2 key hbefore
      | trends | expand | enrichmentStatus =>
          refine ⟨hcalm.maintained mark.1 h.1, fun key hstale => h.2 key ?_⟩
          exact (hcalm.stale mark.1 h.1 (hswept mark.1 rfl) key hstale).1

/-- A calm step keeps the invariant, if the poll and the marker that it changes keep their part. -/
theorem Sound.calm (h : Sound config state) (hcalm : Calm config state after)
    (hknown : ∀ key, after.present key → key ∈ after.names)
    (hversions : (after.imports.map (·.version)).Nodup)
    (hpolls : ∀ phase ∈ after.polls, phase ∈ state.polls ∨ Sweeping config after phase)
    (hmarker : ∀ marker ∈ after.marker, marker ∈ state.marker ∨
      Maintained after marker.mark.1 ∧
        (marker.invalidated → ∀ key, ¬Stale config after marker.mark.1 key)) :
    Sound config after := by
  constructor
  case known => exact hknown
  case versions => exact hversions
  case polls =>
      intro phase hphase
      rcases hpolls phase hphase with hold | hnew
      · exact (h.polls phase hold).calm hold hcalm
      · exact hnew
  case marker =>
      intro marker hafter
      rcases hmarker marker hafter with hold | hnew
      · obtain ⟨hmaintained, hfresh⟩ := h.marker marker hold
        refine ⟨hcalm.maintained _ hmaintained, fun hinvalidated key hstale => ?_⟩
        have hswept : state.swept marker.mark.1 := by
          refine decide_eq_true (Or.inl ?_)
          rw [Option.mem_def.mp hold]
          exact decide_eq_true ⟨rfl, hinvalidated⟩
        exact hfresh hinvalidated key (hcalm.stale _ hmaintained hswept key hstale).1
      · exact hnew

/-- A step that changes no import, and no value but to take it away, is calm. -/
theorem calm_of_fewer (himports : after.imports = state.imports) (hbirths : after.births = state.births)
    (hreadAt : after.readAt = state.readAt) (hpresent : ∀ key, after.present key → state.present key) :
    Calm config state after where
  maintained version h := by
    rw [Maintained, himports]
    exact h
  stale version _ _ key h := by
    obtain ⟨hcovers, hafter, hread⟩ := h
    rw [himports, hreadAt] at hread
    exact ⟨⟨hcovers, hpresent key hafter, hread⟩, congrFun hbirths key⟩

/-! ## Imports -/

theorem update_import_versions (version : Version) {change : Import → Import}
    (hkeep : ∀ row, (change row).version = row.version) :
    (state.updateImport version change).imports.map (·.version) = state.imports.map (·.version) := by
  rw [State.updateImport, List.map_map]
  refine List.map_congr_left fun row _ => ?_
  dsimp only [Function.comp]
  split
  · exact hkeep row
  · rfl

/-- An import that goes on without its maintenance finishing. -/
theorem update_import_calm {version : Version} {change : Import → Import}
    (hversion : ∀ row, (change row).version = row.version)
    (hfinished : ∀ row, (change row).maintainedAt = row.maintainedAt) :
    Calm config state (state.updateImport version change) where
  maintained other h := by
    obtain ⟨row, hrow, hother, hsome⟩ := h
    refine ⟨_, List.mem_map_of_mem hrow, ?_⟩
    split
    · exact ⟨(hversion row).trans hother, hfinished row ▸ hsome⟩
    · exact ⟨hother, hsome⟩
  stale other _ _ key h := by
    obtain ⟨hcovers, hpresent, _, hmem, hother, hread⟩ := h
    obtain ⟨row, hrow, rfl⟩ := List.mem_map.mp hmem
    refine ⟨⟨hcovers, hpresent, row, hrow, ?_⟩, rfl⟩
    split at hother
    · rename_i heq
      rw [if_pos heq, hfinished] at hread
      exact ⟨(hversion row).symm.trans hother, hread⟩
    · rename_i hne
      rw [if_neg hne] at hread
      exact ⟨hother, hread⟩

/-- The maintenance of an import finishes: nothing that has been swept becomes stale. -/
theorem maintain_calm (hversions : (state.imports.map (·.version)).Nodup) {version : Version}
    {extraction : Import} (hlatch : state.graphLatch version = some extraction)
    (hopen : extraction.maintainedAt = none) (epoch : Nat) :
    Calm config state
      { state.updateImport version fun row => { row with maintainedAt := some (state.epoch + 1) } with
        epoch } where
  maintained other h := by
    obtain ⟨row, hrow, hother, hsome⟩ := h
    refine ⟨_, List.mem_map_of_mem hrow, ?_⟩
    split
    · exact ⟨hother, rfl⟩
    · exact ⟨hother, hsome⟩
  stale other hmaintained _ key h := by
    have hne : other ≠ version := by
      rintro rfl
      obtain ⟨row, hrow, hversion, hsome⟩ := hmaintained
      have hfound := List.find?_some hlatch
      have heq : row = extraction := List.inj_on_of_nodup_map hversions hrow
        (List.mem_of_find?_eq_some hlatch) (hversion.trans (of_decide_eq_true hfound).symm)
      rw [heq, hopen] at hsome
      cases hsome
    obtain ⟨hcovers, hpresent, _, hmem, hother, hread⟩ := h
    obtain ⟨row, hrow, rfl⟩ := List.mem_map.mp hmem
    refine ⟨⟨hcovers, hpresent, row, hrow, ?_⟩, rfl⟩
    split at hother
    · rename_i heq
      exact absurd (hother.symm.trans heq) hne
    · rename_i hnot
      rw [if_neg hnot] at hread
      exact ⟨hother, hread⟩

/-- An import that is announced has no maintenance behind it. -/
theorem announce_calm {fresh : Import} (hopen : fresh.maintainedAt = none) :
    Calm config state { state with imports := fresh :: state.imports } where
  maintained version h := by
    obtain ⟨row, hrow, hrest⟩ := h
    exact ⟨row, List.mem_cons_of_mem _ hrow, hrest⟩
  stale version _ _ key h := by
    obtain ⟨hcovers, hpresent, row, hmem, hversion, finished, hfinished, hread⟩ := h
    rcases List.mem_cons.mp hmem with rfl | hrow
    · rw [hopen] at hfinished
      cases hfinished
    · exact ⟨⟨hcovers, hpresent, row, hrow, hversion, finished, hfinished, hread⟩, rfl⟩

/-! ## Handlers -/

/-- A command of a handler stores a value under the key of a `SETEX`, and under no other. -/
theorem present_exec {command : Command} {cache : Cache} {key : Key}
    (h : ((exec command cache).2.entries key).isSome) :
    (∃ ttl value, command = .setex key ttl value) ∨ (cache.entries key).isSome := by
  cases command with
  | delete other =>
      by_cases heq : key = other
      · simp [exec, Cache.setEntry, heq] at h
      · exact Or.inr (by simpa [exec, Cache.setEntry, heq] using h)
  | setex other ttl value =>
      by_cases heq : key = other
      · exact Or.inl ⟨ttl, value, heq ▸ rfl⟩
      · exact Or.inr (by simpa [exec, Cache.setEntry, heq] using h)
  | _ => exact Or.inr h

/-- What the condition says of a handler that stores. -/
def StoresFresh (state : State) (readAt : Nat) (command : Command) : Prop :=
  ∀ key ttl value, command = .setex key ttl value → ∀ extraction ∈ state.imports,
    extraction.maintainedAt.any (readAt < ·) → ¬state.swept extraction.version

/-- A handler that stores nothing stale is calm. -/
theorem perform_calm {readAt : Nat} {command : Command} (hfresh : StoresFresh state readAt command) :
    Calm config state (state.perform readAt command) := by
  cases command with
  | setex stored ttl value =>
      constructor
      case maintained => exact fun version h => h
      case stale =>
          rintro version - hswept key ⟨hcovers, hpresent, extraction, hmem, hversion, hread⟩
          by_cases heq : key = stored
          · subst heq
            obtain ⟨finished, hfinished, hlt⟩ := hread
            replace hlt : readAt < finished := by simpa [State.perform] using hlt
            have hany : extraction.maintainedAt.any (readAt < ·) :=
              Option.any_eq_true .. |>.mpr ⟨finished, hfinished, decide_eq_true hlt⟩
            exact absurd (hversion ▸ hswept) (hfresh key ttl value rfl extraction hmem hany)
          · have hbefore : state.present key := by
              simpa [State.perform, State.present, exec, Cache.setEntry, heq] using hpresent
            have hreadAt : (state.perform readAt (.setex stored ttl value)).readAt key =
                state.readAt key := Function.update_of_ne heq ..
            rw [hreadAt] at hread
            refine ⟨⟨hcovers, hbefore, extraction, hmem, hversion, hread⟩, ?_⟩
            dsimp only [State.perform]
            split
            · rfl
            · exact Function.update_of_ne heq ..
  | _ =>
      refine calm_of_fewer rfl rfl rfl fun key h => ?_
      exact (present_exec h).resolve_left fun ⟨_, _, hsetex⟩ => Command.noConfusion hsetex

theorem perform_known {readAt : Nat} {command : Command}
    (h : ∀ key, state.present key → key ∈ state.names) :
    ∀ key, (state.perform readAt command).present key → key ∈ (state.perform readAt command).names := by
  intro key hpresent
  cases command with
  | setex stored ttl value =>
      by_cases heq : key = stored
      · exact heq ▸ List.mem_cons_self
      · refine List.mem_cons_of_mem _ (h key ?_)
        simpa [State.perform, State.present, exec, Cache.setEntry, heq] using hpresent
  | _ =>
      refine h key ((present_exec hpresent).resolve_left fun ⟨_, _, hsetex⟩ => ?_)
      exact Command.noConfusion hsetex

/-- One await of a request keeps the invariant. -/
theorem handler_sound (h : Sound config state) {index : Nat} {handler : Handler} {next : Move}
    (hfresh : ∀ stored readAt command rest, next = .store stored →
      handler.phase = .storing readAt (.issue command rest) → StoresFresh state readAt command)
    (hstep : handlerStep config state index handler next = some after) : Sound config after := by
  have hset : ∀ phase, Sound config (state.setHandler index handler phase) := fun phase =>
    h.calm (calm_of_fewer rfl rfl rfl fun _ => id) h.known h.versions (fun _ => Or.inl)
      fun _ => Or.inl
  unfold handlerStep at hstep
  split at hstep
  case h_1 =>
      split at hstep
      · obtain rfl := Option.some.inj hstep
        exact hset _
      · obtain rfl := Option.some.inj hstep
        exact hset _
  case h_2 =>
      obtain rfl := Option.some.inj hstep
      exact hset _
  case h_3 =>
      split at hstep
      · obtain rfl := Option.some.inj hstep
        exact hset _
      · obtain rfl := Option.some.inj hstep
        exact hset _
  case h_4 readAt command rest hphase =>
      obtain rfl := Option.some.inj hstep
      have hcalm : Calm config state (state.perform readAt command) :=
        perform_calm (hfresh _ readAt command rest rfl hphase)
      have hperform : Sound config (state.perform readAt command) := by
        refine h.calm hcalm (perform_known h.known) ?_ (fun phase hmem => Or.inl ?_) fun marker hmem =>
          Or.inl ?_
        · cases command <;> exact h.versions
        · cases command <;> exact hmem
        · cases command <;> exact hmem
      exact ⟨hperform.known, hperform.versions, hperform.polls, hperform.marker⟩
  case h_5 =>
      obtain rfl := Option.some.inj hstep
      exact hset _
  case h_6 => cases hstep

/-! ## Polls -/

theorem Sound.set_poll (h : Sound config state) {index : Nat} {phase : PollPhase}
    (hphase : Sweeping config state phase) : Sound config (state.setPoll index phase) := by
  refine h.calm (calm_of_fewer rfl rfl rfl fun _ => id) h.known h.versions (fun found hfound => ?_)
    fun _ => Or.inl
  rcases List.mem_or_eq_of_mem_set hfound with hold | rfl
  · exact Or.inl hold
  · cases found <;> exact Or.inr hphase

/-- Once nothing is stale the poll goes on to the next family. -/
theorem sweeping_next {mark : Mark} (hmaintained : Maintained state mark.1)
    (hfresh : ∀ key, ¬Stale config state mark.1 key) (left : List Family) :
    Sweeping config state (PollPhase.next mark left) := by
  cases left with
  | nil => exact ⟨hmaintained, hfresh⟩
  | cons family left =>
      cases family with
      | explore => exact hmaintained
      | trends | expand | enrichmentStatus => exact ⟨hmaintained, hfresh⟩

theorem present_delete_page {page : List Key} {key : Key} (h : (state.deletePage page).present key) :
    state.present key ∧ key ∉ page := by
  unfold State.deletePage State.present at h
  dsimp only at h
  generalize hcache : state.cache = cache at h
  rw [State.present, hcache]
  clear hcache
  induction page generalizing cache with
  | nil => exact ⟨h, List.not_mem_nil⟩
  | cons first page ih =>
      obtain ⟨hpresent, hnot⟩ := ih _ h
      by_cases heq : key = first
      · simp [Cache.setEntry, heq] at hpresent
      · refine ⟨by simpa [Cache.setEntry, heq] using hpresent, ?_⟩
        exact fun hmem => (List.mem_cons.mp hmem).elim heq hnot

/-- A key of the family that exists is among those a scan owes at its first page. -/
theorem mem_family {family : Family} {key : Key} (hknown : key ∈ state.names)
    (hpresent : state.present key) (hcovers : family.covers config.keyPrefix key) :
    (key, state.births key) ∈ state.family config.keyPrefix family :=
  List.mem_map_of_mem (List.mem_filter.mpr ⟨hknown, decide_eq_true ⟨hpresent, hcovers⟩⟩)

/-- Deleting a budget's keys touches no value. -/
theorem drop_budget_calm (budget : Budgeted × SetName) :
    Calm config state (state.dropBudget budget) := by
  obtain ⟨budgeted, name⟩ := budget
  cases budgeted <;> exact calm_of_fewer rfl rfl rfl fun _ => id

theorem drop_budget_sound (h : Sound config state) (budget : Budgeted × SetName) :
    Sound config (state.dropBudget budget) := by
  obtain ⟨budgeted, name⟩ := budget
  cases budgeted <;>
    exact h.calm (drop_budget_calm _) h.known h.versions (fun _ => Or.inl) fun _ => Or.inl

/-- A page of a scan keeps the invariant. -/
theorem page_sound (h : Sound config state) {index : Nat} {phase : PollPhase} {keys : List Key}
    {last : Bool} (hphase : phase ∈ state.polls)
    (hstep : pageStep config state index keys last phase = some after) : Sound config after := by
  unfold pageStep at hstep
  split at hstep
  case h_2 => cases hstep
  case h_1 mark family left owed =>
      dsimp only at hstep
      split at hstep
      case isFalse => cases hstep
      case isTrue hguard =>
          obtain rfl := Option.some.inj hstep
          refine h.set_poll ?_
          have hbefore := h.polls _ hphase
          cases family with
          | trends | expand | enrichmentStatus => exact hbefore
          | explore =>
              have howes : Maintained state mark.1 ∧ ∀ key, Stale config state mark.1 key →
                  (key, state.births key) ∈ owed.getD (state.family config.keyPrefix .explore) := by
                cases owed with
                | some owed => exact hbefore
                | none =>
                    refine ⟨hbefore, fun key hstale => ?_⟩
                    exact mem_family (h.known key hstale.2.1) hstale.2.1 hstale.1
              refine ⟨howes.1, fun key hstale => ?_⟩
              by_cases hmem : key ∈ keys
              · exact Or.inl hmem
              · have hleft : (key, state.births key) ∈
                    (owed.getD (state.family config.keyPrefix .explore)).filter (·.1 ∉ keys) :=
                  List.mem_filter.mpr ⟨howes.2 key hstale, decide_eq_true hmem⟩
                refine Or.inr ⟨?_, hleft⟩
                by_contra hlast
                have hall := List.all_eq_true.mp (hguard.2 (by simpa using hlast)) _ hleft
                exact of_decide_eq_true hall ⟨hstale.2.1, rfl⟩

/-- One await of a poll keeps the invariant. -/
theorem poll_sound (h : Sound config state) {index : Nat} {phase : PollPhase}
    (hphase : phase ∈ state.polls) (hstep : pollStep state index phase = some after) :
    Sound config after := by
  have hbefore := h.polls phase hphase
  cases phase with
  | began =>
      unfold pollStep at hstep
      dsimp only at hstep
      split at hstep <;> (obtain rfl := Option.some.inj hstep; exact h.set_poll trivial)
  | latched version =>
      unfold pollStep at hstep
      dsimp only at hstep
      split at hstep <;> (obtain rfl := Option.some.inj hstep; exact h.set_poll trivial)
  | complete version =>
      unfold pollStep at hstep
      dsimp only at hstep
      split at hstep
      case h_1 extraction hlatch =>
          split at hstep
          case isTrue hfinished =>
              -- the only way to a mark: the latched row has its `maintained_at`
              obtain rfl := Option.some.inj hstep
              refine h.set_poll ?_
              exact ⟨extraction, List.mem_of_find?_eq_some hlatch, rfl, hfinished⟩
          case isFalse =>
              obtain rfl := Option.some.inj hstep
              exact h.set_poll trivial
      case h_2 =>
          obtain rfl := Option.some.inj hstep
          exact h.set_poll trivial
  | maintained mark =>
      unfold pollStep at hstep
      dsimp only at hstep
      split at hstep
      case h_1 =>
          obtain rfl := Option.some.inj hstep
          exact h.set_poll hbefore
      case h_2 =>
          split at hstep
          case isTrue =>
              obtain rfl := Option.some.inj hstep
              exact h.set_poll trivial
          case isFalse =>
              obtain rfl := Option.some.inj hstep
              exact h.set_poll hbefore
  | dropping mark left =>
      cases left with
      | nil =>
          obtain rfl := Option.some.inj hstep
          exact h.set_poll hbefore
      | cons budget left =>
          obtain rfl := Option.some.inj hstep
          refine (drop_budget_sound h budget).set_poll ?_
          have hcalm : Calm config state (state.dropBudget budget) := drop_budget_calm budget
          exact hcalm.maintained mark.1 hbefore
  | deleting mark family left owed page last =>
      obtain rfl := Option.some.inj hstep
      have hcalm : Calm config state (state.deletePage page) :=
        calm_of_fewer rfl rfl rfl fun key hkey => (present_delete_page hkey).1
      have hdeleted : Sound config (state.deletePage page) :=
        h.calm hcalm (fun key hkey => h.known key (present_delete_page hkey).1) h.versions
          (fun _ => Or.inl) fun _ => Or.inl
      have hgone : ∀ {key}, Stale config (state.deletePage page) mark.1 key →
          Stale config state mark.1 key ∧ key ∉ page := fun {key} hstale =>
        ⟨⟨hstale.1, (present_delete_page hstale.2.1).1, hstale.2.2⟩,
          (present_delete_page hstale.2.1).2⟩
      refine hdeleted.set_poll ?_
      cases family with
      | trends | expand | enrichmentStatus =>
          obtain ⟨hbeforeMaintained, hfresh⟩ := hbefore
          have hmaintained : Maintained (state.deletePage page) mark.1 := hbeforeMaintained
          have hnone : ∀ key, ¬Stale config (state.deletePage page) mark.1 key :=
            fun key hstale => hfresh key (hgone hstale).1
          cases last with
          | true => exact sweeping_next hmaintained hnone left
          | false => exact ⟨hmaintained, hnone⟩
      | explore =>
          obtain ⟨hbeforeMaintained, howes⟩ := hbefore
          have hmaintained : Maintained (state.deletePage page) mark.1 := hbeforeMaintained
          cases last with
          | true =>
              refine sweeping_next hmaintained (fun key hstale => ?_) left
              obtain ⟨hold, hnot⟩ := hgone hstale
              exact (howes key hold).elim hnot fun hfalse => Bool.noConfusion hfalse.1
          | false =>
              refine ⟨hmaintained, fun key hstale => ?_⟩
              obtain ⟨hold, hnot⟩ := hgone hstale
              exact ((howes key hold).resolve_left hnot).2
  | marking mark invalidated =>
      obtain rfl := Option.some.inj hstep
      have hset : Sound config (state.setPoll index (.returned invalidated)) := h.set_poll trivial
      refine ⟨hset.known, hset.versions, hset.polls, fun marker hmarker => ?_⟩
      obtain rfl := Option.some.inj hmarker
      cases invalidated with
      | false => exact ⟨hbefore, fun hfalse => Bool.noConfusion hfalse⟩
      | true => exact ⟨hbefore.1, fun _ => hbefore.2⟩
  | scanning | returned | raised => cases hstep

/-! ## Runs -/

/-- One move that stores nothing stale keeps the invariant. -/
theorem move_sound (h : Sound config state) {next : Move} (hfresh : storesFresh state next)
    (hstep : move config state next = some after) : Sound config after := by
  -- a step of the importer that keeps the versions touches no entry and no running call
  have himports : ∀ {version : Version} {change : Import → Import},
      (∀ row, (change row).version = row.version) →
      (∀ row, (change row).maintainedAt = row.maintainedAt) →
      Sound config (state.updateImport version change) := fun hversion hfinished =>
    h.calm (update_import_calm hversion hfinished) h.known
      ((update_import_versions _ hversion).symm ▸ h.versions) (fun _ => Or.inl) fun _ => Or.inl
  cases next with
  | announce version =>
      unfold move importStep at hstep
      dsimp only at hstep
      split at hstep
      case isTrue => cases hstep
      case isFalse hnew =>
          obtain rfl := Option.some.inj hstep
          refine h.calm (announce_calm rfl) h.known ?_ (fun _ => Or.inl) fun _ => Or.inl
          rw [List.map_cons, List.nodup_cons]
          refine ⟨fun hmem => hnew ?_, h.versions⟩
          obtain ⟨row, hrow, hversion⟩ := List.mem_map.mp hmem
          exact List.any_eq_true.mpr ⟨row, hrow, decide_eq_true hversion⟩
  | load version =>
      obtain rfl := Option.some.inj hstep
      exact himports (fun _ => rfl) fun _ => rfl
  | loadGraph version =>
      obtain rfl := Option.some.inj hstep
      exact himports (fun _ => rfl) fun _ => rfl
  | maintain version =>
      unfold move importStep at hstep
      dsimp only at hstep
      split at hstep
      case h_1 hlatch =>
          obtain rfl := Option.some.inj hstep
          refine h.calm (maintain_calm h.versions hlatch rfl _) h.known ?_ (fun _ => Or.inl)
            fun _ => Or.inl
          refine (congrArg List.Nodup ?_).mpr h.versions
          exact update_import_versions version fun _ => rfl
      case h_2 => cases hstep
  | sweep version statsVersion =>
      obtain rfl := Option.some.inj hstep
      exact himports (fun _ => rfl) fun _ => rfl
  | tick elapsed =>
      obtain rfl := Option.some.inj hstep
      have hfewer : ∀ key, State.present { state with cache := state.cache.tick elapsed } key →
          state.present key := fun key hkey => Option.isSome_of_isSome_filter _ _ hkey
      exact h.calm (calm_of_fewer rfl rfl rfl hfewer) (fun key hkey => h.known key (hfewer key hkey))
        h.versions (fun _ => Or.inl) fun _ => Or.inl
  | request entityType name =>
      obtain rfl := Option.some.inj hstep
      exact h.calm (calm_of_fewer rfl rfl rfl fun _ => id) h.known h.versions (fun _ => Or.inl)
        fun _ => Or.inl
  | cacheGet index raises =>
      unfold move at hstep
      dsimp only at hstep
      split at hstep
      case h_1 => exact handler_sound h (fun _ _ _ _ hnext => Move.noConfusion hnext) hstep
      case h_2 => cases hstep
  | query index result =>
      unfold move at hstep
      dsimp only at hstep
      split at hstep
      case h_1 => exact handler_sound h (fun _ _ _ _ hnext => Move.noConfusion hnext) hstep
      case h_2 => cases hstep
  | giveUp index =>
      unfold move at hstep
      dsimp only at hstep
      split at hstep
      case h_1 => exact handler_sound h (fun _ _ _ _ hnext => Move.noConfusion hnext) hstep
      case h_2 => cases hstep
  | store index =>
      unfold move at hstep
      dsimp only at hstep
      split at hstep
      case h_1 handler hhandler =>
          refine handler_sound h (fun _ readAt command rest _ hphase => ?_) hstep
          rintro key ttl value rfl extraction hmem hstale
          obtain ⟨entityType, name, phase⟩ := handler
          obtain rfl : phase = _ := hphase
          simp only [storesFresh, hhandler] at hfresh
          exact of_decide_eq_true (List.all_eq_true.mp hfresh extraction hmem) hstale
      case h_2 => cases hstep
  | poll =>
      obtain rfl := Option.some.inj hstep
      refine h.calm (calm_of_fewer rfl rfl rfl fun _ => id) h.known h.versions (fun phase hphase => ?_)
        fun _ => Or.inl
      rcases List.mem_append.mp hphase with hold | hnew
      · exact Or.inl hold
      · obtain rfl := List.mem_singleton.mp hnew
        exact Or.inr trivial
  | advance index =>
      obtain ⟨phase, hphase, hpoll⟩ := Option.bind_eq_some_iff.mp hstep
      exact poll_sound h (List.mem_of_getElem? hphase) hpoll
  | page index keys last =>
      obtain ⟨phase, hphase, hpage⟩ := Option.bind_eq_some_iff.mp hstep
      exact page_sound h (List.mem_of_getElem? hphase) hpage
  | raise index =>
      unfold move at hstep
      dsimp only at hstep
      split at hstep
      case isTrue =>
          obtain rfl := Option.some.inj hstep
          exact h.set_poll trivial
      case isFalse => cases hstep

/-- The invariant holds through a run whose handlers store nothing stale behind a sweep. -/
theorem sound_along {moves : List Move}
    (h : execute (step config) .empty moves = .ok state)
    (halong : Along (step config) (fun state next => storesFresh state next) .empty moves) :
    Sound config state := by
  refine along_induction (motive := fun _ state => Sound config state) ?_ ?_ h halong
  · exact ⟨nofun, List.nodup_nil, nofun, nofun⟩
  · intro trace next before after hsound hfresh hstep
    unfold step at hstep
    cases hmove : move config before next with
    | none =>
        rw [hmove] at hstep
        cases hstep
    | some found =>
        rw [hmove] at hstep
        obtain rfl := Except.ok.inj hstep
        exact move_sound hsound hfresh hmove

/-- The newest import whose maintenance has finished. -/
def State.newestMaintained (state : State) : Option Import :=
  state.imports.find? (·.maintainedAt.isSome)

/-- The marker is that of the newest maintained import, set by a poll that invalidated. -/
def State.handled (state : State) (extraction : Import) : Prop :=
  state.newestMaintained = some extraction ∧
    state.marker = some { mark := extraction.mark, invalidated := true }

/-- After every run whose handlers store nothing stale behind a sweep: once an import is recorded as
handled, no value of the Explore family was read before its maintenance finished. -/
theorem handled_is_fresh (config : Config) (moves : List Move) (state : State)
    (h : execute (step config) .empty moves = .ok state)
    (halong : Along (step config) (fun state next => storesFresh state next) .empty moves)
    (extraction : Import) (hhandled : state.handled extraction) (key : Key)
    (hcovers : Family.explore.covers config.keyPrefix key) (hpresent : state.present key) :
    ∃ finished, extraction.maintainedAt = some finished ∧ finished ≤ state.readAt key := by
  have hsound := sound_along h halong
  obtain ⟨hnewest, hmarker⟩ := hhandled
  replace hnewest : state.imports.find? (·.maintainedAt.isSome) = some extraction := hnewest
  have hsome := List.find?_some hnewest
  obtain ⟨finished, hfinished⟩ := Option.isSome_iff_exists.mp hsome
  refine ⟨finished, hfinished, not_lt.mp fun hlt => ?_⟩
  refine (hsound.marker _ hmarker).2 rfl key ⟨hcovers, hpresent, extraction, ?_, rfl, ?_⟩
  · exact List.mem_of_find?_eq_some hnewest
  · exact ⟨finished, hfinished, hlt⟩

/-! ## Two runs -/

/-- The poll goes on to its marker, with nothing to scan. -/
def emptySweep (poll : Nat) : List Move :=
  List.replicate 13 (.advance poll) ++
    (List.replicate 4 [.page poll [] true, .advance poll]).flatten ++ [.advance poll]

/-- An import is handled by the first poll, and the next one is loaded. -/
def secondImport : List Move :=
  [.announce "20260801", .load "20260801", .loadGraph "20260801", .maintain "20260801", .poll] ++
    List.replicate 5 (.advance 0) ++
    [.announce "20260901", .load "20260901", .loadGraph "20260901", .request .artist "Bowie",
      .cacheGet 0 false]

/-- A handler reads the graph and stores what it read after the maintenance. -/
def readAfterwards : List Move :=
  secondImport ++ [.maintain "20260901", .query 0 (some ⟨"fresh", some 900⟩), .poll] ++
    emptySweep 1 ++ List.replicate 9 (.store 0)

/-- A handler reads the graph before the maintenance and stores what it read after the sweep. -/
def readBefore : List Move :=
  secondImport ++ [.query 0 (some ⟨"stale", some 900⟩), .maintain "20260901", .poll] ++
    emptySweep 1 ++ List.replicate 9 (.store 0)

/-- The second import. -/
def handledImport : Import :=
  { version := "20260901", loaded := true, graphLoaded := true, maintainedAt := some 2
    statsVersion := none }

/-- A store of a fresh value behind the sweep. -/
theorem fresh_store_is_fresh :
    ∃ state, execute (step ⟨"", 10000⟩) .empty readAfterwards = .ok state ∧
      ∃ finished, handledImport.maintainedAt = some finished ∧
        finished ≤ state.readAt "explore:artist:Bowie" := by
  refine ⟨_, rfl, ?_⟩
  exact handled_is_fresh ⟨"", 10000⟩ readAfterwards _ rfl (by decide +kernel) handledImport ⟨rfl, rfl⟩
    "explore:artist:Bowie" (by decide +kernel) (by decide +kernel)

/-- A store of a stale value behind the sweep: it stays under the marker of the import. -/
theorem stale_store_survives :
    ∃ state, execute (step ⟨"", 10000⟩) .empty readBefore = .ok state ∧
      state.handled handledImport ∧
      Family.explore.covers "" "explore:artist:Bowie" ∧ state.present "explore:artist:Bowie" ∧
      ¬∃ finished, handledImport.maintainedAt = some finished ∧
        finished ≤ state.readAt "explore:artist:Bowie" := by
  refine ⟨_, rfl, ⟨rfl, rfl⟩, by decide +kernel, by decide +kernel, ?_⟩
  rintro ⟨finished, hfinished, hle⟩
  obtain rfl := Option.some.inj hfinished
  revert hle
  decide +kernel

end CatalogApi.ImportCache
