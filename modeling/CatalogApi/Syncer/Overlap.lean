import CatalogApi.Syncer.Convergence

/-!
# Two overlapping runs of one user

Two runs started on two replicas interleave at page transactions; each ends with its sweep. What
matters for one key are the stamps of its rows: a page that fetches the key stamps them with its
own run's clock, also backwards, and a sweep deletes those stamped before its run. The row is
there at the end exactly when the run that started first fetches the key after the other's
sweep, or the other was the last to fetch it before that sweep.
-/

namespace CatalogApi.Syncer

open Table Runs

variable {Format Media : Type}

/-- The two runs, by the order of their `sync_started`. -/
inductive Run where
  | first | second
  deriving DecidableEq

/-- One atomic step of the two runs: a page transaction or the sweep at the end of a run. -/
inductive RunStep (Format : Type) where
  | page (run : Run) (releases : List (Item Format))
  | sweep (run : Run)

def RunStep.run : RunStep Format → Run
  | .page run _ => run
  | .sweep run => run

/-- Take one step. -/
def RunStep.apply (envs : Run → Env Format Media) (db : Db Format Media) :
    RunStep Format → Except SyncError (Db Format Media)
  | .page run releases =>
      (persistCollectionPage (envs run) db (batchParams (envs run) releases)).map Prod.fst
  | .sweep run => .ok (reconcileStaleCollection (envs run) db).1

/-- The page holds an item that is stored under this key. -/
def fetchesItem (key : Key) (releases : List (Item Format)) : Bool :=
  releases.any fun item =>
    item.basicInformation.id = some key.1 ∧ key.1 ≠ 0 ∧ item.instanceId = key.2

/-- The step fetches the key. -/
def RunStep.fetches (key : Key) : RunStep Format → Bool
  | .page _ releases => fetchesItem key releases
  | .sweep _ => false

/-- The run of the last step that fetches the key. -/
def lastFetch (key : Key) (trace : List (RunStep Format)) : Option Run :=
  (trace.reverse.find? (·.fetches key)).map (·.run)

/-! ## The stamps of one key -/

/-- The stamps of the user's rows with this key. -/
def stampsOf (userId : Nat) (key : Key) (db : Db Format Media) : List Instant :=
  (db.userCollections.filter fun row => row.userId = userId ∧ row.key = key).map (·.updatedAt)

/-- What fetching a key does to its stamps. -/
def stampAll (stamp : Instant) (stamps : List Instant) : List Instant :=
  if stamps = [] then [stamp] else stamps.map fun _ => stamp

theorem stamp_all_ne_nil (stamp : Instant) (stamps : List Instant) : stampAll stamp stamps ≠ [] := by
  unfold stampAll
  split
  · simp
  · simpa

theorem mem_stamp_all {stamp t : Instant} {stamps : List Instant} (h : t ∈ stampAll stamp stamps) :
    t = stamp := by
  unfold stampAll at h
  split at h
  · exact List.mem_singleton.mp h
  · obtain ⟨-, -, rfl⟩ := List.mem_map.mp h
    rfl

/-- Fetching a key twice stamps it once. -/
theorem stamp_all_twice (stamp : Instant) (stamps : List Instant) :
    stampAll stamp (stampAll stamp stamps) = stampAll stamp stamps := by
  unfold stampAll
  by_cases h : stamps = [] <;> simp [h]

/-- An upsert stamps the rows of its own key. -/
theorem stamps_upsert {env : Env Format Media} {db : Db Format Media}
    {params : BatchParams Format Media} {key : Key} (huser : params.userId = env.userId)
    (hkey : key.2 ≠ none) :
    stampsOf env.userId key (upsertCollection env db params) =
      if params.key = key then stampAll params.updatedAt (stampsOf env.userId key db)
      else stampsOf env.userId key db := by
  have hupdate : ∀ row ∈ db.userCollections, decide ((updateRow params
      (env.resolveAliases params.releaseId) row).userId = env.userId ∧ (updateRow params
      (env.resolveAliases params.releaseId) row).key = key) =
      decide (row.userId = env.userId ∧ row.key = key) := fun _ _ => rfl
  unfold stampsOf upsertCollection
  by_cases hparams : params.key = key
  · subst hparams
    have hconflict : ∀ row : CollectionRow Format Media, conflicts params row ↔
        row.userId = env.userId ∧ row.key = params.key := fun row => conflicts_iff huser hkey
    rw [if_pos rfl, filter_upsert (fun row _ hc => decide_eq_true ((hconflict row).mp hc)) hupdate
      (decide_eq_true ⟨huser, rfl⟩)]
    unfold upsert stampAll
    cases hrows : db.userCollections.filter fun row =>
        row.userId = env.userId ∧ row.key = params.key with
    | nil => simp [insertRow]
    | cons head rest =>
        have hall : ∀ row ∈ head :: rest, conflicts params row := by
          intro row hrow
          rw [← hrows] at hrow
          exact (hconflict row).mpr (of_decide_eq_true (List.mem_filter.mp hrow).2)
        rw [if_pos ⟨head, List.mem_cons_self, hall head List.mem_cons_self⟩, if_neg (by simp),
          List.map_map, List.map_map]
        refine List.map_congr_left fun row hrow => ?_
        simp [hall row hrow, updateRow]
  · have hconflict : ∀ row ∈ db.userCollections, conflicts params row →
        ¬decide (row.userId = env.userId ∧ row.key = key) = true := by
      rintro row - ⟨-, hrelease, -, hinstance⟩ hpart
      exact hparams ((Prod.ext hrelease.symm hinstance.symm).trans (of_decide_eq_true hpart).2)
    have hfresh : ¬decide ((insertRow db.nextId params
        (env.resolveAliases params.releaseId)).userId = env.userId ∧ (insertRow db.nextId params
        (env.resolveAliases params.releaseId)).key = key) = true :=
      fun hpart => hparams (of_decide_eq_true hpart).2
    rw [if_neg hparams, filter_not_upsert hconflict hupdate hfresh]

/-- The upserts of a batch stamp the key when it is in the batch. -/
theorem stamps_upserts {env : Env Format Media} {batch : List (BatchParams Format Media)}
    {key : Key} (hkey : key.2 ≠ none) (huser : ∀ p ∈ batch, p.userId = env.userId)
    (hstamp : ∀ p ∈ batch, p.updatedAt = env.syncStarted) (db : Db Format Media) :
    stampsOf env.userId key (batch.foldl (upsertCollection env) db) =
      if key ∈ batch.map (·.key) then stampAll env.syncStarted (stampsOf env.userId key db)
      else stampsOf env.userId key db := by
  induction batch generalizing db with
  | nil => rfl
  | cons p batch ih =>
      rw [List.foldl_cons, ih (fun q hq => huser q (List.mem_cons_of_mem _ hq))
        (fun q hq => hstamp q (List.mem_cons_of_mem _ hq)),
        stamps_upsert (huser p List.mem_cons_self) hkey, hstamp p List.mem_cons_self]
      by_cases hp : p.key = key <;> by_cases hin : key ∈ batch.map (·.key)
      · simp only [hp, hin, if_true, List.map_cons, List.mem_cons, true_or, stamp_all_twice]
      · simp only [hp, hin, if_true, if_false, List.map_cons, List.mem_cons, true_or]
      · simp only [hp, hin, if_true, if_false, List.map_cons, List.mem_cons, or_true]
      · have hne : ¬key = p.key := fun heq => hp heq.symm
        simp only [hp, hin, hne, if_false, List.map_cons, List.mem_cons, or_false]

/-- A committed page stamps the key when it fetches it, whatever else is on the page. -/
theorem stamps_page {env : Env Format Media} {db next : Db Format Media}
    {batch : List (BatchParams Format Media)} {key : Key} {events : List Event}
    (hkey : key.2 ≠ none) (huser : ∀ p ∈ batch, p.userId = env.userId)
    (hstamp : ∀ p ∈ batch, p.updatedAt = env.syncStarted)
    (h : persistCollectionPage env db batch = .ok (next, events)) :
    stampsOf env.userId key next =
      if key ∈ batch.map (·.key) then stampAll env.syncStarted (stampsOf env.userId key db)
      else stampsOf env.userId key db := by
  obtain ⟨copies, rowIds, hrows, -⟩ := persist_collections h
  rw [← stamps_upserts hkey huser hstamp]
  unfold stampsOf
  rw [hrows, List.filter_map, List.map_map]
  rfl

theorem stamps_sweep (env : Env Format Media) (db : Db Format Media) (key : Key) :
    stampsOf env.userId key (reconcileStaleCollection env db).1 =
      (stampsOf env.userId key db).filter fun stamp => ¬stamp < env.syncStarted := by
  unfold stampsOf reconcileStaleCollection
  dsimp only
  rw [List.filter_filter, List.filter_map, List.filter_filter]
  congr 1
  refine List.filter_congr fun row _ => ?_
  by_cases huser : row.userId = env.userId <;> simp [huser, isStale, Bool.and_comm]

/-! ## Interleavings -/

section Interleaving

variable {envs : Run → Env Format Media} {userId : Nat} {key : Key}

/-- The keys of a batch are those its page fetches. -/
theorem fetches_iff (env : Env Format Media) (key : Key) (releases : List (Item Format)) :
    key ∈ (batchParams env releases).map (·.key) ↔ fetchesItem key releases := by
  have hitem : ∀ item : Item Format, (∃ params, batchParamsOf env item = some params ∧
      params.key = key) ↔
      item.basicInformation.id = some key.1 ∧ key.1 ≠ 0 ∧ item.instanceId = key.2 := by
    intro item
    unfold batchParamsOf
    dsimp only
    cases hid : item.basicInformation.id with
    | none => simp
    | some releaseId =>
        by_cases hzero : releaseId = 0
        · subst hzero
          simp only [if_true, reduceCtorEq, false_and, exists_false, false_iff]
          rintro ⟨hid, hne, -⟩
          exact hne (Option.some.inj hid).symm
        · simp only [hzero, if_false, Option.some.injEq, exists_eq_left', BatchParams.key,
            Prod.ext_iff]
          constructor
          · rintro ⟨rfl, hinstance⟩
            exact ⟨rfl, hzero, hinstance⟩
          · rintro ⟨rfl, -, hinstance⟩
            exact ⟨rfl, hinstance⟩
  simp only [fetchesItem, List.any_eq_true, decide_eq_true_eq, ← hitem, batchParams, List.mem_map,
    List.mem_filterMap]
  constructor
  · rintro ⟨params, ⟨item, hmem, hparams⟩, hkey⟩
    exact ⟨item, hmem, params, hparams, hkey⟩
  · rintro ⟨item, hmem, params, hparams, hkey⟩
    exact ⟨params, ⟨item, hmem, hparams⟩, hkey⟩

/-- What one step does to the stamps of a key. -/
def stampStep (envs : Run → Env Format Media) (key : Key) (stamps : List Instant) :
    RunStep Format → List Instant
  | .page run releases =>
      if fetchesItem key releases then stampAll (envs run).syncStarted stamps else stamps
  | .sweep run => stamps.filter fun stamp => ¬stamp < (envs run).syncStarted

theorem step_stamps (huser : ∀ run, (envs run).userId = userId) (hkey : key.2 ≠ none)
    {db next : Db Format Media} {label : RunStep Format} (h : label.apply envs db = .ok next) :
    stampsOf userId key next = stampStep envs key (stampsOf userId key db) label := by
  cases label with
  | page run releases =>
      simp only [RunStep.apply] at h
      cases hpage : persistCollectionPage (envs run) db (batchParams (envs run) releases) with
      | error reason => simp [hpage, Except.map] at h
      | ok result =>
          obtain rfl : result.1 = next := by simpa [hpage, Except.map] using h
          have hbatch : ∀ p ∈ batchParams (envs run) releases, p.userId = (envs run).userId ∧
              p.updatedAt = (envs run).syncStarted := by
            intro p hp
            obtain ⟨-, -, huser, hstamp, -⟩ := mem_batch_params hp
            exact ⟨huser, hstamp⟩
          have hstamps := stamps_page hkey (fun p hp => (hbatch p hp).1)
            (fun p hp => (hbatch p hp).2) hpage
          rw [huser run] at hstamps
          rw [hstamps, if_congr (fetches_iff (envs run) key releases) rfl rfl]
          rfl
  | sweep run =>
      obtain rfl := Except.ok.inj h
      rw [← huser run, stamps_sweep]
      rfl

theorem last_fetch_snoc (before : List (RunStep Format)) (label : RunStep Format) :
    lastFetch key (before ++ [label]) =
      if label.fetches key then some label.run else lastFetch key before := by
  unfold lastFetch
  rw [List.reverse_append, List.reverse_singleton, List.singleton_append, List.find?_cons]
  cases hfetch : label.fetches key <;> simp

/-- While the sweep of the second run is to come, the last run to fetch the key has stamped its
rows. -/
theorem stamps_of_last_fetch (huser : ∀ run, (envs run).userId = userId) (hkey : key.2 ≠ none)
    (hless : (envs .first).syncStarted < (envs .second).syncStarted) {start mid : Db Format Media}
    {before : List (RunStep Format)} (hsweep : ∀ label ∈ before, label ≠ .sweep .second)
    (hrun : execute (RunStep.apply envs) start before = .ok mid) {run : Run}
    (hlast : lastFetch key before = some run) :
    stampsOf userId key mid ≠ [] ∧
      ∀ stamp ∈ stampsOf userId key mid, stamp = (envs run).syncStarted := by
  induction before using List.reverseRecOn generalizing mid with
  | nil => cases hlast
  | append_singleton before label ih =>
      obtain ⟨state, hbefore, hstep⟩ := execute_snoc_ok hrun
      have hstamps := step_stamps huser hkey hstep
      rw [last_fetch_snoc] at hlast
      have hrest := ih (fun l hl => hsweep l (List.mem_append_left _ hl)) hbefore
      cases label with
      | page r releases =>
          have hfetches : (RunStep.page r releases).fetches key = fetchesItem key releases := rfl
          rw [hfetches] at hlast
          rw [stampStep] at hstamps
          by_cases hfetch : fetchesItem key releases
          · rw [if_pos hfetch] at hlast hstamps
            obtain rfl : r = run := Option.some.inj hlast
            rw [hstamps]
            exact ⟨stamp_all_ne_nil _ _, fun stamp hstamp => mem_stamp_all hstamp⟩
          · rw [if_neg hfetch] at hlast hstamps
            rw [hstamps]
            exact hrest hlast
      | sweep r =>
          obtain ⟨hne, hall⟩ := hrest hlast
          have hr : r = .first := by
            cases r with
            | first => rfl
            | second =>
                exact absurd rfl (hsweep _ (List.mem_append_right _ (List.mem_singleton.mpr rfl)))
          -- the first run's sweep is older than either stamp
          have hkeep : (stampsOf userId key state).filter
              (fun stamp => ¬stamp < (envs r).syncStarted) = stampsOf userId key state := by
            refine List.filter_eq_self.mpr fun stamp hstamp => decide_eq_true ?_
            rw [hall stamp hstamp, hr]
            cases run with
            | first => exact lt_irrefl _
            | second => exact not_lt_of_gt hless
          rw [hstamps, stampStep, hkeep]
          exact ⟨hne, hall⟩

/-- Alone, the first run keeps the key's rows that are not older than it, and adds one when it
fetches the key. -/
theorem stamps_of_first (huser : ∀ run, (envs run).userId = userId) (hkey : key.2 ≠ none)
    {mid final : Db Format Media} {after : List (RunStep Format)}
    (hfirst : ∀ label ∈ after, label.run = .first)
    (hrecent : ∀ stamp ∈ stampsOf userId key mid, ¬stamp < (envs .first).syncStarted)
    (hrun : execute (RunStep.apply envs) mid after = .ok final) :
    stampsOf userId key final ≠ [] ↔
      (∃ label ∈ after, label.fetches key) ∨ stampsOf userId key mid ≠ [] := by
  induction after generalizing mid with
  | nil =>
      obtain rfl := Except.ok.inj hrun
      simp
  | cons label after ih =>
      rw [execute_cons] at hrun
      cases hstep : label.apply envs mid with
      | error reason => simp [hstep, Except.bind] at hrun
      | ok next =>
          simp only [hstep, Except.bind] at hrun
          have hstamps := step_stamps huser hkey hstep
          have hlabel := hfirst label List.mem_cons_self
          have hfirst' : ∀ l ∈ after, l.run = .first := fun l hl =>
            hfirst l (List.mem_cons_of_mem _ hl)
          have hrest := fun hnext => ih hfirst' hnext hrun
          cases label with
          | page r releases =>
              obtain rfl : r = .first := hlabel
              rw [stampStep] at hstamps
              by_cases hfetch : fetchesItem key releases
              · rw [if_pos hfetch] at hstamps
                have hnext : ∀ stamp ∈ stampsOf userId key next,
                    ¬stamp < (envs .first).syncStarted := by
                  rw [hstamps]
                  exact fun stamp hstamp => by rw [mem_stamp_all hstamp]; exact lt_irrefl _
                rw [hrest hnext, hstamps]
                have hne := stamp_all_ne_nil (envs .first).syncStarted (stampsOf userId key mid)
                simp [RunStep.fetches, hfetch, hne]
              · rw [if_neg hfetch] at hstamps
                rw [hrest (hstamps ▸ hrecent), hstamps]
                simp [RunStep.fetches, hfetch]
          | sweep r =>
              obtain rfl : r = .first := hlabel
              have hkeep : (stampsOf userId key mid).filter
                  (fun stamp => ¬stamp < (envs .first).syncStarted) = stampsOf userId key mid :=
                List.filter_eq_self.mpr fun stamp hstamp => decide_eq_true (hrecent stamp hstamp)
              rw [stampStep, hkeep] at hstamps
              rw [hrest (hstamps ▸ hrecent), hstamps]
              simp [RunStep.fetches]

end Interleaving

theorem split_at_last {α : Type*} {x : α} {front rest pages : List α}
    (h : front ++ x :: rest = pages ++ [x]) (hx : x ∉ pages) : front = pages ∧ rest = [] := by
  induction rest using List.reverseRecOn with
  | nil => exact ⟨List.append_cancel_right h, rfl⟩
  | append_singleton rest y _ =>
      rw [← List.cons_append, ← List.append_assoc] at h
      obtain ⟨hfront, -⟩ := List.append_singleton_inj.mp h
      exact absurd (hfront ▸ List.mem_append_right _ List.mem_cons_self) hx

/-- Two overlapping runs keep the row of a key exactly when the run that started first fetches it
after the other's sweep, or the other run was the last to fetch it before that sweep. -/
theorem overlapping_row_survives_iff (envs : Run → Env Format Media) (userId : Nat)
    (start final : Db Format Media) (before after : List (RunStep Format))
    (pages : Run → List (List (Item Format))) (release instance' : Nat)
    (huser : ∀ run, (envs run).userId = userId)
    (hless : (envs .first).syncStarted < (envs .second).syncStarted)
    (hruns : ∀ run, (before ++ .sweep .second :: after).filter (fun label => label.run = run) =
      (pages run).map (.page run) ++ [.sweep run])
    (hfetch : ∀ run, ∃ releases ∈ pages run, fetchesItem (release, some instance') releases)
    (hrun : execute (RunStep.apply envs) start (before ++ .sweep .second :: after) = .ok final) :
    (∃ row ∈ final.userCollections, row.userId = userId ∧ row.key = (release, some instance')) ↔
      (∃ label ∈ after, label.fetches (release, some instance')) ∨
        lastFetch (release, some instance') before = some .second := by
  have hkey : ((release, some instance') : Key).2 ≠ none := by simp
  generalize ((release, some instance') : Key) = key at *
  have hsecond := hruns .second
  rw [List.filter_append, List.filter_cons_of_pos (by simp [RunStep.run])] at hsecond
  -- the sweep of the second run is its last step
  obtain ⟨hbefore, hafter⟩ := split_at_last hsecond (by simp)
  have hsweep : ∀ label ∈ before, label ≠ .sweep .second := by
    rintro label hlabel rfl
    have hin : RunStep.sweep .second ∈ before.filter fun label => label.run = .second :=
      List.mem_filter.mpr ⟨hlabel, rfl⟩
    rw [hbefore] at hin
    simp at hin
  have hfirst : ∀ label ∈ after, label.run = .first := by
    intro label hlabel
    have hnot := List.filter_eq_nil_iff.mp hafter label hlabel
    cases hlabelRun : label.run with
    | first => rfl
    | second => exact absurd (decide_eq_true hlabelRun) hnot
  obtain ⟨run, hlast⟩ : ∃ run, lastFetch key before = some run := by
    obtain ⟨releases, hreleases, hfetches⟩ := hfetch .second
    have hin : RunStep.page .second releases ∈ before := by
      have hmap : RunStep.page .second releases ∈ (pages .second).map (.page .second) :=
        List.mem_map.mpr ⟨releases, hreleases, rfl⟩
      rw [← hbefore] at hmap
      exact List.mem_of_mem_filter hmap
    cases hfound : before.reverse.find? (·.fetches key) with
    | none => exact absurd hfetches (List.find?_eq_none.mp hfound _ (List.mem_reverse.mpr hin))
    | some label => exact ⟨label.run, by rw [lastFetch, hfound]; rfl⟩
  rw [execute_append] at hrun
  cases hmid : execute (RunStep.apply envs) start before with
  | error reason => simp [hmid, Except.bind] at hrun
  | ok mid =>
      simp only [hmid, Except.bind] at hrun
      rw [execute_cons] at hrun
      obtain ⟨hne, hall⟩ := stamps_of_last_fetch huser hkey hless hsweep hmid hlast
      have hswept := step_stamps huser hkey (show RunStep.apply envs mid (.sweep .second) =
        .ok (reconcileStaleCollection (envs .second) mid).1 from rfl)
      rw [stampStep] at hswept
      have hrecent : ∀ stamp ∈ stampsOf userId key (reconcileStaleCollection (envs .second) mid).1,
          ¬stamp < (envs .first).syncStarted := by
        intro stamp hstamp
        rw [hswept] at hstamp
        have hkept := of_decide_eq_true (List.mem_filter.mp hstamp).2
        exact fun hlt => hkept (hlt.trans hless)
      have hrows : (∃ row ∈ final.userCollections, row.userId = userId ∧ row.key = key) ↔
          stampsOf userId key final ≠ [] := by
        simp [stampsOf, List.filter_eq_nil_iff]
      rw [hrows, stamps_of_first huser hkey hfirst hrecent hrun, hlast, hswept]
      refine or_congr Iff.rfl ?_
      cases run with
      | first =>
          have hgone : (stampsOf userId key mid).filter
              (fun stamp => ¬stamp < (envs .second).syncStarted) = [] := by
            refine List.filter_eq_nil_iff.mpr fun stamp hstamp => ?_
            rw [hall stamp hstamp]
            simpa using hless
          rw [hgone]
          simp
      | second =>
          have hkept : (stampsOf userId key mid).filter
              (fun stamp => ¬stamp < (envs .second).syncStarted) = stampsOf userId key mid := by
            refine List.filter_eq_self.mpr fun stamp hstamp => decide_eq_true ?_
            rw [hall stamp hstamp]
            exact lt_irrefl _
          rw [hkept]
          simpa using hne

/-- Two replicas syncing one user, the second started later. -/
def replicas : Run → Env String Nat
  | .first => collector
  | .second => { collector with syncStarted := 200 }

def noRows : Db String Nat :=
  { userCollections := [], ownedCopies := [], collectionSnapshots := [], nextId := 1 }

/-- Both runs fetch one page with the item of release 10. -/
def onePage (_ : Run) : List (List (Item String)) :=
  [[bareItem 10 20 3]]

/-- The pages of both runs before the first sweep, the given run's page last. -/
def fetchLast : Run → List (RunStep String)
  | .first => [.page .second [bareItem 10 20 3], .page .first [bareItem 10 20 3]]
  | .second => [.page .first [bareItem 10 20 3], .page .second [bareItem 10 20 3]]

theorem later_fetch_survives : ∃ final, execute (RunStep.apply replicas) noRows
      (fetchLast .second ++ .sweep .second :: [.sweep .first]) = .ok final ∧
    ((∃ row ∈ final.userCollections, row.userId = 1 ∧ row.key = (10, some 20)) ↔
      (∃ label ∈ [(.sweep .first : RunStep String)], label.fetches (10, some 20)) ∨
        lastFetch (10, some 20) (fetchLast .second) = some .second) := by
  refine ⟨_, rfl, overlapping_row_survives_iff replicas 1 noRows _ (fetchLast .second)
    [.sweep .first] onePage 10 20 ?_ (by decide) ?_ ?_ rfl⟩
  · rintro (_ | _) <;> rfl
  · rintro (_ | _) <;> rfl
  · exact fun _ => ⟨_, List.mem_singleton.mpr rfl, rfl⟩

/-- The second run fetches the item, the first run fetches it again and stamps its row back, and
the second run's sweep deletes the row. -/
theorem stamped_back_row_lost : ∃ final, execute (RunStep.apply replicas) noRows
      (fetchLast .first ++ .sweep .second :: [.sweep .first]) = .ok final ∧
    (∀ run, (fetchLast .first ++ RunStep.sweep .second :: [RunStep.sweep .first]).filter
        (fun label : RunStep String => label.run = run) =
      (onePage run).map (.page run) ++ [.sweep run]) ∧
    (∀ run, ∃ releases ∈ onePage run, fetchesItem (10, some 20) releases) ∧
    ¬∃ row ∈ final.userCollections, row.userId = 1 ∧ row.key = (10, some 20) := by
  refine ⟨_, rfl, ?_, fun _ => ⟨_, List.mem_singleton.mpr rfl, rfl⟩, ?_⟩
  · rintro (_ | _) <;> rfl
  · rintro ⟨row, hrow, -⟩
    exact absurd hrow List.not_mem_nil

end CatalogApi.Syncer
