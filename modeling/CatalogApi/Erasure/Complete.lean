import CatalogApi.Erasure.Beside

/-!
# When an erasure beside a sync is complete

A command adds rows, or a node, of one user at most (`effect_rows`, `effect_nodes`). So an erased user
stays without rows as long as no sync commits a page or a snapshot of the user behind the erasure, and
without a node as long as none merges it again (`erasure_complete`).
-/

namespace CatalogApi.Erasure

open Programs Syncer Runs

variable {Format Media : Type}

/-! ## Owners of rows -/

section Owners

variable {Row : Type} {owner : Row → User} {user : Option User} {rows next : List Row}

/-- The rows have owners that the old ones had, but for one user. -/
def Owned (owner : Row → User) (user : Option User) (rows next : List Row) : Prop :=
  ∀ row ∈ next, user = some (owner row) ∨ ∃ old ∈ rows, owner old = owner row

theorem Owned.refl : Owned owner user rows rows :=
  fun row hrow => Or.inr ⟨row, hrow, rfl⟩

theorem Owned.trans {last : List Row} (h : Owned owner user rows next)
    (hnext : Owned owner user next last) : Owned owner user rows last := by
  intro row hrow
  obtain huser | ⟨middle, hmiddle, howner⟩ := hnext row hrow
  · exact Or.inl huser
  · obtain huser | ⟨old, hold, howner'⟩ := h middle hmiddle
    · exact Or.inl (howner ▸ huser)
    · exact Or.inr ⟨old, hold, howner'.trans howner⟩

theorem owned_filter (p : Row → Bool) : Owned owner user rows (rows.filter p) :=
  fun row hrow => Or.inr ⟨row, (List.mem_filter.mp hrow).1, rfl⟩

theorem owned_map {change : Row → Row} (h : ∀ row, owner (change row) = owner row) :
    Owned owner user rows (rows.map change) := by
  intro row hrow
  obtain ⟨old, hold, rfl⟩ := List.mem_map.mp hrow
  exact Or.inr ⟨old, hold, (h old).symm⟩

theorem owned_append {fresh : Row} (h : user = some (owner fresh)) :
    Owned owner user rows (rows ++ [fresh]) := by
  intro row hrow
  obtain hold | hfresh := List.mem_append.mp hrow
  · exact Or.inr ⟨row, hold, rfl⟩
  · obtain rfl := List.mem_singleton.mp hfresh
    exact Or.inl h

theorem owned_upsert {conflict : Row → Prop} [DecidablePred conflict] {update : Row → Row}
    {fresh : Row} (hupdate : ∀ row, conflict row → user = some (owner (update row)))
    (hfresh : user = some (owner fresh)) :
    Owned owner user rows (Table.upsert conflict update fresh rows) := by
  intro row hrow
  obtain ⟨old, -, hconflict, rfl⟩ | ⟨hold, -⟩ | ⟨-, rfl⟩ := Table.mem_upsert hrow
  · exact Or.inl (hupdate old hconflict)
  · exact Or.inr ⟨row, hold, rfl⟩
  · exact Or.inl hfresh

/-- A fold of steps that each keep the owners but for one. -/
theorem owned_foldl {α : Type} {step : List Row → α → List Row} (items : List α)
    (h : ∀ item ∈ items, ∀ rows, Owned owner user rows (step rows item)) :
    Owned owner user rows (items.foldl step rows) := by
  induction items generalizing rows with
  | nil => exact Owned.refl
  | cons item items ih =>
      have hfirst := h item List.mem_cons_self rows
      exact hfirst.trans (ih fun later hlater => h later (List.mem_cons_of_mem _ hlater))

/-- What the owners mean for `any`. -/
theorem Owned.any {other : User} (h : Owned owner user rows next)
    (hany : next.any (fun row => owner row = other) = true) :
    user = some other ∨ rows.any (fun row => owner row = other) = true := by
  obtain ⟨row, hrow, howner⟩ := List.any_eq_true.mp hany
  obtain rfl := of_decide_eq_true howner
  obtain huser | ⟨old, hold, hsame⟩ := h row hrow
  · exact Or.inl huser
  · exact Or.inr (List.any_eq_true.mpr ⟨old, hold, decide_eq_true hsame⟩)

end Owners

/-! ## The tables of a collection sync -/

/-- The tables have the owners that they had, but for one user. -/
structure DbOwned (user : Option User) (db next : Db Format Media) : Prop where
  collections : Owned CollectionRow.userId user db.userCollections next.userCollections
  copies : Owned OwnedCopy.userId user db.ownedCopies next.ownedCopies
  snapshots : Owned CollectionSnapshot.userId user db.collectionSnapshots next.collectionSnapshots

section Tables

variable {env : Env Format Media} {db next last : Db Format Media} {user : Option User}

theorem DbOwned.refl : DbOwned user db db :=
  ⟨Owned.refl, Owned.refl, Owned.refl⟩

theorem DbOwned.trans (h : DbOwned user db next) (hnext : DbOwned user next last) :
    DbOwned user db last :=
  ⟨h.collections.trans hnext.collections, h.copies.trans hnext.copies,
    h.snapshots.trans hnext.snapshots⟩

theorem db_owned_upsert {params : BatchParams Format Media} (h : user = some params.userId) :
    DbOwned user db (upsertCollection env db params) := by
  refine ⟨owned_upsert (fun row hconflict => ?_) h, Owned.refl, Owned.refl⟩
  have howner : row.userId = params.userId := hconflict.1
  exact h.trans (congrArg some howner.symm)

theorem db_owned_upserts {batch : List (BatchParams Format Media)}
    (h : ∀ params ∈ batch, user = some params.userId) :
    DbOwned user db (batch.foldl (upsertCollection env) db) := by
  induction batch generalizing db with
  | nil => exact DbOwned.refl
  | cons params batch ih =>
      have hfirst : DbOwned user db (upsertCollection env db params) :=
        db_owned_upsert (h params List.mem_cons_self)
      exact hfirst.trans (ih fun later hlater => h later (List.mem_cons_of_mem _ hlater))

theorem db_owned_mint {userId : User} {affected after : List Nat} {row : CollectionRow Format Media}
    (h : mintOwnedCopy userId (db, affected) row = .ok (next, after)) :
    DbOwned (some userId) db next := by
  unfold mintOwnedCopy at h
  dsimp only at h
  split at h
  · obtain ⟨rfl, rfl⟩ := Prod.mk.inj (Except.ok.inj h)
    exact DbOwned.refl
  · split at h
    · obtain ⟨rfl, rfl⟩ := Prod.mk.inj (Except.ok.inj h)
      exact ⟨Owned.refl, owned_append rfl, Owned.refl⟩
    · split at h
      · cases h
      · split at h
        · obtain ⟨rfl, rfl⟩ := Prod.mk.inj (Except.ok.inj h)
          refine ⟨Owned.refl, owned_map fun old => ?_, Owned.refl⟩
          split <;> rfl
        · obtain ⟨rfl, rfl⟩ := Prod.mk.inj (Except.ok.inj h)
          exact DbOwned.refl

theorem db_owned_mints {userId : User} {rows : List (CollectionRow Format Media)}
    {affected after : List Nat}
    (h : rows.foldlM (mintOwnedCopy userId) (db, affected) = .ok (next, after)) :
    DbOwned (some userId) db next := by
  induction rows generalizing db affected with
  | nil =>
      obtain ⟨rfl, rfl⟩ := Prod.mk.inj (Except.ok.inj h)
      exact DbOwned.refl
  | cons row rows ih =>
      rw [List.foldlM_cons] at h
      obtain ⟨⟨middle, marked⟩, hfirst, hrest⟩ := bind_ok h
      exact (db_owned_mint hfirst).trans (ih hrest)

theorem db_owned_copies {userId : User} {rows : List (CollectionRow Format Media)}
    {copyIds : List (Nat × Nat)}
    (h : ensureOwnedCopies userId db rows = .ok (next, copyIds)) : DbOwned (some userId) db next := by
  unfold ensureOwnedCopies at h
  dsimp only at h
  split at h
  · obtain ⟨rfl, rfl⟩ := Prod.mk.inj (Except.ok.inj h)
    exact DbOwned.refl
  · obtain ⟨⟨minted, marked⟩, hmint, hlink⟩ := bind_ok h
    obtain ⟨rfl, rfl⟩ := Prod.mk.inj (Except.ok.inj hlink)
    have hminted := db_owned_mints hmint
    refine hminted.trans ⟨owned_map fun row => rfl, Owned.refl, Owned.refl⟩

/-- A page transaction adds rows of its user only. -/
theorem db_owned_page {releases : List (Item Format)} {events : List Event}
    (h : persistCollectionPage env db (batchParams env releases) = .ok (next, events)) :
    DbOwned (some env.userId) db next := by
  unfold persistCollectionPage at h
  obtain ⟨⟨linked, copyIds⟩, hcopies, hdone⟩ := bind_ok h
  obtain ⟨rfl, rfl⟩ := Prod.mk.inj (Except.ok.inj hdone)
  refine DbOwned.trans (db_owned_upserts fun params hparams => ?_) (db_owned_copies hcopies)
  obtain ⟨item, hitem, hparams⟩ := List.mem_filterMap.mp hparams
  unfold batchParamsOf at hparams
  dsimp only at hparams
  split at hparams
  · cases hparams
  · split at hparams
    · cases hparams
    · obtain rfl := Option.some.inj hparams
      rfl

theorem db_owned_reconcile : DbOwned user db (reconcileStaleCollection env db).1 := by
  refine ⟨owned_filter _, owned_map fun copy => ?_, Owned.refl⟩
  split <;> rfl

theorem db_owned_snapshot : DbOwned (some env.userId) db (writeCollectionSnapshot env db) :=
  ⟨Owned.refl, Owned.refl, owned_append rfl⟩

end Tables

/-! ## What a command adds -/

namespace Command

/-- The user of whom the command adds rows. -/
def addsRowsOf : Command Format Media → Option User
  | .persistCollection env _ | .insertSnapshot env => some env.userId
  | .persistWantlist call _ => some call.user
  | _ => none

/-- The user of whom the command merges the node. -/
def mergesNodeOf : Command Format Media → Option User
  | .mergeCollected user .. | .mergeWanted user .. => some user
  | _ => none

end Command

namespace Store

variable {store next : Store Format Media}

/-- Every row of a table of `_USER_OWNED_DELETES` has an owner that it had, but for one user. -/
def Adds (user : Option User) (store next : Store Format Media) : Prop :=
  ∀ other table, next.holds other table = true → user = some other ∨ store.holds other table = true

theorem adds_db {user : Option User} {db : Db Format Media} (h : DbOwned user store.db db) :
    Adds user store { store with db } := by
  intro other table hholds
  unfold holds at hholds ⊢
  split at hholds
  · exact h.collections.any hholds
  · exact h.copies.any hholds
  · exact h.snapshots.any hholds
  all_goals exact Or.inr hholds

theorem adds_delete (user : User) (table : Table) :
    Adds none store (deleteFrom user store table) := by
  intro other table' hholds
  refine Or.inr ?_
  unfold deleteFrom at hholds
  split at hholds <;> unfold holds at hholds ⊢ <;> split at hholds <;> first
    | exact hholds
    | (obtain ⟨row, hrow, howner⟩ := List.any_eq_true.mp hholds
       exact List.any_eq_true.mpr ⟨row, (List.mem_filter.mp hrow).1, howner⟩)

theorem holds_delete (user : User) (table : Table) :
    (deleteFrom user store table).holds user table = false := by
  cases table <;> simp [deleteFrom, holds]

/-- Deleting from some tables adds no row. -/
theorem adds_deletes (user : User) (tables : List Table) :
    Adds none store (tables.foldl (deleteFrom user) store) := by
  induction tables generalizing store with
  | nil => exact fun _ _ h => Or.inr h
  | cons table tables ih =>
      intro other table' hholds
      obtain hnone | hmiddle := ih other table' hholds
      · cases hnone
      · exact adds_delete user table other table' hmiddle

/-- Deleting from some tables leaves none of them a row of the user. -/
theorem holds_deletes (user : User) {tables : List Table} {table : Table} (h : table ∈ tables) :
    (tables.foldl (deleteFrom user) store).holds user table = false := by
  induction tables generalizing store with
  | nil => cases h
  | cons first tables ih =>
      obtain rfl | hrest := List.mem_cons.mp h
      · refine Bool.eq_false_iff.mpr fun hholds => ?_
        obtain hnone | hfirst := adds_deletes user tables user table hholds
        · cases hnone
        · rw [holds_delete] at hfirst
          cases hfirst
      · exact ih hrest

/-- What `_USER_OWNED_DELETES` leaves alone. -/
theorem deletes_same (user : User) (tables : List Table) :
    (tables.foldl (deleteFrom user) store).nodes = store.nodes ∧
      (tables.foldl (deleteFrom user) store).erased = store.erased ∧
      (tables.foldl (deleteFrom user) store).detached = store.detached := by
  induction tables generalizing store with
  | nil => exact ⟨rfl, rfl, rfl⟩
  | cons table tables ih =>
      obtain ⟨hnodes, herased, hdetached⟩ := @ih (deleteFrom user store table)
      refine ⟨hnodes.trans ?_, herased.trans ?_, hdetached.trans ?_⟩ <;> cases table <;> rfl

end Store

/-- A page of the wantlist adds rows of its user only. -/
theorem owned_wants {call : SyncCall Format Media} {wants : List (Want Format)}
    {rows : List (WantRow Media)} :
    Owned WantRow.userId (some call.user) rows
      ((wants.filterMap call.wantRow).foldl upsertWant rows) := by
  refine owned_foldl _ fun want hwant rows => ?_
  have howner : want.userId = call.user := by
    obtain ⟨item, -, hrow⟩ := List.mem_filterMap.mp hwant
    obtain ⟨releaseId, -, rfl⟩ := Option.map_eq_some_iff.mp hrow
    rfl
  exact owned_upsert (fun _ _ => congrArg some howner.symm) (congrArg some howner.symm)

section Effects

variable {store next : Store Format Media} {command : Command Format Media}

theorem effect_page {env : Env Format Media} {releases : List (Item Format)}
    (h : (Command.persistCollection env releases).effect store = some next) :
    ∃ db events, persistCollectionPage env store.db (batchParams env releases) = .ok (db, events) ∧
      next = { store with db } := by
  rw [Command.effect] at h
  split at h
  · rename_i db events hpage
    exact ⟨db, events, hpage, (Option.some.inj h).symm⟩
  · cases h

theorem effect_collected {user : User} {username : String} {edges : List Edge}
    (h : (Command.mergeCollected user username edges).effect store = some next) :
    ∃ change, (∀ node, (change node).id = node.id) ∧
      next = store.mergeUser user username change := by
  rw [Command.effect] at h
  split at h
  · cases h
  · refine ⟨_, ?_, (Option.some.inj h).symm⟩
    exact fun _ => rfl

/-- A command adds rows of at most one user. -/
theorem effect_rows (h : command.effect store = some next) :
    Store.Adds command.addsRowsOf store next := by
  cases command with
  | persistCollection env releases =>
      obtain ⟨db, events, hpage, rfl⟩ := effect_page h
      exact Store.adds_db (db_owned_page hpage)
  | deleteStaleCollection env =>
      obtain rfl := Option.some.inj h
      exact Store.adds_db db_owned_reconcile
  | insertSnapshot env =>
      obtain rfl := Option.some.inj h
      exact Store.adds_db db_owned_snapshot
  | persistWantlist call wants =>
      obtain rfl := Option.some.inj h
      intro other table hholds
      cases table with
      | userWantlists => exact owned_wants.any hholds
      | _ => exact Or.inr hholds
  | deleteStaleWantlist user cutoff =>
      obtain rfl := Option.some.inj h
      intro other table hholds
      cases table with
      | userWantlists => exact Owned.any (owned_filter _) hholds
      | _ => exact Or.inr hholds
  | updateHistory syncId status items =>
      obtain rfl := Option.some.inj h
      intro other table hholds
      cases table with
      | syncHistory =>
          have howned : Owned HistoryRow.userId none store.history
              (store.history.map fun row =>
                if row.id = syncId then { row with status, itemsSynced := items } else row) := by
            refine owned_map fun row => ?_
            split <;> rfl
          exact howned.any hholds
      | _ => exact Or.inr hholds
  | erasePostgres user =>
      obtain rfl := Option.some.inj h
      exact Store.adds_deletes user userOwnedDeletes
  | mergeCollected user username edges =>
      obtain ⟨change, -, rfl⟩ := effect_collected h
      exact fun _ _ hholds => Or.inr hholds
  | _ =>
      obtain rfl := Option.some.inj h
      exact fun _ _ hholds => Or.inr hholds

/-- A merge adds the node of its user at most. -/
theorem owned_merge {user : User} {username : String} {change : UserNode → UserNode}
    (h : ∀ node, (change node).id = node.id) :
    Owned UserNode.id (some user) store.nodes (store.mergeUser user username change).nodes := by
  refine owned_upsert (fun node hnode => congrArg some ?_) (congrArg some ?_)
  · exact (h { node with discogsUsername := username }).symm ▸ hnode.symm
  · exact (h { id := user, discogsUsername := username, collected := [], wants := [] }).symm

/-- A command adds the node of at most one user. -/
theorem effect_nodes (h : command.effect store = some next) :
    Owned UserNode.id command.mergesNodeOf store.nodes next.nodes := by
  cases command with
  | persistCollection env releases =>
      obtain ⟨db, events, -, rfl⟩ := effect_page h
      exact Owned.refl
  | mergeCollected user username edges =>
      obtain ⟨change, hid, rfl⟩ := effect_collected h
      exact owned_merge hid
  | mergeWanted user username edges =>
      obtain rfl := Option.some.inj h
      exact owned_merge fun node => rfl
  | deleteStaleCollected user cutoff | deleteStaleWanted user cutoff =>
      obtain rfl := Option.some.inj h
      refine owned_map fun node => ?_
      split <;> rfl
  | erasePostgres user =>
      obtain rfl := Option.some.inj h
      have hsame : (store.erasePostgres user).nodes = store.nodes :=
        (Store.deletes_same user userOwnedDeletes).1
      rw [hsame]
      exact Owned.refl
  | eraseNeo4j user =>
      obtain rfl := Option.some.inj h
      exact owned_filter _
  | _ =>
      obtain rfl := Option.some.inj h
      exact Owned.refl

/-- Only an erasure that leaves a user no rows makes it erased. -/
theorem effect_erased (h : command.effect store = some next) :
    next.erased = store.erased ∨ ∃ user, command = .erasePostgres user ∧
      next.erased = user :: store.erased ∧
      ∀ table ∈ userOwnedDeletes, next.holds user table = false := by
  cases command with
  | persistCollection env releases =>
      obtain ⟨db, events, -, rfl⟩ := effect_page h
      exact Or.inl rfl
  | mergeCollected user username edges =>
      obtain ⟨change, -, rfl⟩ := effect_collected h
      exact Or.inl rfl
  | erasePostgres user =>
      obtain rfl := Option.some.inj h
      exact Or.inr ⟨user, rfl, rfl, fun table htable => Store.holds_deletes user htable⟩
  | _ =>
      obtain rfl := Option.some.inj h
      exact Or.inl rfl

/-- Only a deletion that leaves a user no node makes it detached. -/
theorem effect_detached (h : command.effect store = some next) :
    next.detached = store.detached ∨ ∃ user, command = .eraseNeo4j user ∧
      next.detached = user :: store.detached ∧ ∀ node ∈ next.nodes, node.id ≠ user := by
  cases command with
  | persistCollection env releases =>
      obtain ⟨db, events, -, rfl⟩ := effect_page h
      exact Or.inl rfl
  | mergeCollected user username edges =>
      obtain ⟨change, -, rfl⟩ := effect_collected h
      exact Or.inl rfl
  | erasePostgres user =>
      obtain rfl := Option.some.inj h
      exact Or.inl (Store.deletes_same user userOwnedDeletes).2.2
  | eraseNeo4j user =>
      obtain rfl := Option.some.inj h
      exact Or.inr ⟨user, rfl, rfl, fun node hnode => by simpa using (List.mem_filter.mp hnode).2⟩
  | _ =>
      obtain rfl := Option.some.inj h
      exact Or.inl rfl

end Effects

/-! ## Runs -/

/-- The stores of a run of syncs and erasures. -/
abbrev Service (Format Media : Type) : Type :=
  Pool (Store Format Media) (Command Format Media) Command.Reply Outcome (Call Format Media)

/-- A step with this fate has its effect. -/
def Fate.applies : Fate → Bool
  | .succeeds => true
  | .fails applied _ => applied

/-- The command commits no rows of an erased user and no node of one whose node is deleted. -/
def Command.InTime (store : Store Format Media) (command : Command Format Media) : Prop :=
  store.fate.applies = true → (command.effect store).isSome = true →
    (∀ user ∈ command.addsRowsOf, user ∉ store.erased) ∧
      ∀ user ∈ command.mergesNodeOf, user ∉ store.detached

instance (store : Store Format Media) (command : Command Format Media) :
    Decidable (command.InTime store) :=
  inferInstanceAs (Decidable (_ → _ → _))

/-- The command that a step issues is in time. -/
def InTime (service : Service Format Media) : Move (Call Format Media) Fate → Prop
  | .step thread =>
      match service.threads[thread]? with
      | some ⟨_, _, .issue command _⟩ => command.InTime service.state
      | _ => True
  | _ => True

instance (service : Service Format Media) (move : Move (Call Format Media) Fate) :
    Decidable (InTime service move) := by
  unfold InTime
  repeat' split
  all_goals infer_instance

/-- No erased user has rows, and no user whose node was deleted has a node. -/
structure Sound (store : Store Format Media) : Prop where
  rows : ∀ user ∈ store.erased, ∀ table ∈ userOwnedDeletes, store.holds user table = false
  nodes : ∀ user ∈ store.detached, ∀ node ∈ store.nodes, node.id ≠ user

section Step

variable {store next : Store Format Media} {command : Command Format Media}

/-- An effect in time keeps the erased users erased. -/
theorem Sound.effect (h : Sound store) (heffect : command.effect store = some next)
    (hrows : ∀ user ∈ command.addsRowsOf, user ∉ store.erased)
    (hnodes : ∀ user ∈ command.mergesNodeOf, user ∉ store.detached) : Sound next := by
  have hold : ∀ user ∈ store.erased, ∀ table ∈ userOwnedDeletes, next.holds user table = false := by
    intro user huser table htable
    refine Bool.eq_false_iff.mpr fun hholds => ?_
    obtain hadds | hbefore := effect_rows heffect user table hholds
    · exact hrows user hadds huser
    · rw [h.rows user huser table htable] at hbefore
      cases hbefore
  have hgone : ∀ user ∈ store.detached, ∀ node ∈ next.nodes, node.id ≠ user := by
    rintro user huser node hnode rfl
    obtain hmerges | ⟨before, hbefore, hid⟩ := effect_nodes heffect node hnode
    · exact hnodes _ hmerges huser
    · exact h.nodes _ huser before hbefore hid
  constructor
  case rows =>
    obtain hsame | ⟨erased, -, herased, hempty⟩ := effect_erased heffect
    · rw [hsame]
      exact hold
    · rw [herased]
      intro user huser
      obtain rfl | huser := List.mem_cons.mp huser
      · exact hempty
      · exact hold user huser
  case nodes =>
    obtain hsame | ⟨detached, -, hdetached, hempty⟩ := effect_detached heffect
    · rw [hsame]
      exact hgone
    · rw [hdetached]
      intro user huser
      obtain rfl | huser := List.mem_cons.mp huser
      · exact hempty
      · exact hgone user huser

/-- A command leaves its effect or nothing behind, and its effect if it succeeds. -/
theorem exec_cases (store : Store Format Media) (command : Command Format Media) :
    (∃ next, command.effect store = some next ∧ store.fate.applies = true ∧
      (exec command store).2 = next) ∨
    ((exec command store).2 = store ∧ ∀ value, (exec command store).1 ≠ .ok value) := by
  unfold exec Store.attempt
  cases hfate : store.fate with
  | succeeds =>
      cases heffect : command.effect store with
      | none => exact Or.inr ⟨rfl, nofun⟩
      | some next => exact Or.inl ⟨next, rfl, rfl, rfl⟩
  | fails applied cancelled =>
      cases applied with
      | false => exact Or.inr ⟨rfl, nofun⟩
      | true =>
          cases heffect : command.effect store with
          | none => exact Or.inr ⟨rfl, nofun⟩
          | some next => exact Or.inl ⟨next, rfl, rfl, rfl⟩

/-- A command in time keeps the erased users erased. -/
theorem Sound.exec (h : Sound store) (hin : command.InTime store) :
    Sound (Erasure.exec command store).2 := by
  obtain ⟨next, heffect, happlies, hnext⟩ | ⟨hnext, -⟩ := exec_cases store command
  · obtain ⟨hrows, hnodes⟩ := hin happlies (Option.isSome_of_eq_some heffect)
    rw [hnext]
    exact h.effect heffect hrows hnodes
  · rw [hnext]
    exact h

/-- Erased and detached users stay so. -/
theorem exec_grows (store : Store Format Media) (command : Command Format Media) :
    (∀ user ∈ store.erased, user ∈ (exec command store).2.erased) ∧
      ∀ user ∈ store.detached, user ∈ (exec command store).2.detached := by
  obtain ⟨next, heffect, -, hnext⟩ | ⟨hnext, -⟩ := exec_cases store command
  · rw [hnext]
    constructor
    · intro user huser
      obtain hsame | ⟨erased, -, herased, -⟩ := effect_erased heffect
      · exact hsame ▸ huser
      · exact herased ▸ List.mem_cons_of_mem _ huser
    · intro user huser
      obtain hsame | ⟨detached, -, hdetached, -⟩ := effect_detached heffect
      · exact hsame ▸ huser
      · exact hdetached ▸ List.mem_cons_of_mem _ huser
  · rw [hnext]
    exact ⟨fun _ huser => huser, fun _ huser => huser⟩

end Step

/-- In a run in time the erased users stay without rows and nodes. -/
theorem sound_along {start : Store Format Media} (hstart : Sound start)
    {moves : List (Move (Call Format Media) Fate)} {service : Service Format Media}
    (h : execute stores.step (stores.idle start) moves = .ok service)
    (halong : Along stores.step InTime (stores.idle start) moves) : Sound service.state := by
  refine System.state_along stores hstart ?_ ?_ h halong
  · intro service thread call last command rest hthread hin hsound
    simp only [InTime, hthread] at hin
    exact hsound.exec hin
  · intro service fate _ hsound
    exact ⟨hsound.rows, hsound.nodes⟩

/-! ## What an erasure has done -/

/-- The user of a call, and what its erasure has committed so far. -/
structure Role where
  user : User
  erased : Bool := false
  detached : Bool := false

/-- The role after a command that succeeded. -/
def Role.after (role : Role) : Command Format Media → Role
  | .erasePostgres user => { role with erased := role.erased || user = role.user }
  | .eraseNeo4j user => { role with detached := role.detached || user = role.user }
  | _ => role

/-- The stores have seen what the roles have done. -/
def Seen (store : Store Format Media) (roles : List Role) : Prop :=
  ∀ role ∈ roles, (role.erased = true → role.user ∈ store.erased) ∧
    (role.detached = true → role.user ∈ store.detached)

/-- A call that has returned with nothing incomplete has done both. -/
def Role.At (role : Role) (thread : Thread (Command Format Media) Command.Reply Outcome
    (Call Format Media)) : Prop :=
  ∀ request, thread.call = .erasure request → thread.returned = some (.erased []) →
    role = { user := request.user, erased := true, detached := true }

section Outline

variable {store : Store Format Media} {roles : List Role} {role : Role} {index : Nat}
  {command : Command Format Media} {request : ErasureRequest}

theorem Seen.exec (h : Seen store roles) : Seen (Erasure.exec command store).2 roles := by
  intro role hrole
  obtain ⟨herased, hdetached⟩ := h role hrole
  obtain ⟨herasedOn, hdetachedOn⟩ := exec_grows store command
  exact ⟨fun hflag => herasedOn _ (herased hflag), fun hflag => hdetachedOn _ (hdetached hflag)⟩

/-- A command that succeeds is seen. -/
theorem Seen.after (h : Seen store roles) (hrole : roles[index]? = some role)
    {value : command.Value} (hok : (Erasure.exec command store).1 = .ok value) :
    Seen (Erasure.exec command store).2 (roles.set index (role.after command)) := by
  obtain ⟨next, heffect, -, hnext⟩ | ⟨-, hfailed⟩ := exec_cases store command
  case inr => exact absurd hok (hfailed value)
  have hseen : Seen (Erasure.exec command store).2 roles := h.exec
  obtain ⟨herased, hdetached⟩ := hseen role (List.mem_of_getElem? hrole)
  intro other hother
  obtain hkept | rfl := List.mem_or_eq_of_mem_set hother
  · exact hseen other hkept
  · rw [hnext] at herased hdetached ⊢
    cases command with
    | erasePostgres user =>
        obtain rfl := Option.some.inj heffect
        refine ⟨fun hflag => ?_, hdetached⟩
        obtain hbefore | huser := Bool.or_eq_true_iff.mp hflag
        · exact herased hbefore
        · exact List.mem_cons.mpr (Or.inl (of_decide_eq_true huser).symm)
    | eraseNeo4j user =>
        obtain rfl := Option.some.inj heffect
        refine ⟨herased, fun hflag => ?_⟩
        obtain hbefore | huser := Bool.or_eq_true_iff.mp hflag
        · exact hdetached hbefore
        · exact List.mem_cons.mpr (Or.inl (of_decide_eq_true huser).symm)
    | _ => exact ⟨herased, hdetached⟩

/-- From this role on the request has done what it reports. -/
def Safe (request : ErasureRequest) (role : Role) (job : Job Format Media) : Prop :=
  ∀ last, stores.Outlined Seen Role.At InTime (.erasure request) role last job

theorem safe_done {outcome : Outcome}
    (h : outcome = .erased [] → role = { user := request.user, erased := true, detached := true }) :
    Safe request role (.done outcome : Job Format Media) := by
  intro last other hcall hreturned
  obtain rfl := Call.erasure.inj hcall
  exact h (Option.some.inj hreturned)

/-- A command leads to what follows its success, or its failure. -/
theorem safe_issue {rest : command.Reply → Job Format Media}
    (hok : ∀ value, Safe request (role.after command) (rest (.ok value)))
    (hfailed : ∀ failure, Safe request role (rest (.error failure))) :
    Safe request role (.issue command rest) := by
  intro last
  refine System.Outlined.issue stores nofun fun store roles thread hseen hrole => ?_
  cases hreply : (exec command store).1 with
  | ok value => exact ⟨role.after command, hseen.after hrole hreply, hreply ▸ hok value _⟩
  | error failure =>
      refine ⟨role, ?_, hreply ▸ hfailed failure _⟩
      rw [set_same hrole]
      exact hseen.exec

theorem safe_attempt {failed : StepFailure → Job Format Media}
    {next : command.Value → Job Format Media}
    (hok : ∀ value, Safe request (role.after command) (next value))
    (hfailed : ∀ failure, Safe request role (failed failure)) :
    Safe request role (Job.attempt command failed next) :=
  safe_issue hok hfailed

theorem safe_suppress {next : Except Unit command.Value → Job Format Media}
    (hok : ∀ value, Safe request (role.after command) (next (.ok value)))
    (hfailed : Safe request role (next (.error ()))) :
    Safe request role (Job.suppress command next) := by
  refine safe_issue hok fun failure => ?_
  cases failure with
  | raised => exact hfailed
  | cancelled => exact safe_done nofun

/-- After the Neo4j step a request that reports nothing incomplete has done both. -/
theorem safe_valkey {incomplete : List Incomplete}
    (h : incomplete = [] → role = { user := request.user, erased := true, detached := true }) :
    Safe request role
      (request.eraseValkey fun valkey =>
        request.revokeToken (.done (.erased (incomplete ++ valkey))) : Job Format Media) := by
  have hrest : ∀ valkey, Safe request role
      (request.revokeToken (.done (.erased (incomplete ++ valkey))) : Job Format Media) := by
    intro valkey
    have hdone : Safe request role
        (.done (.erased (incomplete ++ valkey)) : Job Format Media) :=
      safe_done fun hnone => h (List.append_eq_nil_iff.mp (Outcome.erased.inj hnone)).1
    unfold ErasureRequest.revokeToken
    split
    · exact safe_suppress (fun _ => hdone) hdone
    · exact hdone
  unfold ErasureRequest.eraseValkey
  split
  · refine safe_suppress (fun surviving => ?_) (hrest _)
    cases surviving with
    | zero => exact hrest _
    | succ surviving => exact hrest _
  · exact hrest _

theorem safe_erasure (request : ErasureRequest) :
    Safe request { user := request.user } (request.requestErasure : Job Format Media) := by
  refine safe_attempt (fun _ => ?_) fun failure => safe_done nofun
  split
  case isFalse => exact safe_done nofun
  refine safe_suppress (fun _ => ?_) (safe_done nofun)
  dsimp only
  split
  case isFalse => exact safe_done nofun
  have herase : Safe request { user := request.user }
      (Job.attempt (.erasePostgres request.user) (fun failure => .done (.failed failure)) fun _ =>
        request.eraseNeo4j fun neo4j => request.eraseValkey fun valkey =>
          request.revokeToken (.done (.erased (neo4j ++ valkey))) : Job Format Media) := by
    refine safe_attempt (fun _ => ?_) fun failure => safe_done nofun
    unfold ErasureRequest.eraseNeo4j
    split
    · refine safe_suppress (fun _ => safe_valkey fun _ => ?_) (safe_valkey nofun)
      simp [Role.after]
    · exact safe_valkey nofun
  exact safe_suppress (fun _ => herase) herase

end Outline

/-- A request that has returned with nothing incomplete has erased its user and deleted the node. -/
theorem erased_along {start : Store Format Media} {moves : List (Move (Call Format Media) Fate)}
    {service : Service Format Media}
    (h : execute stores.step (stores.idle start) moves = .ok service)
    (halong : Along stores.step InTime (stores.idle start) moves) {request : ErasureRequest}
    {thread : Thread (Command Format Media) Command.Reply Outcome (Call Format Media)}
    (hthread : thread ∈ service.threads) (hcall : thread.call = .erasure request)
    (hreturned : thread.returned = some (.erased [])) :
    request.user ∈ service.state.erased ∧ request.user ∈ service.state.detached := by
  have hroles : ∃ roles, Seen service.state roles ∧ List.Forall₂ Role.At roles service.threads := by
    refine System.outlined_along stores nofun ?_ (fun _ _ _ hseen _ _ => hseen) h halong
    intro service roles call hseen _ _
    have hstart : ∀ user, Seen service.state (roles ++ [({ user } : Role)]) := by
      intro user role hrole
      obtain hold | hnew := List.mem_append.mp hrole
      · exact hseen role hold
      · obtain rfl := List.mem_singleton.mp hnew
        exact ⟨nofun, nofun⟩
    cases call with
    | sync call =>
        refine ⟨{ user := call.user }, hstart _, ?_⟩
        exact System.Outlined.kept stores (fun _ _ => nofun) (fun _ _ _ hseen => hseen.exec) _ _
    | erasure request => exact ⟨_, hstart _, safe_erasure request none⟩
  obtain ⟨roles, hseen, hat⟩ := hroles
  obtain ⟨index, hlt, hindex⟩ := List.getElem_of_mem hthread
  obtain ⟨role, hrole, hrat⟩ := forall₂_get hat (List.getElem?_eq_some_iff.mpr ⟨hlt, hindex⟩)
  obtain rfl := hrat request hcall hreturned
  obtain ⟨herased, hdetached⟩ := hseen _ (List.mem_of_getElem? hrole)
  exact ⟨herased rfl, hdetached rfl⟩

/-! ## Completeness -/

/-- Once an erasure has returned with nothing incomplete and the syncs of its user have ended, no table
of `_USER_OWNED_DELETES` has a row of the user and Neo4j has no node of the user. -/
def Complete (service : Service Format Media) : Prop :=
  ∀ erasure ∈ service.threads, ∀ request, erasure.call = .erasure request →
    erasure.returned = some (.erased []) →
    (∀ thread ∈ service.threads, ∀ call, thread.call = .sync call → call.user = request.user →
      thread.returned ≠ none) →
    (∀ table ∈ userOwnedDeletes, service.state.holds request.user table = false) ∧
      ∀ node ∈ service.state.nodes, node.id ≠ request.user

/-- An erasure beside syncs is complete if no sync commits rows behind it, or a node behind the deletion
of the node. -/
theorem erasure_complete (start : Store Format Media) (herased : start.erased = [])
    (hdetached : start.detached = []) (moves : List (Move (Call Format Media) Fate))
    (service : Service Format Media)
    (h : execute stores.step (stores.idle start) moves = .ok service)
    (halong : Along stores.step InTime (stores.idle start) moves) : Complete service := by
  have hstart : Sound start := by
    constructor
    case rows => exact herased ▸ nofun
    case nodes => exact hdetached ▸ nofun
  have hsound := sound_along hstart h halong
  intro thread hthread request hcall hreturned _
  obtain ⟨hrows, hnodes⟩ := erased_along h halong hthread hcall hreturned
  exact ⟨hsound.rows _ hrows, hsound.nodes _ hnodes⟩

/-! ### Two runs -/

/-- A user with a token, whose sync has been recorded. -/
def syncing : Store String String :=
  { db := { userCollections := [], ownedCopies := [], collectionSnapshots := [], nextId := 0 }
    wantlists := []
    history := [{ id := 7, userId := 1, status := .running, itemsSynced := 0 }]
    oauthTokens := [{ userId := 1, providerUsername := "ada" }]
    appConfigured := true
    others := [(.appTokens, 1), (.appTokens, 2)]
    releases := [249504]
    nodes := []
    keys := [(1, .enhanced), (1, .syncLock)]
    fate := .succeeds
    erased := []
    detached := [] }

/-- A sync of one item in the collection and an empty wantlist. -/
def oneItem : SyncCall String String :=
  { user := 1, syncId := 7, startedAt := 100, wantlistStartedAt := 110
    resolveAliases := fun releaseId => some (releaseId + 1)
    mapDiscogsFormats := String.intercalate ","
    formatName := id
    valkey := true
    responses :=
      [.ok
        [{ basicInformation :=
             { id := some 249504, title := some "Never Gonna Give You Up", year := some 1987
               artists := [⟨"Rick Astley"⟩], labels := [⟨"RCA", some "PB 41447"⟩], formats := ["Vinyl"] }
           instanceId := some 3, folderId := some 1, rating := none, dateAdded := none }]
        none]
    wantResponses := [.ok [] none]
    unanswered := .raised }

/-- An erasure of the same user that everything answers. -/
def eraseOne : ErasureRequest :=
  { user := 1, accepted := true, resolved := true, neo4j := true, valkey := true, swept := true }

/-- The collection is written before the erasure begins, and the sync ends after it. -/
def erasedBetween : List (Move (Call String String) Fate) :=
  .start (.sync oneItem) :: List.replicate 6 (.step 0) ++ [.start (.erasure eraseOne)] ++
    List.replicate 7 (.step 1) ++ List.replicate 4 (.step 0)

/-- The sync has its token when the erasure begins, and writes the collection after it. -/
def erasedBefore : List (Move (Call String String) Fate) :=
  [.start (.sync oneItem), .step 0, .start (.erasure eraseOne)] ++
    List.replicate 7 (.step 1) ++ List.replicate 9 (.step 0)

/-- A sync that is over with its writes when the erasure begins. -/
theorem erasure_between_complete :
    ∃ service, execute stores.step (stores.idle syncing) erasedBetween = .ok service ∧
      service.threads.map Thread.returned = [some (.synced .completed 1 0), some (.erased [])] ∧
      Complete service := by
  refine ⟨_, rfl, rfl, ?_⟩
  exact erasure_complete syncing rfl rfl erasedBetween _ rfl (by decide +kernel)

/-- A page behind the erasure: the erased user has a row, a copy, a snapshot and a node. -/
theorem page_survives_erasure :
    ∃ service, execute stores.step (stores.idle syncing) erasedBefore = .ok service ∧
      service.threads.map Thread.returned = [some (.synced .completed 1 0), some (.erased [])] ∧
      service.state.holds 1 .userCollections = true ∧ ¬Complete service := by
  refine ⟨_, rfl, rfl, by decide +kernel, fun hcomplete => ?_⟩
  have hrows := (hcomplete _ (List.mem_cons_of_mem _ List.mem_cons_self) eraseOne rfl rfl ?_).1
    .userCollections (by decide)
  · revert hrows
    decide +kernel
  · intro thread hthread call hcall _
    obtain rfl | hthread := List.mem_cons.mp hthread
    · exact nofun
    · obtain rfl := List.mem_singleton.mp hthread
      cases hcall

end CatalogApi.Erasure
