import CatalogApi.CacheBudget.Store

/-!
# Concurrent writers and the budget

Any number of `store_within_budget` calls on one cache, interleaved command by command. A call that is
let through while the index is full overshoots the budget by one, and at most as many do as are in
progress; but a call that found its key in the index writes it back unchecked, so an eviction of that
key in between adds one for good. `overshoot_bounded` bounds the index where no eviction takes such a
key, and `refreshes_accumulate` is a run of two writers at a time that passes any such bound.
-/

namespace CatalogApi.CacheBudget

open Programs

/-- A pool of calls on a cache. -/
abbrev Writers := Pool Cache Command Reply Bool StoreCall

/-- The call's last command found its key in the index. -/
def foundKey (thread : Thread Command Reply Bool StoreCall) : Bool :=
  match thread.last with
  | some ⟨.zscore _ _, reply⟩ => (show Option Int from reply).isSome
  | _ => false

/-- A call starts only while fewer than `n` are in progress. -/
def AtMost (n : Nat) (pool : Writers) : Move StoreCall Nat → Prop
  | .start _ => pool.threads.countP (·.returned.isNone) < n
  | _ => True

/-- No eviction takes a key from the index that a call in progress has found in it and not yet
written back. -/
def Spares (pool : Writers) : Move StoreCall Nat → Prop
  | .step thread =>
      match pool.threads[thread]? with
      | some ⟨_, _, .issue (.zrem .index [victim]) _⟩ =>
          victim ∈ pool.state.index.members →
            ∀ other ∈ pool.threads, other.call.key = victim → foundKey other = false
      | _ => True
  | _ => True

/-! ## The invariant -/

/-- How far a call has come: it found its key in the index, or was let through, or has written the
index. -/
inductive Stage where
  | deciding
  | found (key : String)
  | admitted
  | written
  | returned
  deriving DecidableEq

def Stage.inProgress (stage : Stage) : Bool := stage ≠ .returned

/-- The key that a call found and has not written back. -/
def Stage.key : Stage → Option String
  | .found key => some key
  | _ => none

/-- The keys that calls found and have not written back. -/
def rewriting (stages : List Stage) : Finset String := (stages.filterMap Stage.key).toFinset

/-- The keys of the index, those still to be written back and the calls let through overshoot by no
more than there are calls in progress. -/
structure Bounded (maxKeys n : Nat) (live : Finset String) (stages : List Stage) : Prop where
  keys : (live ∪ rewriting stages).card + stages.count .admitted ≤ maxKeys + n
  inProgress : stages.countP Stage.inProgress ≤ n

theorem rewriting_append_cons (before after : List Stage) (stage : Stage) :
    rewriting (before ++ stage :: after) =
      (stage.key.toList).toFinset ∪ rewriting (before ++ after) := by
  ext key
  simp only [rewriting, List.mem_toFinset, List.filterMap_append, List.mem_append, Finset.mem_union]
  cases hkey : stage.key with
  | none => simp [hkey]
  | some found =>
      simp [hkey, or_left_comm, eq_comm]

/-- The calls that found a key and those let through are in progress. -/
theorem rewriting_card_le (stages : List Stage) :
    (rewriting stages).card + stages.count .admitted ≤ stages.countP Stage.inProgress := by
  have hlist : (stages.filterMap Stage.key).length + stages.count .admitted ≤
      stages.countP Stage.inProgress := by
    induction stages with
    | nil => exact Nat.le_refl 0
    | cons stage stages ih =>
        rw [List.filterMap_cons, List.countP_cons, List.count_cons]
        cases stage with
        | deciding => simp [Stage.key, Stage.inProgress]; omega
        | found key => simp [Stage.key, Stage.inProgress]; omega
        | admitted => simp [Stage.key, Stage.inProgress]; omega
        | written => simp [Stage.key, Stage.inProgress]; omega
        | returned => simp [Stage.key, Stage.inProgress]; omega
  have hcard := List.toFinset_card_le (stages.filterMap Stage.key)
  rw [rewriting]
  omega

section Transitions

variable {maxKeys n : Nat} {live live' : Finset String} {stages : List Stage} {thread : Nat}
  {stage : Stage}

section

variable (h : Bounded maxKeys n live stages)
include h

/-- The index only loses members. -/
theorem Bounded.mono (hlive : live' ⊆ live) :
    Bounded maxKeys n live' stages := by
  refine ⟨Nat.le_trans (Nat.add_le_add_right ?_ _) h.keys, h.inProgress⟩
  exact Finset.card_le_card (Finset.union_subset_union_left hlive)

/-- The index only loses members and the call keeps its stage. -/
theorem Bounded.keep (hlive : live' ⊆ live) (hstage : stages[thread]? = some stage) :
    Bounded maxKeys n live' (stages.set thread stage) := by
  obtain ⟨before, after, hsplit, hset⟩ := set_split hstage
  rw [hset, ← hsplit]
  exact h.mono hlive

/-- The call finds its key in the index. -/
theorem Bounded.find
    (hstage : stages[thread]? = some .deciding) {key : String} (hkey : key ∈ live) :
    Bounded maxKeys n live (stages.set thread (.found key)) := by
  obtain ⟨before, after, rfl, hset⟩ := set_split hstage
  rw [hset]
  obtain ⟨hkeys, hprogress⟩ := h
  refine ⟨?_, ?_⟩
  · rw [rewriting_append_cons] at hkeys ⊢
    have hsame : live ∪ ((Stage.found key).key.toList.toFinset ∪ rewriting (before ++ after)) ⊆
        live ∪ (Stage.deciding.key.toList.toFinset ∪ rewriting (before ++ after)) := by
      intro other hother
      simp only [Stage.key, Option.toList, List.toFinset_cons, List.toFinset_nil,
        Finset.mem_union, Finset.mem_insert, Finset.notMem_empty, or_false, false_or] at hother ⊢
      rcases hother with hother | rfl | hother
      · exact Or.inl hother
      · exact Or.inl hkey
      · exact Or.inr hother
    have hcard := Finset.card_le_card hsame
    rw [List.count_append, List.count_cons_of_ne (by nofun)] at hkeys ⊢
    omega
  · rw [List.countP_append, List.countP_cons] at hprogress ⊢
    exact hprogress

/-- The call is let through with no more than `maxKeys` keys in the index. -/
theorem Bounded.admitted (hlive : live'.card ≤ maxKeys)
    (hstage : stages[thread]? = some .deciding) :
    Bounded maxKeys n live' (stages.set thread .admitted) := by
  obtain ⟨before, after, rfl, hset⟩ := set_split hstage
  rw [hset]
  have hprogress : (before ++ Stage.admitted :: after).countP Stage.inProgress ≤ n := by
    have hprogress := h.inProgress
    rw [List.countP_append, List.countP_cons] at hprogress ⊢
    exact hprogress
  refine ⟨?_, hprogress⟩
  have hunion := Finset.card_union_le live' (rewriting (before ++ Stage.admitted :: after))
  have hstages := rewriting_card_le (before ++ Stage.admitted :: after)
  omega

/-- The call takes a key from the index that no call has found and not written back. -/
theorem Bounded.evict {victim : String} (hvictim : victim ∈ live)
    (hspared : victim ∉ rewriting stages) (hstage : stages[thread]? = some .deciding) :
    Bounded maxKeys n (live.erase victim) (stages.set thread .admitted) := by
  obtain ⟨before, after, rfl, hset⟩ := set_split hstage
  rw [hset]
  obtain ⟨hkeys, hprogress⟩ := h
  refine ⟨?_, ?_⟩
  · rw [rewriting_append_cons] at hkeys hspared ⊢
    have hnone : Stage.admitted.key.toList.toFinset = Stage.deciding.key.toList.toFinset := rfl
    rw [hnone]
    have herase : live.erase victim ∪
        (Stage.deciding.key.toList.toFinset ∪ rewriting (before ++ after)) =
        (live ∪ (Stage.deciding.key.toList.toFinset ∪ rewriting (before ++ after))).erase
          victim := by
      rw [Finset.erase_union_distrib, Finset.erase_eq_of_notMem hspared]
    have hcard := Finset.card_erase_of_mem (Finset.mem_union_left
      (Stage.deciding.key.toList.toFinset ∪ rewriting (before ++ after)) hvictim)
    have hpos := Finset.card_pos.mpr ⟨victim, Finset.mem_union_left
      (Stage.deciding.key.toList.toFinset ∪ rewriting (before ++ after)) hvictim⟩
    rw [herase, hcard]
    rw [List.count_append, List.count_cons_of_ne (by nofun)] at hkeys
    rw [List.count_append, List.count_cons_self]
    omega
  · rw [List.countP_append, List.countP_cons] at hprogress ⊢
    exact hprogress

/-- A call that found its key writes it back. -/
theorem Bounded.rewrite {key : String} (hstage : stages[thread]? = some (.found key)) :
    Bounded maxKeys n (insert key live) (stages.set thread .written) := by
  obtain ⟨before, after, rfl, hset⟩ := set_split hstage
  rw [hset]
  obtain ⟨hkeys, hprogress⟩ := h
  refine ⟨?_, ?_⟩
  · rw [rewriting_append_cons] at hkeys ⊢
    have hsame : insert key live ∪
        (Stage.written.key.toList.toFinset ∪ rewriting (before ++ after)) =
        live ∪ ((Stage.found key).key.toList.toFinset ∪ rewriting (before ++ after)) := by
      ext other
      simp only [Stage.key, Option.toList, List.toFinset_cons, List.toFinset_nil,
        Finset.mem_union, Finset.mem_insert, Finset.notMem_empty, or_false, false_or]
      exact or_assoc.trans or_left_comm
    rw [hsame]
    rw [List.count_append, List.count_cons_of_ne (by nofun)] at hkeys ⊢
    exact hkeys
  · rw [List.countP_append, List.countP_cons] at hprogress ⊢
    exact hprogress

/-- A call that was let through writes its key. -/
theorem Bounded.write {key : String} (hstage : stages[thread]? = some .admitted) :
    Bounded maxKeys n (insert key live) (stages.set thread .written) := by
  obtain ⟨before, after, rfl, hset⟩ := set_split hstage
  rw [hset]
  obtain ⟨hkeys, hprogress⟩ := h
  refine ⟨?_, ?_⟩
  · rw [rewriting_append_cons] at hkeys ⊢
    have hnone : Stage.admitted.key.toList.toFinset = Stage.written.key.toList.toFinset := rfl
    rw [hnone] at hkeys
    have hcard := Finset.card_insert_le key
      (live ∪ (Stage.written.key.toList.toFinset ∪ rewriting (before ++ after)))
    rw [Finset.insert_union]
    rw [List.count_append, List.count_cons_self] at hkeys
    rw [List.count_append, List.count_cons_of_ne (by nofun)]
    omega
  · rw [List.countP_append, List.countP_cons] at hprogress ⊢
    exact hprogress

/-- The call returns, with no key left to write. -/
theorem Bounded.finish (hlive : live' ⊆ live)
    (hstage : stages[thread]? = some stage) (hkey : stage.key = none) (hnew : stage ≠ .admitted) :
    Bounded maxKeys n live' (stages.set thread .returned) := by
  obtain ⟨before, after, rfl, hset⟩ := set_split hstage
  rw [hset]
  obtain ⟨hkeys, hprogress⟩ := h
  refine ⟨?_, ?_⟩
  · rw [rewriting_append_cons] at hkeys ⊢
    have hnone : Stage.returned.key = stage.key := hkey.symm
    rw [hnone]
    refine Nat.le_trans ?_ hkeys
    rw [List.count_append, List.count_cons_of_ne (by nofun), List.count_append,
      List.count_cons_of_ne hnew]
    exact Nat.add_le_add_right (Finset.card_le_card (Finset.union_subset_union_left hlive)) _
  · rw [List.countP_append, List.countP_cons] at hprogress ⊢
    rw [if_neg (by nofun)]
    omega

end

end Transitions

/-! ## What a command does to the index -/

theorem ScoredKeys.members_update_subset (keys : ScoredKeys) {scores : SortedSet String}
    {live : Finset String} (h : scores.members.toFinset ⊆ live) :
    (keys.update scores).scores.members.toFinset ⊆ live := by
  rw [ScoredKeys.update]
  split
  · exact Finset.empty_subset live
  · exact h

theorem Cache.index_update_subset (cache : Cache) (name : SetName) {scores : SortedSet String}
    (h : name = .index → scores.members.toFinset ⊆ cache.index.members.toFinset) :
    (cache.updateSet name scores).index.members.toFinset ⊆ cache.index.members.toFinset := by
  cases name with
  | index => exact ScoredKeys.members_update_subset _ (h rfl)
  | costs => exact Finset.Subset.refl _

/-- Only `ZADD` adds to the index. -/
theorem index_exec_subset (command : Command) (cache : Cache)
    (h : ∀ member score, command ≠ .zadd .index member score) :
    (exec command cache).2.index.members.toFinset ⊆ cache.index.members.toFinset := by
  cases command with
  | time => exact Finset.Subset.refl _
  | zrangebyscore name bound => exact Finset.Subset.refl _
  | zrem name members =>
      refine cache.index_update_subset name ?_
      rintro rfl
      exact SortedSet.members_keep_subset _
  | zremrangebyscore name bound =>
      refine cache.index_update_subset name ?_
      rintro rfl
      exact SortedSet.members_keep_subset _
  | zscore name member => exact Finset.Subset.refl _
  | zcard name => exact Finset.Subset.refl _
  | zrangeFirst name => exact Finset.Subset.refl _
  | existsSet name => exact Finset.Subset.refl _
  | deleteSet name =>
      cases name with
      | index => exact Finset.empty_subset _
      | costs => exact Finset.Subset.refl _
  | delete key => exact Finset.Subset.refl _
  | zadd name member score =>
      cases name with
      | index => exact absurd rfl (h member score)
      | costs => exact Finset.Subset.refl _
  | expire name ttl =>
      cases name with
      | index =>
          change ((cache.sets .index).expire _).scores.members.toFinset ⊆ _
          rw [ScoredKeys.expire]
          split
          · exact Finset.Subset.refl _
          · exact Finset.Subset.refl _
      | costs => exact Finset.Subset.refl _
  | setex key ttl value => exact Finset.Subset.refl _

theorem index_tick_subset (cache : Cache) (elapsed : Nat) :
    (cache.tick elapsed).index.members.toFinset ⊆ cache.index.members.toFinset := by
  change ((cache.sets .index).tick _).scores.members.toFinset ⊆ _
  rw [ScoredKeys.tick]
  split
  · split
    · exact Finset.empty_subset _
    · exact Finset.Subset.refl _
  · exact Finset.Subset.refl _

/-- `ZADD` adds its member. -/
theorem index_zadd (cache : Cache) (member : String) (score : Int) :
    (exec (.zadd .index member score) cache).2.index.members.toFinset =
      insert member cache.index.members.toFinset := by
  change ((cache.sets .index).update _).scores.members.toFinset = _
  rw [ScoredKeys.update, if_neg (SortedSet.card_add_ne_zero _ _ _), SortedSet.members_add]
  rfl

/-- A `ZREM` of one member that replies 1 took it from the index. -/
theorem index_zrem {cache : Cache} {victim : String}
    (h : (exec (.zrem .index [victim]) cache).1 = (1 : Nat)) :
    victim ∈ cache.index.members ∧
      (exec (.zrem .index [victim]) cache).2.index.members.toFinset ⊆
        cache.index.members.toFinset.erase victim := by
  have hremoved : (cache.index.remove [victim]).members.toFinset =
      cache.index.members.toFinset.erase victim := by
    rw [SortedSet.members_remove, List.toFinset_cons, List.toFinset_nil, insert_empty_eq,
      Finset.sdiff_singleton_eq_erase]
  refine ⟨?_, ?_⟩
  · by_contra hmem
    rw [← List.mem_toFinset] at hmem
    have hcard : (cache.index.remove [victim]).card = cache.index.card := by
      rw [← SortedSet.card_members, hremoved, Finset.erase_eq_of_notMem hmem,
        SortedSet.card_members]
    have hreply : cache.index.card - (cache.index.remove [victim]).card = 1 := h
    omega
  · rw [← hremoved]
    exact ScoredKeys.members_update_subset _ (Finset.Subset.refl _)

/-! ## Outlines -/

/-- What a call's stage shows of it. -/
def StageOf (stage : Stage) (thread : Thread Command Reply Bool StoreCall) : Prop :=
  (stage.inProgress = true → thread.returned = none) ∧
    ∀ key, stage = .found key → thread.call.key = key ∧ foundKey thread = true

/-- What holds of a cache and the stages of the calls on it. -/
def IndexBounded (maxKeys n : Nat) (cache : Cache) (stages : List Stage) : Prop :=
  Bounded maxKeys n cache.index.members.toFinset stages

/-- The moves of at most `n` calls at a time whose evictions spare what other calls found. -/
def Allowed (n : Nat) (pool : Writers) (move : Move StoreCall Nat) : Prop :=
  AtMost n pool move ∧ Spares pool move

section Outlines

variable (maxKeys n : Nat)

/-- The index stays bounded from this stage of a call on. -/
def Held (call : StoreCall) (stage : Stage) (last : Option ((command : Command) × Reply command))
    (task : Task Bool) : Prop :=
  (budget maxKeys).Outlined (IndexBounded maxKeys n) StageOf (Allowed n) call stage last task

variable {maxKeys n} {call : StoreCall} {last : Option ((command : Command) × Reply command)}
  {stage : Stage} {command : Command} {next : Reply command → Task Bool}

theorem held_done (answer : Bool) : Held maxKeys n call .returned last (.done answer) :=
  ⟨by nofun, by nofun⟩

/-- A command whose effect on the index does not depend on the other calls. -/
theorem held_issue (hstage : StageOf stage ⟨call, last, .issue command next⟩)
    (h : ∀ (cache : Cache) (stages : List Stage) (thread : Nat),
      Bounded maxKeys n cache.index.members.toFinset stages → stages[thread]? = some stage →
      ∃ stage', Bounded maxKeys n (exec command cache).2.index.members.toFinset
          (stages.set thread stage') ∧
        Held maxKeys n call stage' (some ⟨command, (exec command cache).1⟩)
          (next (exec command cache).1)) :
    Held maxKeys n call stage last (.issue command next) :=
  System.Outlined.issue (budget maxKeys) hstage h

theorem stage_of_issue (hkey : stage.key = none) :
    StageOf stage ⟨call, last, .issue command next⟩ := by
  refine ⟨fun _ => rfl, fun key hfound => ?_⟩
  rw [hfound] at hkey
  cases hkey

/-- After it has written the index a call only goes on to return. -/
theorem held_written (hcommand : ∀ member score, command ≠ .zadd .index member score)
    (h : ∀ reply, Held maxKeys n call .written (some ⟨command, reply⟩) (next reply)) :
    Held maxKeys n call .written last (.issue command next) := by
  refine held_issue (stage_of_issue rfl) fun cache stages thread hbounded hthread => ?_
  exact ⟨.written, hbounded.keep (index_exec_subset command cache hcommand) hthread, h _⟩

/-- A call that was let through writes its key and returns. -/
theorem held_write (now : Int)
    (hstage : stage = .found call.key ∧ foundKey ⟨call, last, write call now⟩ = true ∨
      stage = .admitted) :
    Held maxKeys n call stage last (write call now) := by
  have hrest : ∀ reply, Held maxKeys n call .written
      (some ⟨.zadd .index call.key (now + call.ttl), reply⟩)
      (do
        Valkey.zadd .costs call.key call.weight
        Valkey.expire .index call.ttl
        Valkey.expire .costs call.ttl
        Valkey.setex call.key call.ttl call.value
        pure true) := by
    intro reply
    refine held_written (by nofun) fun _ => ?_
    refine held_written (by nofun) fun _ => ?_
    refine held_written (by nofun) fun _ => ?_
    refine held_issue (stage_of_issue rfl) fun cache stages thread hbounded hthread => ?_
    refine ⟨.returned, ?_, held_done true⟩
    exact hbounded.finish (index_exec_subset _ cache (by nofun)) hthread rfl (by nofun)
  rcases hstage with ⟨rfl, hfound⟩ | rfl
  · refine held_issue ⟨fun _ => rfl, fun key hkey => ⟨Stage.found.inj hkey, hfound⟩⟩
      fun cache stages thread hbounded hthread => ⟨.written, ?_, hrest _⟩
    rw [index_zadd]
    exact hbounded.rewrite hthread
  · refine held_issue (stage_of_issue rfl)
      fun cache stages thread hbounded hthread => ⟨.written, ?_, hrest _⟩
    rw [index_zadd]
    exact hbounded.write hthread

/-- The stage of a call that is not let through yet: it decides, or has returned. -/
def deciding : Task Bool → Stage
  | .done _ => .returned
  | .issue _ _ => .deciding

theorem held_deciding_done (answer : Bool) :
    Held maxKeys n call (deciding (.done answer)) last (.done answer) := held_done answer

theorem Bounded.follow {live live' : Finset String} {stages : List Stage} {thread : Nat}
    (h : Bounded maxKeys n live stages) (hlive : live' ⊆ live)
    (hthread : stages[thread]? = some .deciding) (task : Task Bool) :
    Bounded maxKeys n live' (stages.set thread (deciding task)) := by
  cases task with
  | done answer => exact h.finish hlive hthread rfl (by nofun)
  | issue command next => exact h.keep hlive hthread

/-- A command after which the call still decides, or returns. -/
theorem held_deciding (hcommand : ∀ member score, command ≠ .zadd .index member score)
    (h : ∀ reply, Held maxKeys n call (deciding (next reply)) (some ⟨command, reply⟩)
      (next reply)) :
    Held maxKeys n call (deciding (.issue command next)) last (.issue command next) := by
  refine held_issue (stage_of_issue rfl) fun cache stages thread hbounded hthread => ?_
  exact ⟨_, hbounded.follow (index_exec_subset command cache hcommand) hthread _, h _⟩

/-- A key that a call found and has not written back shows in its thread. -/
theorem not_rewriting {stages : List Stage} {threads : List (Thread Command Reply Bool StoreCall)}
    (hstages : List.Forall₂ StageOf stages threads) {key : String}
    (hspared : ∀ other ∈ threads, other.call.key = key → foundKey other = false) :
    key ∉ rewriting stages := by
  intro hkey
  rw [rewriting, List.mem_toFinset, List.mem_filterMap] at hkey
  obtain ⟨stage, hmem, hkey⟩ := hkey
  obtain ⟨index, hindex⟩ := List.mem_iff_getElem?.mp hmem
  obtain ⟨thread, hthread, hstage⟩ := forall₂_get hstages.flip hindex
  cases stage with
  | found other =>
      obtain rfl := Option.some.inj hkey
      obtain ⟨hcall, hfound⟩ := hstage.2 other rfl
      rw [hspared thread (List.mem_of_getElem? hthread) hcall] at hfound
      cases hfound
  | deciding => cases hkey
  | admitted => cases hkey
  | written => cases hkey
  | returned => cases hkey

/-- A choice between two tasks. -/
theorem held_choice {choice : Prop} {_ : Decidable choice} {first second : Task Bool}
    (hfirst : choice → Held maxKeys n call (deciding first) last first)
    (hsecond : ¬choice → Held maxKeys n call (deciding second) last second) :
    Held maxKeys n call (deciding (if choice then first else second)) last
      (if choice then first else second) := by
  split
  · exact hfirst ‹_›
  · exact hsecond ‹_›

theorem held_choice_pos {choice : Prop} {_ : Decidable choice} {first second : Task Bool}
    (hchoice : choice) (h : Held maxKeys n call stage last first) :
    Held maxKeys n call stage last (if choice then first else second) := by
  rw [if_pos hchoice]
  exact h

theorem held_choice_neg {choice : Prop} {_ : Decidable choice} {first second : Task Bool}
    (hchoice : ¬choice) (h : Held maxKeys n call stage last second) :
    Held maxKeys n call stage last (if choice then first else second) := by
  rw [if_neg hchoice]
  exact h

/-- A choice between two tasks, before the rest. -/
theorem held_if {choice : Prop} {_ : Decidable choice} {first second : Task Bool}
    {rest : Bool → Task Bool}
    (hfirst : choice → Held maxKeys n call (deciding (first.bind rest)) last (first.bind rest))
    (hsecond : ¬choice → Held maxKeys n call (deciding (second.bind rest)) last
      (second.bind rest)) :
    Held maxKeys n call (deciding ((if choice then first else second).bind rest)) last
      ((if choice then first else second).bind rest) := by
  split
  · exact hfirst ‹_›
  · exact hsecond ‹_›

theorem held_if_pos {choice : Prop} {_ : Decidable choice} {first second : Task Bool}
    {rest : Bool → Task Bool} (hchoice : choice)
    (h : Held maxKeys n call stage last (first.bind rest)) :
    Held maxKeys n call stage last ((if choice then first else second).bind rest) := by
  rw [if_pos hchoice]
  exact h

theorem held_if_neg {choice : Prop} {_ : Decidable choice} {first second : Task Bool}
    {rest : Bool → Task Bool} (hchoice : ¬choice)
    (h : Held maxKeys n call stage last (second.bind rest)) :
    Held maxKeys n call stage last ((if choice then first else second).bind rest) := by
  rw [if_neg hchoice]
  exact h

/-- An eviction ends with a slot freed, and the call let through, or with the call refused. -/
theorem held_evict {rest : Bool → Task Bool}
    (hfreed : ∀ last, Held maxKeys n call .admitted last (rest true))
    (hrefused : ∀ last, Held maxKeys n call (deciding (rest false)) last (rest false))
    (attempts : Nat) (last : Option ((command : Command) × Reply command)) :
    Held maxKeys n call (deciding ((evictLightestBelow call.weight attempts).bind rest)) last
      ((evictLightestBelow call.weight attempts).bind rest) := by
  induction attempts generalizing last with
  | zero => exact hrefused last
  | succ attempts ih =>
      refine held_deciding (by nofun) fun lightest => ?_
      cases lightest with
      | none =>
          refine held_deciding (by nofun) fun held => ?_
          refine held_if (fun _ => ?_) fun _ => hrefused _
          refine held_deciding (by nofun) fun ranked => ?_
          refine held_if (fun _ => hrefused _) fun _ => ?_
          refine held_issue (stage_of_issue rfl) fun cache stages thread hbounded hthread => ?_
          exact ⟨.admitted, hbounded.admitted (Nat.zero_le _) hthread, hfreed _⟩
      | some entry =>
          obtain ⟨victim, victimCost⟩ := entry
          refine held_if (fun _ => hrefused _) fun _ => ?_
          refine held_deciding (by nofun) fun claimed => ?_
          refine held_if (fun _ => ih _) fun _ => ?_
          refine ⟨stage_of_issue rfl,
            fun pool stages thread hbounded hstages hthread hcall hcondition => ?_⟩
          by_cases htaken : (exec (.zrem .index [victim]) pool.state).1 = (1 : Nat)
          · obtain ⟨hvictim, hlive⟩ := index_zrem htaken
            have hspared := hcondition.2
            simp only [Spares, hcall] at hspared
            have hnot := not_rewriting hstages (hspared hvictim)
            refine ⟨.admitted,
              (hbounded.evict (List.mem_toFinset.mpr hvictim) hnot hthread).mono hlive, ?_⟩
            refine held_if_pos htaken ?_
            refine held_issue (stage_of_issue rfl) fun cache stages thread hbounded hthread => ?_
            exact ⟨.admitted, hbounded.keep (index_exec_subset _ cache (by nofun)) hthread,
              hfreed _⟩
          · refine ⟨deciding ((evictLightestBelow call.weight attempts).bind rest),
              hbounded.follow (index_exec_subset _ pool.state (by nofun)) hthread _, ?_⟩
            exact held_if_neg htaken (ih _)

/-- A call that is let through without an eviction. -/
theorem held_admit (now : Int) (last : Option ((command : Command) × Reply command)) :
    Held maxKeys n call (deciding (admitKey maxKeys call now)) last (admitKey maxKeys call now) := by
  refine held_issue (stage_of_issue rfl) fun cache stages thread hbounded hthread => ?_
  cases hfound : (exec (.zscore .index call.key) cache).1 with
  | some score =>
      have hkey : call.key ∈ cache.index.members :=
        SortedSet.mem_members.mpr ⟨score, hfound⟩
      exact ⟨.found call.key, hbounded.find hthread (List.mem_toFinset.mpr hkey),
        held_write now (Or.inl ⟨rfl, rfl⟩)⟩
  | none =>
      refine ⟨.deciding, hbounded.keep (Finset.Subset.refl _) hthread, ?_⟩
      refine held_issue (stage_of_issue rfl) fun cache stages thread hbounded hthread => ?_
      by_cases hfull : maxKeys ≤ cache.index.card
      · refine ⟨.deciding, hbounded.keep (Finset.Subset.refl _) hthread, ?_⟩
        refine held_choice_pos hfull ?_
        refine held_evict (fun _ => ?_) (fun _ => ?_) evictionAttempts _
        · exact held_write now (Or.inr rfl)
        · exact held_done false
      · have hroom : cache.index.members.toFinset.card ≤ maxKeys := by
          rw [SortedSet.card_members]
          exact Nat.le_of_not_le hfull
        exact ⟨.admitted, hbounded.admitted hroom hthread,
          held_choice_neg hfull (held_write now (Or.inr rfl))⟩

/-- Every call keeps the index bounded. -/
theorem held_store (call : StoreCall) :
    Held maxKeys n call (deciding (storeWithinBudget maxKeys call)) none
      (storeWithinBudget maxKeys call) := by
  rw [storeWithinBudget]
  split
  · exact held_deciding_done false
  split
  · exact held_deciding_done false
  refine held_deciding (by nofun) fun now => ?_
  refine held_deciding (by nofun) fun expired => ?_
  refine held_choice (fun _ => ?_) fun _ => held_admit now _
  refine held_deciding (by nofun) fun _ => ?_
  exact held_deciding (by nofun) fun _ => held_admit now _

end Outlines

/-- One call more is in progress, or has returned at once. -/
theorem Bounded.start {maxKeys n : Nat} {live : Finset String} {stages : List Stage}
    (h : Bounded maxKeys n live stages) (hroom : stages.countP Stage.inProgress < n)
    (task : Task Bool) : Bounded maxKeys n live (stages ++ [deciding task]) := by
  have hkey : (deciding task).key = none := by cases task <;> rfl
  have hnew : deciding task ≠ .admitted := by cases task <;> nofun
  refine ⟨?_, ?_⟩
  · rw [rewriting_append_cons, hkey, List.append_nil, List.count_append,
      List.count_cons_of_ne hnew]
    simpa using h.keys
  · rw [List.countP_append, List.countP_singleton]
    split
    · exact hroom
    · exact h.inProgress

/-- However many calls there are, the index holds at most `maxKeys + n` members while no more than `n`
of them are in progress at a time and no eviction takes a key that one of them found and has not yet
written back. -/
theorem overshoot_bounded (maxKeys n : Nat) (clock : Int) {moves : List (Move StoreCall Nat)}
    {pool : Writers}
    (hrun : Runs.execute (budget maxKeys).step ((budget maxKeys).idle (Cache.empty clock)) moves =
      .ok pool)
    (halong : Runs.Along (budget maxKeys).step (Allowed n)
      ((budget maxKeys).idle (Cache.empty clock)) moves) :
    pool.state.index.card ≤ maxKeys + n := by
  have hidle : IndexBounded maxKeys n (Cache.empty clock) [] := ⟨Nat.zero_le _, Nat.zero_le _⟩
  have hstart : ∀ (pool : Writers) (stages : List Stage) (call : StoreCall),
      IndexBounded maxKeys n pool.state stages → List.Forall₂ StageOf stages pool.threads →
      Allowed n pool (.start call) →
      ∃ stage, IndexBounded maxKeys n pool.state (stages ++ [stage]) ∧
        Held maxKeys n call stage none (storeWithinBudget maxKeys call) := by
    intro pool stages call hbounded hstages hallowed
    have hcount : stages.countP Stage.inProgress ≤ pool.threads.countP (·.returned.isNone) :=
      countP_le_of_forall₂ hstages fun stage thread hstage hprogress =>
        Option.isNone_iff_eq_none.mpr (hstage.1 hprogress)
    exact ⟨_, hbounded.start (Nat.lt_of_le_of_lt hcount hallowed.1) _, held_store call⟩
  have hchange : ∀ (pool : Writers) (stages : List Stage) (elapsed : Nat),
      IndexBounded maxKeys n pool.state stages → List.Forall₂ StageOf stages pool.threads →
      Allowed n pool (.change elapsed) →
      IndexBounded maxKeys n (pool.state.tick elapsed) stages :=
    fun pool stages elapsed hbounded _ _ => hbounded.mono (index_tick_subset pool.state elapsed)
  obtain ⟨stages, hbounded, -⟩ :=
    (budget maxKeys).outlined_along hidle hstart hchange hrun halong
  have hkeys := hbounded.keys
  have hsubset : pool.state.index.members.toFinset ⊆
      pool.state.index.members.toFinset ∪ rewriting stages := Finset.subset_union_left
  have hcard := Finset.card_le_card hsubset
  rw [SortedSet.card_members] at hcard
  omega

/-! ## Refreshes against evictions -/

instance (n : Nat) (pool : Writers) (move : Move StoreCall Nat) : Decidable (AtMost n pool move) := by
  unfold AtMost
  split <;> infer_instance

instance (pool : Writers) (move : Move StoreCall Nat) : Decidable (Spares pool move) := by
  unfold Spares
  split
  · split <;> infer_instance
  · infer_instance

instance (n : Nat) (pool : Writers) (move : Move StoreCall Nat) : Decidable (Allowed n pool move) :=
  inferInstanceAs (Decidable (_ ∧ _))

/-- A call alone, from its start on. -/
def alone (thread commands : Nat) (call : StoreCall) : List (Move StoreCall Nat) :=
  .start call :: List.replicate commands (.step thread)

/-- A call finds its key in the index, a heavier one evicts that key and takes its slot, and the first
writes its key back. -/
def refreshedWhileEvicted (refresh : Nat) (heavy : String) : List (Move StoreCall Nat) :=
  alone refresh 3 (callOf "light" 1) ++ alone (refresh + 1) 13 (callOf heavy 2) ++
    List.replicate 5 (.step refresh)

/-- One key, and three rounds of a refresh of it against an eviction of it. -/
def refreshRounds : List (Move StoreCall Nat) :=
  alone 0 9 (callOf "light" 1) ++ refreshedWhileEvicted 1 "first" ++
    refreshedWhileEvicted 3 "second" ++ refreshedWhileEvicted 5 "third"

/-- Two writers at a time take an index of one key to four. -/
theorem refreshes_accumulate :
    ¬∀ (maxKeys n : Nat) (clock : Int) (moves : List (Move StoreCall Nat)) (pool : Writers),
      1 ≤ maxKeys → 1 ≤ n →
      Runs.execute (budget maxKeys).step ((budget maxKeys).idle (Cache.empty clock)) moves =
        .ok pool →
      Runs.Along (budget maxKeys).step (AtMost n) ((budget maxKeys).idle (Cache.empty clock)) moves →
      pool.state.index.card ≤ maxKeys + n := by
  intro h
  have hcard : (Runs.execute (budget 1).step ((budget 1).idle (Cache.empty 0)) refreshRounds).map
      (fun pool => pool.state.index.card) = .ok 4 := by decide +kernel
  have halong : Runs.Along (budget 1).step (AtMost 2) ((budget 1).idle (Cache.empty 0))
      refreshRounds := by decide +kernel
  cases hrun : Runs.execute (budget 1).step ((budget 1).idle (Cache.empty 0)) refreshRounds with
  | error failure =>
      rw [hrun] at hcard
      cases hcard
  | ok pool =>
      have hle := h 1 2 0 refreshRounds pool (Nat.le_refl 1) (by decide) hrun halong
      rw [hrun] at hcard
      have hfour : pool.state.index.card = 4 := Except.ok.inj hcard
      omega

/-- One writer after another, the second heavier than the first. -/
theorem writers_in_turn_bounded :
    ∃ pool, Runs.execute (budget 1).step ((budget 1).idle (Cache.empty 0))
        (alone 0 9 (callOf "light" 1) ++ alone 1 13 (callOf "heavy" 2)) = .ok pool ∧
      pool.state.index.card ≤ 1 + 1 := by
  have hend : (Runs.execute (budget 1).step ((budget 1).idle (Cache.empty 0))
      (alone 0 9 (callOf "light" 1) ++ alone 1 13 (callOf "heavy" 2))).map
      (fun pool => pool.state.index.card) = .ok 1 := by decide +kernel
  cases hrun : Runs.execute (budget 1).step ((budget 1).idle (Cache.empty 0))
      (alone 0 9 (callOf "light" 1) ++ alone 1 13 (callOf "heavy" 2)) with
  | error failure =>
      rw [hrun] at hend
      cases hend
  | ok pool => exact ⟨pool, rfl, overshoot_bounded 1 1 0 hrun (by decide +kernel)⟩

end CatalogApi.CacheBudget
