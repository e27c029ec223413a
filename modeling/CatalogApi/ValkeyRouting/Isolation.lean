import CatalogApi.ValkeyRouting.Router

/-!
# Auth and cache keys never swap instances

What each instance of a `RoutedValkey` gets is decided by the names of a command alone: `authPart` and
`cachePart` are what a command asks of either one. Over any sequence of calls, and however either
instance fails, the auth instance gets exactly the auth parts and holds what a single client given
those would leave (`instances_never_swap`).
-/

namespace CatalogApi.ValkeyRouting

variable {σ α κ Args ρ : Type}

/-! ## Names -/

/-- The name consists of the prefix, a cache family's stem and anything. -/
def IsCacheName (keyPrefix : String) (name : Name) : Prop :=
  ∃ family ∈ cacheFamilies, ∃ rest, name.text = keyPrefix ++ family ++ rest

/-- The names that are routed to the cache instance. -/
theorem is_cache_name_iff (keyPrefix : String) (name : Name) :
    isCacheName keyPrefix name = true ↔ IsCacheName keyPrefix name := by
  have happend : ∀ head rest : String, head ++ rest = name.text ↔
      head.toList ++ rest.toList = name.text.toList := fun head rest => by
    rw [← String.toList_append, String.toList_inj]
  rw [isCacheName, Text.afterPrefix]
  constructor
  · intro h
    split at h
    · rename_i stem hstem
      split at hstem
      · rename_i hhead
        obtain ⟨family, hfamily, hstarts⟩ := List.any_eq_true.mp h
        obtain ⟨rest, hrest⟩ := List.isPrefixOf_iff_prefix.mp hstarts
        obtain ⟨tail, htail⟩ := hhead
        obtain rfl := Option.some.inj hstem
        refine ⟨family, hfamily, .ofList rest, ((happend _ _).mpr ?_).symm⟩
        rw [String.toList_append, String.toList_ofList, List.append_assoc, hrest,
          String.toList_ofList, ← htail, String.length_toList.symm, List.drop_left]
      · cases hstem
    · cases h
  · rintro ⟨family, hfamily, rest, htext⟩
    have hlist : name.text.toList = keyPrefix.toList ++ (family.toList ++ rest.toList) := by
      rw [htext, String.toList_append, String.toList_append, List.append_assoc]
    rw [hlist, if_pos (List.prefix_append _ _), String.length_toList.symm, List.drop_left]
    refine List.any_eq_true.mpr ⟨family, hfamily, List.isPrefixOf_iff_prefix.mpr ?_⟩
    rw [String.toList_ofList]
    exact List.prefix_append _ _

instance (keyPrefix : String) (name : Name) : Decidable (IsCacheName keyPrefix name) :=
  decidable_of_iff _ (is_cache_name_iff keyPrefix name)

/-! ## What a command asks of either instance -/

/-- What a delete asks of one instance, given the names it holds. -/
def deletion (names : List Name) : Option (Command Args) :=
  if names = [] then none else some (.delete names)

/-- What a command asks of the auth instance. -/
def authPart (keyPrefix : String) (command : Command Args) : Option (Command Args) :=
  match command with
  | .keyed _ name _ => if IsCacheName keyPrefix name then none else some command
  | .delete names => deletion (names.filter fun name => ¬IsCacheName keyPrefix name)
  | .scan _ (some glob) _ _ => if IsCacheName keyPrefix glob then none else some command
  | .scan _ none _ _ => some command
  | .eval _ numkeys (first :: _) =>
      if numkeys ≠ 0 ∧ IsCacheName keyPrefix first then none else some command
  | .eval _ numkeys [] => if numkeys = 0 then some command else none
  | .other _ _ => some command

/-- What a command asks of the cache instance. -/
def cachePart (keyPrefix : String) (command : Command Args) : Option (Command Args) :=
  match command with
  | .keyed _ name _ => if IsCacheName keyPrefix name then some command else none
  | .delete names => deletion (names.filter fun name => IsCacheName keyPrefix name)
  | .scan _ (some glob) _ _ => if IsCacheName keyPrefix glob then some command else none
  | .eval _ numkeys (first :: _) =>
      if numkeys ≠ 0 ∧ IsCacheName keyPrefix first then some command else none
  | _ => none

/-- What a call asks of the cache instance: nothing, if the auth instance failed it. -/
def Call.cacheAsked (keyPrefix : String) (next : Call Args) : Option (Command Args) :=
  match authPart keyPrefix next.command, next.auth with
  | some _, .fails _ _ => none
  | _, _ => cachePart keyPrefix next.command

/-- What an instance holds after a command it carried out. -/
def Instance.carryOut (server : Instance σ Args ρ) (contents : σ) : Command Args → σ
  | .delete names => (server.delete contents names).1
  | command => (server.run contents command).1

/-- What it holds after a command that was sent. -/
def Instance.after (server : Instance σ Args ρ) (contents : σ) (command : Command Args) : Fate → σ
  | .answers => server.carryOut contents command
  | .fails _ applied => if applied then server.carryOut contents command else contents

/-- What a single client leaves that sends each command. -/
def Instance.single (server : Instance σ Args ρ) (contents : σ)
    (commands : List (Command Args × Fate)) : σ :=
  commands.foldl (fun contents next => server.after contents next.1 next.2) contents

/-- How many keys went from an instance. -/
def removed (server : Instance σ Args ρ) (before after : Link σ Args) : Nat :=
  (server.keys before.contents \ server.keys after.contents).card

/-- A connection after what is asked of its instance, if anything. -/
def Link.give (server : Instance σ Args ρ) (link : Link σ Args) (fate : Fate) :
    Option (Command Args) → Link σ Args
  | some command =>
      { contents := server.after link.contents command fate, sent := link.sent ++ [command] }
  | none => link

/-! ## One call -/

section Call

variable {keyPrefix : String} {auth : Instance α Args ρ} {cache : Instance κ Args ρ}

theorem decide_is_cache_name (keyPrefix : String) (name : Name) :
    decide (IsCacheName keyPrefix name) = isCacheName keyPrefix name := by
  rw [Bool.eq_iff_iff, decide_eq_true_iff, is_cache_name_iff]

theorem carry_out_single (server : Instance σ Args ρ) (contents : σ) (command : Command Args)
    (hsingle : ∀ names, command ≠ .delete names) :
    server.carryOut contents command = (server.run contents command).1 := by
  cases command with
  | delete names => exact absurd rfl (hsingle names)
  | keyed | scan | eval | other => rfl

theorem send_single (server : Instance σ Args ρ) (link : Link σ Args) (command : Command Args)
    (fate : Fate) (hsingle : ∀ names, command ≠ .delete names) :
    (link.send command (server.run link.contents command) fate).2 =
      link.give server fate (some command) := by
  cases fate with
  | answers => rw [Link.send, Link.give, Instance.after, carry_out_single _ _ _ hsingle]
  | fails failure applied =>
      rw [Link.send, Link.give, Instance.after, carry_out_single _ _ _ hsingle]

theorem send_delete (server : Instance σ Args ρ) (link : Link σ Args) (names : List Name)
    (fate : Fate) :
    (link.send (.delete names) (server.delete link.contents names) fate).2 =
      link.give server fate (some (.delete names)) := by
  cases fate with
  | answers | fails => rfl

/-- The connections after a call whose command goes to the auth instance. -/
theorem to_auth_links (connections : Connections α κ Args) (command : Command Args) (fate : Fate)
    (hsingle : ∀ names, command ≠ .delete names) :
    (toAuth auth connections command fate).2 =
      { connections with auth := connections.auth.give auth fate (some command) } := by
  rw [toAuth, ← send_single auth connections.auth command fate hsingle]

theorem to_cache_links (connections : Connections α κ Args) (command : Command Args) (strict : Bool)
    (value : Reply ρ) (fate : Fate) (hsingle : ∀ names, command ≠ .delete names) :
    (toCache cache connections command strict value fate).2 =
      { connections with cache := connections.cache.give cache fate (some command) } := by
  rw [toCache, ← send_single cache connections.cache command fate hsingle]

/-- How many keys a delete of these names counts, if it is sent at all. -/
def counted (server : Instance σ Args ρ) (contents : σ) (names : List Name) : Nat :=
  if names = [] then 0 else (server.delete contents names).2

theorem delete_auth_eq (connections : Connections α κ Args) (names : List Name) (fate : Fate) :
    deleteAuth auth connections names fate =
      (if names = [] then .ok 0
        else match fate with
          | .answers => .ok (auth.delete connections.auth.contents names).2
          | .fails failure _ => .error (.valkey failure),
        { connections with auth := connections.auth.give auth fate (deletion names) }) := by
  rw [deleteAuth, deletion]
  by_cases hnames : names = []
  · simp [hnames, Link.give]
  · rw [if_pos hnames, if_neg hnames, if_neg hnames, ← send_delete]
    cases fate with
    | answers | fails => rfl

/-- What the second half of a delete gives. -/
def cacheCount (cache : Instance κ Args ρ) (contents : κ) (names : List Name) (strict : Bool) :
    Fate → Except Raised Nat
  | .answers => .ok (counted cache contents names)
  | .fails failure _ => if names = [] then .ok 0 else orMiss strict 0 (.error failure)

/-- An instance that failed adds nothing to the count. -/
theorem count_failed {contents : κ} {names : List Name} {strict : Bool} {failure : Failure}
    {applied : Bool} {count : Nat}
    (h : cacheCount cache contents names strict (.fails failure applied) = .ok count) : count = 0 := by
  rw [cacheCount] at h
  split at h
  · exact (Except.ok.inj h).symm
  · rw [orMiss, miss] at h
    split at h
    · split at h
      · cases h
      · exact (Except.ok.inj h).symm
    · cases h

theorem delete_cache_eq (connections : Connections α κ Args) (names : List Name) (strict : Bool)
    (fate : Fate) :
    deleteCache cache connections names strict fate =
      (cacheCount cache connections.cache.contents names strict fate,
        { connections with cache := connections.cache.give cache fate (deletion names) }) := by
  rw [deleteCache, deletion]
  by_cases hnames : names = []
  · cases fate with
    | answers | fails => simp [hnames, Link.give, cacheCount, counted]
  · rw [if_pos hnames, if_neg hnames, ← send_delete]
    cases fate with
    | answers | fails => rw [cacheCount]; simp only [counted, if_neg hnames]; rfl

theorem auth_part_delete (names : List Name) :
    authPart keyPrefix (.delete names : Command Args) =
      deletion (names.filter fun name => !isCacheName keyPrefix name) := by
  have hfilter : (names.filter fun name => ¬IsCacheName keyPrefix name) =
      names.filter fun name => !isCacheName keyPrefix name :=
    List.filter_congr fun name _ => by rw [decide_not, decide_is_cache_name]
  rw [authPart, hfilter]

theorem cache_part_delete (names : List Name) :
    cachePart keyPrefix (.delete names : Command Args) =
      deletion (names.filter fun name => isCacheName keyPrefix name) := by
  have hfilter : (names.filter fun name => IsCacheName keyPrefix name) =
      names.filter fun name => isCacheName keyPrefix name :=
    List.filter_congr fun name _ => decide_is_cache_name keyPrefix name
  rw [cachePart, hfilter]

section

variable (connections : Connections α κ Args)

/-- What a delete gives once the auth instance has done its part. -/
theorem delete_done (names : List Name) (strict : Bool) {authFate : Fate} (cacheFate : Fate)
    (hdone : (names.filter fun name => !isCacheName keyPrefix name) = [] ∨ authFate = .answers) :
    (delete keyPrefix auth cache connections names strict authFate cacheFate).1 =
      (cacheCount cache connections.cache.contents
        (names.filter fun name => isCacheName keyPrefix name) strict cacheFate).map fun more =>
        .int (counted auth connections.auth.contents
          (names.filter fun name => !isCacheName keyPrefix name) + more : Nat) := by
  rw [delete, delete_auth_eq, counted]
  by_cases hnames : (names.filter fun name => !isCacheName keyPrefix name) = []
  · rw [if_pos hnames, if_pos hnames]
    dsimp only
    rw [delete_cache_eq]
  · obtain rfl := hdone.resolve_left hnames
    rw [if_neg hnames, if_neg hnames]
    dsimp only
    rw [delete_cache_eq]

/-- The connections after a delete. -/
theorem delete_links (next : Call Args) (names : List Name)
    (hcommand : next.command = .delete names) :
    (delete keyPrefix auth cache connections names next.strict next.auth next.cache).2 =
      { auth := connections.auth.give auth next.auth (authPart keyPrefix next.command)
        cache := connections.cache.give cache next.cache (next.cacheAsked keyPrefix) } := by
  rw [Call.cacheAsked, hcommand, auth_part_delete, cache_part_delete, delete, delete_auth_eq]
  by_cases hnames : (names.filter fun name => !isCacheName keyPrefix name) = []
  · rw [if_pos hnames, deletion, if_pos hnames]
    dsimp only
    rw [delete_cache_eq]
  · rw [if_neg hnames]
    cases next.auth with
    | answers =>
        dsimp only
        rw [delete_cache_eq, deletion, if_neg hnames]
    | fails failure applied =>
        rw [deletion, if_neg hnames]
        rfl

/-- A command that goes to one instance, by whether its name is a cache name. -/
theorem routed_links (next : Call Args) (value : Reply ρ)
    (name : Name) (hsingle : ∀ names, next.command ≠ .delete names)
    (hauth : authPart keyPrefix next.command =
      if IsCacheName keyPrefix name then none else some next.command)
    (hcache : cachePart keyPrefix next.command =
      if IsCacheName keyPrefix name then some next.command else none) :
    (if !isCacheName keyPrefix name then toAuth auth connections next.command next.auth
      else toCache cache connections next.command next.strict value next.cache).2 =
      { auth := connections.auth.give auth next.auth (authPart keyPrefix next.command)
        cache := connections.cache.give cache next.cache (next.cacheAsked keyPrefix) } := by
  rw [Call.cacheAsked, hauth, hcache]
  by_cases hname : IsCacheName keyPrefix name
  · rw [(is_cache_name_iff _ _).mpr hname, if_pos hname, if_pos hname]
    exact to_cache_links _ _ _ _ _ hsingle
  · rw [Bool.eq_false_iff.mpr fun h => hname ((is_cache_name_iff _ _).mp h), if_neg hname, if_neg hname]
    refine (to_auth_links _ _ _ hsingle).trans ?_
    cases next.auth with
    | answers | fails => rfl

/-- A command that always goes to the auth instance. -/
theorem auth_links (next : Call Args) (hsingle : ∀ names, next.command ≠ .delete names)
    (hauth : authPart keyPrefix next.command = some next.command)
    (hcache : cachePart keyPrefix next.command = none) :
    (toAuth auth connections next.command next.auth).2 =
      { auth := connections.auth.give auth next.auth (authPart keyPrefix next.command)
        cache := connections.cache.give cache next.cache (next.cacheAsked keyPrefix) } := by
  rw [Call.cacheAsked, hauth, hcache]
  refine (to_auth_links _ _ _ hsingle).trans ?_
  cases next.auth with
  | answers | fails => rfl

/-- The connections after a call. -/
theorem call_links (next : Call Args) :
    (call keyPrefix auth cache connections next).2 =
      { auth := connections.auth.give auth next.auth (authPart keyPrefix next.command)
        cache := connections.cache.give cache next.cache (next.cacheAsked keyPrefix) } := by
  obtain ⟨command, strict, authFate, cacheFate⟩ := next
  cases command with
  | keyed command name args => exact routed_links connections _ _ name nofun rfl rfl
  | delete names => exact delete_links connections _ names rfl
  | scan cursor glob count args =>
      cases glob with
      | none => exact auth_links connections _ nofun rfl rfl
      | some glob => exact routed_links connections _ _ glob nofun rfl rfl
  | eval script numkeys keysAndArgs =>
      by_cases hkeys : numkeys = 0
      · subst hkeys
        refine auth_links connections _ nofun ?_ ?_ <;> cases keysAndArgs <;> rfl
      · cases keysAndArgs with
        | nil =>
            rw [call]
            dsimp only
            rw [if_neg hkeys, Call.cacheAsked, authPart, if_neg hkeys]
            rfl
        | cons first rest =>
            rw [call]
            dsimp only
            rw [if_neg hkeys]
            refine routed_links connections ⟨.eval script numkeys (first :: rest), strict, authFate,
              cacheFate⟩ _ first nofun ?_ ?_
            · rw [authPart]
              simp only [hkeys, ne_eq, not_false_iff, true_and]
            · rw [cachePart]
              simp only [hkeys, ne_eq, not_false_iff, true_and]
  | other command args => exact auth_links connections _ nofun rfl rfl

/-- What the auth instance's failure makes of a call that asks something of it. -/
theorem call_auth_fails {next : Call Args}
    (hasked : authPart keyPrefix next.command ≠ none) {failure : Failure} {applied : Bool}
    (hfate : next.auth = .fails failure applied) :
    (call keyPrefix auth cache connections next).1 = .error (.valkey failure) := by
  have hsent : ∀ command, (toAuth auth connections command next.auth).1 = .error (.valkey failure) :=
    fun command => by rw [hfate]; rfl
  obtain ⟨command, strict, authFate, cacheFate⟩ := next
  have hrouted : ∀ (name : Name) (other : Except Raised (Reply ρ) × Connections α κ Args),
      ¬IsCacheName keyPrefix name →
      (if !isCacheName keyPrefix name then toAuth auth connections command authFate else other).1 =
        .error (.valkey failure) := by
    intro name other hname
    rw [Bool.eq_false_iff.mpr fun h => hname ((is_cache_name_iff _ _).mp h)]
    exact hsent command
  cases command with
  | keyed command name args => exact hrouted name _ fun hname => hasked (if_pos hname)
  | delete names =>
      rw [auth_part_delete, deletion] at hasked
      have hnames : (names.filter fun name => !isCacheName keyPrefix name) ≠ [] :=
        fun heq => hasked (if_pos heq)
      obtain rfl : authFate = .fails failure applied := hfate
      rw [call]
      dsimp only
      rw [delete, delete_auth_eq, if_neg hnames]
  | scan cursor glob count args =>
      cases glob with
      | none => exact hsent _
      | some glob => exact hrouted glob _ fun hname => hasked (if_pos hname)
  | eval script numkeys keysAndArgs =>
      rw [call]
      dsimp only
      split
      · exact hsent _
      · rename_i hkeys
        cases keysAndArgs with
        | nil => exact absurd (if_neg hkeys) hasked
        | cons first rest => exact hrouted first _ fun hname => hasked (if_pos ⟨hkeys, hname⟩)
  | other command args => exact hsent _

/-- What an unavailable cache instance makes of a call that asks something of it. -/
theorem call_cache_fails {next : Call Args}
    (hasked : next.cacheAsked keyPrefix ≠ none) {failure : Failure} {applied : Bool}
    (hfate : next.cache = .fails failure applied) (hunavailable : failure.unavailable = true) :
    if next.strict then
      (call keyPrefix auth cache connections next).1 = .error (.valkey failure)
    else ∃ reply, (call keyPrefix auth cache connections next).1 = .ok reply := by
  have hmiss : ∀ {β : Type} (value : β), orMiss next.strict value (.error failure) =
      if next.strict then .error (.valkey failure) else .ok value := fun value => by
    rw [orMiss, hunavailable, miss]
    rfl
  -- whatever the command sends to the cache instance, the failing link answers first
  have hsent : ∀ command value,
      if next.strict then
        (toCache cache connections command next.strict value next.cache).1 = .error (.valkey failure)
      else ∃ reply, (toCache cache connections command next.strict value next.cache).1 = .ok reply := by
    intro command value
    rw [toCache, hfate]
    dsimp only [Link.send]
    rw [hmiss]
    split
    · rfl
    · exact ⟨value, rfl⟩
  obtain ⟨command, strict, authFate, cacheFate⟩ := next
  have hrouted : ∀ (name : Name) (value : Reply ρ)
      (other : Except Raised (Reply ρ) × Connections α κ Args), IsCacheName keyPrefix name →
      if strict then
        (if !isCacheName keyPrefix name then other
          else toCache cache connections command strict value cacheFate).1 = .error (.valkey failure)
      else ∃ reply, (if !isCacheName keyPrefix name then other
          else toCache cache connections command strict value cacheFate).1 = .ok reply := by
    intro name value other hname
    rw [(is_cache_name_iff _ _).mpr hname]
    exact hsent command value
  have hpart : cachePart keyPrefix command ≠ none := by
    intro hnone
    rw [Call.cacheAsked] at hasked
    dsimp only at hasked
    rw [hnone] at hasked
    split at hasked <;> exact hasked rfl
  cases command with
  | keyed command name args =>
      refine hrouted name _ _ ?_
      by_contra hname
      exact hpart (if_neg hname)
  | delete names =>
      rw [cache_part_delete, deletion] at hpart
      have hnames : (names.filter fun name => isCacheName keyPrefix name) ≠ [] :=
        fun heq => hpart (if_pos heq)
      obtain rfl : cacheFate = .fails failure applied := hfate
      have hdone : (names.filter fun name => !isCacheName keyPrefix name) = [] ∨
          authFate = .answers := by
        by_contra hnot
        obtain ⟨hauth, hfails⟩ := not_or.mp hnot
        cases authFate with
        | answers => exact hfails rfl
        | fails failure applied =>
            rw [Call.cacheAsked, auth_part_delete, deletion, if_neg hauth] at hasked
            exact hasked rfl
      rw [call]
      dsimp only
      rw [delete_done connections names strict _ hdone, cacheCount, if_neg hnames, hmiss]
      cases strict with
      | true => rfl
      | false => exact ⟨_, rfl⟩
  | scan cursor glob count args =>
      cases glob with
      | none => exact absurd rfl hpart
      | some glob =>
          refine hrouted glob _ _ ?_
          by_contra hname
          exact hpart (if_neg hname)
  | eval script numkeys keysAndArgs =>
      cases keysAndArgs with
      | nil => exact absurd rfl hpart
      | cons first rest =>
          have hfirst : numkeys ≠ 0 ∧ IsCacheName keyPrefix first := by
            by_contra hname
            exact hpart (if_neg hname)
          rw [call]
          dsimp only
          rw [if_neg hfirst.1]
          exact hrouted first _ _ hfirst.2
  | other command args => exact absurd rfl hpart

end

/-- The count of a delete that is answered is the number of keys that went. -/
theorem counted_eq (server : Instance σ Args ρ) (link : Link σ Args) (names : List Name) :
    counted server link.contents names =
      removed server link (link.give server .answers (deletion names)) := by
  rw [counted, deletion]
  split
  · rw [Link.give, removed, Finset.sdiff_self, Finset.card_empty]
  · obtain ⟨hkeys, hcount⟩ := server.deleted link.contents names
    rw [hcount, removed, Link.give, Instance.after, Instance.carryOut, hkeys,
      sdiff_sdiff_right_self]
    rfl

/-- What a delete that returns reports: the keys that it removed on the instances that answered. -/
theorem call_deleted (connections : Connections α κ Args) {next : Call Args} {names : List Name}
    (hcommand : next.command = .delete names) {reply : Reply ρ}
    (hreply : (call keyPrefix auth cache connections next).1 = .ok reply) :
    reply = .int ((removed auth connections.auth
        (call keyPrefix auth cache connections next).2.auth +
      if next.cache = .answers then removed cache connections.cache
        (call keyPrefix auth cache connections next).2.cache else 0 : Nat)) := by
  have hdone : (names.filter fun name => !isCacheName keyPrefix name) = [] ∨
      next.auth = .answers := by
    by_contra hnot
    obtain ⟨hnames, hfails⟩ := not_or.mp hnot
    cases hfate : next.auth with
    | answers => exact hfails hfate
    | fails failure applied =>
        have hasked : authPart keyPrefix next.command ≠ none := by
          rw [hcommand, auth_part_delete, deletion, if_neg hnames]
          nofun
        rw [call_auth_fails connections hasked hfate] at hreply
        cases hreply
  have hasked : next.cacheAsked keyPrefix =
      deletion (names.filter fun name => isCacheName keyPrefix name) := by
    rw [Call.cacheAsked, hcommand, auth_part_delete, cache_part_delete]
    rcases hdone with hnames | hfate
    · rw [deletion, if_pos hnames]
    · rw [hfate]
      split
      · rename_i heq
        cases heq
      · rfl
  have hauth : counted auth connections.auth.contents
      (names.filter fun name => !isCacheName keyPrefix name) = removed auth connections.auth
        (connections.auth.give auth next.auth (authPart keyPrefix next.command)) := by
    rw [hcommand, auth_part_delete, counted_eq]
    rcases hdone with hnames | hfate
    · rw [deletion, if_pos hnames]
      rfl
    · rw [hfate]
  rw [call_links, hasked, ← hauth]
  rw [call, hcommand] at hreply
  dsimp only at hreply
  rw [delete_done connections names next.strict next.cache hdone] at hreply
  cases hfate : next.cache with
  | answers =>
      rw [hfate, cacheCount, counted_eq cache] at hreply
      rw [if_pos rfl]
      exact (Except.ok.inj hreply).symm
  | fails failure applied =>
      rw [if_neg nofun]
      rw [hfate] at hreply
      cases hcount : cacheCount cache connections.cache.contents
          (names.filter fun name => isCacheName keyPrefix name) next.strict
          (.fails failure applied) with
      | error raised =>
          rw [hcount] at hreply
          cases hreply
      | ok more =>
          rw [hcount] at hreply
          rw [count_failed hcount] at hreply
          exact (Except.ok.inj hreply).symm

end Call

/-! ## Sequences of calls -/

/-- What the two instances got, and what the auth one holds, after a sequence of calls. -/
structure Separate (keyPrefix : String) (auth : Instance α Args ρ) (before : Connections α κ Args)
    (sequence : List (Call Args)) (after : Connections α κ Args) : Prop where
  auth_sent : after.auth.sent =
    before.auth.sent ++ sequence.filterMap fun next => authPart keyPrefix next.command
  cache_sent : after.cache.sent =
    before.cache.sent ++ sequence.filterMap fun next => next.cacheAsked keyPrefix
  auth_contents : after.auth.contents = auth.single before.auth.contents
    (sequence.filterMap fun next => (authPart keyPrefix next.command).map (·, next.auth))

/-- What a call does when an instance fails, and what a delete reports. -/
structure Answered (keyPrefix : String) (auth : Instance α Args ρ) (cache : Instance κ Args ρ)
    (before : Connections α κ Args) (next : Call Args) : Prop where
  auth_fails : ∀ failure applied, authPart keyPrefix next.command ≠ none →
    next.auth = .fails failure applied →
    (call keyPrefix auth cache before next).1 = .error (.valkey failure)
  cache_fails : ∀ failure applied, next.cacheAsked keyPrefix ≠ none →
    next.cache = .fails failure applied → failure.unavailable = true →
    if next.strict then (call keyPrefix auth cache before next).1 = .error (.valkey failure)
    else ∃ reply, (call keyPrefix auth cache before next).1 = .ok reply
  cache_apart : ∀ fate, (call keyPrefix auth cache before { next with cache := fate }).2.auth =
    (call keyPrefix auth cache before next).2.auth
  deleted : ∀ names reply, next.command = .delete names →
    (call keyPrefix auth cache before next).1 = .ok reply →
    reply = .int ((removed auth before.auth (call keyPrefix auth cache before next).2.auth +
      if next.cache = .answers then
        removed cache before.cache (call keyPrefix auth cache before next).2.cache
      else 0 : Nat))

theorem separate_calls (keyPrefix : String) (auth : Instance α Args ρ) (cache : Instance κ Args ρ)
    (before : Connections α κ Args) (sequence : List (Call Args)) :
    Separate keyPrefix auth before sequence (calls keyPrefix auth cache before sequence) := by
  induction sequence generalizing before with
  | nil => exact ⟨(List.append_nil _).symm, (List.append_nil _).symm, rfl⟩
  | cons next rest ih =>
      obtain ⟨hauth, hcache, hcontents⟩ := ih (call keyPrefix auth cache before next).2
      rw [call_links] at hauth hcache hcontents
      rw [calls, List.foldl_cons, call_links]
      refine ⟨hauth.trans ?_, hcache.trans ?_, hcontents.trans ?_⟩
      · rw [List.filterMap_cons]
        cases authPart keyPrefix next.command with
        | none => rfl
        | some command => exact List.append_assoc ..
      · rw [List.filterMap_cons]
        cases next.cacheAsked keyPrefix with
        | none => rfl
        | some command => exact List.append_assoc ..
      · rw [List.filterMap_cons]
        cases authPart keyPrefix next.command with
        | none => rfl
        | some command => rfl

/-- Over any sequence of calls, and in each call after it: the auth instance gets exactly the commands
and parts of deletes that do not name a cache family, and holds what a single client given those alone
leaves; the cache instance gets only the others; an auth failure is raised; an unavailable cache is a
miss, or raised by a strict client, and makes no difference to the auth instance; and a delete reports
the keys that went from the instances that answered. -/
theorem instances_never_swap (keyPrefix : String) (auth : Instance α Args ρ)
    (cache : Instance κ Args ρ) (before : Connections α κ Args) (sequence : List (Call Args)) :
    Separate keyPrefix auth before sequence (calls keyPrefix auth cache before sequence) ∧
      ∀ next, Answered keyPrefix auth cache (calls keyPrefix auth cache before sequence) next := by
  refine ⟨separate_calls keyPrefix auth cache before sequence, fun next => ?_⟩
  constructor
  case auth_fails => exact fun failure applied hasked hfate => call_auth_fails _ hasked hfate
  case cache_fails =>
    exact fun failure applied hasked hfate hunavailable => call_cache_fails _ hasked hfate hunavailable
  case cache_apart =>
    intro fate
    rw [call_links, call_links]
  case deleted => exact fun names reply hcommand hreply => call_deleted _ hcommand hreply

/-- An instance that holds keys without their values. -/
def keySet : Instance (Finset Key) Unit Unit where
  keys := id
  run
    | contents, .keyed .set name _ => (insert name.key contents, .bool true)
    | contents, .keyed .exists name _ => (contents, .int (if name.key ∈ contents then 1 else 0))
    | contents, _ => (contents, .none)
  delete contents names :=
    (contents \ (names.map (·.key)).toFinset, (contents ∩ (names.map (·.key)).toFinset).card)
  deleted _ _ := ⟨rfl, rfl⟩

/-- A session and a search are stored, and then both are deleted while the cache instance is down. -/
def outage : List (Call Unit) :=
  [⟨.keyed .set (.str "gm:session:1") (), false, .answers, .answers⟩,
    ⟨.keyed .set (.str "gm:search:a") (), false, .answers, .answers⟩,
    ⟨.delete [.str "gm:session:1", .str "gm:search:a"], false, .answers, .fails .connection false⟩]

/-- The session goes although the cache instance is down, and the search stays there. -/
theorem session_deleted_in_outage :
    let before : Connections (Finset Key) (Finset Key) Unit := ⟨⟨∅, []⟩, ⟨∅, []⟩⟩
    let after := calls "gm:" keySet keySet before outage
    (Separate "gm:" keySet before outage after ∧ ∀ next, Answered "gm:" keySet keySet after next) ∧
      after.auth.contents = ∅ ∧ after.cache.contents = {(Name.str "gm:search:a").key} :=
  ⟨instances_never_swap "gm:" keySet keySet ⟨⟨∅, []⟩, ⟨∅, []⟩⟩ outage, by decide +kernel,
    by decide +kernel⟩

end CatalogApi.ValkeyRouting
