import CatalogApi.Lib.Runs
import Mathlib.Data.List.Forall2

/-!
# Programs over a shared state

A program is a tree of commands, each with what follows its reply. `run` takes a program from its
start to its end with nothing in between; a pool interleaves any number of programs one command at a
time, with whatever else changes the state. `outlined_along` is the proof rule for pools: give every
program a role, say what holds of the state and all the roles, and show of each command that it keeps
this for some next role of the program that issued it.
-/

namespace CatalogApi.Programs

/-- A program that issues commands and continues with their replies. -/
inductive Program (Command : Type) (Reply : Command → Type) (α : Type) where
  | done (result : α)
  | issue (command : Command) (next : Reply command → Program Command Reply α)

section Sequential

variable {Command State α β : Type} {Reply : Command → Type}

namespace Program

/-- The program that goes on with the result. -/
def bind : Program Command Reply α → (α → Program Command Reply β) → Program Command Reply β
  | .done result, next => next result
  | .issue command rest, next => .issue command fun reply => (rest reply).bind next

instance : Monad (Program Command Reply) where
  pure := .done
  bind := bind

variable (exec : (command : Command) → State → Reply command × State)

/-- Run a program alone. -/
def run : Program Command Reply α → State → α × State
  | .done result, state => (result, state)
  | .issue command next, state => (next (exec command state).1).run (exec command state).2

theorem run_bind (program : Program Command Reply α) (next : α → Program Command Reply β)
    (state : State) :
    run exec (program >>= next) state =
      run exec (next (run exec program state).1) (run exec program state).2 := by
  induction program generalizing state with
  | done result => rfl
  | issue command rest ih => exact ih _ _

end Program

end Sequential

/-! ## Lists that change in one place -/

section Lists

variable {α β : Type}

/-- The two lists agree at every index, so they do after setting one index in both. -/
theorem forall₂_set {R : α → β → Prop} {xs : List α} {ys : List β}
    (h : List.Forall₂ R xs ys) (index : Nat) {x : α} {y : β} (hxy : R x y) :
    List.Forall₂ R (xs.set index x) (ys.set index y) := by
  induction h generalizing index with
  | nil => exact List.Forall₂.nil
  | cons hhead htail ih =>
      cases index with
      | zero => exact List.Forall₂.cons hxy htail
      | succ index => exact List.Forall₂.cons hhead (ih index)

theorem forall₂_get {R : α → β → Prop} {xs : List α} {ys : List β}
    (h : List.Forall₂ R xs ys) {index : Nat} {y : β} (hy : ys[index]? = some y) :
    ∃ x, xs[index]? = some x ∧ R x y := by
  induction h generalizing index with
  | nil => cases hy
  | cons hhead htail ih =>
      cases index with
      | zero =>
          obtain rfl := Option.some.inj hy
          exact ⟨_, rfl, hhead⟩
      | succ index => exact ih hy

/-- Setting an index of a list changes one place of it. -/
theorem set_split {xs : List α} {index : Nat} {x : α} (h : xs[index]? = some x) :
    ∃ before after, xs = before ++ x :: after ∧ ∀ y, xs.set index y = before ++ y :: after := by
  obtain ⟨hlt, hx⟩ := List.getElem?_eq_some_iff.mp h
  refine ⟨xs.take index, xs.drop (index + 1), ?_, fun y => ?_⟩
  · rw [← hx, List.getElem_cons_drop, List.take_append_drop]
  · rw [List.set_eq_take_append_cons_drop, if_pos hlt]

/-- Setting an index to what it holds changes nothing. -/
theorem set_same {xs : List α} {index : Nat} {x : α} (h : xs[index]? = some x) :
    xs.set index x = xs := by
  obtain ⟨hlt, hx⟩ := List.getElem?_eq_some_iff.mp h
  rw [← hx, List.set_getElem_self]

/-- Related lists count no more on the left than on the right where the test carries over. -/
theorem countP_le_of_forall₂ {R : α → β → Prop} {p : α → Bool} {q : β → Bool}
    {xs : List α} {ys : List β} (h : List.Forall₂ R xs ys)
    (hpq : ∀ x y, R x y → p x = true → q y = true) : xs.countP p ≤ ys.countP q := by
  induction h with
  | nil => exact Nat.le_refl 0
  | @cons x y xs ys hhead htail ih =>
      rw [List.countP_cons, List.countP_cons]
      have hle : (if p x = true then 1 else 0) ≤ if q y = true then 1 else 0 := by
        split
        · rename_i hx
          exact Nat.le_of_eq (if_pos (hpq x y hhead hx)).symm
        · exact Nat.zero_le _
      omega

/-- Related lists count the same where the tests agree. -/
theorem countP_eq_of_forall₂ {R : α → β → Prop} {p : α → Bool} {q : β → Bool}
    {xs : List α} {ys : List β} (h : List.Forall₂ R xs ys)
    (hpq : ∀ x y, R x y → p x = q y) : xs.countP p = ys.countP q := by
  induction h with
  | nil => rfl
  | @cons x y xs ys hhead htail ih =>
      rw [List.countP_cons, List.countP_cons, ih, hpq x y hhead]

end Lists

/-! ## Pools -/

/-- What a pool runs: the commands on the state, the program of each call, and what else changes the
state. -/
structure System (State Command : Type) (Reply : Command → Type) (α Call Change : Type) where
  exec : (command : Command) → State → Reply command × State
  program : Call → Program Command Reply α
  change : Change → State → State

/-- A call in progress: the command it issued last with its reply, and the rest of its program. -/
structure Thread (Command : Type) (Reply : Command → Type) (α Call : Type) where
  call : Call
  last : Option ((command : Command) × Reply command)
  program : Program Command Reply α

/-- A state and the calls made on it so far. -/
structure Pool (State Command : Type) (Reply : Command → Type) (α Call : Type) where
  state : State
  threads : List (Thread Command Reply α Call)

/-- A call starts, a call issues its next command, or something else changes the state. -/
inductive Move (Call Change : Type) where
  | start (call : Call)
  | step (thread : Nat)
  | change (change : Change)

section Pools

variable {State Command α Call Change Role : Type} {Reply : Command → Type}

/-- The call has returned. -/
def Thread.returned (thread : Thread Command Reply α Call) : Option α :=
  match thread.program with
  | .done result => some result
  | .issue _ _ => none

namespace System

variable (system : System State Command Reply α Call Change)

/-- A call that has issued nothing yet. -/
def begin' (call : Call) : Thread Command Reply α Call :=
  { call, last := none, program := system.program call }

/-- One move of a pool. -/
def step (pool : Pool State Command Reply α Call) :
    Move Call Change → Except Unit (Pool State Command Reply α Call)
  | .start call => .ok { pool with threads := pool.threads ++ [system.begin' call] }
  | .step thread =>
      match pool.threads[thread]? with
      | some ⟨call, _, .issue command next⟩ =>
          let (reply, state) := system.exec command pool.state
          .ok
            { state
              threads := pool.threads.set thread
                { call, last := some ⟨command, reply⟩, program := next reply } }
      | _ => .error ()
  | .change change => .ok { pool with state := system.change change pool.state }

/-- A pool with no call made yet. -/
def idle (_ : System State Command Reply α Call Change) (state : State) :
    Pool State Command Reply α Call :=
  { state, threads := [] }

/-- A step of a thread issues its next command. -/
theorem step_cases {pool next : Pool State Command Reply α Call} {thread : Nat}
    (h : system.step pool (.step thread) = .ok next) :
    ∃ call last command rest,
      pool.threads[thread]? = some ⟨call, last, .issue command rest⟩ ∧
      next =
        { state := (system.exec command pool.state).2
          threads := pool.threads.set thread
            { call
              last := some ⟨command, (system.exec command pool.state).1⟩
              program := rest (system.exec command pool.state).1 } } := by
  rw [step] at h
  split at h
  · rename_i call last command rest hthread
    exact ⟨call, last, command, rest, hthread, (Except.ok.inj h).symm⟩
  · cases h

/-- The proof rule for the state alone: what holds at the start and is kept by every command a thread
issues and every other change holds all along. -/
theorem state_along {motive : State → Prop}
    {condition : Pool State Command Reply α Call → Move Call Change → Prop} {start : State}
    (hstart : motive start)
    (hexec : ∀ (pool : Pool State Command Reply α Call) thread call last command rest,
      pool.threads[thread]? = some ⟨call, last, .issue command rest⟩ →
      condition pool (.step thread) → motive pool.state → motive (system.exec command pool.state).2)
    (hchange : ∀ (pool : Pool State Command Reply α Call) change, condition pool (.change change) →
      motive pool.state → motive (system.change change pool.state))
    {moves : List (Move Call Change)} {pool : Pool State Command Reply α Call}
    (h : Runs.execute system.step (system.idle start) moves = .ok pool)
    (halong : Runs.Along system.step condition (system.idle start) moves) : motive pool.state := by
  refine Runs.along_induction (motive := fun _ pool => motive pool.state) hstart ?_ h halong
  rintro trace move pool next hpool hcondition hstep
  cases move with
  | start call =>
      obtain rfl := Except.ok.inj hstep
      exact hpool
  | step thread =>
      obtain ⟨call, last, command, rest, hthread, rfl⟩ := system.step_cases hstep
      exact hexec pool thread call last command rest hthread hcondition hpool
  | change change =>
      obtain rfl := Except.ok.inj hstep
      exact hchange pool change hcondition hpool

/-! ## Outlines -/

variable (Inv : State → List Role → Prop) (At : Role → Thread Command Reply α Call → Prop)
  (condition : Pool State Command Reply α Call → Move Call Change → Prop)

/-- From this role on every command of the program, issued from any pool that the condition allows,
keeps the invariant for some next role. -/
def Outlined (call : Call) (role : Role) (last : Option ((command : Command) × Reply command)) :
    Program Command Reply α → Prop
  | .done result => At role { call, last, program := .done result }
  | .issue command next =>
      At role { call, last, program := .issue command next } ∧
        ∀ (pool : Pool State Command Reply α Call) (roles : List Role) (thread : Nat),
          Inv pool.state roles → List.Forall₂ At roles pool.threads →
          roles[thread]? = some role →
          pool.threads[thread]? = some { call, last, program := .issue command next } →
          condition pool (.step thread) →
          ∃ role', Inv (system.exec command pool.state).2 (roles.set thread role') ∧
            Outlined call role' (some ⟨command, (system.exec command pool.state).1⟩)
              (next (system.exec command pool.state).1)

variable {Inv At condition}

/-- An outlined program is where its role says. -/
theorem Outlined.at {call : Call} {role : Role}
    {last : Option ((command : Command) × Reply command)} {program : Program Command Reply α}
    (h : system.Outlined Inv At condition call role last program) :
    At role { call, last, program } := by
  cases program with
  | done result => exact h
  | issue command next => exact h.1

/-- A command whose effect on the invariant does not depend on the other threads. -/
theorem Outlined.issue {call : Call} {role : Role}
    {last : Option ((command : Command) × Reply command)} {command : Command}
    {next : Reply command → Program Command Reply α}
    (hat : At role { call, last, program := .issue command next })
    (h : ∀ (state : State) (roles : List Role) (thread : Nat), Inv state roles →
      roles[thread]? = some role →
      ∃ role', Inv (system.exec command state).2 (roles.set thread role') ∧
        system.Outlined Inv At condition call role'
          (some ⟨command, (system.exec command state).1⟩) (next (system.exec command state).1)) :
    system.Outlined Inv At condition call role last (.issue command next) :=
  ⟨hat, fun pool roles thread hinv _ hrole _ _ => h pool.state roles thread hinv hrole⟩

/-- A command whose reply and effect are known in each case. -/
theorem Outlined.reply {call : Call} {role : Role}
    {last : Option ((command : Command) × Reply command)} {command : Command}
    {next : Reply command → Program Command Reply α}
    (hat : At role { call, last, program := .issue command next })
    (h : ∀ (state : State) (roles : List Role) (thread : Nat), Inv state roles →
      roles[thread]? = some role →
      ∃ reply state' role', system.exec command state = (reply, state') ∧
        Inv state' (roles.set thread role') ∧
        system.Outlined Inv At condition call role' (some ⟨command, reply⟩) (next reply)) :
    system.Outlined Inv At condition call role last (.issue command next) := by
  refine Outlined.issue system hat fun state roles thread hinv hrole => ?_
  obtain ⟨reply, state', role', hexec, hnext, hrest⟩ := h state roles thread hinv hrole
  rw [hexec]
  exact ⟨role', hnext, hrest⟩

/-- A command that keeps the invariant with the role, whatever it replies. -/
theorem Outlined.stay {call : Call} {role : Role}
    {last : Option ((command : Command) × Reply command)} {command : Command}
    {next : Reply command → Program Command Reply α}
    (hat : At role { call, last, program := .issue command next })
    (hkept : ∀ (state : State) (roles : List Role), Inv state roles →
      Inv (system.exec command state).2 roles)
    (hnext : ∀ reply, system.Outlined Inv At condition call role (some ⟨command, reply⟩) (next reply)) :
    system.Outlined Inv At condition call role last (.issue command next) := by
  refine Outlined.issue system hat fun state roles thread hinv hrole => ⟨role, ?_, hnext _⟩
  rw [set_same hrole]
  exact hkept state roles hinv

/-- A program of a call that its role always fits, when every command keeps the invariant. -/
theorem Outlined.kept {call : Call} {role : Role}
    (hat : ∀ last program, At role { call, last, program })
    (hkept : ∀ command (state : State) (roles : List Role), Inv state roles →
      Inv (system.exec command state).2 roles)
    (last : Option ((command : Command) × Reply command)) (program : Program Command Reply α) :
    system.Outlined Inv At condition call role last program := by
  induction program generalizing last with
  | done result => exact hat last _
  | issue command next ih =>
      exact Outlined.stay system (hat last _) (hkept command) fun reply => ih reply _

/-- Every thread of the pool is outlined from its role on. -/
def Covers (Inv : State → List Role → Prop) (At : Role → Thread Command Reply α Call → Prop)
    (condition : Pool State Command Reply α Call → Move Call Change → Prop)
    (roles : List Role) (pool : Pool State Command Reply α Call) : Prop :=
  List.Forall₂ (fun role thread =>
    system.Outlined Inv At condition thread.call role thread.last thread.program)
    roles pool.threads

theorem Covers.at {roles : List Role} {pool : Pool State Command Reply α Call}
    (h : system.Covers Inv At condition roles pool) : List.Forall₂ At roles pool.threads :=
  h.imp fun _ _ hthread => Outlined.at system hthread

/-- The proof rule for pools: an invariant of the state and the roles that holds of no calls, of one
call more whenever one may start, and after every other change, holds all along if every call is
outlined. -/
theorem outlined_along {start : State} (hidle : Inv start [])
    (hstart : ∀ (pool : Pool State Command Reply α Call) (roles : List Role) (call : Call),
      Inv pool.state roles → List.Forall₂ At roles pool.threads → condition pool (.start call) →
      ∃ role, Inv pool.state (roles ++ [role]) ∧
        system.Outlined Inv At condition call role none (system.program call))
    (hchange : ∀ (pool : Pool State Command Reply α Call) (roles : List Role) (change : Change),
      Inv pool.state roles → List.Forall₂ At roles pool.threads →
      condition pool (.change change) → Inv (system.change change pool.state) roles)
    {moves : List (Move Call Change)} {pool : Pool State Command Reply α Call}
    (h : Runs.execute system.step (system.idle start) moves = .ok pool)
    (halong : Runs.Along system.step condition (system.idle start) moves) :
    ∃ roles, Inv pool.state roles ∧ List.Forall₂ At roles pool.threads := by
  have hcovered : ∃ roles, Inv pool.state roles ∧ system.Covers Inv At condition roles pool := by
    have hnone : system.Covers Inv At condition [] (system.idle start) := List.Forall₂.nil
    refine Runs.along_induction (motive := fun _ pool =>
      ∃ roles, Inv pool.state roles ∧ system.Covers Inv At condition roles pool)
      ⟨[], hidle, hnone⟩ ?_ h halong
    rintro trace move pool next ⟨roles, hinv, hcovers⟩ hcondition hstep
    cases move with
    | start call =>
        obtain ⟨role, hnext, houtlined⟩ :=
          hstart pool roles call hinv (Covers.at system hcovers) hcondition
        obtain rfl := Except.ok.inj hstep
        refine ⟨roles ++ [role], hnext, ?_⟩
        exact List.rel_append hcovers (List.Forall₂.cons houtlined List.Forall₂.nil)
    | step thread =>
        obtain ⟨call, last, command, rest, hthread, rfl⟩ := system.step_cases hstep
        obtain ⟨role, hrole, houtlined⟩ := forall₂_get hcovers hthread
        obtain ⟨role', hnext, hrest⟩ := houtlined.2 pool roles thread hinv
          (Covers.at system hcovers) hrole hthread hcondition
        exact ⟨roles.set thread role', hnext, forall₂_set hcovers thread hrest⟩
    | change change =>
        obtain rfl := Except.ok.inj hstep
        exact ⟨roles, hchange pool roles change hinv (Covers.at system hcovers) hcondition, hcovers⟩
  obtain ⟨roles, hinv, hcovers⟩ := hcovered
  exact ⟨roles, hinv, Covers.at system hcovers⟩

end System

end Pools

end CatalogApi.Programs
