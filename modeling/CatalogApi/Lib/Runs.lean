import Mathlib.Data.List.Induction

/-!
# Runs of a fallible step function

A run executes a list of labels from left to right and stops at the first step that fails.
`execute_induction` is the invariant rule: a property of the labels executed so far and the
state they lead to holds at the end of a run when it holds at the start and every successful
step keeps it.
-/

namespace CatalogApi.Runs

/-- A sequence that succeeds takes its value from its first part. -/
theorem bind_ok {ε α β : Type} {first : Except ε α} {rest : α → Except ε β} {result : β}
    (h : (first >>= rest) = .ok result) : ∃ value, first = .ok value ∧ rest value = .ok result := by
  cases first with
  | error e => cases h
  | ok value => exact ⟨value, rfl, h⟩

variable {State Label Error : Type*}

/-- Execute the labels in order; the first failing step fails the run. -/
def execute (step : State → Label → Except Error State) (start : State) (trace : List Label) :
    Except Error State :=
  trace.foldlM step start

variable {step : State → Label → Except Error State} {start finish : State}

theorem execute_cons (label : Label) (trace : List Label) :
    execute step start (label :: trace) =
      (step start label).bind fun state => execute step state trace :=
  List.foldlM_cons

/-- Executing one label more is executing the trace and then that label. -/
theorem execute_snoc (trace : List Label) (label : Label) :
    execute step start (trace ++ [label]) =
      (execute step start trace).bind fun state => step state label := by
  simp [execute, List.foldlM_append, bind_pure]
  rfl

/-- Executing two traces one after the other is executing the second from where the first ends. -/
theorem execute_append (first second : List Label) :
    execute step start (first ++ second) =
      (execute step start first).bind fun state => execute step state second := by
  simp [execute, List.foldlM_append, bind]

/-- A completed run that ends with `label` completed the trace before it and then took one
successful step. -/
theorem execute_snoc_ok {trace : List Label} {label : Label}
    (h : execute step start (trace ++ [label]) = .ok finish) :
    ∃ state, execute step start trace = .ok state ∧ step state label = .ok finish := by
  rw [execute_snoc] at h
  cases hrun : execute step start trace with
  | error e => simp [hrun, Except.bind] at h
  | ok state => exact ⟨state, rfl, by simpa [hrun, Except.bind] using h⟩

/-- The invariant rule for runs: `motive` may speak about the labels executed so far. -/
theorem execute_induction {motive : List Label → State → Prop}
    (hstart : motive [] start)
    (hstep : ∀ trace label state next, execute step start trace = .ok state →
      motive trace state → step state label = .ok next → motive (trace ++ [label]) next)
    {trace : List Label} (h : execute step start trace = .ok finish) : motive trace finish := by
  induction trace using List.reverseRecOn generalizing finish with
  | nil =>
      obtain rfl : start = finish := Except.ok.inj h
      exact hstart
  | append_singleton trace label ih =>
      obtain ⟨state, hrun, hlast⟩ := execute_snoc_ok h
      exact hstep trace label state finish hrun (ih hrun) hlast

/-! ## Conditions along a run -/

/-- Every step of the run meets the condition, in the state it is taken from. -/
def Along (step : State → Label → Except Error State) (condition : State → Label → Prop)
    (state : State) : List Label → Prop
  | [] => True
  | label :: rest => condition state label ∧
      match step state label with
      | .ok next => Along step condition next rest
      | .error _ => True

instance Along.decidable {condition : State → Label → Prop}
    [∀ state label, Decidable (condition state label)] (state : State) :
    (trace : List Label) → Decidable (Along step condition state trace)
  | [] => isTrue trivial
  | label :: rest =>
      have : Decidable (match step state label with
          | .ok next => Along step condition next rest
          | .error _ => True) := by
        cases step state label with
        | ok next => exact Along.decidable next rest
        | error _ => exact isTrue trivial
      inferInstanceAs (Decidable (condition state label ∧ _))

/-- Every run meets a condition that always holds. -/
theorem along_of_forall {condition : State → Label → Prop}
    (h : ∀ state label, condition state label) (state : State) (trace : List Label) :
    Along step condition state trace := by
  induction trace generalizing state with
  | nil => trivial
  | cons label rest ih =>
      refine ⟨h state label, ?_⟩
      cases step state label with
      | ok next => exact ih next
      | error _ => trivial

/-- A run that meets the condition met it before its last step, and the last step meets it. -/
theorem along_snoc {condition : State → Label → Prop} {trace : List Label} {label : Label}
    {state : State} (h : Along step condition start (trace ++ [label]))
    (hrun : execute step start trace = .ok state) :
    Along step condition start trace ∧ condition state label := by
  induction trace generalizing start with
  | nil =>
      obtain rfl : start = state := Except.ok.inj hrun
      exact ⟨trivial, h.1⟩
  | cons first rest ih =>
      obtain ⟨hfirst, hrest⟩ := h
      cases hstep : step start first with
      | error e => simp [execute, hstep, bind, Except.bind] at hrun
      | ok next =>
          simp only [execute, List.foldlM_cons, hstep, bind, Except.bind] at hrun
          simp only [hstep] at hrest
          obtain ⟨hbefore, hlast⟩ := ih hrest hrun
          refine ⟨⟨hfirst, ?_⟩, hlast⟩
          rw [hstep]
          exact hbefore

/-- The part of a run after a prefix meets the condition too. -/
theorem along_drop {condition : State → Label → Prop} {first second : List Label} {state : State}
    (h : Along step condition start (first ++ second)) (hrun : execute step start first = .ok state) :
    Along step condition state second := by
  induction first generalizing start with
  | nil =>
      obtain rfl : start = state := Except.ok.inj hrun
      exact h
  | cons label rest ih =>
      cases hstep : step start label with
      | error e => simp [execute, hstep, bind, Except.bind] at hrun
      | ok next =>
          simp only [execute, List.foldlM_cons, hstep, bind, Except.bind] at hrun
          have hrest := h.2
          simp only [hstep] at hrest
          exact ih hrest hrun

/-- The invariant rule for runs whose steps meet a condition. -/
theorem along_induction {condition : State → Label → Prop} {motive : List Label → State → Prop}
    (hstart : motive [] start)
    (hstep : ∀ trace label state next, motive trace state → condition state label →
      step state label = .ok next → motive (trace ++ [label]) next)
    {trace : List Label} (h : execute step start trace = .ok finish)
    (halong : Along step condition start trace) : motive trace finish := by
  refine execute_induction (motive := fun trace state => Along step condition start trace →
    motive trace state) (fun _ => hstart) ?_ h halong
  intro trace label state next hrun ih hlast hsnoc
  obtain ⟨hbefore, hcondition⟩ := along_snoc hsnoc hrun
  exact hstep trace label state next (ih hbefore) hcondition hlast

/-- One condition follows from another along a run when it does at each step, in the states that an
invariant allows. -/
theorem along_mono {first second : State → Label → Prop} {inv : State → Prop}
    (hstart : inv start)
    (hstep : ∀ state label next, inv state → first state label → step state label = .ok next →
      inv next)
    (himp : ∀ state label, inv state → first state label → second state label)
    {trace : List Label} (h : Along step first start trace) : Along step second start trace := by
  induction trace generalizing start with
  | nil => trivial
  | cons label rest ih =>
      refine ⟨himp start label hstart h.1, ?_⟩
      have hrest := h.2
      cases hnext : step start label with
      | error e => trivial
      | ok next =>
          rw [hnext] at hrest
          exact ih (hstep start label next hstart h.1 hnext) hrest

end CatalogApi.Runs
