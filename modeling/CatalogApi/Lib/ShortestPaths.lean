import Mathlib.Data.List.Lex
import Mathlib.Data.Nat.Find
import Mathlib.Order.Lattice

/-!
# Shortest paths by layers

Paths from one vertex over a relation with labelled steps, distances, and of the shortest paths to
a vertex one that is least by the names of its vertices. A distance is one more than that of a
predecessor (`dist_succ_iff`), and a least path to a predecessor with the least names extends to a
least path (`Least.snoc`): the step of a breadth-first search that keeps one parent a vertex.
-/

namespace CatalogApi.ShortestPaths

variable {V R N : Type} {step : V → R → V → Prop} {start : V}

/-! ## Paths and distances -/

/-- A path from the start, as its steps with the vertices they lead to. -/
inductive Path (step : V → R → V → Prop) (start : V) : List (R × V) → V → Prop where
  | nil : Path step start [] start
  | snoc {hops : List (R × V)} {u v : V} {r : R} (init : Path step start hops u)
      (last : step u r v) : Path step start (hops ++ [(r, v)]) v

/-- A path that no other path to its end is shorter than. -/
def Shortest (step : V → R → V → Prop) (start : V) (hops : List (R × V)) (v : V) : Prop :=
  Path step start hops v ∧ ∀ other, Path step start other v → hops.length ≤ other.length

/-- The distance of a vertex from the start. -/
def Dist (step : V → R → V → Prop) (start : V) (d : Nat) (v : V) : Prop :=
  ∃ hops, Shortest step start hops v ∧ hops.length = d

theorem path_nil {v : V} (h : Path step start [] v) : v = start := by
  generalize hhops : ([] : List (R × V)) = hops at h
  cases h with
  | nil => rfl
  | snoc init last => simp at hhops

/-- The last step of a path that has one. -/
theorem path_snoc {hops : List (R × V)} {last : R × V} {v : V}
    (h : Path step start (hops ++ [last]) v) :
    last.2 = v ∧ ∃ u, Path step start hops u ∧ step u last.1 v := by
  generalize hall : hops ++ [last] = all at h
  cases h with
  | nil => simp at hall
  | snoc init hstep =>
      obtain ⟨rfl, hlast⟩ := List.append_inj' hall rfl
      obtain rfl := List.singleton_inj.mp hlast
      exact ⟨rfl, _, init, hstep⟩

theorem shortest_nil : Shortest step start [] start :=
  ⟨.nil, fun _ _ => Nat.zero_le _⟩

/-- A shortest path reaches the vertex before its end by a shortest path. -/
theorem Shortest.init {hops : List (R × V)} {last : R × V} {v : V}
    (h : Shortest step start (hops ++ [last]) v) :
    last.2 = v ∧ ∃ u, Shortest step start hops u ∧ step u last.1 v := by
  obtain ⟨rfl, u, hinit, hstep⟩ := path_snoc h.1
  refine ⟨rfl, u, ⟨hinit, fun other hother => ?_⟩, hstep⟩
  have hle := h.2 _ (hother.snoc hstep)
  rw [List.length_append, List.length_append, List.length_singleton] at hle
  exact Nat.le_of_add_le_add_right hle

theorem Shortest.dist {hops : List (R × V)} {v : V} (h : Shortest step start hops v) :
    Dist step start hops.length v :=
  ⟨hops, h, rfl⟩

theorem Dist.unique {d d' : Nat} {v : V} (h : Dist step start d v) (h' : Dist step start d' v) :
    d = d' := by
  obtain ⟨hops, hshortest, rfl⟩ := h
  obtain ⟨hops', hshortest', rfl⟩ := h'
  exact Nat.le_antisymm (hshortest.2 _ hshortest'.1) (hshortest'.2 _ hshortest.1)

theorem dist_start : Dist step start 0 start :=
  ⟨[], shortest_nil, rfl⟩

theorem dist_zero {v : V} (h : Dist step start 0 v) : v = start := by
  obtain ⟨hops, hshortest, hlength⟩ := h
  rw [List.length_eq_zero_iff] at hlength
  exact path_nil (hlength ▸ hshortest.1)

/-- A vertex with a path has a distance, at most the length of the path. -/
theorem dist_of_path {hops : List (R × V)} {v : V} (h : Path step start hops v) :
    ∃ d ≤ hops.length, Dist step start d v := by
  classical
  have hsome : ∃ d, ∃ other, Path step start other v ∧ other.length = d := ⟨_, hops, h, rfl⟩
  obtain ⟨best, hbest, hlength⟩ := Nat.find_spec hsome
  refine ⟨Nat.find hsome, Nat.find_min' hsome ⟨hops, h, rfl⟩, best, ⟨hbest, ?_⟩, hlength⟩
  intro other hother
  rw [hlength]
  exact Nat.find_min' hsome ⟨other, hother, rfl⟩

/-- A path with a step from distance `d` to a vertex nearer by no path is a shortest one. -/
theorem Shortest.snoc {hops : List (R × V)} {u v : V} {r : R} (h : Shortest step start hops u)
    (hstep : step u r v) (hfar : ∀ k ≤ hops.length, ¬Dist step start k v) :
    Shortest step start (hops ++ [(r, v)]) v := by
  refine ⟨h.1.snoc hstep, fun other hother => ?_⟩
  obtain ⟨d, hle, hdist⟩ := dist_of_path hother
  by_contra hlt
  rw [List.length_append, List.length_singleton] at hlt
  exact hfar d (by omega) hdist

/-- The distance of a vertex beyond a layer: a step away from the layer, and in none before. -/
theorem dist_succ_iff {d : Nat} {v : V} :
    Dist step start (d + 1) v ↔
      (∃ u r, Dist step start d u ∧ step u r v) ∧ ∀ k ≤ d, ¬Dist step start k v := by
  constructor
  · intro h
    refine ⟨?_, fun k hk hdist => ?_⟩
    · obtain ⟨hops, hshortest, hlength⟩ := h
      rcases List.eq_nil_or_concat' hops with rfl | ⟨init, last, rfl⟩
      · cases hlength
      · obtain ⟨-, u, hinit, hstep⟩ := hshortest.init
        rw [List.length_append, List.length_singleton, Nat.add_right_cancel_iff] at hlength
        exact ⟨u, last.1, ⟨init, hinit, hlength⟩, hstep⟩
    · have heq := h.unique hdist
      omega
  · rintro ⟨⟨u, r, ⟨hops, hshortest, rfl⟩, hstep⟩, hfar⟩
    exact ⟨_, hshortest.snoc hstep hfar, by rw [List.length_append, List.length_singleton]⟩

/-! ## Least names -/

/-- The names along a path. -/
def pathNames (name : V → N) (start : V) (hops : List (R × V)) : List N :=
  name start :: hops.map fun hop => name hop.2

theorem path_names_snoc (name : V → N) (hops : List (R × V)) (r : R) (v : V) :
    pathNames name start (hops ++ [(r, v)]) = pathNames name start hops ++ [name v] := by
  rw [pathNames, List.map_append, ← List.cons_append]
  rfl

variable [LinearOrder N]

theorem append_lt_append {l l' : List N} (hlength : l.length = l'.length) (h : l < l') (a : N) :
    l ++ [a] < l' ++ [a] := by
  induction l generalizing l' with
  | nil =>
      obtain rfl := List.length_eq_zero_iff.mp hlength.symm
      exact absurd h (lt_irrefl _)
  | cons first l ih =>
      cases l' with
      | nil => cases hlength
      | cons first' l' =>
          rw [List.cons_lt_cons_iff] at h
          rw [List.cons_append, List.cons_append, List.cons_lt_cons_iff]
          exact h.imp_right fun hrest => ⟨hrest.1, ih (Nat.succ.inj hlength) hrest.2⟩

/-- Lists of one length keep their order with one element more at the end of both. -/
theorem append_le_append {l l' : List N} (hlength : l.length = l'.length) (h : l ≤ l') (a : N) :
    l ++ [a] ≤ l' ++ [a] := by
  rcases lt_or_eq_of_le h with hlt | rfl
  · exact (append_lt_append hlength hlt a).le
  · exact le_refl _

/-- Of the shortest paths to a vertex, one with the least names. -/
def Least (step : V → R → V → Prop) (start : V) (name : V → N) (hops : List (R × V)) (v : V) :
    Prop :=
  Shortest step start hops v ∧
    ∀ other, Shortest step start other v → pathNames name start hops ≤ pathNames name start other

theorem least_nil (name : V → N) : Least step start name [] start := by
  refine ⟨shortest_nil, fun other hother => ?_⟩
  have hnil : other = [] := List.length_eq_zero_iff.mp (Nat.le_zero.mp (hother.2 [] .nil))
  rw [hnil]

/-- A least path to a predecessor whose names are least among those of the predecessors extends to
a least path. -/
theorem Least.snoc {name : V → N} {hops : List (R × V)} {u v : V} {r : R}
    (h : Least step start name hops u) (hstep : step u r v)
    (hfar : ∀ k ≤ hops.length, ¬Dist step start k v)
    (hleast : ∀ u' r' hops', Least step start name hops' u' → hops'.length = hops.length →
      step u' r' v → pathNames name start hops ≤ pathNames name start hops')
    (hall : ∀ u', Dist step start hops.length u' → ∃ hops', Least step start name hops' u') :
    Least step start name (hops ++ [(r, v)]) v := by
  have hshortest := h.1.snoc hstep hfar
  refine ⟨hshortest, fun other hother => ?_⟩
  have hlength : other.length = hops.length + 1 := by
    have hle := hother.2 _ hshortest.1
    have hge := hshortest.2 _ hother.1
    rw [List.length_append, List.length_singleton] at hle hge
    omega
  rcases List.eq_nil_or_concat' other with rfl | ⟨init, ⟨r', v'⟩, rfl⟩
  · cases hlength
  · obtain ⟨rfl, u', hinit, hstep'⟩ := hother.init
    rw [List.length_append, List.length_singleton, Nat.add_right_cancel_iff] at hlength
    obtain ⟨hops', hleast'⟩ := hall u' ⟨init, hinit, hlength⟩
    have hlength' : hops'.length = hops.length :=
      (hleast'.1.dist.unique ⟨init, hinit, hlength⟩)
    rw [path_names_snoc, path_names_snoc]
    refine append_le_append ?_ ?_ _
    · simp only [pathNames, List.length_cons, List.length_map, hlength]
    · exact (hleast u' r' hops' hleast' hlength' hstep').trans (hleast'.2 init hinit)

end CatalogApi.ShortestPaths
