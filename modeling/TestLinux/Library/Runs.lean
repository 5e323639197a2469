import Mathlib.Data.Option.Basic
import Mathlib.Data.List.Basic

/-!
# Runs of partial step functions

A system is a step function `State → Event → Option State`: an event that is not enabled in a state
has no successor. `run` folds the step function over a list of events, oldest first, and fails as
soon as one event is not enabled, so that `run step start events = some state` says that `events`
is a possible run from `start` and that it ends in `state`.

`run_invariant` is the induction over whole runs: a property of the start that every enabled step
keeps holds at the end of every run. `exists_run` yields the run as well, where the invariant keeps
the events enabled. `Along step allowed start events` restricts the steps of a run to those that a
predicate on the state before the step and the event allows, and `run_invariant_along` is the same
induction over such runs. `Along` reads the state before a step and never the result of it.
`Throughout` speaks of all the states that a run passes through, and `throughout_iff_along` compares
the two. `length_add_rank_le` bounds a run whose steps lower a rank.
-/

set_option autoImplicit false
set_option relaxedAutoImplicit false

namespace TestLinux.Runs

variable {State Event : Type*}

/-- Runs a partial step function over a list of events, oldest first. -/
def run (step : State → Event → Option State) : State → List Event → Option State
  | state, [] => some state
  | state, event :: rest => (step state event).bind fun next ↦ run step next rest

@[simp] theorem run_nil (step : State → Event → Option State) (state : State) :
    run step state [] = some state := rfl

theorem run_cons_eq_some {step : State → Event → Option State} {state final : State}
    {event : Event} {rest : List Event} :
    run step state (event :: rest) = some final ↔
      ∃ next, step state event = some next ∧ run step next rest = some final := by
  simp [run, Option.bind_eq_some_iff]

theorem run_append (step : State → Event → Option State) (state : State)
    (first second : List Event) :
    run step state (first ++ second) =
      (run step state first).bind fun middle ↦ run step middle second := by
  induction first generalizing state with
  | nil => rfl
  | cons event rest ih =>
    simp only [List.cons_append, run, Option.bind_assoc]
    congr 1
    funext next
    exact ih next

/-- A run over events that are enabled wherever an invariant holds. Assumes: each of them leads from
the invariant to the invariant. -/
theorem exists_run {step : State → Event → Option State} {invariant : State → Prop}
    {enabled : Event → Prop}
    (hstep : ∀ state event, invariant state → enabled event →
      ∃ next, step state event = some next ∧ invariant next)
    {events : List Event} {start : State} (hstart : invariant start)
    (hevents : ∀ event ∈ events, enabled event) :
    ∃ final, run step start events = some final ∧ invariant final := by
  induction events generalizing start with
  | nil => exact ⟨start, rfl, hstart⟩
  | cons event rest ih =>
    obtain ⟨next, hnext, hinvariant⟩ := hstep start event hstart (hevents event List.mem_cons_self)
    obtain ⟨final, hrun, hfinal⟩ := ih hinvariant fun later hlater ↦
      hevents later (List.mem_cons_of_mem event hlater)
    exact ⟨final, run_cons_eq_some.mpr ⟨next, hnext, hrun⟩, hfinal⟩

/-- What a run shows at its end: evaluating a view of the final state yields the state. -/
theorem exists_of_view {step : State → Event → Option State} {start : State} {events : List Event}
    {View : Type*} {view : State → View} {seen : View}
    (hview : (run step start events).map view = some seen) :
    ∃ final, run step start events = some final ∧ view final = seen :=
  Option.map_eq_some_iff.mp hview

/-- What a run shows at a middle point and at its end. -/
theorem exists_of_views {step : State → Event → Option State} {start : State}
    {first second : List Event} {View View' : Type*} {view : State → View} {view' : State → View'}
    {seen : View} {seen' : View'} (hmiddle : (run step start first).map view = some seen)
    (hend : (run step start (first ++ second)).map view' = some seen') :
    ∃ middle final, run step start first = some middle ∧ run step middle second = some final ∧
      view middle = seen ∧ view' final = seen' := by
  obtain ⟨middle, hfirst, hseen⟩ := exists_of_view hmiddle
  obtain ⟨final, hsecond, hseen'⟩ := exists_of_view hend
  rw [run_append, hfirst, Option.bind_some] at hsecond
  exact ⟨middle, final, hfirst, hsecond, hseen, hseen'⟩

/-- Every step of the run over `events` is taken from a state in which `allowed` permits it. -/
def Along (step : State → Event → Option State) (allowed : State → Event → Prop) :
    State → List Event → Prop
  | _, [] => True
  | state, event :: rest =>
    allowed state event ∧
      match step state event with
      | none => True
      | some next => Along step allowed next rest

instance decidableAlong (step : State → Event → Option State) (allowed : State → Event → Prop)
    [∀ state event, Decidable (allowed state event)] :
    ∀ (state : State) (events : List Event), Decidable (Along step allowed state events)
  | _, [] => isTrue trivial
  | state, event :: rest =>
    let _ : Decidable (match step state event with
        | none => True
        | some next => Along step allowed next rest) :=
      match step state event with
      | none => isTrue trivial
      | some next => decidableAlong step allowed next rest
    instDecidableAnd

theorem along_of_forall {step : State → Event → Option State} {allowed : State → Event → Prop}
    {events : List Event} (hallowed : ∀ event ∈ events, ∀ state, allowed state event)
    (state : State) : Along step allowed state events := by
  induction events generalizing state with
  | nil => trivial
  | cons event rest ih =>
    refine ⟨hallowed event List.mem_cons_self state, ?_⟩
    cases step state event with
    | none => trivial
    | some next =>
      exact ih (fun later hlater ↦ hallowed later (List.mem_cons_of_mem event hlater)) next

theorem Along.and {step : State → Event → Option State} {allowed allowed' : State → Event → Prop}
    {state : State} {events : List Event} (halong : Along step allowed state events)
    (halong' : Along step allowed' state events) :
    Along step (fun state event ↦ allowed state event ∧ allowed' state event) state events := by
  induction events generalizing state with
  | nil => trivial
  | cons event rest ih =>
    obtain ⟨hallowed, hrest⟩ := halong
    obtain ⟨hallowed', hrest'⟩ := halong'
    refine ⟨⟨hallowed, hallowed'⟩, ?_⟩
    cases hstep : step state event with
    | none => trivial
    | some next =>
      rw [hstep] at hrest hrest'
      exact ih hrest hrest'

theorem along_cons_iff {step : State → Event → Option State} {allowed : State → Event → Prop}
    {state next : State} {event : Event} {rest : List Event}
    (hstep : step state event = some next) :
    Along step allowed state (event :: rest) ↔
      allowed state event ∧ Along step allowed next rest := by
  rw [Along, hstep]

theorem along_cons {step : State → Event → Option State} {allowed : State → Event → Prop}
    {state next : State} {event : Event} {rest : List Event}
    (hstep : step state event = some next) (halong : Along step allowed state (event :: rest)) :
    allowed state event ∧ Along step allowed next rest :=
  (along_cons_iff hstep).mp halong

theorem along_append {step : State → Event → Option State} {allowed : State → Event → Prop}
    {state middle : State} {first second : List Event}
    (hrun : run step state first = some middle)
    (halong : Along step allowed state (first ++ second)) :
    Along step allowed state first ∧ Along step allowed middle second := by
  induction first generalizing state with
  | nil =>
    rw [run_nil, Option.some.injEq] at hrun
    subst hrun
    exact ⟨trivial, halong⟩
  | cons event rest ih =>
    obtain ⟨next, hstep, hrest⟩ := run_cons_eq_some.mp hrun
    obtain ⟨hallowed, htail⟩ := along_cons hstep halong
    obtain ⟨hfirst, hsecond⟩ := ih hrest htail
    refine ⟨⟨hallowed, ?_⟩, hsecond⟩
    rw [hstep]
    exact hfirst

/-- Induction over the runs whose steps are all allowed. Assumes: every allowed step keeps the
invariant. -/
theorem run_invariant_along {step : State → Event → Option State}
    {allowed : State → Event → Prop} {invariant : State → Prop}
    (hpreserved : ∀ state event next, invariant state → allowed state event →
      step state event = some next → invariant next)
    {events : List Event} {start final : State} (hstart : invariant start)
    (halong : Along step allowed start events) (hrun : run step start events = some final) :
    invariant final := by
  induction events generalizing start with
  | nil =>
    rw [run_nil, Option.some.injEq] at hrun
    exact hrun ▸ hstart
  | cons event rest ih =>
    obtain ⟨next, hstep, hrest⟩ := run_cons_eq_some.mp hrun
    obtain ⟨hallowed, htail⟩ := along_cons hstep halong
    exact ih (hpreserved start event next hstart hallowed hstep) htail hrest

/-- In the runs whose steps are all allowed, an invariant turns what is allowed into what is wanted.
Assumes: every allowed step keeps the invariant. -/
theorem Along.of_invariant {step : State → Event → Option State}
    {allowed wanted : State → Event → Prop} {invariant : State → Prop}
    (hpreserved : ∀ state event next, invariant state → allowed state event →
      step state event = some next → invariant next)
    (hwanted : ∀ state event next, invariant state → allowed state event →
      step state event = some next → wanted state event)
    {events : List Event} {start final : State} (hstart : invariant start)
    (halong : Along step allowed start events) (hrun : run step start events = some final) :
    Along step wanted start events := by
  induction events generalizing start with
  | nil => trivial
  | cons event rest ih =>
    obtain ⟨next, hstep, hrest⟩ := run_cons_eq_some.mp hrun
    obtain ⟨hallowed, htail⟩ := along_cons hstep halong
    exact (along_cons_iff hstep).mpr ⟨hwanted start event next hstart hallowed hstep,
      ih (hpreserved start event next hstart hallowed hstep) htail hrest⟩

/-- The property holds in every state that the run over `events` passes through. -/
def Throughout (step : State → Event → Option State) (property : State → Prop) (start : State)
    (events : List Event) : Prop :=
  ∀ first, first <+: events → ∀ middle, run step start first = some middle → property middle

/-- An invariant of the allowed steps holds in all states of a run of such steps. -/
theorem Along.throughout {step : State → Event → Option State}
    {allowed : State → Event → Prop} {invariant : State → Prop}
    (hpreserved : ∀ state event next, invariant state → allowed state event →
      step state event = some next → invariant next)
    {events : List Event} {start : State} (hstart : invariant start)
    (halong : Along step allowed start events) : Throughout step invariant start events := by
  rintro first ⟨second, rfl⟩ middle hrun
  exact run_invariant_along hpreserved hstart (along_append hrun halong).1 hrun

theorem throughout_nil {step : State → Event → Option State} {property : State → Prop}
    {start : State} : Throughout step property start [] ↔ property start := by
  constructor
  · intro hthroughout
    exact hthroughout [] List.prefix_rfl start rfl
  · intro hstart first hfirst middle hrun
    rw [List.prefix_nil.mp hfirst, run_nil, Option.some.injEq] at hrun
    exact hrun ▸ hstart

theorem throughout_cons_iff {step : State → Event → Option State} {property : State → Prop}
    {start next : State} {event : Event} {rest : List Event}
    (hstep : step start event = some next) :
    Throughout step property start (event :: rest) ↔
      property start ∧ Throughout step property next rest := by
  constructor
  · intro hthroughout
    refine ⟨hthroughout [] List.nil_prefix start rfl, fun first hfirst middle hrun ↦ ?_⟩
    refine hthroughout (event :: first) (List.prefix_cons_inj event |>.mpr hfirst) middle ?_
    exact run_cons_eq_some.mpr ⟨next, hstep, hrun⟩
  · rintro ⟨hstart, hrest⟩ first hfirst middle hrun
    cases first with
    | nil =>
      rw [run_nil, Option.some.injEq] at hrun
      exact hrun ▸ hstart
    | cons head tail =>
      obtain ⟨rfl, htail⟩ := List.cons_prefix_cons.mp hfirst
      obtain ⟨middle', hstep', hrun'⟩ := run_cons_eq_some.mp hrun
      rw [hstep, Option.some.injEq] at hstep'
      exact hrest tail htail middle (hstep' ▸ hrun')

/-- A property holds in every state of a run exactly if every step of it is allowed. Assumes: the
start has an invariant that includes the property, an allowed step keeps the invariant, and a step
that keeps the property was allowed. -/
theorem throughout_iff_along {step : State → Event → Option State}
    {allowed : State → Event → Prop} {invariant property : State → Prop}
    (hproperty : ∀ state, invariant state → property state)
    (hpreserved : ∀ state event next, invariant state → allowed state event →
      step state event = some next → invariant next)
    (hallowed : ∀ state event next, invariant state → step state event = some next →
      property next → allowed state event)
    {events : List Event} {start final : State} (hstart : invariant start)
    (hrun : run step start events = some final) :
    Throughout step property start events ↔ Along step allowed start events := by
  induction events generalizing start with
  | nil => exact iff_of_true (throughout_nil.mpr (hproperty start hstart)) trivial
  | cons event rest ih =>
    obtain ⟨next, hstep, hrest⟩ := run_cons_eq_some.mp hrun
    rw [throughout_cons_iff hstep, along_cons_iff hstep]
    constructor
    · rintro ⟨-, hthroughout⟩
      have hnext := hthroughout [] List.nil_prefix next rfl
      have hevent := hallowed start event next hstart hstep hnext
      exact ⟨hevent, (ih (hpreserved start event next hstart hevent hstep) hrest).mp hthroughout⟩
    · rintro ⟨hevent, halong⟩
      exact ⟨hproperty start hstart,
        (ih (hpreserved start event next hstart hevent hstep) hrest).mpr halong⟩

/-- Induction over all runs. Assumes: every step keeps the invariant. -/
theorem run_invariant {step : State → Event → Option State} {invariant : State → Prop}
    (hpreserved : ∀ state event next, invariant state → step state event = some next →
      invariant next)
    {events : List Event} {start final : State} (hstart : invariant start)
    (hrun : run step start events = some final) : invariant final :=
  have hall : Along step (fun _ _ ↦ True) start events :=
    along_of_forall (fun _ _ _ ↦ trivial) start
  run_invariant_along (fun state event next hstate _ hstep ↦
    hpreserved state event next hstate hstep) hstart hall hrun

/-- A run of steps that lower a rank is no longer than the rank of its start. Assumes: the steps
keep an invariant under which each of them lowers the rank. -/
theorem length_add_rank_le {step : State → Event → Option State} {invariant : State → Prop}
    {enabled : Event → Prop} (rank : State → ℕ)
    (hstep : ∀ state event next, invariant state → enabled event →
      step state event = some next → invariant next ∧ rank next < rank state)
    {events : List Event} {start final : State} (hstart : invariant start)
    (hevents : ∀ event ∈ events, enabled event) (hrun : run step start events = some final) :
    events.length + rank final ≤ rank start := by
  induction events generalizing start with
  | nil =>
    rw [run_nil, Option.some.injEq] at hrun
    rw [hrun, List.length_nil]
    exact Nat.le_of_eq (Nat.zero_add _)
  | cons event rest ih =>
    obtain ⟨next, hnext, hrest⟩ := run_cons_eq_some.mp hrun
    obtain ⟨hinvariant, hless⟩ := hstep start event next hstart
      (hevents event List.mem_cons_self) hnext
    have hlater := ih hinvariant (fun later hlater ↦
      hevents later (List.mem_cons_of_mem event hlater)) hrest
    rw [List.length_cons]
    omega

end TestLinux.Runs
