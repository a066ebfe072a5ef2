/-! Runs of a partial step function: each event either takes the state to the
next one or is not enabled there. -/

namespace HamachiLike.Run

universe u v w x

variable {State : Type u} {Event : Type v}

/-- Take a list of events one after the other. -/
def run (step : State → Event → Option State) : State → List Event → Option State
  | state, [] => some state
  | state, event :: rest => (step state event).bind fun next => run step next rest

/-- Every step that a list of events takes meets a condition on the state
before the step and the event. -/
def Along (step : State → Event → Option State) (condition : State → Event → Prop) :
    State → List Event → Prop
  | _, [] => True
  | state, event :: rest =>
    condition state event ∧ ∀ next, step state event = some next → Along step condition next rest

variable {step : State → Event → Option State} {condition : State → Event → Prop}

@[simp] theorem run_nil (state : State) : run step state [] = some state := rfl

theorem run_cons_some {state final : State} {event : Event} {rest : List Event} :
    run step state (event :: rest) = some final ↔
      ∃ next, step state event = some next ∧ run step next rest = some final := by
  rw [run, Option.bind_eq_some_iff]

theorem run_append_some {state final : State} {first second : List Event} :
    run step state (first ++ second) = some final ↔
      ∃ middle, run step state first = some middle ∧ run step middle second = some final := by
  induction first generalizing state with
  | nil => simp
  | cons event rest ih =>
    simp only [List.cons_append, run_cons_some, ih]
    constructor
    · rintro ⟨next, taken, middle, before, after⟩
      exact ⟨middle, ⟨next, taken, before⟩, after⟩
    · rintro ⟨middle, ⟨next, taken, before⟩, after⟩
      exact ⟨next, taken, middle, before, after⟩

theorem run_append_singleton_some {state final : State} {events : List Event} {event : Event} :
    run step state (events ++ [event]) = some final ↔
      ∃ middle, run step state events = some middle ∧ step middle event = some final := by
  rw [run_append_some]
  simp only [run_cons_some, run_nil, Option.some.injEq, exists_eq_right]

/-- Events that are taken anywhere and change nothing may as well be left out. -/
theorem run_filter {keep : Event → Bool}
    (passed : ∀ state event, keep event = false → step state event = some state)
    (state : State) (events : List Event) :
    run step state (events.filter keep) = run step state events := by
  induction events generalizing state with
  | nil => rfl
  | cons event rest ih =>
    by_cases kept : keep event = true
    · rw [List.filter_cons_of_pos kept, run, run]
      exact Option.bind_congr fun next _ => ih next
    · rw [List.filter_cons_of_neg kept, run, passed state event (Bool.not_eq_true _ ▸ kept), Option.bind_some]
      exact ih state

theorem Along.of_forall {events : List Event} (every : ∀ state, ∀ event ∈ events, condition state event)
    (state : State) : Along step condition state events := by
  induction events generalizing state with
  | nil => trivial
  | cons event rest ih =>
    exact ⟨every state event List.mem_cons_self, fun next _ =>
      ih (fun state event member => every state event (List.mem_cons_of_mem _ member)) next⟩

/-- What every step under the condition preserves holds at the end of a run
whose steps all meet the condition. -/
theorem run_invariant {Inv : State → Prop}
    (kept : ∀ state event next, condition state event → Inv state →
      step state event = some next → Inv next)
    {state final : State} {events : List Event} (start : Inv state)
    (along : Along step condition state events) (reached : run step state events = some final) :
    Inv final := by
  induction events generalizing state with
  | nil =>
    cases reached
    exact start
  | cons event rest ih =>
    obtain ⟨next, taken, remaining⟩ := run_cons_some.mp reached
    exact ih (kept state event next along.1 start taken) (along.2 next taken) remaining

/-- Where the condition is on the events alone, it is asked of those of the run. -/
theorem run_invariant_of_events {allowed : Event → Prop} {Inv : State → Prop}
    (kept : ∀ state event next, allowed event → Inv state → step state event = some next → Inv next)
    {state final : State} {events : List Event} (start : Inv state)
    (all : ∀ event ∈ events, allowed event) (reached : run step state events = some final) :
    Inv final :=
  run_invariant kept start (Along.of_forall (fun _ => all) state) reached

theorem run_preserves {Inv : State → Prop}
    (kept : ∀ state event next, Inv state → step state event = some next → Inv next)
    {state final : State} {events : List Event} (start : Inv state)
    (reached : run step state events = some final) : Inv final :=
  run_invariant_of_events (fun state event next (_ : True) => kept state event next) start
    (fun _ _ => trivial) reached

/-- A step-by-step abstraction takes runs to runs. -/
theorem run_simulation {Abstract : Type w} {AbstractEvent : Type x}
    {abstractStep : Abstract → AbstractEvent → Option Abstract}
    {view : State → Abstract} {viewEvent : Event → AbstractEvent}
    (simulates : ∀ state event next, step state event = some next →
      abstractStep (view state) (viewEvent event) = some (view next))
    {state final : State} {events : List Event} (reached : run step state events = some final) :
    run abstractStep (view state) (events.map viewEvent) = some (view final) := by
  induction events generalizing state with
  | nil =>
    cases reached
    rfl
  | cons event rest ih =>
    obtain ⟨next, taken, remaining⟩ := run_cons_some.mp reached
    exact run_cons_some.mpr ⟨view next, simulates state event next taken, ih remaining⟩

end HamachiLike.Run
