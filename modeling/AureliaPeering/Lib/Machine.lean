import Mathlib.Logic.Relation

/-!
Labelled machines, their runs, and the invariant rule.

A machine is nondeterministic: one label may lead to several states, or to none.  `restrict`
keeps only the steps that meet a condition on the state before them, so that a property of the
restricted runs is a property of those runs of the machine whose steps all meet the condition.
-/

namespace Machine

universe u v

/-- A labelled transition system with its initial states. -/
structure System (State : Type u) (Label : Type v) where
  Initial : State → Prop
  Step : State → Label → State → Prop

namespace System

variable {State : Type u} {Label : Type v}

/-- A finite run, its labels listed in the order in which they were taken. -/
inductive Run (system : System State Label) : State → List Label → State → Prop where
  | nil (state : State) : Run system state [] state
  | snoc {start middle finish : State} {labels : List Label} {label : Label} :
      Run system start labels middle → system.Step middle label finish →
      Run system start (labels ++ [label]) finish

/-- The states of the runs from an initial state. -/
def Reachable (system : System State Label) (state : State) : Prop :=
  ∃ start labels, system.Initial start ∧ system.Run start labels state

/-- The runs all of whose steps meet `Allowed` in the state before the step. -/
def restrict (system : System State Label) (Allowed : State → Label → Prop) :
    System State Label where
  Initial := system.Initial
  Step state label next := system.Step state label next ∧ Allowed state label

theorem Run.single {system : System State Label} {state next : State} {label : Label}
    (step : system.Step state label next) : system.Run state [label] next :=
  .snoc (.nil state) step

/-- What one step preserves, a run preserves. -/
theorem Run.preserves {system : System State Label} {Invariant : State → Prop}
    (step : ∀ state label next, Invariant state → system.Step state label next → Invariant next)
    {start finish : State} {labels : List Label} (run : system.Run start labels finish)
    (holds : Invariant start) : Invariant finish := by
  induction run with
  | nil => exact holds
  | snoc _ taken ih => exact step _ _ _ ih taken

theorem Reachable.start {system : System State Label} {state : State}
    (initial : system.Initial state) : system.Reachable state :=
  ⟨state, [], initial, .nil state⟩

theorem Reachable.step {system : System State Label} {state next : State} {label : Label}
    (reached : system.Reachable state) (taken : system.Step state label next) :
    system.Reachable next := by
  obtain ⟨start, labels, initial, run⟩ := reached
  exact ⟨start, labels ++ [label], initial, run.snoc taken⟩

/-- A step that names its label. -/
theorem Reachable.take {system : System State Label} {state next : State}
    (reached : system.Reachable state) (label : Label) (taken : system.Step state label next) :
    system.Reachable next := reached.step taken

/-- The invariant rule: it holds initially and every step preserves it. -/
theorem Reachable.invariant {system : System State Label} {Invariant : State → Prop}
    (initial : ∀ state, system.Initial state → Invariant state)
    (step : ∀ state label next, Invariant state → system.Step state label next → Invariant next)
    {state : State} (reached : system.Reachable state) : Invariant state := by
  obtain ⟨start, _, isInitial, run⟩ := reached
  exact run.preserves step (initial start isInitial)

theorem Reachable.of_restrict {system : System State Label} {Allowed : State → Label → Prop}
    {state : State} (reached : (system.restrict Allowed).Reachable state) :
    system.Reachable state :=
  reached.invariant (fun _ initial => .start initial)
    (fun _ _ _ before taken => before.step taken.1)

theorem Reachable.weaken {system : System State Label} {Allowed Weaker : State → Label → Prop}
    (weaker : ∀ state label, Allowed state label → Weaker state label) {state : State}
    (reached : (system.restrict Allowed).Reachable state) :
    (system.restrict Weaker).Reachable state :=
  reached.invariant (fun _ initial => .start initial)
    (fun state label _ before taken => before.step ⟨taken.1, weaker state label taken.2⟩)

/-- The machine of a partial step function. -/
def ofStep (Initial : State → Prop) (step : State → Label → Option State) :
    System State Label where
  Initial := Initial
  Step state label next := step state label = some next

end System

/-- The state after a list of labels, if each of them can be taken. -/
def exec {State : Type u} {Label : Type v} (step : State → Label → Option State) :
    State → List Label → Option State
  | state, [] => some state
  | state, label :: rest => (step state label).bind fun next => exec step next rest

/-- A list of labels that a partial step function can take is a run of any machine that has its
steps. -/
theorem System.Reachable.exec {State : Type u} {Label : Type v} {system : System State Label}
    {step : State → Label → Option State} {state next : State} (reached : system.Reachable state)
    (steps : ∀ state label next, step state label = some next → system.Step state label next)
    (labels : List Label) (executed : Machine.exec step state labels = some next) :
    system.Reachable next := by
  induction labels generalizing state with
  | nil =>
    cases executed
    exact reached
  | cons label rest ih =>
    obtain ⟨middle, taken, remaining⟩ := Option.bind_eq_some_iff.mp executed
    exact ih (reached.step (steps state label middle taken)) remaining

/-- The steps that meet a decidable condition on the state before them. -/
def guarded {State : Type u} {Label : Type v} (Allowed : State → Label → Prop)
    [∀ state label, Decidable (Allowed state label)] (step : State → Label → Option State)
    (state : State) (label : Label) : Option State :=
  if Allowed state label then step state label else none

theorem System.Reachable.guarded {State : Type u} {Label : Type v} {Initial : State → Prop}
    {step : State → Label → Option State} {Allowed : State → Label → Prop}
    [∀ state label, Decidable (Allowed state label)] {state next : State}
    (reached : ((System.ofStep Initial step).restrict Allowed).Reachable state)
    (labels : List Label)
    (executed : Machine.exec (Machine.guarded Allowed step) state labels = some next) :
    ((System.ofStep Initial step).restrict Allowed).Reachable next := by
  refine reached.exec (fun _ _ _ taken => ?_) labels executed
  obtain ⟨allowed, stepped⟩ := Option.ite_none_right_eq_some.mp taken
  exact ⟨stepped, allowed⟩

section Examples

variable {State : Type u} {Label : Type v} {Initial : State → Prop}
  {step : State → Label → Option State} {Holds : State → Prop} [DecidablePred Holds] {start : State}

/-- A list of labels is executed, and what it leads to is checked. -/
theorem System.exists_reachable (labels : List Label) (initial : Initial start)
    (executed : (exec step start labels).any (fun state => decide (Holds state)) = true) :
    ∃ state, (System.ofStep Initial step).Reachable state ∧ Holds state := by
  obtain ⟨state, ran, holds⟩ := (Option.any_eq_true _ _).mp executed
  exact ⟨state, (Reachable.start initial).exec (fun _ _ _ taken => taken) labels ran,
    of_decide_eq_true holds⟩

theorem System.exists_guarded {Allowed : State → Label → Prop}
    [∀ state label, Decidable (Allowed state label)] (labels : List Label)
    (initial : Initial start) (executed : (exec (Machine.guarded Allowed step) start labels).any
      (fun state => decide (Holds state)) = true) :
    ∃ state, ((System.ofStep Initial step).restrict Allowed).Reachable state ∧ Holds state := by
  obtain ⟨state, ran, holds⟩ := (Option.any_eq_true _ _).mp executed
  exact ⟨state, Reachable.guarded (.start initial) labels ran, of_decide_eq_true holds⟩

end Examples

end Machine
