import Yaeos.Machine.Outcome

/-!
# Machines and their runs

A machine has initial states and labelled steps.  An invariant is proved once
for the initial states and once for a step; `Machine.Reachable.invariant`
carries it to every state of every run.  `Machine.guard` keeps only the steps
that satisfy a condition on the action and the state before it.
-/

namespace Yaeos

universe u v w

/-- A labelled transition system. -/
structure Machine (State : Type u) (Action : Type v) where
  initial : State → Prop
  step : State → Action → State → Prop

namespace Machine

variable {State : Type u} {Action : Type v}

/-- The states some run of the machine passes through. -/
inductive Reachable (machine : Machine State Action) : State → Prop where
  | initial {state} : machine.initial state → Reachable machine state
  | step {state action next} :
      Reachable machine state → machine.step state action next → Reachable machine next

theorem Reachable.invariant {machine : Machine State Action} {Invariant : State → Prop}
    (base : ∀ state, machine.initial state → Invariant state)
    (preserved : ∀ state action next,
      Invariant state → machine.step state action next → Invariant next)
    {state : State} (reached : machine.Reachable state) : Invariant state := by
  induction reached with
  | initial start => exact base _ start
  | step _ stepped inductionHypothesis => exact preserved _ _ _ inductionHypothesis stepped

/-- A run of the machine with the labels of its steps, in order. -/
inductive Trace (machine : Machine State Action) (start : State) : List Action → State → Prop where
  | nil : Trace machine start [] start
  | snoc {actions state action next} : Trace machine start actions state →
      machine.step state action next → Trace machine start (actions ++ [action]) next

theorem Reachable.trace {machine : Machine State Action} {start final : State}
    {actions : List Action} (reached : machine.Reachable start)
    (trace : machine.Trace start actions final) : machine.Reachable final := by
  induction trace with
  | nil => exact reached
  | snoc _ stepped inductionHypothesis => exact .step inductionHypothesis stepped

theorem Trace.cons {machine : Machine State Action} {start middle final : State} {action : Action}
    {actions : List Action} (stepped : machine.step start action middle)
    (trace : machine.Trace middle actions final) :
    machine.Trace start (action :: actions) final := by
  induction trace with
  | nil => exact .snoc .nil stepped
  | snoc _ last inductionHypothesis => exact .snoc inductionHypothesis last

/-- An invariant that the steps with certain labels preserve holds at the end of a run with
these labels. -/
theorem Trace.invariant {machine : Machine State Action} {Invariant : State → Prop}
    {Allowed : Action → Prop}
    (preserved : ∀ state action next,
      Allowed action → Invariant state → machine.step state action next → Invariant next)
    {start final : State} {actions : List Action} (trace : machine.Trace start actions final)
    (allowed : ∀ action ∈ actions, Allowed action) (base : Invariant start) :
    Invariant final := by
  induction trace with
  | nil => exact base
  | snoc _ stepped inductionHypothesis =>
      obtain ⟨before, last⟩ := List.forall_mem_append.mp allowed
      exact preserved _ _ _ (last _ (List.mem_singleton_self _)) (inductionHypothesis before) stepped

/-- Forward simulation: when every step from a state with the invariant is a step
of the other machine between the images, the image of a run is a run with the
same labels. -/
theorem Trace.simulate {Spec : Type w} {machine : Machine State Action}
    {abstract : Machine Spec Action} (image : State → Spec) (Invariant : State → Prop)
    (matched : ∀ state action next, Invariant state → machine.step state action next →
      abstract.step (image state) action (image next) ∧ Invariant next)
    {start final : State} {actions : List Action} (trace : machine.Trace start actions final)
    (base : Invariant start) :
    abstract.Trace (image start) actions (image final) ∧ Invariant final := by
  induction trace with
  | nil => exact ⟨.nil, base⟩
  | snoc _ stepped inductionHypothesis =>
      obtain ⟨imageTrace, holds⟩ := inductionHypothesis
      obtain ⟨imageStep, nextHolds⟩ := matched _ _ _ holds stepped
      exact ⟨.snoc imageTrace imageStep, nextHolds⟩

/-- The machine restricted to the steps that `allowed` permits. -/
def guard (machine : Machine State Action) (allowed : State → Action → Prop) :
    Machine State Action where
  initial := machine.initial
  step state action next := allowed state action ∧ machine.step state action next

/-- The machine whose steps are the calls that return. -/
def ofOutcome (initial : State → Prop) (call : State → Action → Outcome State) :
    Machine State Action where
  initial := initial
  step state action next := call state action = .ok next

/-- An allowed call that returns is a step. -/
theorem guard_step {initial : State → Prop} {call : State → Action → Outcome State}
    {allowed : State → Action → Prop} (state : State) (action : Action) (next : State)
    (permitted : allowed state action) (returned : call state action = .ok next) :
    ((ofOutcome initial call).guard allowed).step state action next := ⟨permitted, returned⟩

/-- Perform the calls of a list one after another, as long as `allowed` permits
them and they return. -/
def execute (allowed : State → Action → Prop) [∀ state action, Decidable (allowed state action)]
    (call : State → Action → Outcome State) : List Action → State → Option State
  | [], state => some state
  | action :: rest, state =>
      if allowed state action then
        match call state action with
        | .ok next => execute allowed call rest next
        | .error _ => none
      else none

/-- A list of allowed calls is a run of every machine that has these calls as steps. -/
theorem Trace.execute {machine : Machine State Action} {allowed : State → Action → Prop}
    [∀ state action, Decidable (allowed state action)] {call : State → Action → Outcome State}
    (enabled : ∀ state action next, allowed state action → call state action = .ok next →
      machine.step state action next)
    {actions : List Action} {state final : State}
    (executed : Machine.execute allowed call actions state = some final) :
    machine.Trace state actions final := by
  induction actions generalizing state with
  | nil =>
      simp only [Machine.execute, Option.some.injEq] at executed
      exact executed ▸ .nil
  | cons action rest inductionHypothesis =>
      simp only [Machine.execute] at executed
      split at executed
      · next permitted =>
          split at executed
          · next next called =>
              exact .cons (enabled _ _ _ permitted called) (inductionHypothesis executed)
          · cases executed
      · cases executed

/-- What a list of allowed calls leads to is reachable. -/
theorem Reachable.execute {machine : Machine State Action} {allowed : State → Action → Prop}
    [∀ state action, Decidable (allowed state action)] {call : State → Action → Outcome State}
    (enabled : ∀ state action next, allowed state action → call state action = .ok next →
      machine.step state action next)
    {actions : List Action} {state final : State} (reached : machine.Reachable state)
    (executed : Machine.execute allowed call actions state = some final) :
    machine.Reachable final := reached.trace (.execute enabled executed)

/-- What a sequence of calls returns is reachable. -/
theorem Reachable.foldlM {machine : Machine State Action} {call : State → Action → Outcome State}
    (enabled : ∀ state action next, call state action = .ok next → machine.step state action next)
    {actions : List Action} {state final : State} (reached : machine.Reachable state)
    (returned : actions.foldlM call state = .ok final) : machine.Reachable final := by
  induction actions generalizing state with
  | nil =>
      cases returned
      exact reached
  | cons action rest inductionHypothesis =>
      rw [List.foldlM_cons] at returned
      obtain ⟨next, called, returned⟩ := Outcome.bind_eq_ok.mp returned
      exact inductionHypothesis (reached.step (enabled _ _ _ called)) returned

end Machine

end Yaeos
