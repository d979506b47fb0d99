import Mathlib.Algebra.Order.Ring.Nat

/-!
# Machines that answer every input

A `Reactor` answers each input with an output and its next state, and refuses none. `answers` and
`after` run it on a list of inputs. Two reactors whose single steps answer alike and keep a relation
of their states answer whole runs alike (`Lockstep.run`).
-/

namespace Foundation

variable {State Other Input Output : Type*}

/-- A machine that answers an input with an output and its next state. -/
abbrev Reactor (State Input Output : Type*) := State → Input → Output × State

/-- The answers to the inputs, in order. -/
def Reactor.answers (step : Reactor State Input Output) : State → List Input → List Output
  | _, [] => []
  | state, input :: rest => (step state input).1 :: answers step (step state input).2 rest

/-- The state after the inputs. -/
def Reactor.after (step : Reactor State Input Output) (state : State) (inputs : List Input) :
    State :=
  inputs.foldl (fun state input => (step state input).2) state

/-- Single steps from related states answer alike and lead to related states. -/
def Lockstep (step : Reactor State Input Output) (step' : Reactor Other Input Output)
    (related : State → Other → Prop) : Prop :=
  ∀ state other input, related state other →
    (step state input).1 = (step' other input).1 ∧
      related (step state input).2 (step' other input).2

variable {step : Reactor State Input Output} {step' : Reactor Other Input Output}
  {related : State → Other → Prop} {state : State} {other : Other}

/-- From related states, all inputs are answered alike and lead to related states. -/
theorem Lockstep.run (h : Lockstep step step' related) (hrelated : related state other)
    (inputs : List Input) :
    step.answers state inputs = step'.answers other inputs ∧
      related (step.after state inputs) (step'.after other inputs) := by
  induction inputs generalizing state other with
  | nil => exact ⟨rfl, hrelated⟩
  | cons input rest ih =>
    obtain ⟨hanswer, hnext⟩ := h state other input hrelated
    obtain ⟨hanswers, hafter⟩ := ih hnext
    exact ⟨by simp only [Reactor.answers, hanswer, hanswers], hafter⟩

end Foundation
