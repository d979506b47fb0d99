import Mathlib.Algebra.Order.Ring.Nat
import Mathlib.Data.List.Basic

/-!
# Guarded executions of a labelled machine

A machine answers an input in a state with the next state and the events it emits. `Exec`
collects the executions whose every step meets a guard on the history, the state before the
step and the input. `Exec.invariant` is the induction rule: a property of the history and the
state that holds at the start and is kept by every guarded step holds in every guarded
execution. `Exec.project` carries executions to a machine that sees only a part of the state,
and `exec_of_run` turns a computed run into an execution. `EachEvent` says something of every event
of a history and what came before it, `Throughout` also of what came after it.
-/

namespace Foundation

variable {State Input Event : Type*}

/-- A machine answers an input with the next state and the emitted events, or refuses it. -/
abbrev Machine (State Input Event : Type*) := State → Input → Option (State × List Event)

/-- Answers that are the same agree in both parts. -/
theorem answer_inj {α β : Type*} {a c : α} {b d : β} (h : some (a, b) = some (c, d)) :
    a = c ∧ b = d :=
  Prod.mk.inj (Option.some.inj h)

/-- A condition on one step: the events so far, the state before the step, and the input. -/
abbrev Guard (State Input Event : Type*) := List Event → State → Input → Prop

/-- The guard every step meets. -/
def Guard.free : Guard State Input Event := fun _ _ _ => True
deriving Decidable

/-- `Exec step guard first inputs trace state`: on `inputs` the machine goes from `first` to
`state` and emits `trace`, and every step on the way meets `guard`. -/
inductive Exec (step : Machine State Input Event) (guard : Guard State Input Event)
    (first : State) : List Input → List Event → State → Prop where
  | start : Exec step guard first [] [] first
  | step {inputs : List Input} {trace : List Event} {state next : State} {input : Input}
      {emitted : List Event} :
      Exec step guard first inputs trace state → guard trace state input →
      step state input = some (next, emitted) →
      Exec step guard first (inputs ++ [input]) (trace ++ emitted) next

variable {step : Machine State Input Event} {guard other : Guard State Input Event}
  {first state : State} {inputs : List Input} {trace : List Event}

section Guards

variable {α β : Type*} {c : Prop} [Decidable c] {x : Option α}

/-- A step that needs a condition was made under it. -/
theorem of_when {r : α} (h : (if c then x else none) = some r) : c ∧ x = some r :=
  Option.ite_none_right_eq_some.mp h

/-- A step that a condition forbids was made without it. -/
theorem of_unless {r : α} (h : (if c then none else x) = some r) : ¬ c ∧ x = some r :=
  Option.ite_none_left_eq_some.mp h

theorem when_answer {a a' : α} {b b' : β}
    (h : (if c then some (a, b) else none) = some (a', b')) : c ∧ a = a' ∧ b = b' :=
  (of_when h).imp_right answer_inj

theorem unless_answer {a a' : α} {b b' : β}
    (h : (if c then none else some (a, b)) = some (a', b')) : ¬ c ∧ a = a' ∧ b = b' :=
  (of_unless h).imp_right answer_inj

end Guards

/-- An answer without events keeps what holds of the history and the state after it. -/
theorem silent_answer {Inv : List Event → State → Prop} {after next : State} {emitted : List Event}
    (h : some (after, []) = some (next, emitted)) (hafter : Inv trace after) :
    Inv (trace ++ emitted) next := by
  obtain ⟨rfl, rfl⟩ := answer_inj h
  rw [List.append_nil]
  exact hafter

/-- A weaker guard admits at least the same executions. -/
theorem Exec.mono (hguard : ∀ trace state input, guard trace state input →
      other trace state input)
    (h : Exec step guard first inputs trace state) :
    Exec step other first inputs trace state := by
  induction h with
  | start => exact .start
  | step _ hmeets hstep ih => exact .step ih (hguard _ _ _ hmeets) hstep

/-- Forgetting the guard of an execution. -/
theorem Exec.toFree (h : Exec step guard first inputs trace state) :
    Exec step Guard.free first inputs trace state :=
  h.mono fun _ _ _ _ => trivial

/-- A property of history and state that holds at the start and is kept by every guarded step
holds in every guarded execution. -/
theorem Exec.invariant {Inv : List Event → State → Prop} (hstart : Inv [] first)
    (hstep : ∀ trace state input next emitted, Inv trace state → guard trace state input →
      step state input = some (next, emitted) → Inv (trace ++ emitted) next)
    (h : Exec step guard first inputs trace state) : Inv trace state := by
  induction h with
  | start => exact hstart
  | step _ hmeets hnext ih => exact hstep _ _ _ _ _ ih hmeets hnext

/-- An execution goes on until it is done, when every state that is not done has a step that leaves
less work. -/
theorem Exec.ends {Inv : List Event → State → Prop} {Done : State → Prop} {work : State → Nat}
    (hkeeps : ∀ {trace state input next emitted}, Inv trace state → guard trace state input →
      step state input = some (next, emitted) → Inv (trace ++ emitted) next)
    (hprogress : ∀ {trace state}, Inv trace state → ¬ Done state → ∃ input next emitted,
      guard trace state input ∧ step state input = some (next, emitted) ∧ work next < work state)
    (h : Exec step guard first inputs trace state) (hinv : Inv trace state) :
    ∃ more full last, Exec step guard first (inputs ++ more) full last ∧ Done last := by
  induction hwork : work state using Nat.strongRecOn generalizing inputs trace state with
  | _ bound ih =>
    by_cases hdone : Done state
    · exact ⟨[], trace, state, by rw [List.append_nil]; exact h, hdone⟩
    · obtain ⟨input, next, emitted, hmeets, hnext, hless⟩ := hprogress hinv hdone
      obtain ⟨more, full, last, hlast, hends⟩ :=
        ih (work next) (hwork ▸ hless) (h.step hmeets hnext) (hkeeps hinv hmeets hnext) rfl
      refine ⟨input :: more, full, last, ?_, hends⟩
      rw [List.append_assoc] at hlast
      exact hlast

/-- An execution whose steps betray every breach of the guard in a property of the history
is a guarded execution, as long as the property also holds of every shorter history. -/
theorem Exec.guarded {Safe : List Event → Prop}
    (hshorter : ∀ before after, Safe (before ++ after) → Safe before)
    (hreveals : ∀ inputs trace state input next emitted,
      Exec step Guard.free first inputs trace state →
      step state input = some (next, emitted) → Safe (trace ++ emitted) →
      guard trace state input)
    (h : Exec step Guard.free first inputs trace state) (hsafe : Safe trace) :
    Exec step guard first inputs trace state := by
  induction h with
  | start => exact .start
  | step hbefore _ hnext ih =>
    exact .step (ih (hshorter _ _ hsafe)) (hreveals _ _ _ _ _ _ hbefore hnext hsafe) hnext

section Histories

variable {P : List Event → Event → Prop} {before after : List Event}

/-- Every event of the history stands in the given relation to the history before it. -/
def EachEvent (P : List Event → Event → Prop) (trace : List Event) : Prop :=
  ∀ before event after, trace = before ++ event :: after → P before event

theorem each_event_nil : EachEvent P [] := by
  intro before event after hsplit
  simp at hsplit

theorem each_event_singleton {event : Event} : EachEvent P [event] ↔ P [] event := by
  refine ⟨fun h => h [] event [] rfl, fun h before found after hsplit => ?_⟩
  obtain ⟨rfl, rfl, -⟩ : before = [] ∧ found = event ∧ after = [] := by
    simpa [List.singleton_eq_append_iff] using hsplit
  exact h

/-- An event of two histories in a row is one of the second or one of the first. -/
theorem split_append {event : Event} {start rest : List Event}
    (h : before ++ after = start ++ event :: rest) :
    (∃ between, start = before ++ between ∧ after = between ++ event :: rest) ∨
      ∃ between, rest = between ++ after ∧ before = start ++ event :: between := by
  rcases List.append_eq_append_iff.mp h with ⟨between, hstart, htail⟩ | ⟨between, hbefore, htail⟩
  · exact .inl ⟨between, hstart, htail⟩
  · cases between with
    | nil => exact .inl ⟨[], by simpa using hbefore.symm, by simpa using htail.symm⟩
    | cons first others =>
      obtain ⟨rfl, hrest⟩ : event = first ∧ rest = others ++ after := by simpa using htail
      exact .inr ⟨others, hrest, hbefore⟩

/-- Two histories in a row: the second continues the first. -/
theorem each_event_append :
    EachEvent P (before ++ after) ↔
      EachEvent P before ∧ EachEvent (fun between => P (before ++ between)) after := by
  refine ⟨fun h => ⟨?_, ?_⟩, ?_⟩
  · intro start event rest hsplit
    exact h start event (rest ++ after) (by simp [hsplit])
  · intro between event rest hsplit
    exact h (before ++ between) event rest (by simp [hsplit])
  · rintro ⟨hbefore, hafter⟩ start event rest hsplit
    rcases split_append hsplit with ⟨between, rfl, htail⟩ | ⟨between, -, rfl⟩
    · exact hafter between event rest htail
    · exact hbefore start event between rfl

/-- Every event of the history stands in the given relation to what came before and after it. -/
def Throughout (P : List Event → Event → List Event → Prop) (trace : List Event) : Prop :=
  ∀ before event after, trace = before ++ event :: after → P before event after

variable {P' Q : List Event → Event → List Event → Prop}

theorem throughout_nil : Throughout P' [] := by
  intro before event after hsplit
  simp at hsplit

theorem throughout_cons {event : Event} {rest : List Event} :
    Throughout P' (event :: rest) ↔
      P' [] event rest ∧ Throughout (fun before => P' (event :: before)) rest := by
  refine ⟨fun h => ⟨h [] event rest rfl, ?_⟩, ?_⟩
  · intro before found after hsplit
    exact h (event :: before) found after (by simp [hsplit])
  · rintro ⟨hfirst, hrest⟩ before found after hsplit
    cases before with
    | nil =>
      obtain ⟨rfl, rfl⟩ : event = found ∧ rest = after := by simpa using hsplit
      exact hfirst
    | cons first others =>
      obtain ⟨rfl, hothers⟩ : event = first ∧ rest = others ++ found :: after := by
        simpa using hsplit
      exact hrest others found after hothers

/-- A history goes on: what held of its events still holds, and it holds of the new ones. -/
theorem Throughout.append (h : Throughout P' before)
    (hkept : ∀ start event rest, P' start event rest → Q start event (rest ++ after))
    (hnew : Throughout (fun between => Q (before ++ between)) after) :
    Throughout Q (before ++ after) := by
  intro start event rest hsplit
  rcases split_append hsplit with ⟨between, rfl, htail⟩ | ⟨between, rfl, hstart⟩
  · exact hnew between event rest htail
  · exact hkept start event between (h start event between hstart)

end Histories

section Projection

variable {Part PartInput PartEvent : Type*} {partStep : Machine Part PartInput PartEvent}
  {partGuard : Guard Part PartInput PartEvent} {part : State → Part}
  {seen : List Event → List PartEvent}

/-- Where every guarded step is, seen from a part of the state, a guarded step of that part or
no step at all, an execution projects to an execution of the part. -/
theorem Exec.project (hnil : seen [] = [])
    (happend : ∀ before after, seen (before ++ after) = seen before ++ seen after)
    (hstep : ∀ trace state input next emitted, guard trace state input →
      step state input = some (next, emitted) →
      (part next = part state ∧ seen emitted = []) ∨
        ∃ partInput, partGuard (seen trace) (part state) partInput ∧
          partStep (part state) partInput = some (part next, seen emitted))
    (h : Exec step guard first inputs trace state) :
    ∃ partInputs, Exec partStep partGuard (part first) partInputs (seen trace) (part state) := by
  induction h with
  | start => exact ⟨[], hnil ▸ .start⟩
  | step _ hmeets hnext ih =>
    obtain ⟨partInputs, hpart⟩ := ih
    rw [happend]
    rcases hstep _ _ _ _ _ hmeets hnext with ⟨hsame, hsilent⟩ | ⟨partInput, hok, hmove⟩
    · exact ⟨partInputs, by simpa [hsame, hsilent] using hpart⟩
    · exact ⟨_, .step hpart hok hmove⟩

end Projection

/-- Feed the inputs to the machine in order, checking the guard before every step. -/
def Machine.run (step : Machine State Input Event) (guard : Guard State Input Event)
    [∀ trace state input, Decidable (guard trace state input)] (trace : List Event)
    (state : State) : List Input → Option (State × List Event)
  | [] => some (state, trace)
  | input :: rest =>
    if guard trace state input then
      match step state input with
      | some (next, emitted) => Machine.run step guard (trace ++ emitted) next rest
      | none => none
    else none

variable [∀ trace state input, Decidable (guard trace state input)]

/-- Any execution can be continued by a run. -/
theorem Exec.append_run {later : List Input} {last : State} {full : List Event}
    (h : Exec step guard first inputs trace state)
    (hrun : Machine.run step guard trace state later = some (last, full)) :
    Exec step guard first (inputs ++ later) full last := by
  induction later generalizing inputs trace state with
  | nil =>
    obtain ⟨rfl, rfl⟩ : state = last ∧ trace = full := by simpa [Machine.run] using hrun
    simpa using h
  | cons input rest ih =>
    unfold Machine.run at hrun
    split at hrun
    · next hmeets =>
      split at hrun
      · next next emitted hnext =>
        simpa using ih (.step h hmeets hnext) hrun
      · cases hrun
    · cases hrun

/-- The events of a computed run, none if it is refused. -/
def Machine.history (step : Machine State Input Event) (guard : Guard State Input Event)
    [∀ trace state input, Decidable (guard trace state input)] (first : State)
    (inputs : List Input) : List Event :=
  ((Machine.run step guard [] first inputs).map Prod.snd).getD []

/-- The events of a computed run are the trace of an execution. -/
theorem exec_of_run (step : Machine State Input Event) (guard : Guard State Input Event)
    [∀ trace state input, Decidable (guard trace state input)] (first : State)
    (inputs : List Input) (h : (Machine.run step guard [] first inputs).isSome = true) :
    ∃ last, Exec step guard first inputs (Machine.history step guard first inputs) last := by
  obtain ⟨⟨last, events⟩, hrun⟩ := Option.isSome_iff_exists.mp h
  have hexec := Exec.start.append_run hrun
  exact ⟨last, by simpa [Machine.history, hrun] using hexec⟩

/-- What is seen of the last state of a computed run is seen at the end of an execution. -/
theorem exec_reaches (step : Machine State Input Event) (guard : Guard State Input Event)
    [∀ trace state input, Decidable (guard trace state input)] (first : State)
    (inputs : List Input) {View : Type*} (view : State → View) (seen : View)
    (h : (Machine.run step guard [] first inputs).map (fun result => view result.1) = some seen) :
    ∃ trace last, Exec step guard first inputs trace last ∧ view last = seen := by
  obtain ⟨⟨last, events⟩, hrun, hview⟩ := Option.map_eq_some_iff.mp h
  exact ⟨events, last, Exec.start.append_run hrun, hview⟩

/-- A loop that repeats one input: where every step of it ends the loop or lowers a measure, the
loop ends. -/
theorem exec_until {step : Machine State Input Event} {input : Input} {Done : State → Prop}
    (measure : State → Nat) (Inv : State → Prop)
    (hstep : ∀ state, Inv state → ∃ next emitted, step state input = some (next, emitted) ∧
      (Done next ∨ Inv next ∧ measure next < measure state))
    {first : State} (hfirst : Inv first) :
    ∃ count trace last, Exec step Guard.free first (List.replicate count input) trace last ∧
      Done last := by
  have hfrom : ∀ bound count trace state,
      Exec step Guard.free first (List.replicate count input) trace state → Inv state →
      measure state ≤ bound → ∃ count trace last,
        Exec step Guard.free first (List.replicate count input) trace last ∧ Done last := by
    intro bound
    induction bound with
    | zero =>
      intro count trace state hexec hinv hle
      obtain ⟨next, emitted, hnext, hdone | ⟨-, hlt⟩⟩ := hstep state hinv
      · exact ⟨count + 1, _, next, by
          simpa [List.replicate_succ'] using hexec.step trivial hnext, hdone⟩
      · omega
    | succ bound ih =>
      intro count trace state hexec hinv hle
      obtain ⟨next, emitted, hnext, hresult⟩ := hstep state hinv
      have hlonger : Exec step Guard.free first (List.replicate (count + 1) input)
          (trace ++ emitted) next := by
        simpa [List.replicate_succ'] using hexec.step trivial hnext
      rcases hresult with hdone | ⟨hinv, hlt⟩
      · exact ⟨count + 1, _, next, hlonger, hdone⟩
      · exact ih _ _ _ hlonger hinv (by omega)
  exact hfrom (measure first) 0 [] first .start hfirst (Nat.le_refl _)

end Foundation
