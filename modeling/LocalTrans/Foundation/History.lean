import Mathlib.Algebra.Order.Ring.Nat

/-!
# Events that stand

An event of a history stands while nothing after it cancels it. `Standing` says so, with what came
after the event; it goes on while no event cancels (`Standing.append`), begins with the event
(`standing_new`), and where every such event cancels the one before it, there is only one
(`Standing.unique`).
-/

namespace Foundation

variable {Event : Type*} {cancels : Event → Prop} {trace later more : List Event} {event : Event}

/-- An event of the history is not cancelled by those that came later. -/
def Standing (cancels : Event → Prop) (trace : List Event) (event : Event)
    (later : List Event) : Prop :=
  ∃ older, trace = older ++ event :: later ∧ ∀ after ∈ later, ¬ cancels after

theorem Standing.append (h : Standing cancels trace event later)
    (hmore : ∀ after ∈ more, ¬ cancels after) :
    Standing cancels (trace ++ more) event (later ++ more) := by
  obtain ⟨older, rfl, hlater⟩ := h
  refine ⟨older, by simp, fun after hmem => ?_⟩
  rcases List.mem_append.mp hmem with hold | hnew
  · exact hlater after hold
  · exact hmore after hnew

theorem standing_new (hmore : ∀ after ∈ more, ¬ cancels after) :
    Standing cancels (trace ++ event :: more) event more :=
  ⟨trace, rfl, hmore⟩

theorem Standing.mem (h : Standing cancels trace event later) : event ∈ trace := by
  obtain ⟨older, rfl, -⟩ := h
  simp

/-- An event of a longer history is new, or stands in the shorter one. -/
theorem Standing.of_append (h : Standing cancels (trace ++ more) event later) :
    event ∈ more ∨ ∃ before, Standing cancels trace event before ∧
      ∀ after ∈ more, ¬ cancels after := by
  obtain ⟨older, hsplit, hlater⟩ := h
  rcases List.append_eq_append_iff.mp hsplit with ⟨between, rfl, rfl⟩ | ⟨between, rfl, htail⟩
  · exact .inl (by simp)
  · cases between with
    | nil =>
      obtain rfl : event :: later = more := by simpa using htail
      exact .inl List.mem_cons_self
    | cons first rest =>
      obtain ⟨rfl, rfl⟩ : event = first ∧ later = rest ++ more := by simpa using htail
      exact .inr ⟨rest, ⟨older, rfl, fun after hmem => hlater after (List.mem_append_left _ hmem)⟩,
        fun after hmem => hlater after (List.mem_append_right _ hmem)⟩

/-- An event of a history that is longer by one event is the new one, or stood before it. -/
theorem Standing.of_snoc {last : Event} (h : Standing cancels (trace ++ [last]) event later) :
    event = last ∧ later = [] ∨ ∃ before, later = before ++ [last] ∧
      Standing cancels trace event before ∧ ¬ cancels last := by
  obtain ⟨older, hsplit, hlater⟩ := h
  rcases List.eq_nil_or_concat later with rfl | ⟨before, final, rfl⟩
  · obtain ⟨-, hlast⟩ := List.append_inj' hsplit rfl
    exact .inl ⟨(List.cons.inj hlast).1.symm, rfl⟩
  · rw [List.concat_eq_append] at hsplit hlater ⊢
    rw [← List.cons_append, ← List.append_assoc] at hsplit
    obtain ⟨rfl, hlast⟩ := List.append_inj' hsplit rfl
    obtain rfl := (List.cons.inj hlast).1
    exact .inr ⟨before, rfl, ⟨older, rfl, fun after hmem => hlater after (by simp [hmem])⟩,
      hlater last (by simp)⟩

/-- Where the events cancel each other, only the last one stands. -/
theorem Standing.unique {other : Event} {later' : List Event}
    (h : Standing cancels trace event later) (h' : Standing cancels trace other later')
    (hevent : cancels event) (hother : cancels other) : event = other ∧ later = later' := by
  obtain ⟨older, rfl, hlater⟩ := h
  obtain ⟨older', hsplit, hlater'⟩ := h'
  rcases List.append_eq_append_iff.mp hsplit with ⟨between, rfl, htail⟩ | ⟨between, rfl, htail⟩
  · cases between with
    | nil => exact List.cons.inj htail
    | cons first rest =>
      obtain ⟨rfl, rfl⟩ := List.cons.inj htail
      exact absurd hother (hlater other (by simp))
  · cases between with
    | nil =>
      obtain ⟨rfl, rfl⟩ := List.cons.inj htail
      exact ⟨rfl, rfl⟩
    | cons first rest =>
      obtain ⟨rfl, rfl⟩ := List.cons.inj htail
      exact absurd hevent (hlater' event (by simp))

end Foundation
