import LocalTrans.Mobile.CancelSteps

/-!
# The runs of the arbitration of a cancel

A run that meets the guard keeps the arbitration, and can go on until all tasks have ended
(`cancel_run`). Without the guard it does not: the path that ends a batch of downloads passes the
arbitration by (`batch_passes_by`).
-/

namespace LocalTrans.Ffi

open Foundation

namespace CancelDesk

variable {s : CancelDesk} {i : Nat} {task : CancelTask} {trace : List CancelEvent}

/-- How many locks a task still gets at most, with those of the watchdog it may hang. -/
def rank : CancelPoint → Nat
  | .deciding => 10
  | .checking => 9
  | .requesting => 8
  | .confirming => 7
  | .hanging => 6
  | .peeking _ | .sleeping => 5
  | .applying _ _ | .finding | .woken => 4
  | .taking _ => 3
  | .removing _ => 2
  | .forgetting | .clearing => 1
  | .ended => 0

/-- The locks all tasks still get. -/
def work (s : CancelDesk) : Nat := (s.tasks.map fun task => rank task.point).sum

theorem work_go_to (htask : s.tasks[i]? = some task) (point : CancelPoint) :
    (s.goTo i task point).work + rank task.point = s.work + rank point :=
  sum_map_set (fun found : CancelTask => rank found.point) htask { task with point := point }

theorem work_spawn (s : CancelDesk) (point : CancelPoint) :
    (s.spawn point).work = s.work + rank point := by
  unfold work CancelDesk.spawn
  rw [List.map_append, List.sum_append]
  rfl

theorem work_abort (s : CancelDesk) (i : Nat) : (s.abort i).work = s.work := by
  unfold CancelDesk.abort
  split
  · rfl
  · next task htask =>
    exact Nat.add_right_cancel (sum_map_set (fun found : CancelTask => rank found.point) htask
      { task with aborted := true })

/-- A task that has not ended gets its lock, unless it is an aborted sleeper, and there is less to
do afterwards. -/
theorem advance_work (htask : s.tasks[i]? = some task) (hpoint : task.point ≠ .ended)
    (hawake : ¬ (task.point = .sleeping ∧ task.aborted = true)) :
    ∃ next emitted, s.advance i task = some (next, emitted) ∧ next.work < s.work := by
  have hlower : ∀ point, rank point < rank task.point → (s.goTo i task point).work < s.work := by
    intro point hless
    have hmoved := work_go_to htask point
    omega
  cases heq : task.point with simp only [CancelDesk.advance, heq]
  | ended => exact absurd heq hpoint
  | peeking ev =>
    refine ⟨_, _, rfl, hlower _ ?_⟩
    rw [heq]
    show 4 < 5
    omega
  | applying ev was =>
    split
    · exact ⟨_, _, rfl, hlower .ended (by rw [heq]; show 0 < 4; omega)⟩
    · split
      · exact ⟨_, _, rfl, hlower (.taking .handler) (by rw [heq]; show 3 < 4; omega)⟩
      · exact ⟨_, _, rfl, hlower .ended (by rw [heq]; show 0 < 4; omega)⟩
  | deciding | checking =>
    split
    · exact ⟨_, _, rfl, hlower .ended (by rw [heq]; decide)⟩
    · split
      · exact ⟨_, _, rfl, hlower _ (by rw [heq]; decide)⟩
      · exact ⟨_, _, rfl, hlower _ (by rw [heq]; decide)⟩
  | finding =>
    split
    · exact ⟨_, _, rfl, hlower .ended (by rw [heq]; decide)⟩
    · exact ⟨_, _, rfl, hlower (.taking .destroy) (by rw [heq]; decide)⟩
  | requesting =>
    split
    · exact ⟨_, _, rfl, hlower .confirming (by rw [heq]; decide)⟩
    · exact ⟨_, _, rfl, hlower .confirming (by rw [heq]; decide)⟩
  | confirming =>
    split
    · exact ⟨_, _, rfl, hlower .hanging (by rw [heq]; decide)⟩
    · exact ⟨_, _, rfl, hlower .ended (by rw [heq]; decide)⟩
  | hanging =>
    split
    · exact ⟨_, _, rfl, hlower .ended (by rw [heq]; decide)⟩
    · obtain ⟨hlt, -⟩ := List.getElem?_eq_some_iff.mp htask
      have hspawned := work_spawn { s with watchdog := some s.tasks.length } .sleeping
      have hmoved := work_go_to (s := { s with watchdog := some s.tasks.length }.spawn .sleeping)
        (get_spawn.trans ((if_neg (Nat.ne_of_lt hlt)).trans htask)) .ended
      refine ⟨_, _, rfl, ?_⟩
      rw [heq, hspawned] at hmoved
      change _ + 6 = (s.work + 5) + 0 at hmoved
      omega
  | sleeping =>
    have halive : task.aborted = false := eq_false_of_ne_true fun htrue => hawake ⟨heq, htrue⟩
    simp only [halive]
    exact ⟨_, _, rfl, hlower .woken (by rw [heq]; decide)⟩
  | woken =>
    split
    · exact ⟨_, _, rfl, hlower (.taking .watchdog) (by rw [heq]; decide)⟩
    · exact ⟨_, _, rfl, hlower .forgetting (by rw [heq]; decide)⟩
  | forgetting =>
    exact ⟨_, _, rfl, hlower .ended (by rw [heq]; decide)⟩
  | taking who =>
    have hless := hlower (.removing who) (by rw [heq]; show 2 < 3; omega)
    split
    · exact ⟨_, _, rfl, hless⟩
    · refine ⟨_, _, rfl, ?_⟩
      rw [work_abort]
      exact hless
  | removing who =>
    have hended := hlower .ended (by rw [heq]; show 0 < 2; omega)
    have hclearing := hlower .clearing (by rw [heq]; show 1 < 2; omega)
    cases who with
    | handler | watchdog =>
      simp only [CancelDesk.advance, heq]
      split
      · exact ⟨_, _, rfl, hended⟩
      · exact ⟨_, _, rfl, hended⟩
    | destroy =>
      simp only [CancelDesk.advance, heq]
      split
      · exact ⟨_, _, rfl, hclearing⟩
      · exact ⟨_, _, rfl, hclearing⟩
  | clearing =>
    exact ⟨_, _, rfl, hlower .ended (by rw [heq]; decide)⟩

/-- Where nobody is in the way, the guard holds a task back only that brings an event to a row that
is being cancelled. -/
theorem orderly_of_unclaimed (htask : s.tasks[i]? = some task) (hfree : s.Unclaimed)
    (hstate : s.stateOf = some .cancelling → task.point.event = none) :
    Orderly trace s (.advance i) := by
  simp only [Orderly, htask]
  cases hpoint : task.point with
  | applying ev was =>
    intro hends
    have hnone := hstate hends.1
    rw [hpoint] at hnone
    cases hnone
  | deciding | finding => exact fun _ => hfree
  | removing who =>
    cases who with
    | watchdog => exact fun _ => hfree
    | handler | destroy => trivial
  | _ => trivial

/-- A task in `finalize_remove` can go on. -/
theorem finishes_moves (h : task.Finishes) :
    task.point ≠ .ended ∧ task.point.event = none ∧
      ¬ (task.point = .sleeping ∧ task.aborted = true) := by
  unfold CancelTask.Finishes at h
  cases hpoint : task.point with
  | taking who => simp [CancelPoint.event]
  | removing who => simp [CancelPoint.event]
  | _ =>
    rw [hpoint] at h
    cases h

/-- While some task has not ended, some task can go on within the guard, and there is less to do
afterwards. First comes a handler or a call in `finalize_remove`, then, while the row is being
cancelled, a task that removes it, and then any task. -/
theorem cancel_progress (h : CancelInv trace s) (hbusy : ¬ s.Quiet) :
    ∃ input next emitted, Orderly trace s input ∧ step s input = some (next, emitted) ∧
      next.work < s.work := by
  have hgo : ∀ (i : Nat) (task : CancelTask), s.tasks[i]? = some task → task.point ≠ .ended →
      ¬ (task.point = .sleeping ∧ task.aborted = true) → Orderly trace s (.advance i) →
      ∃ input next emitted, Orderly trace s input ∧ step s input = some (next, emitted) ∧
        next.work < s.work := by
    intro i task htask hpoint hawake horderly
    obtain ⟨next, emitted, hnext, hless⟩ := advance_work htask hpoint hawake
    exact ⟨.advance i, next, emitted, horderly, by simp only [step, htask, hnext], hless⟩
  by_cases hfree : s.Unclaimed
  · by_cases hstate : s.stateOf = some .cancelling
    · obtain ⟨i, task, htask, hremoves⟩ := h.due (.inl hstate)
      have hpoint : task.point ≠ .ended ∧ task.point.event = none ∧
          ¬ (task.point = .sleeping ∧ task.aborted = true) := by
        rcases hremoves with hfinishes | ⟨-, hfinishes | ⟨halive, heq | heq | heq | heq⟩⟩
        · exact finishes_moves hfinishes
        · exact finishes_moves hfinishes
        all_goals simp [heq, halive, CancelPoint.event]
      exact hgo i task htask hpoint.1 hpoint.2.2 (orderly_of_unclaimed htask hfree fun _ => hpoint.2.1)
    · obtain ⟨task, hmem, hpoint⟩ : ∃ task ∈ s.tasks, task.point ≠ .ended := by
        by_contra hnone
        exact hbusy fun task hmem => by_contra fun hended => hnone ⟨task, hmem, hended⟩
      obtain ⟨i, htask⟩ := List.mem_iff_getElem?.mp hmem
      by_cases hdropped : task.point = .sleeping ∧ task.aborted = true
      · refine ⟨.wait i, s.goTo i task .ended, [], ?_, ?_, ?_⟩
        · simp [Orderly, htask, hdropped.1]
        · simp only [step, htask, hdropped.2, if_true]
        · have hmoved := work_go_to htask .ended
          rw [hdropped.1] at hmoved
          change _ + 5 = s.work + 0 at hmoved
          omega
      · exact hgo i task htask hpoint hdropped
          (orderly_of_unclaimed htask hfree fun heq => absurd heq hstate)
  · obtain ⟨task, hmem, hreports⟩ : ∃ task ∈ s.tasks, task.point.reports = true := by
      by_contra hnone
      exact hfree fun task hmem => eq_false_of_ne_true fun htrue => hnone ⟨task, hmem, htrue⟩
    obtain ⟨i, htask⟩ := List.mem_iff_getElem?.mp hmem
    refine hgo i task htask ?_ ?_ ?_
    · intro heq
      rw [heq] at hreports
      cases hreports
    · rintro ⟨heq, -⟩
      rw [heq] at hreports
      cases hreports
    · simp only [Orderly, htask]
      cases hpoint : task.point with
      | taking who => trivial
      | removing who =>
        rw [hpoint] at hreports
        cases who with
        | watchdog => cases hreports
        | handler | destroy => trivial
      | _ =>
        rw [hpoint] at hreports
        cases hreports

/-- A run can always be continued until all tasks have ended. -/
theorem cancel_ends {row : Row} {inputs : List CancelInput} (h : CancelInv trace s)
    (hexec : Exec step Orderly (start row) inputs trace s) :
    ∃ more full last, Exec step Orderly (start row) (inputs ++ more) full last ∧ last.Quiet :=
  hexec.ends (fun h horderly hnext => h.step horderly hnext) cancel_progress h

/-- A run that keeps to the guard keeps the arbitration, and can go on until all tasks have
ended. -/
theorem cancel_run {row : Row} (hrow : row.state ≠ .cancelling) {inputs : List CancelInput}
    (h : Exec step Orderly (start row) inputs trace s) :
    Settled trace s ∧ ∃ more full last, Exec step Orderly (start row) (inputs ++ more) full last ∧
      last.Quiet ∧ Settled full last := by
  obtain ⟨more, full, last, hlast, hquiet⟩ := cancel_ends (.run hrow h) h
  exact ⟨(CancelInv.run hrow h).settled, more, full, last, hlast, hquiet,
    (CancelInv.run hrow hlast).settled⟩

theorem relieved_iff :
    (s.row = none ∨ ∃ entry ∈ s.tasks.zipIdx, entry.2 ≠ i ∧ s.Removes entry.1) ↔ s.Relieved i :=
  or_congr_right (exists_place_iff fun other j => j ≠ i ∧ s.Removes other)

instance (s : CancelDesk) (i : Nat) : Decidable (s.Relieved i) :=
  decidable_of_iff _ relieved_iff

instance (trace : List CancelEvent) (s : CancelDesk) :
    ∀ input, Decidable (Orderly trace s input) := by
  intro input
  unfold Orderly
  induction input using CancelInput.casesOn with
  | advance i =>
    dsimp only
    induction s.tasks[i]? using Option.casesOn with
    | none => infer_instance
    | some task =>
      dsimp only
      induction task.point using CancelPoint.casesOn with
      | removing who => induction who using Finalizer.casesOn <;> infer_instance
      | _ => infer_instance
  | wait i =>
    dsimp only
    induction s.tasks[i]? using Option.casesOn <;> infer_instance
  | _ => exact inferInstance

/-- A row of a batch of downloads that is under way. -/
def sampleBatch : Row :=
  { AppState.pendingRow "a" 1 "b" "pull" "receiver" with state := .active }

/-- A call that cancels the row. -/
def sampleCancel : List CancelInput :=
  [.cancel, .advance 0, .advance 0, .advance 0, .advance 0]

/-- The path that ends a batch of downloads writes `Finished` with `card_apply`, after the cancel
has returned: the watchdog finds a row that is not `cancelling`, and the row stays. -/
theorem batch_passes_by :
    ¬ ∀ (row : Row), row.state ≠ .cancelling → ∀ inputs trace s,
      Exec step Guard.free (start row) inputs trace s → Settled trace s := by
  intro hall
  obtain ⟨⟨last, trace⟩, hrun, hview⟩ := Option.map_eq_some_iff.mp
    (show (Machine.run step Guard.free [] (start sampleBatch)
      (sampleCancel ++ [.event .finished, .advance 1, .advance 1, .advance 1])).map
        (fun result => (result.1.tasks.map CancelTask.point, result.2)) =
      some ([.ended, .ended], [.cancelling, .ok]) by decide)
  obtain ⟨hpoints, htrace⟩ := Prod.mk.inj hview
  have hsettled := hall sampleBatch (by decide) _ trace last (Exec.start.append_run hrun)
  have hquiet : last.Quiet := by
    intro task htask
    have hmem := List.mem_map_of_mem (f := CancelTask.point) htask
    rw [show last.tasks.map CancelTask.point = [.ended, .ended] from hpoints] at hmem
    simpa using hmem
  have hremoved := ((hsettled.quiet hquiet).2 (by rw [show trace = _ from htrace]; simp)).1
  rw [show trace = [.cancelling, .ok] from htrace] at hremoved
  cases hremoved

/-- The engine does not answer, and the watchdog removes the row. -/
theorem cancel_run_sample : ∃ trace s,
    Exec step Orderly (start sampleBatch)
      (sampleCancel ++ [.advance 1, .advance 1, .advance 1, .advance 1]) trace s ∧
      Settled trace s := by
  obtain ⟨trace, last, hexec, -⟩ := exec_reaches step Orderly
    (start sampleBatch)
    (sampleCancel ++ [.advance 1, .advance 1, .advance 1, .advance 1])
    (fun s => (s.row, s.tasks.map CancelTask.point)) (none, [.ended, .ended]) (by decide)
  exact ⟨trace, last, hexec, (cancel_run (by decide) hexec).1⟩

end CancelDesk

end LocalTrans.Ffi
