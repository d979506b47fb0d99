import LocalTrans.Foundation.Execution
import LocalTrans.Mobile.Rows

/-!
# The arbitration of a cancel in the mobile app

`cancel_transfer_arbitrate` makes a row `cancelling`, passes the request to the engine and hangs a
watchdog of five seconds. A terminal event of the engine (`apply_card_event`) or the watchdog then
removes the row with `finalize_remove`, which takes the handle of the watchdog and aborts it, and
tells the app so; a row that has ended, and any row of the list of jobs on disk, is destroyed
without the arbitration. `CancelDesk` is one row with its handle and all tasks about it, and a step
of a task goes from one lock to the next. A task that was aborted goes on until it has to wait for a
lock and is dropped then. The paths of the app that write an event with `card_apply` alone, or take
a placeholder off the table, pass the arbitration by. `Orderly` says of a run that none of this gets
in the way, and `Settled` what the arbitration is for.
-/

namespace LocalTrans.Ffi

open Foundation

/-- The row is being cancelled or has ended. -/
def Ending (state : CardState) : Prop := state = .cancelling ∨ state.Terminal
deriving Decidable

namespace Row

variable {row after : Row} {ev : CardEvent}

/-- A row that has ended refuses every event. -/
theorem apply_of_terminal (h : row.state.Terminal) : row.apply ev = none := by
  unfold apply
  rcases h with h | h | h
  · rw [h]
  · rw [h]
  · rw [h]

/-- A row that is being cancelled stays as it is or ends. -/
theorem apply_of_cancelling (h : row.state = .cancelling) (hafter : row.apply ev = some after) :
    after = row ∨ (ev ≠ .cancelRequested ∧ after.state.Terminal) := by
  unfold apply at hafter
  rw [h] at hafter
  cases ev with
  | cancelConfirmed => exact .inl (Option.some.inj hafter).symm
  | failed _ | interrupted | finished =>
    obtain rfl := Option.some.inj hafter
    exact .inr ⟨by simp, by simp [CardState.Terminal, recordFail]⟩
  | _ => cases hafter

/-- Only a request makes a row `cancelling`. -/
theorem apply_cancelling (h : row.state ≠ .cancelling) (hafter : row.apply ev = some after)
    (hcancelling : after.state = .cancelling) : ev = .cancelRequested := by
  unfold apply at hafter
  split at hafter
  case h_4 | h_10 | h_15 => rfl
  case h_5 _ _ hstate =>
      obtain rfl := Option.some.inj hafter
      rw [hstate] at hcancelling
      cases hcancelling
  case h_16 | h_17 | h_18 | h_19 =>
      exact absurd ‹row.state = .cancelling› h
  case h_20 => cases hafter
  all_goals
    obtain rfl := Option.some.inj hafter
    cases hcancelling

/-- A request that is taken makes a row `cancelling` that was under way. -/
theorem apply_request (hafter : row.apply .cancelRequested = some after) :
    ¬ Ending row.state ∧ after.state = .cancelling := by
  unfold apply at hafter
  cases hstate : row.state with
  | pending | active | paused =>
    rw [hstate] at hafter
    obtain rfl := Option.some.inj hafter
    exact ⟨by decide, rfl⟩
  | cancelling | done | failed | interrupted =>
    rw [hstate] at hafter
    cases hafter

end Row

/-- Who goes through `finalize_remove`. -/
inductive Finalizer where
  | handler
  | destroy
  | watchdog
deriving DecidableEq

/-- What a task does when it gets the lock it waits for. -/
inductive CancelPoint where
  -- `apply_card_event`
  | peeking (ev : CardEvent)
  | applying (ev : CardEvent) (wasCancelling : Bool)
  -- `remove_transfer_level_inner` at the level `destroy`, and `destroy_disk_job_inner`
  | deciding
  | finding
  -- `cancel_transfer_arbitrate`
  | checking
  | requesting
  | confirming
  | hanging
  -- the watchdog
  | sleeping
  | woken
  | forgetting
  -- `finalize_remove`
  | taking (who : Finalizer)
  | removing (who : Finalizer)
  -- `remove_parts_dirs`
  | clearing
  | ended
deriving DecidableEq

/-- A task and whether it was aborted. -/
structure CancelTask where
  point : CancelPoint
  aborted : Bool
deriving DecidableEq

/-- The row, the handle of its watchdog and the tasks. A handle names its task by its place in the
list. -/
structure CancelDesk where
  row : Option Row
  watchdog : Option Nat
  tasks : List CancelTask

/-- What happens: an event is written with `card_apply`, the handler of a push takes its placeholder
off the table with `card_remove`, an event comes to `apply_card_event`, the user cancels or destroys
the row, and a task gets its lock or has to wait for it. -/
inductive CancelInput where
  | event (ev : CardEvent)
  | discard
  | handle (ev : CardEvent)
  | cancel
  | destroy
  | destroyDisk
  | advance (task : Nat)
  | wait (task : Nat)
deriving DecidableEq

/-- What is seen of a run: the row becomes `cancelling`, a cancel returns `Ok`, the row leaves the
table, and the app is told that it was removed. -/
inductive CancelEvent where
  | cancelling
  | ok
  | removed
  | reported
deriving DecidableEq

namespace CancelPoint

/-- In `finalize_remove`, with a report afterwards whether the row was there or not. -/
def reports : CancelPoint → Bool
  | .taking who | .removing who => who ≠ .watchdog
  | _ => false

/-- A watchdog that has not taken its handle. -/
def watching : CancelPoint → Bool
  | .sleeping | .woken | .forgetting | .taking .watchdog => true
  | _ => false

/-- A watchdog that has something to do. -/
def hung : CancelPoint → Bool
  | .sleeping | .woken | .forgetting | .taking .watchdog | .removing .watchdog => true
  | _ => false

/-- The task has seen the row `cancelling`. -/
def saw : CancelPoint → Bool
  | .applying _ was => was
  | .hanging | .sleeping | .woken | .forgetting | .taking .watchdog | .removing .watchdog => true
  | _ => false

/-- The event a handler has in hand. -/
def event : CancelPoint → Option CardEvent
  | .peeking ev | .applying ev _ => some ev
  | _ => none

theorem watching_cases {point : CancelPoint} (h : point.watching = true) :
    point = .sleeping ∨ point = .woken ∨ point = .forgetting ∨ point = .taking .watchdog := by
  unfold watching at h
  split at h
  · exact .inl rfl
  · exact .inr (.inl rfl)
  · exact .inr (.inr (.inl rfl))
  · exact .inr (.inr (.inr rfl))
  · cases h

/-- A watchdog in front of its handle has something to do. -/
theorem hung_of_watching {point : CancelPoint} (h : point.watching = true) : point.hung = true := by
  rcases watching_cases h with rfl | rfl | rfl | rfl
  · rfl
  · rfl
  · rfl
  · rfl

end CancelPoint

/-- The task removes the row: it is in `finalize_remove`, and past the handle or not aborted. -/
def CancelTask.Finishes (task : CancelTask) : Prop :=
  match task.point with
  | .removing _ => True
  | .taking _ => task.aborted = false
  | _ => False

/-- The task removes a row that is `cancelling`: it is about to hang a watchdog, a watchdog that
nobody aborted, or in `finalize_remove`. -/
def CancelTask.WillRemove (task : CancelTask) : Prop :=
  task.Finishes ∨ (task.aborted = false ∧
    (task.point = .confirming ∨ task.point = .hanging ∨ task.point = .sleeping ∨
      task.point = .woken))

instance (task : CancelTask) : Decidable task.Finishes := by
  unfold CancelTask.Finishes
  split
  · exact inferInstance
  · exact inferInstance
  · exact inferInstance

instance (task : CancelTask) : Decidable task.WillRemove :=
  inferInstanceAs (Decidable (_ ∨ (_ ∧ _)))

namespace CancelDesk

/-- The state of the row. -/
def stateOf (s : CancelDesk) : Option CardState := s.row.map Row.state

/-- A new task. -/
def spawn (s : CancelDesk) (point : CancelPoint) : CancelDesk :=
  { s with tasks := s.tasks ++ [{ point := point, aborted := false }] }

/-- A task goes on to another lock. -/
def goTo (s : CancelDesk) (i : Nat) (task : CancelTask) (point : CancelPoint) : CancelDesk :=
  { s with tasks := s.tasks.set i { task with point := point } }

/-- `JoinHandle::abort`. -/
def abort (s : CancelDesk) (i : Nat) : CancelDesk :=
  match s.tasks[i]? with
  | none => s
  | some task => { s with tasks := s.tasks.set i { task with aborted := true } }

/-- The row after an event, if it takes it. -/
def applied (s : CancelDesk) (ev : CardEvent) : Option Row := s.row.bind (Row.apply · ev)

/-- One task, from the lock it waits for to the next. -/
def advance (s : CancelDesk) (i : Nat) (task : CancelTask) :
    Option (CancelDesk × List CancelEvent) :=
  match task.point with
  | .peeking ev => some (s.goTo i task (.applying ev (s.stateOf = some .cancelling)), [])
  | .applying ev was =>
    match s.applied ev with
    | none => some (s.goTo i task .ended, [])
    | some after =>
      if was = true ∧ after.state.Terminal then
        some ({ s with row := some after }.goTo i task (.taking .handler), [])
      else some ({ s with row := some after }.goTo i task .ended, [])
  | .deciding =>
    match s.stateOf with
    | none => some (s.goTo i task .ended, [])
    | some state =>
      if state.Terminal then some (s.goTo i task (.taking .destroy), [])
      else some (s.goTo i task .checking, [])
  | .finding =>
    match s.row with
    | none => some (s.goTo i task .ended, [])
    | some _ => some (s.goTo i task (.taking .destroy), [])
  | .checking =>
    match s.stateOf with
    | none => some (s.goTo i task .ended, [])
    | some state =>
      if state.Terminal then some (s.goTo i task .ended, [])
      else some (s.goTo i task .requesting, [])
  | .requesting =>
    match s.applied .cancelRequested with
    | none => some (s.goTo i task .confirming, [])
    | some after =>
      some ({ s with row := some after }.goTo i task .confirming, [.cancelling])
  | .confirming =>
    -- the engine is told to stop before the lock of the handles is asked for
    if s.stateOf = some .cancelling then some (s.goTo i task .hanging, [])
    else some (s.goTo i task .ended, [])
  | .hanging =>
    match s.watchdog with
    | some _ => some (s.goTo i task .ended, [.ok])
    | none =>
      some (({ s with watchdog := some s.tasks.length }.spawn .sleeping).goTo i task .ended,
        [.ok])
  | .sleeping => if task.aborted then none else some (s.goTo i task .woken, [])
  | .woken =>
    if s.stateOf = some .cancelling then some (s.goTo i task (.taking .watchdog), [])
    else some (s.goTo i task .forgetting, [])
  | .forgetting => some ({ s with watchdog := none }.goTo i task .ended, [])
  | .taking who =>
    match s.watchdog with
    | none => some (s.goTo i task (.removing who), [])
    | some handle =>
      some (({ s with watchdog := none }.goTo i task (.removing who)).abort handle, [])
  | .removing .handler =>
    match s.row with
    | none => some (s.goTo i task .ended, [.reported])
    | some _ => some ({ s with row := none }.goTo i task .ended, [.removed, .reported])
  | .removing .watchdog =>
    match s.row with
    | none => some (s.goTo i task .ended, [])
    | some _ => some ({ s with row := none }.goTo i task .ended, [.removed, .reported])
  | .removing .destroy =>
    match s.row with
    | none => some (s.goTo i task .clearing, [])
    | some _ => some ({ s with row := none }.goTo i task .clearing, [.removed])
  | .clearing => some (s.goTo i task .ended, [.reported, .ok])
  | .ended => none

/-- One step. -/
def step : Machine CancelDesk CancelInput CancelEvent
  | s, .event ev =>
    if ev = .cancelRequested then none
    else match s.applied ev with
      | none => some (s, [])
      | some after => some ({ s with row := some after }, [])
  | s, .discard =>
    match s.row with
    | none => some (s, [])
    | some _ => some ({ s with row := none }, [.removed])
  | s, .handle ev => if ev = .cancelRequested then none else some (s.spawn (.peeking ev), [])
  | s, .cancel => some (s.spawn .checking, [])
  | s, .destroy => some (s.spawn .deciding, [])
  | s, .destroyDisk => some (s.spawn .finding, [])
  | s, .advance i =>
    match s.tasks[i]? with
    | none => none
    | some task => s.advance i task
  | s, .wait i =>
    match s.tasks[i]? with
    | none => none
    | some task => if task.aborted then some (s.goTo i task .ended, []) else some (s, [])

/-- A row that nobody has cancelled yet. -/
def start (row : Row) : CancelDesk where
  row := some row
  watchdog := none
  tasks := []

/-- The task removes the row, as the row is now. -/
def Removes (s : CancelDesk) (task : CancelTask) : Prop :=
  task.Finishes ∨ (s.stateOf = some .cancelling ∧ task.WillRemove)
deriving Decidable

/-- A cancel has returned `Ok`, or cannot fail any more. -/
def Committed (trace : List CancelEvent) (s : CancelDesk) : Prop :=
  .ok ∈ trace ∨ ∃ task ∈ s.tasks, task.point = .hanging
deriving Decidable

/-- The event ends a row that is being cancelled. -/
def Ends (s : CancelDesk) (ev : CardEvent) : Prop :=
  s.stateOf = some .cancelling ∧ ∃ after ∈ s.applied ev, after.state.Terminal
deriving Decidable

/-- Somebody sees to it that the row is removed although it is not `cancelling` any more, or no
cancel relies on it. -/
def SeenTo (trace : List CancelEvent) (s : CancelDesk) : Prop :=
  Committed trace s → ∃ task ∈ s.tasks, task.Finishes
deriving Decidable

/-- No handler and no call that destroys the row is in `finalize_remove`. -/
def Unclaimed (s : CancelDesk) : Prop := ∀ task ∈ s.tasks, task.point.reports = false
deriving Decidable

/-- The row is gone, or a task other than the given one removes it. -/
def Relieved (s : CancelDesk) (i : Nat) : Prop :=
  s.row = none ∨ ∃ (j : Nat) (other : CancelTask), s.tasks[j]? = some other ∧ j ≠ i ∧
    s.Removes other

/-- What a run keeps to. A row that is being cancelled is ended by a handler that saw so, unless
somebody else sees to it. It is not taken off the table with a cancel relying on it, unless somebody
is to report that. A handler or a call that destroys the row goes into `finalize_remove`,
and the watchdog removes the row, when no handler and no such call is in there. And the watchdog
that aborted itself does not have to wait for the table, unless it is relieved. -/
def Orderly : Guard CancelDesk CancelInput CancelEvent
  | trace, s, .event ev => s.Ends ev → SeenTo trace s
  | trace, s, .discard => s.row ≠ none → Committed trace s → ¬ s.Unclaimed
  | trace, s, .advance i =>
    match s.tasks[i]? with
    | none => True
    | some task =>
      match task.point with
      | .applying ev was =>
        s.Ends ev → if was = true then s.Unclaimed else SeenTo trace s
      | .deciding => (∃ state ∈ s.stateOf, state.Terminal) → s.Unclaimed
      | .finding | .removing .watchdog => s.row ≠ none → s.Unclaimed
      | _ => True
  | _, s, .wait i =>
    match s.tasks[i]? with
    | none => True
    | some task =>
      task.aborted = true → task.point = .removing .watchdog → s.Relieved i
  | _, _, _ => True

/-- All tasks have ended. -/
def Quiet (s : CancelDesk) : Prop := ∀ task ∈ s.tasks, task.point = .ended

/-- The arbitration holds: a row in `cancelling` has a task that will remove it, the row is removed
at most once and the app hears of it at most as often; and once all tasks have ended, the row is not
in `cancelling`, and if a cancel has returned `Ok` it was removed and the app has heard of it. -/
structure Settled (trace : List CancelEvent) (s : CancelDesk) : Prop where
  covered : s.stateOf = some .cancelling → ∃ task ∈ s.tasks, task.WillRemove
  once : trace.count .reported ≤ trace.count .removed ∧ trace.count .removed ≤ 1
  quiet : s.Quiet → s.stateOf ≠ some .cancelling ∧
    (.ok ∈ trace → trace.count .removed = 1 ∧ trace.count .reported = 1)

end CancelDesk

end LocalTrans.Ffi
