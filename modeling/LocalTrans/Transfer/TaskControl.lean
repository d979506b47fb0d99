import LocalTrans.Transfer.Completion

/-!
# Controlling a pull

`start_pull_parts` takes up commands between the batches it fetches: it empties the queue of its
commands, and when it takes up a `Pause` it waits for one more command. `PullTask.step` is that loop
together with `control_task`, which any part of the program calls at any moment. `controls_obeyed`
says when a `Pause` holds the task and a `Cancel` ends it.
-/

namespace LocalTrans

open Foundation

/-- `TaskControl`. -/
inductive TaskControl where
  | pause
  | resume
  | cancel
deriving DecidableEq, Repr

/-- Where `start_pull_parts` is after it has registered its control: at the commands before a batch,
waiting in a `Pause`, in a batch, after the last one, or it has returned. -/
inductive PullPhase where
  | draining
  | paused
  | fetching (batch : List Nat)
  | finishing
  | ended (result : Except EngineError Unit)
deriving DecidableEq

/-- A pull: the missing chunks of which no batch has been begun, its queue of commands, whether
`task_controls` has its end of that queue, and the part writer. -/
structure PullTask where
  left : List Nat
  queue : List TaskControl
  registered : Bool
  phase : PullPhase
  disk : Disk
  writer : PartWriter

/-- What `remove_dir_all` leaves of the job directory, and the save when the writer is dropped. -/
structure RemoveOutcome where
  partGone : Bool
  manifestGone : Bool
  dropped : SaveOutcome
deriving DecidableEq

/-- The job directory is removed whole. -/
def RemoveOutcome.Whole (outcome : RemoveOutcome) : Prop :=
  outcome.partGone = true ∧ outcome.manifestGone = true
deriving Decidable

/-- What can happen: a command is sent, with the queue that `task_controls` has or had, another task
takes the entry of this one in `task_controls`, the loop goes one step, a batch ends, or the file is
finished. -/
inductive PullInput where
  | control (ctl : TaskControl) (held : Bool)
  | displaced
  | next (size : Nat) (outcome : RemoveOutcome)
  | received (arrivals : List Arrival) (dropped : SaveOutcome)
  | finish (outcome : PartWriter.FinalizeOutcome)

/-- A command is put into the queue or turned away, a command is taken up, or a batch is begun. -/
inductive PullEvent where
  | delivered (ctl : TaskControl)
  | refused (ctl : TaskControl)
  | taken (ctl : TaskControl)
  | batch (chunks : List Nat)
deriving DecidableEq

/-- The capacity of the queue. -/
def controlCapacity : Nat := 8

namespace PullTask

variable (hash : List UInt8 → String)

/-- The head of the loop over the missing chunks. -/
def loopHead (left : List Nat) : PullPhase :=
  if left = [] then .finishing else .draining

/-- The task when the control has just been registered. -/
def start (disk : Disk) (writer : PartWriter) : PullTask :=
  { left := writer.manifest.missingChunks, queue := [], registered := true,
    phase := loopHead writer.manifest.missingChunks, disk, writer }

/-- `start_pull_parts` has not returned, so that its end of the queue is open. -/
def Alive (task : PullTask) : Prop :=
  ∀ result, task.phase ≠ .ended result

instance (task : PullTask) : Decidable task.Alive :=
  match h : task.phase with
  | .ended result => isFalse fun halive => halive result h
  | .draining | .paused | .fetching _ | .finishing =>
    isTrue fun result hended => by rw [h] at hended; cases hended

/-- `control_task` has the queue of the task, and there is room in it. -/
def Accepts (task : PullTask) (held : Bool) : Prop :=
  (task.registered = true ∨ held = true) ∧ task.Alive ∧ task.queue.length < controlCapacity
deriving Decidable

/-- The task is cancelled: the job directory is removed, the entry of its control is, and the writer
is dropped. -/
def cancelled (task : PullTask) (queue : List TaskControl) (outcome : RemoveOutcome) : PullTask :=
  { task with
    queue
    registered := false
    phase := .ended (.error .cancelled)
    disk := task.writer.drop (task.disk.removeDir task.writer.dir outcome.partGone outcome.manifestGone)
      outcome.dropped }

/-- The next batch is begun; it has at least one chunk. -/
def beginBatch (task : PullTask) (size : Nat) : PullTask :=
  { task with
    left := task.left.drop (max 1 size)
    phase := .fetching (task.left.take (max 1 size)) }

/-- One step of the loop over the commands. In a `Pause`, any command but a `Cancel` goes on. -/
def advance (task : PullTask) (size : Nat) (outcome : RemoveOutcome) :
    Option (PullTask × List PullEvent) :=
  match task.phase, task.queue with
  | .draining, .pause :: queue => some ({ task with queue, phase := .paused }, [.taken .pause])
  | .draining, .resume :: queue => some ({ task with queue, phase := .draining }, [.taken .resume])
  | .draining, .cancel :: queue => some (task.cancelled queue outcome, [.taken .cancel])
  | .draining, [] => some (task.beginBatch size, [.batch (task.left.take (max 1 size))])
  | .paused, .pause :: queue => some ({ task with queue, phase := .draining }, [.taken .pause])
  | .paused, .resume :: queue => some ({ task with queue, phase := .draining }, [.taken .resume])
  | .paused, .cancel :: queue => some (task.cancelled queue outcome, [.taken .cancel])
  | .paused, [] => if task.registered then none else some (task.cancelled [] outcome, [])
  | _, _ => none

/-- One step of the task, or of what goes on around it. -/
def step : Machine PullTask PullInput PullEvent
  | task, .control ctl held =>
    if task.Accepts held then some ({ task with queue := task.queue ++ [ctl] }, [.delivered ctl])
    else some (task, [.refused ctl])
  | task, .displaced => some ({ task with registered := false }, [])
  | task, .next size outcome => task.advance size outcome
  | task, .received arrivals dropped =>
    match task.phase with
    | .fetching batch =>
      match runReceiver hash batch batch.length task.disk task.writer arrivals with
      | (disk, writer, .error error) =>
        some ({ task with
          disk := writer.drop disk dropped, writer, phase := .ended (.error error) }, [])
      | (disk, writer, .ok _) =>
        some ({ task with disk, writer, phase := loopHead task.left }, [])
    | _ => none
  | task, .finish outcome =>
    match task.phase with
    | .finishing =>
      let (disk, result) := task.writer.finalize task.disk outcome
      some ({ task with
        registered := false, disk, phase := .ended (result.map fun _ => ()) }, [])
    | _ => none

/-- The commands that were put into the queue. -/
def deliveredControls (trace : List PullEvent) : List TaskControl :=
  trace.filterMap fun event => match event with
    | .delivered ctl => some ctl
    | _ => none

/-- The commands that were taken up. -/
def takenControls (trace : List PullEvent) : List TaskControl :=
  trace.filterMap fun event => match event with
    | .taken ctl => some ctl
    | _ => none

/-- The chunks of the batches that were begun. -/
def begunChunks (trace : List PullEvent) : List Nat :=
  trace.flatMap fun event => match event with
    | .batch chunks => chunks
    | _ => []

@[simp] theorem delivered_append (before after : List PullEvent) :
    deliveredControls (before ++ after) = deliveredControls before ++ deliveredControls after :=
  List.filterMap_append

@[simp] theorem taken_append (before after : List PullEvent) :
    takenControls (before ++ after) = takenControls before ++ takenControls after :=
  List.filterMap_append

@[simp] theorem begun_append (before after : List PullEvent) :
    begunChunks (before ++ after) = begunChunks before ++ begunChunks after :=
  List.flatMap_append

/-- Each `Pause` that has been taken up has a `Resume` that was delivered after it. -/
def PausesLifted (trace : List PullEvent) : Prop :=
  ∀ earlier later, deliveredControls trace = earlier ++ .pause :: later →
    earlier.length < (takenControls trace).length → .resume ∈ later

/-- No batch is begun while a `Pause` holds. -/
def PauseLaw (trace : List PullEvent) : Prop :=
  EachEvent (fun before event => ∀ chunks, event = .batch chunks → PausesLifted before) trace

/-- The job directory of a writer is gone. -/
def Removed (task : PullTask) (dir : Nat) : Prop :=
  task.disk.dirs dir = { manifest := .absent, part := none }

/-- A `Cancel` was delivered while chunks were left for another batch. -/
def CancelledEarly (missing : List Nat) (trace later : List PullEvent) : Prop :=
  ∃ before, trace = before ++ .delivered .cancel :: later ∧ begunChunks before ≠ missing

/-- After a `Cancel` that was delivered before the last batch no batch is begun, and the task ends as
cancelled, without its job directory. -/
def CancelLaw (missing : List Nat) (dir : Nat) (trace : List PullEvent) (task : PullTask) : Prop :=
  ∀ later, CancelledEarly missing trace later →
    (∀ chunks, .batch chunks ∉ later) ∧
      ∀ result, task.phase = .ended result → result = .error .cancelled ∧ task.Removed dir

section Steps

variable {hash} {task next : PullTask} {trace emitted : List PullEvent} {size : Nat}
  {outcome : RemoveOutcome}

/-- What one step of the loop over the commands does. -/
theorem advance_cases (h : task.advance size outcome = some (next, emitted)) :
    (∃ queue, task.phase = .draining ∧ task.queue = .pause :: queue ∧
      next = { task with queue, phase := .paused } ∧ emitted = [.taken .pause]) ∨
    (∃ queue, task.phase = .paused ∧ task.queue = .pause :: queue ∧
      next = { task with queue, phase := .draining } ∧ emitted = [.taken .pause]) ∨
    (∃ queue, (task.phase = .draining ∨ task.phase = .paused) ∧ task.queue = .resume :: queue ∧
      next = { task with queue, phase := .draining } ∧ emitted = [.taken .resume]) ∨
    (∃ queue, (task.phase = .draining ∨ task.phase = .paused) ∧ task.queue = .cancel :: queue ∧
      next = task.cancelled queue outcome ∧ emitted = [.taken .cancel]) ∨
    (task.phase = .paused ∧ task.queue = [] ∧ next = task.cancelled [] outcome ∧ emitted = []) ∨
    (task.phase = .draining ∧ task.queue = [] ∧ next = task.beginBatch size ∧
      emitted = [.batch (task.left.take (max 1 size))]) := by
  unfold advance at h
  split at h
  · next queue hphase hqueue =>
    cases h
    exact .inl ⟨queue, hphase, hqueue, rfl, rfl⟩
  · next queue hphase hqueue =>
    cases h
    exact .inr (.inr (.inl ⟨queue, .inl hphase, hqueue, rfl, rfl⟩))
  · next queue hphase hqueue =>
    cases h
    exact .inr (.inr (.inr (.inl ⟨queue, .inl hphase, hqueue, rfl, rfl⟩)))
  · next hphase hqueue =>
    cases h
    exact .inr (.inr (.inr (.inr (.inr ⟨hphase, hqueue, rfl, rfl⟩))))
  · next queue hphase hqueue =>
    cases h
    exact .inr (.inl ⟨queue, hphase, hqueue, rfl, rfl⟩)
  · next queue hphase hqueue =>
    cases h
    exact .inr (.inr (.inl ⟨queue, .inr hphase, hqueue, rfl, rfl⟩))
  · next queue hphase hqueue =>
    cases h
    exact .inr (.inr (.inr (.inl ⟨queue, .inr hphase, hqueue, rfl, rfl⟩)))
  · next hphase hqueue =>
    split at h
    · cases h
    · cases h
      exact .inr (.inr (.inr (.inr (.inl ⟨hphase, hqueue, rfl, rfl⟩))))
  · cases h

/-- The writer of a task that goes on keeps its directory. -/
theorem received_dir {batch : List Nat} {arrivals rest : List Arrival} {disk after : Disk}
    {writer marked : PartWriter}
    (h : runReceiver hash batch batch.length disk writer arrivals = (after, marked, .ok rest)) :
    marked.dir = writer.dir := by
  refine run_receiver_keeps (P := fun _ current => current.dir = writer.dir) ?_ rfl h
  intro i _ disk current data outcome next marked hdir hwrite
  obtain ⟨-, rfl, -⟩ := write_chunk_ok hwrite
  exact hdir

end Steps

/-- What holds in every run: the commands are taken up in the order they were delivered in, the
chunks are those of the begun batches and those that are left, and the loop has some left until it
is over. -/
structure Queued (missing : List Nat) (dir : Nat) (trace : List PullEvent) (task : PullTask) :
    Prop where
  order : task.Alive → deliveredControls trace = takenControls trace ++ task.queue
  chunks : missing = begunChunks trace ++ task.left
  waiting : task.phase = .draining ∨ task.phase = .paused → task.left ≠ []
  complete : task.phase = .finishing → task.left = []
  dir : task.Alive → task.writer.dir = dir

section Order

variable {hash} {task next : PullTask} {input : PullInput} {trace emitted : List PullEvent}
  {missing : List Nat} {dir : Nat}

theorem loop_head_waiting {left : List Nat} (h : loopHead left = .draining ∨ loopHead left = .paused) :
    left ≠ [] := by
  rintro rfl
  rcases h with h | h
  · cases h
  · cases h

theorem loop_head_finishing {left : List Nat} (h : loopHead left = .finishing) : left = [] := by
  unfold loopHead at h
  split at h
  · assumption
  · cases h

/-- A task that has returned does not go on. -/
theorem not_alive_ended {result : Except EngineError Unit} (h : task.phase = .ended result) :
    ¬ task.Alive :=
  fun halive => halive result h

theorem alive_of_phase {phase : PullPhase} (h : task.phase = phase)
    (hphase : ∀ result, phase ≠ .ended result) : task.Alive := by
  intro result hended
  exact hphase result (h.symm.trans hended)

/-- Of a task that has returned only the chunks are known. -/
theorem queued_ended {result : Except EngineError Unit} (hphase : task.phase = .ended result)
    (hchunks : missing = begunChunks trace ++ task.left) : Queued missing dir trace task where
  order halive := absurd halive (not_alive_ended hphase)
  chunks := hchunks
  waiting hwaits := by
    rw [hphase] at hwaits
    rcases hwaits with hwaits | hwaits
    · cases hwaits
    · cases hwaits
  complete hfinishing := by
    rw [hphase] at hfinishing
    cases hfinishing
  dir halive := absurd halive (not_alive_ended hphase)

/-- A command is taken up. -/
theorem Queued.take (h : Queued missing dir trace task) (halive : task.Alive) {ctl : TaskControl}
    {queue : List TaskControl} (hqueue : task.queue = ctl :: queue) :
    deliveredControls (trace ++ [.taken ctl]) =
      takenControls (trace ++ [.taken ctl]) ++ queue := by
  rw [delivered_append, taken_append, h.order halive, hqueue]
  show takenControls trace ++ ctl :: queue ++ [] = takenControls trace ++ [ctl] ++ queue
  rw [List.append_nil, List.append_assoc]
  rfl

/-- Every step keeps it. -/
theorem Queued.step (h : Queued missing dir trace task)
    (hnext : PullTask.step hash task input = some (next, emitted)) :
    Queued missing dir (trace ++ emitted) next := by
  cases input with simp only [PullTask.step] at hnext
  | control ctl held =>
    split at hnext
    · cases hnext
      refine ⟨fun halive => ?_, ?_, h.waiting, h.complete, h.dir⟩
      · rw [delivered_append, taken_append, h.order halive, List.append_assoc]
        show _ = takenControls trace ++ [] ++ (task.queue ++ [ctl])
        rw [List.append_nil]
        rfl
      · rw [begun_append]
        exact h.chunks.trans (by rw [show begunChunks [.delivered ctl] = [] from rfl, List.append_nil])
    · cases hnext
      refine ⟨fun halive => ?_, ?_, h.waiting, h.complete, h.dir⟩
      · rw [delivered_append, taken_append, h.order halive]
        show takenControls trace ++ task.queue ++ [] = takenControls trace ++ [] ++ task.queue
        rw [List.append_nil, List.append_nil]
      · rw [begun_append]
        exact h.chunks.trans (by rw [show begunChunks [.refused ctl] = [] from rfl, List.append_nil])
  | displaced =>
    cases hnext
    rw [List.append_nil]
    exact { h with }
  | next size outcome =>
    have hbegun (ctl : TaskControl) : begunChunks (trace ++ [.taken ctl]) = begunChunks trace := by
      rw [begun_append]
      exact List.append_nil _
    rcases advance_cases hnext with ⟨queue, hphase, hqueue, rfl, rfl⟩ | ⟨queue, hphase, hqueue, rfl, rfl⟩ |
      ⟨queue, hphase, hqueue, rfl, rfl⟩ | ⟨queue, hphase, hqueue, rfl, rfl⟩ |
      ⟨hphase, hqueue, rfl, rfl⟩ | ⟨hphase, hqueue, rfl, rfl⟩
    · have halive : task.Alive := alive_of_phase hphase (by simp)
      exact ⟨fun _ => h.take halive hqueue, by rw [hbegun]; exact h.chunks,
        fun _ => h.waiting (.inl hphase), by simp,
        fun _ => h.dir halive⟩
    · have halive : task.Alive := alive_of_phase hphase (by simp)
      exact ⟨fun _ => h.take halive hqueue, by rw [hbegun]; exact h.chunks,
        fun _ => h.waiting (.inr hphase), by simp,
        fun _ => h.dir halive⟩
    · have halive : task.Alive := by
        rcases hphase with hphase | hphase
        · exact alive_of_phase hphase (by simp)
        · exact alive_of_phase hphase (by simp)
      exact ⟨fun _ => h.take halive hqueue, by rw [hbegun]; exact h.chunks,
        fun _ => h.waiting hphase, by simp, fun _ => h.dir halive⟩
    · refine queued_ended rfl ?_
      rw [hbegun]
      exact h.chunks
    · rw [List.append_nil]
      exact queued_ended rfl h.chunks
    · have halive : task.Alive := alive_of_phase hphase (by simp)
      refine ⟨fun _ => ?_, ?_, fun hwaits => ?_, by simp [beginBatch],
        fun _ => h.dir halive⟩
      · rw [delivered_append, taken_append, h.order halive]
        show takenControls trace ++ task.queue ++ [] = takenControls trace ++ [] ++ task.queue
        rw [List.append_nil, List.append_nil]
      · rw [begun_append, h.chunks, List.append_assoc]
        show _ = begunChunks trace ++ (task.left.take (max 1 size) ++ [] ++ task.left.drop (max 1 size))
        rw [List.append_nil, List.take_append_drop]
      · rcases hwaits with hwaits | hwaits
        · cases hwaits
        · cases hwaits
  | received arrivals dropped =>
    split at hnext
    · next batch hphase =>
      have halive : task.Alive := alive_of_phase hphase (by simp)
      split at hnext
      · cases hnext
        rw [List.append_nil]
        exact queued_ended rfl h.chunks
      · next hreceive =>
        cases hnext
        rw [List.append_nil]
        exact ⟨fun _ => h.order halive, h.chunks, fun hphase => loop_head_waiting hphase,
          fun hphase => loop_head_finishing hphase, fun _ => (received_dir hreceive).trans (h.dir halive)⟩
    · cases hnext
  | finish outcome =>
    split at hnext
    · cases hnext
      rw [List.append_nil]
      exact queued_ended rfl h.chunks
    · cases hnext

end Order

/-- The batch under way arrives whole. -/
def BatchArrives (task : PullTask) (arrivals : List Arrival) : Prop :=
  match task.phase with
  | .fetching batch =>
    (runReceiver hash batch batch.length task.disk task.writer arrivals).2.2.isOk = true
  | _ => True

instance (task : PullTask) (arrivals : List Arrival) : Decidable (BatchArrives hash task arrivals) := by
  unfold BatchArrives
  split
  · exact inferInstance
  · exact inferInstance

/-- A task that waits in a `Pause` does not take up another one; and once a `Cancel` is in the queue
before the last batch, the batch under way arrives and the job directory can be removed. -/
def steadyGuard : Guard PullTask PullInput PullEvent := fun _ task input =>
  match input with
  | .next _ outcome =>
    (task.phase = .paused → task.queue.head? ≠ some .pause) ∧
      (.cancel ∈ task.queue → outcome.Whole)
  | .received arrivals _ => .cancel ∈ task.queue → task.left ≠ [] → BatchArrives hash task arrivals
  | _ => True

instance (trace : List PullEvent) (task : PullTask) (input : PullInput) :
    Decidable (steadyGuard hash trace task input) := by
  unfold steadyGuard
  split
  · exact inferInstance
  · exact inferInstance
  · exact inferInstance

section Pauses

variable {hash} {task next : PullTask} {input : PullInput} {trace emitted : List PullEvent}
  {missing : List Nat} {dir : Nat}

/-- In a list of commands, each `Pause` has a `Resume` after it. -/
def Lifted (controls : List TaskControl) : Prop :=
  ∀ earlier later, controls = earlier ++ .pause :: later → .resume ∈ later

theorem lifted_nil : Lifted [] := by
  intro earlier later hsplit
  cases earlier with
  | nil => cases hsplit
  | cons ctl earlier => cases hsplit

/-- A `Resume` at the end lifts every `Pause`. -/
theorem lifted_resume {controls : List TaskControl} : Lifted (controls ++ [.resume]) := by
  intro earlier later hsplit
  rcases List.eq_nil_or_concat later with rfl | ⟨rest, last, rfl⟩
  · have hlast := congrArg List.getLast? hsplit
    simp at hlast
  · rw [List.concat_eq_append, ← List.cons_append, ← List.append_assoc] at hsplit
    obtain ⟨-, hlast⟩ := List.append_inj' hsplit rfl
    cases hlast
    rw [List.concat_eq_append]
    exact List.mem_append_right _ (List.mem_singleton_self _)

/-- Where every command has been taken up, lifted is lifted. -/
theorem pauses_lifted (h : deliveredControls trace = takenControls trace)
    (hlifted : Lifted (takenControls trace)) : PausesLifted trace := by
  intro earlier later hsplit _
  exact hlifted earlier later (h ▸ hsplit)

/-- What holds of a task that never takes up a second `Pause`. -/
structure Holding (trace : List PullEvent) (task : PullTask) : Prop where
  law : PauseLaw trace
  lifted : task.Alive → task.phase ≠ .paused → Lifted (takenControls trace)

/-- A step that begins no batch and takes up no command. -/
theorem Holding.keep (h : Holding trace task) (hbatch : ∀ chunks, .batch chunks ∉ emitted)
    (htaken : takenControls emitted = [])
    (halive : next.Alive → next.phase ≠ .paused → task.Alive ∧ task.phase ≠ .paused) :
    Holding (trace ++ emitted) next where
  law := by
    refine each_event_append.mpr ⟨h.law, ?_⟩
    rintro between event later rfl chunks rfl
    exact absurd (List.mem_append_right _ List.mem_cons_self) (hbatch chunks)
  lifted hnext hphase := by
    rw [taken_append, htaken, List.append_nil]
    exact h.lifted (halive hnext hphase).1 (halive hnext hphase).2

/-- A command is taken up. -/
theorem Holding.take {ctl : TaskControl} (h : Holding trace task)
    (hlifted : next.Alive → next.phase ≠ .paused → Lifted (takenControls trace ++ [ctl])) :
    Holding (trace ++ [.taken ctl]) next where
  law := by
    refine each_event_append.mpr ⟨h.law, each_event_singleton.mpr ?_⟩
    intro chunks hbatch
    cases hbatch
  lifted hnext hphase := by
    rw [taken_append]
    exact hlifted hnext hphase

/-- A step of a task that takes up no second `Pause`. -/
theorem Holding.step (h : Holding trace task) (hqueued : Queued missing dir trace task)
    (hguard : steadyGuard hash trace task input)
    (hnext : PullTask.step hash task input = some (next, emitted)) :
    Holding (trace ++ emitted) next := by
  cases input with simp only [PullTask.step] at hnext
  | control ctl held =>
    split at hnext
    · cases hnext
      exact h.keep (by simp) rfl fun halive hphase => ⟨halive, hphase⟩
    · cases hnext
      exact h.keep (by simp) rfl fun halive hphase => ⟨halive, hphase⟩
  | displaced =>
    cases hnext
    exact h.keep (by simp) rfl fun halive hphase => ⟨halive, hphase⟩
  | next size outcome =>
    rcases advance_cases hnext with ⟨queue, hphase, hqueue, rfl, rfl⟩ | ⟨queue, hphase, hqueue, rfl, rfl⟩ |
      ⟨queue, hphase, hqueue, rfl, rfl⟩ | ⟨queue, hphase, hqueue, rfl, rfl⟩ |
      ⟨hphase, hqueue, rfl, rfl⟩ | ⟨hphase, hqueue, rfl, rfl⟩
    · exact h.take fun _ hpaused => absurd rfl hpaused
    · -- this is the step the guard excludes
      have hsecond := hguard.1 hphase
      rw [hqueue] at hsecond
      exact absurd rfl hsecond
    · exact h.take fun _ _ => lifted_resume
    · exact h.take fun halive _ => absurd halive (not_alive_ended rfl)
    · exact h.keep (by simp) rfl fun halive _ => absurd halive (not_alive_ended rfl)
    · have halive : task.Alive := alive_of_phase hphase (by simp)
      have hlifted := h.lifted halive (by rw [hphase]; simp)
      have horder := hqueued.order halive
      rw [hqueue, List.append_nil] at horder
      refine ⟨each_event_append.mpr ⟨h.law, each_event_singleton.mpr ?_⟩, fun _ _ => ?_⟩
      · intro chunks _
        rw [List.append_nil]
        exact pauses_lifted horder hlifted
      · rw [taken_append]
        exact (List.append_nil (takenControls trace)).symm ▸ hlifted
  | received arrivals dropped =>
    split at hnext
    · next batch hphase =>
      have halive : task.Alive := alive_of_phase hphase (by simp)
      split at hnext
      · cases hnext
        exact h.keep (by simp) rfl fun halive _ => absurd halive (not_alive_ended rfl)
      · cases hnext
        exact h.keep (by simp) rfl fun _ _ => ⟨halive, by rw [hphase]; simp⟩
    · cases hnext
  | finish outcome =>
    split at hnext
    · cases hnext
      exact h.keep (by simp) rfl fun halive _ => absurd halive (not_alive_ended rfl)
    · cases hnext

end Pauses

section Cancels

variable {hash} {task next : PullTask} {input : PullInput} {trace emitted : List PullEvent}
  {missing : List Nat} {dir : Nat}

/-- The task has a `Cancel` to take up before its next batch, or it has ended by one. -/
structure Cancelling (dir : Nat) (task : PullTask) : Prop where
  pending : task.Alive → .cancel ∈ task.queue ∧ task.left ≠ []
  ended : ∀ result, task.phase = .ended result → result = .error .cancelled ∧ task.Removed dir

/-- A task that has been cancelled, with its job directory removed whole. -/
theorem cancelled_removed {queue : List TaskControl} {outcome : RemoveOutcome}
    (hwhole : outcome.Whole) : (task.cancelled queue outcome).Removed task.writer.dir := by
  obtain ⟨hpart, hmanifest⟩ := hwhole
  unfold Removed cancelled PartWriter.drop
  rw [hpart, hmanifest]
  have hgone : (task.disk.removeDir task.writer.dir true true).dirs task.writer.dir =
      { manifest := .absent, part := none } := by
    unfold Disk.removeDir
    exact Function.update_self _ _ _
  dsimp only
  rw [hgone]
  exact hgone

theorem cancelled_cancelling {queue : List TaskControl} {outcome : RemoveOutcome}
    (hwhole : outcome.Whole) (hdir : task.writer.dir = dir) :
    Cancelling dir (task.cancelled queue outcome) where
  pending halive := absurd halive (not_alive_ended rfl)
  ended result hended := by
    cases hended
    exact ⟨rfl, hdir ▸ cancelled_removed hwhole⟩

/-- A step of such a task begins no batch, and it stays one. -/
theorem Cancelling.step (h : Cancelling dir task) (hqueued : Queued missing dir trace task)
    (hguard : steadyGuard hash trace task input)
    (hnext : PullTask.step hash task input = some (next, emitted)) :
    Cancelling dir next ∧ ∀ chunks, .batch chunks ∉ emitted := by
  cases input with simp only [PullTask.step] at hnext
  | control ctl held =>
    split at hnext
    · cases hnext
      refine ⟨⟨fun halive => ?_, h.ended⟩, by simp⟩
      obtain ⟨hcancel, hleft⟩ := h.pending halive
      exact ⟨List.mem_append_left _ hcancel, hleft⟩
    · cases hnext
      exact ⟨h, by simp⟩
  | displaced =>
    cases hnext
    exact ⟨⟨h.pending, h.ended⟩, by simp⟩
  | next size outcome =>
    rcases advance_cases hnext with ⟨queue, hphase, hqueue, rfl, rfl⟩ | ⟨queue, hphase, hqueue, rfl, rfl⟩ |
      ⟨queue, hphase, hqueue, rfl, rfl⟩ | ⟨queue, hphase, hqueue, rfl, rfl⟩ |
      ⟨hphase, hqueue, rfl, rfl⟩ | ⟨hphase, hqueue, rfl, rfl⟩
    · obtain ⟨hcancel, hleft⟩ := h.pending (alive_of_phase hphase (by simp))
      rw [hqueue] at hcancel
      refine ⟨⟨fun _ => ⟨?_, hleft⟩, fun result hended => by cases hended⟩, by simp⟩
      simpa using hcancel
    · obtain ⟨hcancel, hleft⟩ := h.pending (alive_of_phase hphase (by simp))
      rw [hqueue] at hcancel
      refine ⟨⟨fun _ => ⟨?_, hleft⟩, fun result hended => by cases hended⟩, by simp⟩
      simpa using hcancel
    · have halive : task.Alive := by
        rcases hphase with hphase | hphase
        · exact alive_of_phase hphase (by simp)
        · exact alive_of_phase hphase (by simp)
      obtain ⟨hcancel, hleft⟩ := h.pending halive
      rw [hqueue] at hcancel
      refine ⟨⟨fun _ => ⟨?_, hleft⟩, fun result hended => by cases hended⟩, by simp⟩
      simpa using hcancel
    · have halive : task.Alive := by
        rcases hphase with hphase | hphase
        · exact alive_of_phase hphase (by simp)
        · exact alive_of_phase hphase (by simp)
      have hwhole : outcome.Whole := hguard.2 (h.pending halive).1
      exact ⟨cancelled_cancelling hwhole (hqueued.dir halive), by simp⟩
    · -- a task that loses its queue while it waits has no command left to take up
      obtain ⟨hcancel, -⟩ := h.pending (alive_of_phase hphase (by simp))
      rw [hqueue] at hcancel
      cases hcancel
    · obtain ⟨hcancel, -⟩ := h.pending (alive_of_phase hphase (by simp))
      rw [hqueue] at hcancel
      cases hcancel
  | received arrivals dropped =>
    split at hnext
    · next batch hphase =>
      obtain ⟨hcancel, hleft⟩ := h.pending (alive_of_phase hphase (by simp))
      have harrives := hguard hcancel hleft
      unfold BatchArrives at harrives
      rw [hphase] at harrives
      dsimp only at harrives
      split at hnext
      · next hfailed =>
        rw [hfailed] at harrives
        cases harrives
      · cases hnext
        refine ⟨⟨fun _ => ⟨hcancel, hleft⟩, fun result hended => ?_⟩, by simp⟩
        have hhead : loopHead task.left = .ended result := hended
        unfold loopHead at hhead
        rw [if_neg hleft] at hhead
        cases hhead
    · cases hnext
  | finish outcome =>
    split at hnext
    · next hphase =>
      obtain ⟨-, hleft⟩ := h.pending (alive_of_phase hphase (by simp))
      exact absurd (hqueued.complete hphase) hleft
    · cases hnext

/-- A command is delivered by the step that puts it into the queue. -/
theorem delivered_emitted {ctl : TaskControl}
    (hnext : PullTask.step hash task input = some (next, emitted)) (hmem : .delivered ctl ∈ emitted) :
    task.Alive ∧ next = { task with queue := task.queue ++ [ctl] } ∧ emitted = [.delivered ctl] := by
  cases input with simp only [PullTask.step] at hnext
  | control other held =>
    split at hnext
    · next haccepts =>
      cases hnext
      cases List.mem_singleton.mp hmem
      exact ⟨haccepts.2.1, rfl, rfl⟩
    · cases hnext
      cases List.mem_singleton.mp hmem
  | displaced =>
    cases hnext
    cases hmem
  | next size outcome =>
    rcases advance_cases hnext with ⟨queue, -, -, -, rfl⟩ | ⟨queue, -, -, -, rfl⟩ |
      ⟨queue, -, -, -, rfl⟩ | ⟨queue, -, -, -, rfl⟩ | ⟨-, -, -, rfl⟩ | ⟨-, -, -, rfl⟩
    · cases List.mem_singleton.mp hmem
    · cases List.mem_singleton.mp hmem
    · cases List.mem_singleton.mp hmem
    · cases List.mem_singleton.mp hmem
    · cases hmem
    · cases List.mem_singleton.mp hmem
  | received arrivals dropped =>
    split at hnext
    · split at hnext
      · cases hnext
        cases hmem
      · cases hnext
        cases hmem
    · cases hnext
  | finish outcome =>
    split at hnext
    · cases hnext
      cases hmem
    · cases hnext

/-- What holds after every `Cancel` that was delivered before the last batch. -/
def CancelsHeard (missing : List Nat) (dir : Nat) (trace : List PullEvent) (task : PullTask) : Prop :=
  ∀ later, CancelledEarly missing trace later →
    (∀ chunks, .batch chunks ∉ later) ∧ Cancelling dir task

theorem CancelsHeard.step (h : CancelsHeard missing dir trace task)
    (hqueued : Queued missing dir trace task) (hguard : steadyGuard hash trace task input)
    (hnext : PullTask.step hash task input = some (next, emitted)) :
    CancelsHeard missing dir (trace ++ emitted) next := by
  rintro later ⟨before, hsplit, hearly⟩
  rcases split_append hsplit with ⟨between, rfl, hemitted⟩ | ⟨rest, rfl, hbefore⟩
  · -- the `Cancel` is delivered by this step
    obtain ⟨halive, rfl, hone⟩ := delivered_emitted hnext
      (hemitted ▸ List.mem_append_right _ List.mem_cons_self)
    rw [hone] at hemitted
    obtain ⟨rfl, -, rfl⟩ : between = [] ∧ .delivered .cancel = PullEvent.delivered .cancel ∧
        later = [] := by
      simpa [List.singleton_eq_append_iff] using hemitted
    refine ⟨by simp, fun _ => ⟨List.mem_append_right _ (List.mem_singleton_self _), ?_⟩,
      fun result hended => absurd hended (halive result)⟩
    intro hleft
    have hchunks := hqueued.chunks
    have hleft : task.left = [] := hleft
    rw [hleft, List.append_nil] at hchunks
    rw [List.append_nil] at hearly
    exact hearly hchunks.symm
  · obtain ⟨hquiet, hcancelling⟩ := h rest ⟨before, hbefore, hearly⟩
    obtain ⟨hnow, hemits⟩ := hcancelling.step hqueued hguard hnext
    refine ⟨fun chunks hmem => ?_, hnow⟩
    rcases List.mem_append.mp hmem with hmem | hmem
    · exact hquiet chunks hmem
    · exact hemits chunks hmem

/-- The loop over the commands takes up a `Cancel` that is in the queue. -/
theorem cancel_taken (hwaits : task.phase = .draining ∨ task.phase = .paused)
    (hcancel : .cancel ∈ task.queue) (hdir : task.writer.dir = dir) (size : Nat)
    {outcome : RemoveOutcome} (hwhole : outcome.Whole) :
    ∃ count more last, Exec (PullTask.step hash) Guard.free task
        (List.replicate count (.next size outcome)) more last ∧
      last.phase = .ended (.error .cancelled) ∧ last.Removed dir := by
  refine exec_until (fun task => task.queue.length) (fun task =>
    (task.phase = .draining ∨ task.phase = .paused) ∧ .cancel ∈ task.queue ∧ task.writer.dir = dir)
    ?_ ⟨hwaits, hcancel, hdir⟩
  rintro task ⟨hwaits, hcancel, rfl⟩
  obtain ⟨ctl, queue, hqueue⟩ := List.exists_cons_of_ne_nil (List.ne_nil_of_mem hcancel)
  rw [hqueue] at hcancel
  have hshorter : queue.length < (ctl :: queue).length := Nat.lt_succ_self _
  show ∃ next emitted, task.advance size outcome = some (next, emitted) ∧ _
  unfold advance
  rcases hwaits with hphase | hphase
  · rw [hphase, hqueue]
    cases ctl with
    | pause =>
      exact ⟨_, _, rfl, .inr ⟨⟨.inr rfl, by simpa using hcancel, rfl⟩, hshorter⟩⟩
    | resume =>
      exact ⟨_, _, rfl, .inr ⟨⟨.inl rfl, by simpa using hcancel, rfl⟩, hshorter⟩⟩
    | cancel => exact ⟨_, _, rfl, .inl ⟨rfl, cancelled_removed hwhole⟩⟩
  · rw [hphase, hqueue]
    cases ctl with
    | pause =>
      exact ⟨_, _, rfl, .inr ⟨⟨.inl rfl, by simpa using hcancel, rfl⟩, hshorter⟩⟩
    | resume =>
      exact ⟨_, _, rfl, .inr ⟨⟨.inl rfl, by simpa using hcancel, rfl⟩, hshorter⟩⟩
    | cancel => exact ⟨_, _, rfl, .inl ⟨rfl, cancelled_removed hwhole⟩⟩

end Cancels

section Runs

variable {hash} {guard : Guard PullTask PullInput PullEvent} {disk : Disk} {writer : PartWriter}
  {inputs : List PullInput} {trace : List PullEvent} {task : PullTask}

theorem queued_run (hexec : Exec (PullTask.step hash) guard (start disk writer) inputs trace task) :
    Queued writer.manifest.missingChunks writer.dir trace task := by
  induction hexec with
  | start =>
    exact ⟨fun _ => rfl, rfl, fun hphase => loop_head_waiting hphase,
      fun hphase => loop_head_finishing hphase, fun _ => rfl⟩
  | step _ _ hnext ih => exact ih.step hnext

theorem holding_run
    (hexec : Exec (PullTask.step hash) (steadyGuard hash) (start disk writer) inputs trace task) :
    Holding trace task := by
  induction hexec with
  | start => exact ⟨each_event_nil, fun _ _ => lifted_nil⟩
  | step hbefore hguard hnext ih => exact ih.step (queued_run hbefore) hguard hnext

theorem cancels_run
    (hexec : Exec (PullTask.step hash) (steadyGuard hash) (start disk writer) inputs trace task) :
    CancelsHeard writer.manifest.missingChunks writer.dir trace task := by
  induction hexec with
  | start =>
    rintro later ⟨before, hsplit, -⟩
    simp at hsplit
  | step hbefore hguard hnext ih => exact ih.step (queued_run hbefore) hguard hnext

end Runs

/-- A pull that takes up no second `Pause` while it waits in one, whose batch under way arrives once a
`Cancel` is in the queue before the last batch, and whose job directory can be removed then. No batch
is begun while a `Pause` holds. After a `Cancel` that was delivered before the last batch no batch is
begun, the task ends as cancelled and without its job directory, and it does so when the loop goes on
with its commands. -/
theorem controls_obeyed (disk : Disk) (writer : PartWriter) (inputs : List PullInput)
    (trace : List PullEvent) (task : PullTask)
    (hexec : Exec (PullTask.step hash) (steadyGuard hash) (start disk writer) inputs trace task) :
    PauseLaw trace ∧ CancelLaw writer.manifest.missingChunks writer.dir trace task ∧
      ∀ later, CancelledEarly writer.manifest.missingChunks trace later →
        task.phase = .draining ∨ task.phase = .paused → ∀ size (outcome : RemoveOutcome),
          outcome.Whole → ∃ count more last, Exec (PullTask.step hash) Guard.free task
            (List.replicate count (.next size outcome)) more last ∧
            last.phase = .ended (.error .cancelled) ∧ last.Removed writer.dir := by
  have hqueued := queued_run hexec
  have hcancels := cancels_run hexec
  refine ⟨(holding_run hexec).law, fun later hearly => ?_, ?_⟩
  · obtain ⟨hquiet, hcancelling⟩ := hcancels later hearly
    exact ⟨hquiet, hcancelling.ended⟩
  · intro later hearly hwaits size outcome hwhole
    have halive : task.Alive := by
      rcases hwaits with hphase | hphase
      · exact alive_of_phase hphase (by simp)
      · exact alive_of_phase hphase (by simp)
    obtain ⟨-, hcancelling⟩ := hcancels later hearly
    exact cancel_taken hwaits (hcancelling.pending halive).1 (hqueued.dir halive) size hwhole

/-- A part writer that has just been opened for a file of one chunk. -/
def oneChunkWriter : PartWriter :=
  { dir := 1, file := 0, manifest := (shortMeta [97, 98, 99]).manifest }

/-- The pull of that file when its control has just been registered. -/
def oneChunkPull : PullTask :=
  start (PartWriter.open Disk.empty 1 oneChunkWriter.manifest .done .done).1 oneChunkWriter

/-- One step of the loop over the commands, in which the job directory can be removed. -/
def nextStep : PullInput :=
  .next 1 { partGone := true, manifestGone := true, dropped := .done }

/-- Two commands are taken up that were delivered one after the other. -/
def twoControls (first second : TaskControl) : List PullInput :=
  [.control first false, .control second false, nextStep, nextStep]

/-- A pull is paused, resumed and cancelled before its first batch. -/
theorem controls_obeyed_one_chunk :
    ∃ inputs trace task, Exec (PullTask.step shortHash) (steadyGuard shortHash) oneChunkPull inputs
        trace task ∧ PauseLaw trace ∧
      ∃ count more last, Exec (PullTask.step shortHash) Guard.free task
          (List.replicate count nextStep) more last ∧
        last.phase = .ended (.error .cancelled) ∧ last.Removed 1 := by
  have hview : (Machine.run (PullTask.step shortHash) (steadyGuard shortHash) [] oneChunkPull
      (twoControls .pause .resume ++ [.control .cancel false])).map
        (fun result => (result.2, result.1.phase)) =
      some ([.delivered .pause, .delivered .resume, .taken .pause, .taken .resume,
        .delivered .cancel], .draining) := by
    decide
  obtain ⟨⟨task, trace⟩, hrun, hseen⟩ := Option.map_eq_some_iff.mp hview
  obtain ⟨htrace, hphase⟩ := Prod.ext_iff.mp hseen
  have hexec := Exec.start.append_run hrun
  obtain ⟨hlaw, -, hends⟩ := controls_obeyed shortHash _ _ _ _ _ hexec
  have hearly : CancelledEarly oneChunkWriter.manifest.missingChunks trace [] :=
    ⟨[.delivered .pause, .delivered .resume, .taken .pause, .taken .resume], htrace, by decide⟩
  exact ⟨_, _, _, hexec, hlaw, hends [] hearly (.inl hphase) 1 _ ⟨rfl, rfl⟩⟩

/-- A pull that is paused twice goes on without having been resumed. -/
theorem not_paused_twice :
    ¬ ∀ (hash : List UInt8 → String) (disk : Disk) (writer : PartWriter) (inputs : List PullInput)
        (trace : List PullEvent) (task : PullTask),
      Exec (PullTask.step hash) Guard.free (start disk writer) inputs trace task →
        PauseLaw trace ∧ CancelLaw writer.manifest.missingChunks writer.dir trace task := by
  intro hall
  obtain ⟨task, hexec⟩ := exec_of_run (PullTask.step shortHash) Guard.free oneChunkPull
    (twoControls .pause .pause ++ [nextStep]) (by decide)
  have hlaw := (hall _ _ _ _ _ _ hexec).1
  have hresumed : TaskControl.resume ∈ [.pause] :=
    hlaw [.delivered .pause, .delivered .pause, .taken .pause, .taken .pause] (.batch [0]) []
      (by decide) [0] rfl [] [.pause] (by decide) (by decide)
  exact absurd hresumed (by decide)

end PullTask

end LocalTrans
