import LocalTrans.Shell.Children
import LocalTrans.Shell.Identity

/-!
# The controls of a transfer on the desktop

`transfer_action` takes the id of a card and goes through five mechanisms: the cancel flag of a card
whose engine was started with one, the active children of the card, the job that is served
(`sender_jobs`), the push (`push_controls`) and the download (`task_controls`). `ControlDesk` has the
cards with what the command reads, and the engine tasks behind them with the control each of them
looks at before it asks for or sends anything. A step of a task is the work from one look at its
control to the next.
-/

namespace LocalTrans.Desktop

open Foundation

/-- The state that `apply` takes a card to; it stays where it is if the event is refused. -/
def nextState (state : CardState) (ev : CardEvent) : CardState :=
  match state, ev with
  | .pending, .started => .active
  | .pending, .queueTimeout => .failed
  | .pending, .failed _ => .failed
  | .pending, .cancelRequested => .cancelling
  | .active, .paused => .paused
  | .active, .failed _ => .failed
  | .active, .finished => .done
  | .active, .interrupted => .interrupted
  | .active, .cancelRequested => .cancelling
  | .paused, .resumed => .active
  | .paused, .failed _ => .failed
  | .paused, .interrupted => .interrupted
  | .paused, .finished => .done
  | .paused, .cancelRequested => .cancelling
  | .cancelling, .failed _ => .failed
  | .cancelling, .interrupted => .interrupted
  | .cancelling, .finished => .done
  | _, _ => state

/-- `TaskControl`, and the actions that `transfer_action` takes. -/
inductive TaskControl where
  | pause
  | resume
  | cancel
deriving DecidableEq

/-- What a card is the row of: a download, several files or a folder that are downloaded, a file or
several that are pushed, and a file that a peer fetches. -/
inductive CardKind where
  | download
  | batchDownload
  | folderDownload
  | push
  | batchPush
  | served
deriving DecidableEq

/-- The states that are written to a child. -/
inductive ChildState where
  | active
  | done
  | failed
deriving DecidableEq

/-- A child of a card: its name and its job, if its `job_id` is not empty. -/
structure ControlChild where
  name : String
  job : Option Nat
  state : ChildState
deriving DecidableEq

/-- What `transfer_action` reads of a card: its state, `engine_id`, its entry of
`placeholder_cancels` with the flag, its children and its entry of `batch_offer_jobs`. -/
structure ControlCard where
  kind : CardKind
  peer : Nat
  state : CardState
  engineId : Option Nat
  flag : Option Bool
  children : List ControlChild
  offerJob : Option Nat
deriving DecidableEq

/-- The loops that work: `start_pull_parts`, `push_files_inner`, and a job that is served. -/
inductive WorkKind where
  | pull
  | push
  | source
deriving DecidableEq

/-- A task of the engine: the id it goes by, the card it works for, whether it goes on, and whether
the shell has heard that it started. A download that has got so far listens to a channel, and may
wait on it. The others look at the flags of a task, `gate`. A push has flags only if it has a large
file; once its offer is accepted it has a number of small files left to write, and it reports one
`Done` for each. A job that is served may belong to a push, and holds the requests that came while
it was paused. -/
structure EngineTask where
  kind : WorkKind
  job : Nat
  card : Option Nat
  live : Bool
  started : Bool
  listening : Bool
  queue : List TaskControl
  waiting : Bool
  gate : Nat
  large : Bool
  smalls : Nat
  left : Option Nat
  offer : Option Nat
  deferred : Nat
deriving DecidableEq

/-- `PushControl`, and the flags of `SenderJobState`. -/
structure ControlFlags where
  paused : Bool
  cancelled : Bool
deriving DecidableEq

/-- The cards by their place, the tasks by theirs, and the tables that are keyed by ids: the channels
of the downloads, the cards of the engine ids, the parents of jobs, and the cards that the files of
a push to a peer are attached to. -/
structure ControlDesk where
  cards : List ControlCard
  tasks : List EngineTask
  flags : Nat → ControlFlags
  taskControls : Nat → Option Nat
  engineToCard : Nat → Option Nat
  pendingChildren : Nat → Option Nat
  batchKey : Nat → Option Nat
  singleKey : Nat → Option Nat
  nextJobId : Nat
  nextSourceJobId : Nat

/-- What happens: a card is made, its start fails or times out in the queue; a download gets its id,
its channel, goes on, ends; a push begins, is accepted, writes a small file, fails to, looks at its
flag, ends; a file is asked for, served, chunks of it are asked for, a request that was held is
looked at again, the file is received or its connection lost; the shell hears that a task started; a
download of several files looks at its flag, and ends; the user acts on a card. -/
inductive ControlInput where
  | newCard (kind : CardKind) (peer : Nat)
  | refused (card : Nat)
  | queueTimeout (card : Nat)
  | metaResp (card job : Nat)
  | register (task : Nat)
  | pull (task : Nat) (name : String)
  | pullEnd (task : Nat) (name : String) (ok : Bool)
  | pushFiles (card : Nat) (large : Bool) (smalls : Nat)
  | accepted (task : Nat)
  | small (task : Nat)
  | smallFailed (task : Nat)
  | check (task : Nat)
  | pushEnd (task : Nat) (ok : Bool)
  | metaReq (offer : Option Nat)
  | serve (task : Nat) (name : String)
  | fetch (task : Nat)
  | wake (task : Nat)
  | received (task : Nat)
  | lost (task : Nat)
  | started (task : Nat) (name : String)
  | batchTick (card : Nat)
  | batchEnd (card : Nat) (ok : Bool)
  | act (card : Nat) (action : TaskControl)

/-- A task that works for a card asks for chunks, or sends a file or a chunk; the action on a card
reaches a task that works for a card; it is answered with `Ok`. -/
inductive ControlEvent where
  | worked (card : Option Nat)
  | controlled (of : Nat) (card : Option Nat)
  | answered (card : Nat) (action : TaskControl)
deriving DecidableEq

/-- The loop over `ctl_rx` before a window of chunks, from whether the task waits in `recv`: nothing
once it is cancelled, else whether it waits. A `Pause` that is received in the wait ends it. -/
def drain : Bool → List TaskControl → Option Bool
  | waiting, [] => some waiting
  | false, .pause :: rest => drain true rest
  | false, .resume :: rest => drain false rest
  | true, .resume :: rest => drain false rest
  | true, .pause :: rest => drain false rest
  | _, .cancel :: _ => none

/-- The event that `transfer_action` applies to the card. -/
def TaskControl.event : TaskControl → CardEvent
  | .pause => .paused
  | .resume => .resumed
  | .cancel => .failed (some "已取消")

/-- The task ends. -/
def EngineTask.stop (task : EngineTask) : EngineTask :=
  { task with live := false }

/-- The file is served from now on, under the flags of a task. -/
def EngineTask.serve (gate : Nat) (task : EngineTask) : EngineTask :=
  { task with live := true, started := true, gate }

/-- The task works for a card. -/
def EngineTask.assign (c : Nat) (task : EngineTask) : EngineTask :=
  { task with card := some c }

/-- What an action stores in the flags. -/
def ControlFlags.signal (flags : ControlFlags) : TaskControl → ControlFlags
  | .pause => { flags with paused := true }
  | .resume => { flags with paused := false }
  | .cancel => { flags with cancelled := true }

/-- Where `child_upsert` puts a child. -/
def controlSlot (children : List ControlChild) (child : ControlChild) : Option Nat :=
  match child.job with
  | none => children.findIdx? fun c => c.name = child.name
  | some job =>
    match children.findIdx? fun c => c.job = some job with
    | some i => some i
    | none => children.findIdx? fun c => c.job = none ∧ c.name = child.name

/-- `child_upsert`. -/
def upsertChild (children : List ControlChild) (child : ControlChild) : List ControlChild :=
  match controlSlot children child with
  | some i => children.set i child
  | none => children ++ [child]

namespace ControlCard

/-- A card of a kind, as it is made. A download of one file or of a folder has no flag. -/
def new (kind : CardKind) (peer : Nat) : ControlCard :=
  { kind, peer, state := .pending, engineId := none
    flag := match kind with
      | .batchDownload | .push | .batchPush => some false
      | _ => none
    children := [], offerJob := none }

/-- `card_apply`. -/
def apply (card : ControlCard) (ev : CardEvent) : ControlCard :=
  { card with state := nextState card.state ev }

/-- The card is done, failed or interrupted. -/
def Ended (card : ControlCard) : Prop :=
  card.state = .done ∨ card.state = .failed ∨ card.state = .interrupted
deriving Decidable

/-- The children that have not ended. -/
def activeChildren (card : ControlCard) : List ControlChild :=
  card.children.filter fun child => child.state = .active

/-- `recheck_parent_terminal`. -/
def recheck (card : ControlCard) : ControlCard :=
  if card.children = [] ∨ card.activeChildren ≠ [] ∨ card.Ended then card
  else if card.children.any fun child => child.state = .failed then card.apply (.failed none)
  else if card.state = .pending then (card.apply .started).apply .finished
  else card.apply .finished

/-- `child_upsert` on the card. -/
def upsert (card : ControlCard) (child : ControlChild) : ControlCard :=
  { card with children := upsertChild card.children child }

/-- The job of a file becomes a child of the card, and the job the card goes by. -/
def attach (name : String) (job : Nat) (card : ControlCard) : ControlCard :=
  { card.upsert { name, job := some job, state := .active } with offerJob := some job }

/-- The entry of `placeholder_cancels` is removed. -/
def clearFlag (card : ControlCard) : ControlCard :=
  { card with flag := none }

/-- `batch_child_finish`. -/
def finishChild (card : ControlCard) (job : Nat) (state : ChildState) : ControlCard :=
  let name := ((card.children.find? fun child => child.job = some job).map
    ControlChild.name).getD ""
  (card.upsert { name, job := some job, state }).recheck

/-- `batch_child_oldest_active` with the recheck that follows it. -/
def finishOldest (card : ControlCard) (state : ChildState) : ControlCard :=
  match card.children.find? fun child => child.state = .active ∧ child.job = none with
  | none => card.recheck
  | some child => (card.upsert { child with state }).recheck

end ControlCard

namespace ControlDesk

/-- The id of the card at a place. -/
def cardId (place : Nat) : Nat := cardIdBase + place

/-- The card with an id. -/
def cardOfId (s : ControlDesk) (id : Nat) : Option ControlCard :=
  if cardIdBase ≤ id then s.cards[id - cardIdBase]? else none

/-- Change a card. -/
def updateCard (s : ControlDesk) (c : Nat) (f : ControlCard → ControlCard) : ControlDesk :=
  { s with cards := s.cards.modify c f }

/-- Change a task. -/
def updateTask (s : ControlDesk) (h : Nat) (f : EngineTask → EngineTask) : ControlDesk :=
  { s with tasks := s.tasks.modify h f }

/-- The flags of the job in `sender_jobs`. -/
def senderGate (s : ControlDesk) (job : Nat) : Option Nat :=
  (s.tasks.find? fun task => task.kind = .source ∧ task.live ∧ task.job = job).map EngineTask.gate

/-- `get_push_control`. -/
def pushGate (s : ControlDesk) (job : Nat) : Option Nat :=
  (s.tasks.find? fun task => task.kind = .push ∧ task.live ∧ task.large ∧ task.job = job).map
    EngineTask.gate

/-- An action is stored in flags. -/
def signal (s : ControlDesk) (gates : List Nat) (action : TaskControl) : ControlDesk :=
  { s with flags := fun g => if g ∈ gates then (s.flags g).signal action else s.flags g }

/-- The tasks that look at flags. -/
def touched (s : ControlDesk) (c : Nat) (gates : List Nat) : List ControlEvent :=
  (s.tasks.filter fun task => task.live ∧ task.gate ∈ gates).map fun task =>
    .controlled c task.card

/-- The jobs that an action on a card with active children goes to. -/
def targets (row : ControlCard) : List Nat :=
  row.activeChildren.filterMap ControlChild.job ++ row.offerJob.toList

/-- The flags that an action on a card with active children is stored in. -/
def targetGates (s : ControlDesk) (row : ControlCard) : List Nat :=
  (targets row).flatMap fun job => (s.senderGate job).toList ++ (s.pushGate job).toList

/-- `transfer_action` after the cancel flag: the children, `sender_jobs`, `push_controls` and
`task_controls`. The tables of the children are asked with the id the card was translated to. -/
def route (s : ControlDesk) (c : Nat) (card : ControlCard) (action : TaskControl) :
    Option (ControlDesk × List ControlEvent) :=
  let job := card.engineId.getD (cardId c)
  let row := (s.cardOfId job).filter fun row => row.activeChildren ≠ []
  match row with
  | some row =>
    let gates := s.targetGates row
    some ((s.signal gates action).updateCard c fun card => card.apply action.event,
      s.touched c gates ++ [.answered c action])
  | none =>
    if card.state = .pending ∧ action = .pause then none
    else
      match (s.senderGate job).or (s.pushGate job) with
      | some gate =>
        some ((s.signal [gate] action).updateCard c fun card => card.apply action.event,
          s.touched c [gate] ++ [.answered c action])
      | none =>
        match s.taskControls job with
        | none => none
        | some h =>
          match s.tasks[h]? with
          | none => none
          | some task =>
            -- the channel holds eight, and is closed once the task has ended
            if task.live = true ∧ task.queue.length < 8 then
              some ((s.updateTask h fun task =>
                  { task with queue := task.queue ++ [action] }).updateCard c fun card =>
                    card.apply action.event,
                [.controlled c task.card, .answered c action])
            else none

/-- `transfer_action`. While the flag of the card is registered, a cancel sets it and nothing else,
and the other actions are refused until the card has started. -/
def transferAction (s : ControlDesk) (c : Nat) (card : ControlCard) (action : TaskControl) :
    Option (ControlDesk × List ControlEvent) :=
  match card.flag with
  | none => s.route c card action
  | some _ =>
    match action with
    | .cancel =>
      some (s.updateCard c fun card => { card with flag := some true },
        [.controlled c (some c), .answered c .cancel])
    | _ => if card.state = .pending then none else s.route c card action

/-- The kind of a card. -/
def kindOf (s : ControlDesk) (c : Nat) : Option CardKind :=
  (s.cards[c]?).map ControlCard.kind

/-- No task has worked for the card. -/
def Idle (s : ControlDesk) (c : Nat) : Prop :=
  ∀ task ∈ s.tasks, task.card ≠ some c
deriving Decidable

/-- No task goes on behind the card. -/
def Quiet (s : ControlDesk) (c : Nat) : Prop :=
  ∀ task ∈ s.tasks, task.card = some c → task.live = false
deriving Decidable

/-- `bind_engine_id`, if the card has no engine id yet. -/
def bindFirst (s : ControlDesk) (job c : Nat) : ControlDesk :=
  if (s.cards[c]?).any fun card => card.engineId = none then
    { s.updateCard c fun card => { card with engineId := some job } with
      engineToCard := Function.update s.engineToCard job (some c) }
  else s

/-- The shell handles that a download or a push has started. -/
def handleStarted (s : ControlDesk) (h : Nat) (task : EngineTask) (name : String) : ControlDesk :=
  let s := s.updateTask h fun task => { task with started := true }
  match task.card with
  | none => s
  | some c =>
    match s.kindOf c with
    | some .download | some .push =>
      (s.bindFirst task.job c).updateCard c fun card => card.apply .started
    | some .batchDownload | some .batchPush =>
      s.updateCard c fun card =>
        (card.apply .started).upsert { name, job := none, state := .active }
    | _ => s.updateCard c fun card => card.apply .started

/-- `source_push_attach`: the card of the push of several files if it has not ended, as a child, or
else that of the push of one file. -/
def attachTo (s : ControlDesk) (peer : Nat) : Option (Nat × Bool) :=
  let batch := (s.batchKey peer).filter fun c =>
    (s.cards[c]?).any fun card => ¬ card.Ended
  match batch with
  | some c => some (c, true)
  | none => (s.singleKey peer).map fun c => (c, false)

/-- A card for a job that the shell knows no card of. -/
def newServed (s : ControlDesk) (peer job : Nat) : ControlDesk :=
  let next := { s with cards := s.cards ++ [ControlCard.new .served peer] }
  (next.bindFirst job s.cards.length).updateCard s.cards.length fun card => card.apply .started

/-- The shell handles that a job is served: a job of a push is attached, any other gets its card. -/
def handleServed (s : ControlDesk) (h : Nat) (task : EngineTask) (name : String) : ControlDesk :=
  match task.offer with
  | none =>
    match s.engineToCard task.job with
    | some c =>
      (s.updateTask h (EngineTask.assign c)).updateCard c fun card =>
        card.apply .started
    | none =>
      (s.updateTask h (EngineTask.assign s.cards.length)).newServed 0 task.job
  | some _ =>
    let peer := ((task.card.bind fun c => s.cards[c]?).map ControlCard.peer).getD 0
    match s.attachTo peer with
    | some (c, true) =>
      { s.updateCard c (ControlCard.attach name task.job) with
        pendingChildren := Function.update s.pendingChildren task.job (some c) }
    | some (c, false) =>
      if (s.cards[c]?).any fun card => ¬ card.Ended then
        { s.updateCard c fun card => card.apply .started with
          engineToCard := Function.update s.engineToCard task.job (some c) }
      else s
    | none => s.newServed peer task.job

/-- A job leaves `sender_jobs`, and the shell handles its `SourceDone` or `SourceFailed`. -/
def sourceEnded (s : ControlDesk) (h : Nat) (task : EngineTask) (ok : Bool) : ControlDesk :=
  let s := s.updateTask h EngineTask.stop
  match s.pendingChildren task.job with
  | some parent => s.updateCard parent fun card =>
    card.finishChild task.job (if ok then .done else .failed)
  | none =>
    match s.engineToCard task.job with
    | some c => s.updateCard c fun card => card.apply (if ok then .finished else .failed none)
    | none => s

/-- One job in `cleanup_push_senders`. -/
def cleanupOne (push : Nat) (s : ControlDesk) (h : Nat) : ControlDesk :=
  match s.tasks[h]? with
  | some task =>
    if task.kind = .source ∧ task.live = true ∧ task.offer = some push then
      s.sourceEnded h task false
    else s
  | none => s

/-- `cleanup_push_senders`. -/
def cleanupPushSenders (s : ControlDesk) (push : Nat) : ControlDesk :=
  (List.range s.tasks.length).foldl (cleanupOne push) s

/-- A push ends with an error. Its cancel flag is removed, and the card fails if nothing has
started. -/
def pushFailed (s : ControlDesk) (h : Nat) (task : EngineTask) (c : Nat) : ControlDesk :=
  let s := (s.updateTask h EngineTask.stop).cleanupPushSenders h
  let s := s.updateCard c ControlCard.clearFlag
  if task.started then s else s.updateCard c fun card => card.apply (.failed none)

/-- A push of several files reports a `Done` for each small file and one for the whole. -/
def finishSmalls : Nat → ControlCard → ControlCard
  | 0, card => card.finishOldest .done
  | smalls + 1, card => finishSmalls smalls (card.finishOldest .done)

/-- A push ends, and the shell handles its `Done`s. -/
def pushDone (s : ControlDesk) (h : Nat) (task : EngineTask) (c : Nat) : ControlDesk :=
  let s := s.updateTask h EngineTask.stop
  let s := s.updateCard c ControlCard.clearFlag
  if s.kindOf c = some .batchPush then s.updateCard c (finishSmalls task.smalls)
  else s.updateCard c fun card => card.apply .finished

/-- A task that begins. -/
def newTask (kind : WorkKind) (job : Nat) (card : Option Nat) (gate : Nat) : EngineTask :=
  { kind, job, card, live := true, started := false, listening := false, queue := []
    waiting := false, gate, large := false, smalls := 0, left := none, offer := none, deferred := 0 }

/-- The shell handles that a download has failed, or a file of several. -/
def pullFailed (s : ControlDesk) (card : Option Nat) (name : String) : ControlDesk :=
  match card with
  | none => s
  | some c =>
    match s.kindOf c with
    | some .download => s.updateCard c fun card => card.apply (.failed none)
    | some .batchDownload =>
      s.updateCard c fun card => card.upsert { name, job := none, state := .failed }
    | _ => s

/-- A download ends, and the shell handles what is left in the channel: a file of several is done or
failed, and a single one is done. A single download that fails later on has told so itself. -/
def pullEnded (s : ControlDesk) (card : Option Nat) (name : String) (ok : Bool) : ControlDesk :=
  match card with
  | none => s
  | some c =>
    match s.kindOf c with
    | some .download => if ok then s.updateCard c fun card => card.apply .finished else s
    | some .batchDownload =>
      s.updateCard c fun card =>
        card.upsert { name, job := none, state := if ok then .done else .failed }
    | _ => s

/-- A step of a task. -/
def taskStep (s : ControlDesk) (h : Nat) (task : EngineTask) :
    ControlInput → Option (ControlDesk × List ControlEvent)
  | .register _ =>
    if task.kind = .pull ∧ task.live = true ∧ task.listening = false then
      some ({ s.updateTask h fun task => { task with listening := true } with
        taskControls := Function.update s.taskControls task.job (some h) }, [])
    else none
  | .pull _ name =>
    if task.kind = .pull ∧ task.live = true ∧ task.listening = true then
      match drain task.waiting task.queue with
      | some waiting =>
        let next := s.updateTask h fun task => { task with queue := [], waiting }
        if waiting then some (next, []) else some (next, [.worked task.card])
      | none =>
        let s := s.updateTask h EngineTask.stop
        let s := { s with taskControls := Function.update s.taskControls task.job none }
        some (s.pullFailed task.card name, [])
    else none
  | .pullEnd _ name ok =>
    if task.kind = .pull ∧ task.live = true ∧ (ok = true → task.waiting = false) then
      let s := if task.started then s else s.handleStarted h task name
      let s := s.updateTask h EngineTask.stop
      let s := if ok then
          { s with taskControls := Function.update s.taskControls task.job none }
        else s
      some (s.pullEnded task.card name ok, [])
    else none
  | .accepted _ =>
    if task.kind = .push ∧ task.live = true ∧ task.left = none then
      some (s.updateTask h fun task => { task with left := some task.smalls }, [])
    else none
  | .small _ =>
    match task.left with
    | some (left + 1) =>
      if task.kind = .push ∧ task.live = true then
        if task.large = true ∧ (s.flags task.gate).paused = true then none
        else some (s.updateTask h fun task => { task with left := some left },
          [.worked task.card])
      else none
    | _ => none
  | .smallFailed _ =>
    match task.card, task.left with
    | some c, some (_ + 1) =>
      if task.kind = .push ∧ task.live = true then
        let next := s.updateTask h fun task => { task with left := some 0 }
        if s.kindOf c = some .batchPush then
          some (next.updateCard c fun card => card.finishOldest .failed, [])
        else some (next.updateCard c fun card => card.apply (.failed none), [])
      else none
    | _, _ => none
  | .check _ =>
    match task.card with
    | some c =>
      -- it does not look while it writes small files
      if task.kind = .push ∧ task.live = true ∧ (task.left = none ∨ task.left = some 0) then
        if (s.cards[c]?).any fun card => card.flag = some true then
          some (s.pushFailed h task c, [])
        else some (s, [])
      else none
    | none => none
  | .pushEnd _ ok =>
    match task.card with
    | some c =>
      if task.kind = .push ∧ task.live = true ∧
          (ok = true → task.left = some 0 ∧ task.started = true) then
        some (if ok then s.pushDone h task c else s.pushFailed h task c, [])
      else none
    | none => none
  | .serve _ name =>
    if task.kind = .source ∧ task.started = false then
      -- a job of a push looks at the flags of the push, if it has not ended
      let gate := match task.offer with
        | some push => if (s.tasks[push]?).any fun task => task.live ∧ task.large then push else h
        | none => h
      some ((s.updateTask h (EngineTask.serve gate)).handleServed h task name, [])
    else none
  | .fetch _ =>
    if task.kind = .source ∧ task.live = true then
      if (s.flags task.gate).cancelled = true then some (s.sourceEnded h task false, [])
      else if (s.flags task.gate).paused = true then
        some (s.updateTask h fun task => { task with deferred := task.deferred + 1 }, [])
      else some (s, [.worked task.card])
    else none
  | .wake _ =>
    if task.kind = .source ∧ 0 < task.deferred then
      let next := s.updateTask h fun task => { task with deferred := task.deferred - 1 }
      if (s.flags task.gate).paused = true then
        if (s.flags task.gate).cancelled = true then some (next, []) else none
      else some (next, [.worked task.card])
    else none
  | .received _ =>
    if task.kind = .source ∧ task.live = true then some (s.sourceEnded h task true, []) else none
  | .lost _ =>
    if task.kind = .source ∧ task.live = true then some (s.sourceEnded h task false, []) else none
  | .started _ name =>
    if task.live = true ∧ (task.kind = .pull ∨ (task.kind = .push ∧ task.left ≠ none)) then
      some (s.handleStarted h task name, []) else none
  | _ => none

/-- One step. -/
def step : Machine ControlDesk ControlInput ControlEvent
  | s, .newCard kind peer =>
    if kind = .served then none
    else some ({ s with cards := s.cards ++ [.new kind peer] }, [])
  | s, .refused c =>
    if s.Idle c ∧ s.kindOf c = some .download then
      some (s.updateCard c fun card => card.apply (.failed none), [])
    else none
  | s, .queueTimeout c =>
    if s.Idle c then
      some (s.updateCard c fun card => (card.apply .queueTimeout).clearFlag, [])
    else none
  | s, .metaResp c job =>
    match s.cards[c]? with
    | none => none
    | some card =>
      if (card.kind = .download ∧ card.state = .pending ∧ s.Idle c) ∨ card.kind = .folderDownload ∨
          (card.kind = .batchDownload ∧ card.flag ≠ none ∧ s.Quiet c) then
        some ({ s with tasks := s.tasks ++ [newTask .pull job (some c) s.tasks.length] }, [])
      else none
  | s, .pushFiles c large smalls =>
    match s.cards[c]? with
    | none => none
    | some card =>
      if (card.kind = .push ∨ card.kind = .batchPush) ∧ card.flag ≠ none ∧ s.Idle c then
        some ({ s with
          tasks := s.tasks ++ [{ newTask .push s.nextJobId (some c) s.tasks.length with
            large, smalls }]
          flags := Function.update s.flags s.tasks.length ⟨false, false⟩
          nextJobId := s.nextJobId + 1
          batchKey := if card.kind = .batchPush then
            Function.update s.batchKey card.peer (some c) else s.batchKey
          singleKey := if card.kind = .batchPush then s.singleKey
            else Function.update s.singleKey card.peer (some c) }, [])
      else none
  | s, .metaReq none =>
    some ({ s with
      tasks := s.tasks ++ [{ newTask .source s.nextSourceJobId none s.tasks.length with
        live := false }]
      flags := Function.update s.flags s.tasks.length ⟨false, false⟩
      nextSourceJobId := s.nextSourceJobId + 1 }, [])
  | s, .metaReq (some push) =>
    match s.tasks[push]? with
    | none => none
    | some task =>
      if task.kind = .push ∧ task.live = true ∧ task.large = true then
        some ({ s with
          tasks := s.tasks ++ [{ newTask .source s.nextSourceJobId task.card s.tasks.length with
            live := false, offer := some push }]
          flags := Function.update s.flags s.tasks.length ⟨false, false⟩
          nextSourceJobId := s.nextSourceJobId + 1 }, [])
      else none
  | s, .batchTick c =>
    -- the download of the file that is under way is dropped; the card is not told
    if (s.cards[c]?).any fun card => card.kind = .batchDownload ∧ card.flag = some true then
      some ({ s.updateCard c ControlCard.clearFlag with
        tasks := s.tasks.map fun task =>
          if task.card = some c then task.stop else task }, [])
    else none
  | s, .batchEnd c ok =>
    if (s.kindOf c = some .batchDownload ∨ s.kindOf c = some .folderDownload) ∧ s.Quiet c then
      some (s.updateCard c fun card =>
        (card.apply (if ok then .finished else .failed none)).clearFlag, [])
    else none
  | s, .act c action =>
    match s.cards[c]? with
    | none => none
    -- an error changes nothing
    | some card => some ((s.transferAction c card action).getD (s, []))
  | s, .register h => (s.tasks[h]?).bind fun task => s.taskStep h task (.register h)
  | s, .pull h name => (s.tasks[h]?).bind fun task => s.taskStep h task (.pull h name)
  | s, .pullEnd h name ok => (s.tasks[h]?).bind fun task => s.taskStep h task (.pullEnd h name ok)
  | s, .accepted h => (s.tasks[h]?).bind fun task => s.taskStep h task (.accepted h)
  | s, .small h => (s.tasks[h]?).bind fun task => s.taskStep h task (.small h)
  | s, .smallFailed h => (s.tasks[h]?).bind fun task => s.taskStep h task (.smallFailed h)
  | s, .check h => (s.tasks[h]?).bind fun task => s.taskStep h task (.check h)
  | s, .pushEnd h ok => (s.tasks[h]?).bind fun task => s.taskStep h task (.pushEnd h ok)
  | s, .serve h name => (s.tasks[h]?).bind fun task => s.taskStep h task (.serve h name)
  | s, .fetch h => (s.tasks[h]?).bind fun task => s.taskStep h task (.fetch h)
  | s, .wake h => (s.tasks[h]?).bind fun task => s.taskStep h task (.wake h)
  | s, .received h => (s.tasks[h]?).bind fun task => s.taskStep h task (.received h)
  | s, .lost h => (s.tasks[h]?).bind fun task => s.taskStep h task (.lost h)
  | s, .started h name => (s.tasks[h]?).bind fun task => s.taskStep h task (.started h name)

/-- A desk without cards. -/
def empty : ControlDesk :=
  { cards := [], tasks := [], flags := fun _ => ⟨false, false⟩, taskControls := fun _ => none
    engineToCard := fun _ => none, pendingChildren := fun _ => none, batchKey := fun _ => none
    singleKey := fun _ => none, nextJobId := 1, nextSourceJobId := sourceJobIdBase }

end ControlDesk

end LocalTrans.Desktop
