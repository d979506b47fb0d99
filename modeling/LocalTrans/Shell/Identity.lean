import LocalTrans.Foundation.Execution
import LocalTrans.Transfer.PartWriter
import Mathlib.Data.List.ReduceOption

/-!
# The ids of transfers

A transfer task is known under the id that the sender of the files gave it: `next_source_job_id`
or `next_job_id` of this process for what it sends, those of the peer for what it receives. This id
is the key of `task_controls`, `sender_jobs`, `push_controls` and `engine_to_card`, and the name
of a parts directory. `Process` has these maps and the cards; `knownOnlyGuard` says when a transfer
may get an id, so that no other transfer is reached through it.
-/

namespace LocalTrans

open Foundation

/-- A transfer: one that a card was loaded for when the process started, or one begun since. -/
inductive Transfer where
  | restored (card : Nat)
  | begun (n : Nat)
deriving DecidableEq

/-- A download, the reception of a large file that is pushed, an accepted offer with its small
files, an own offer, and a file that a peer fetches. -/
inductive TaskKind where
  | pull
  | recvPush
  | inbound
  | push
  | source
deriving DecidableEq

/-- A task of a transfer: the id it goes by, its parts directory, and the card it was started
from. -/
structure TransferTask where
  kind : TaskKind
  engine : Nat
  parts : Option Nat
  card : Option Nat
  transfer : Transfer
  live : Bool
deriving DecidableEq

/-- A card: `engine_id` and `parts_id`, the active children of a batch with the jobs they have, and
the job in `batch_offer_jobs`. -/
structure TransferCard where
  id : Nat
  engineId : Option Nat
  partsId : Option Nat
  children : List (Option Nat)
  offerJob : Option Nat
  transfer : Transfer
deriving DecidableEq

/-- The maps of a process that are keyed by ids, and its counters. -/
structure Process where
  tasks : List TransferTask
  cards : List TransferCard
  taskControls : Nat → Option Nat
  senderJobs : Nat → Option Nat
  pushControls : Nat → Option Nat
  engineToCard : List (Nat × Nat)
  pendingChildren : List (Nat × Nat)
  nextJobId : Nat
  nextSourceJobId : Nat
  nextCardId : Nat
  transfers : Nat

/-- A card of `transfers.json`. -/
structure SavedCard where
  id : Nat
  push : Bool
  ended : Bool
  partsId : Option Nat
  children : List (Option Nat)

/-- How the shell takes the start of a source job: as a card of its own, as the job of a push of one
file, as a child of a batch, or, when the card of the push has ended, not at all. -/
inductive Attach where
  | own
  | single
  | batch
  | dropped
deriving DecidableEq

/-- What the peer of a task sends under its id. -/
inductive PeerSignal where
  | cancel
  | pause
  | received
deriving DecidableEq

/-- A card is made or restored; a transfer gets its id: by `MetaResp` for a download (with what is
found under the parts root) or a pushed file, by `OfferReq`, or from a counter; a task enters or
leaves its registry; its events reach the shell; it ends; its parts directory is removed; its peer
controls it; the user controls or removes its card. -/
inductive IdentityInput where
  | newCard
  | restoreDiskJob (id : Nat)
  | metaResp (card engine : Nat) (m : Manifest) (disk : Disk) (jobs : List Nat)
  | offerReq (engine : Nat)
  | recvPush (engine : Nat)
  | pushFiles (card : Nat) (large : Bool)
  | metaReq (push : Option Nat)
  | register (handle : Nat)
  | unregister (handle : Nat)
  | started (handle : Nat) (attach : Attach)
  | instantHit (handle : Nat)
  | report (handle : Nat)
  | childDone (handle : Nat)
  | finish (handle : Nat)
  | removeParts (handle : Nat)
  | fromPeer (handle : Nat) (signal : PeerSignal)
  | transferAction (card : Nat)
  | cancelCard (card : Nat)
  | finalizeDestroy (card : Nat)

/-- A control of a transfer reaches a task, an event of a transfer reaches a card, or the removal of
a transfer's directory takes the files of a task. -/
inductive IdentityEvent where
  | controlled (of task : Transfer)
  | reported (of card : Transfer)
  | removed (of task : Transfer)
deriving DecidableEq

/-- Who an event comes from is who it reaches. -/
def IdentityEvent.Own : IdentityEvent → Prop
  | .controlled of task => of = task
  | .reported of card => of = card
  | .removed of task => of = task

instance (event : IdentityEvent) : Decidable event.Own := by
  unfold IdentityEvent.Own
  split <;> infer_instance

/-- `CARD_ID_BASE`. -/
def cardIdBase : Nat := 0x400000000000

/-- Where `next_source_job_id` starts. -/
def sourceJobIdBase : Nat := 0x8000000000000000

/-- The ids a task is found by. -/
def TransferTask.Names (task : TransferTask) (id : Nat) : Prop :=
  task.engine = id ∨ task.card = some id
deriving Decidable

/-- The ids a card refers to. -/
def TransferCard.ids (card : TransferCard) : List Nat :=
  card.id :: (card.engineId.toList ++ card.children.reduceOption ++ card.offerJob.toList)

namespace Process

/-- A process without cards. -/
def empty : Process :=
  { tasks := [], cards := [], taskControls := fun _ => none, senderJobs := fun _ => none
    pushControls := fun _ => none, engineToCard := [], pendingChildren := [], nextJobId := 1
    nextSourceJobId := sourceJobIdBase, nextCardId := cardIdBase, transfers := 0 }

/-- Insert a card under its id. -/
def putCard (p : Process) (card : TransferCard) : Process :=
  { p with cards := card :: p.cards.filter fun other => other.id ≠ card.id }

/-- Change a card in place. -/
def mapCard (p : Process) (id : Nat) (f : TransferCard → TransferCard) : Process :=
  { p with cards := p.cards.map fun card => if card.id = id then f card else card }

/-- The card of an id. -/
def cardById (p : Process) (id : Nat) : Option TransferCard :=
  p.cards.find? fun card => card.id = id

/-- `engine_card_of`. -/
def engineCardOf (p : Process) (engine : Nat) : Option Nat :=
  p.engineToCard.lookup engine

/-- `card_id_of`: without a mapping the engine id itself. -/
def cardIdOf (p : Process) (engine : Nat) : Nat :=
  (p.engineCardOf engine).getD engine

/-- `bind_engine_id_passive`. -/
def bindPassive (p : Process) (engine card : Nat) : Process :=
  { p with engineToCard := (engine, card) :: p.engineToCard.filter fun pair => pair.1 ≠ engine }

/-- `bind_engine_id`. -/
def bindEngineId (p : Process) (engine card : Nat) : Process :=
  (p.bindPassive engine card).mapCard card fun found =>
    { found with engineId := some engine, partsId := some engine }

/-- `pending_children_bind`, `batch_offer_job_bind` and the new child of the batch. -/
def bindChild (p : Process) (engine card : Nat) : Process :=
  { p.mapCard card fun found =>
      { found with children := found.children ++ [some engine], offerJob := some engine } with
    pendingChildren := (engine, card) :: p.pendingChildren.filter fun pair => pair.1 ≠ engine }

/-- `card_create`. -/
def cardCreate (p : Process) (partsId : Option Nat) (transfer : Transfer) : Process :=
  { p.putCard {
      id := p.nextCardId, engineId := none, partsId, children := [], offerJob := none, transfer }
    with nextCardId := p.nextCardId + 1 }

/-- The card of an orphaned parts directory goes by the name of the directory. -/
def orphanCard (id : Nat) : TransferCard :=
  { id, engineId := some id, partsId := some id, children := [], offerJob := none
    transfer := .restored id }

/-- One entry of `transfers.json` in `rebuild_cards`: a download that had not ended is only kept
where its directory is there, and the card of a directory stays as it is. -/
def loadSaved (p : Process) (entry : SavedCard) : Process :=
  if p.cards.any fun card => card.engineId = some entry.id then p
  else if entry.ended ∨ entry.push then
    p.putCard {
      id := entry.id, engineId := if entry.push then none else some entry.id
      partsId := entry.partsId, children := entry.children, offerJob := none
      transfer := .restored entry.id }
  else p

/-- The start of a process: `rebuild_cards` over the parts directories and the saved cards, and a
card counter above the ids of its own range. -/
def load (orphans : List Nat) (saved : List SavedCard) : Process :=
  let p := orphans.foldl (fun p id => p.putCard (orphanCard id)) empty
  let p := saved.foldl loadSaved p
  let ids := p.cards.filterMap fun card => if card.id < sourceJobIdBase then some card.id else none
  { p with nextCardId := ids.foldl (fun next id => max next (id + 1)) cardIdBase }

/-- A task begins. -/
def spawn (p : Process) (task : TransferTask) : Process :=
  { p with tasks := p.tasks ++ [task] }

/-- The transfer that the next new number stands for. -/
def nextTransfer (p : Process) : Transfer :=
  .begun p.transfers

/-- The control that an entry of a registry leads to, if its task still listens. -/
def reach (p : Process) (of : Transfer) (entry : Option Nat) : List IdentityEvent :=
  match entry.bind fun handle => p.tasks[handle]? with
  | some task => if task.live then [.controlled of task.transfer] else []
  | none => []

/-- The event that reaches the card of an id, if there is one. -/
def tell (p : Process) (of : Transfer) (card : Nat) : List IdentityEvent :=
  match p.cardById card with
  | some found => [.reported of found.transfer]
  | none => []

/-- The tasks whose files go with a parts directory. -/
def sweep (p : Process) (of : Transfer) (dir : Nat) : List IdentityEvent :=
  (p.tasks.filter fun task => task.live ∧ task.parts = some dir).map fun task =>
    .removed of task.transfer

/-- The card that an event of a task is for. -/
def reportCard (p : Process) (task : TransferTask) : Nat :=
  match task.kind, task.card with
  | .pull, some card | .push, some card => card
  | .source, _ => (p.pendingChildren.lookup task.engine).getD (p.cardIdOf task.engine)
  | _, _ => p.cardIdOf task.engine

/-- The controls of `transfer_action`: the jobs of a batch that has active children, else the first
registry that has the id of the card. -/
def actionEvents (p : Process) (card : TransferCard) : List IdentityEvent :=
  if card.children ≠ [] then
    (card.children.reduceOption ++ card.offerJob.toList).flatMap fun job =>
      p.reach card.transfer (p.senderJobs job) ++ p.reach card.transfer (p.pushControls job)
  else
    let job := card.engineId.getD card.id
    p.reach card.transfer
      (((p.senderJobs job).or (p.pushControls job)).or (p.taskControls job))

/-- The cancels of `destroy_transfer`, which go to every registry. -/
def cancelEvents (p : Process) (card : TransferCard) : List IdentityEvent :=
  let job := card.engineId.getD card.id
  p.reach card.transfer (p.senderJobs job) ++ p.reach card.transfer (p.pushControls job) ++
    p.reach card.transfer (p.taskControls job)

/-- The directory that `finalize_destroy` removes. -/
def destroyedDir (card : TransferCard) : Nat :=
  (card.engineId.or card.partsId).getD card.id

/-- Where the router looks for the id that the peer of a task names. -/
def peerEntry (p : Process) (engine : Nat) : PeerSignal → Option Nat
  | .cancel => (p.senderJobs engine).or (p.taskControls engine)
  | .pause => p.taskControls engine
  | .received => p.senderJobs engine

/-- Whether the shell makes a card when a task starts. -/
def createsCard (p : Process) (task : TransferTask) (attach : Attach) : Bool :=
  match task.kind, attach with
  | .recvPush, _ | .inbound, _ => true
  | .source, .own => (p.engineCardOf task.engine).isNone
  | _, _ => false

/-- Make a card for a task and bind it. -/
def createBound (p : Process) (task : TransferTask) : Process :=
  (p.cardCreate (some task.engine) task.transfer).bindEngineId task.engine p.nextCardId

/-- The shell handles that a task has started. -/
def start (p : Process) (task : TransferTask) (attach : Attach) : Process :=
  if p.createsCard task attach then p.createBound task
  else
    match task.kind, attach, task.card with
    | .push, .batch, some card =>
      p.mapCard card fun found => { found with children := found.children ++ [none] }
    | .pull, _, some card | .push, _, some card =>
      if (p.cardById card).any fun found => found.engineId.isSome then p
      else p.bindEngineId task.engine card
    | .source, .single, some card => p.bindPassive task.engine card
    | .source, .batch, some card => p.bindChild task.engine card
    | _, _, _ => p

/-- One step of the process. -/
def step : Machine Process IdentityInput IdentityEvent
  | p, .newCard =>
    some ({ p.cardCreate none p.nextTransfer with transfers := p.transfers + 1 }, [])
  | p, .restoreDiskJob id =>
    if (p.engineCardOf id).isSome ∨ (p.cardById id).isSome then some (p, [])
    else some ({ p.putCard { orphanCard id with transfer := p.nextTransfer } with
      nextCardId := max p.nextCardId (id + 1), transfers := p.transfers + 1 }, [])
  | p, .metaResp card engine m disk jobs =>
    match p.cardById card with
    | none => none
    | some found => some (p.spawn {
        kind := .pull, engine, parts := some (chooseJobDir disk jobs m engine), card := some card
        transfer := found.transfer, live := true }, [])
  | p, .offerReq engine =>
    some ({ p.spawn { kind := .inbound, engine, parts := none, card := none
                      transfer := p.nextTransfer, live := true } with
      transfers := p.transfers + 1 }, [])
  | p, .recvPush engine =>
    some ({ p.spawn { kind := .recvPush, engine, parts := some engine, card := none
                      transfer := p.nextTransfer, live := true } with
      transfers := p.transfers + 1 }, [])
  | p, .pushFiles card large =>
    match p.cardById card with
    | none => none
    | some found => some ({ p.spawn { kind := .push, engine := p.nextJobId, parts := none
                                      card := some card, transfer := found.transfer
                                      live := true } with
        nextJobId := p.nextJobId + 1
        pushControls := if large then
          Function.update p.pushControls p.nextJobId (some p.tasks.length)
          else p.pushControls }, [])
  | p, .metaReq push =>
    let next := { p with
      nextSourceJobId := p.nextSourceJobId + 1
      senderJobs := Function.update p.senderJobs p.nextSourceJobId (some p.tasks.length) }
    match push with
    | none => some ({ next.spawn { kind := .source, engine := p.nextSourceJobId, parts := none
                                   card := none, transfer := p.nextTransfer, live := true } with
        transfers := p.transfers + 1 }, [])
    | some handle =>
      -- The offer is found by its id, which this process gave it.
      match p.tasks[handle]? with
      | some task =>
        if task.kind = .push ∧ task.live then
          some (next.spawn { kind := .source, engine := p.nextSourceJobId, parts := none
                             card := task.card, transfer := task.transfer, live := true }, [])
        else none
      | none => none
  | p, .register handle =>
    match p.tasks[handle]? with
    | some task =>
      if task.kind = .pull ∧ task.live then
        some ({ p with
          taskControls := Function.update p.taskControls task.engine (some handle) }, [])
      else none
    | none => none
  | p, .unregister handle =>
    match p.tasks[handle]? with
    | some task =>
      match task.kind with
      | .pull =>
        some ({ p with taskControls := Function.update p.taskControls task.engine none }, [])
      | .source =>
        some ({ p with senderJobs := Function.update p.senderJobs task.engine none }, [])
      | .push =>
        some ({ p with pushControls := Function.update p.pushControls task.engine none }, [])
      | _ => none
    | none => none
  | p, .started handle attach =>
    match p.tasks[handle]? with
    | some task =>
      if task.live then
        let next := p.start task attach
        if task.kind = .source ∧ attach ≠ .own then some (next, [])
        else some (next, next.tell task.transfer (next.reportCard task))
      else none
    | none => none
  | p, .instantHit handle =>
    match p.tasks[handle]? with
    | some task =>
      if task.live ∧ (task.kind = .inbound ∨ task.kind = .recvPush) then
        -- The card of the file before it in the offer, if there is one.
        let next := if (p.engineCardOf task.engine).isSome then p else p.createBound task
        some (next, next.tell task.transfer (next.cardIdOf task.engine))
      else none
    | none => none
  | p, .report handle =>
    match p.tasks[handle]? with
    | some task =>
      if task.live then some (p, p.tell task.transfer (p.reportCard task)) else none
    | none => none
  | p, .childDone handle =>
    match p.tasks[handle]? with
    | some task =>
      match task.kind, task.card with
      | .push, some card => some (p.mapCard card fun found =>
        { found with children := found.children.erase none }, [])
      | _, _ => none
    | none => none
  | p, .finish handle =>
    match p.tasks[handle]? with
    | some task =>
      let next := { p with tasks := p.tasks.set handle { task with live := false } }
      match task.kind, p.pendingChildren.lookup task.engine with
      | .source, some parent => some (next.mapCard parent fun found =>
        { found with children := found.children.erase (some task.engine) }, [])
      | _, _ => some (next, [])
    | none => none
  | p, .removeParts handle =>
    match p.tasks[handle]? with
    | some task =>
      match task.parts with
      | some dir => if task.live then some (p, p.sweep task.transfer dir) else none
      | none => none
    | none => none
  | p, .fromPeer handle signal =>
    match p.tasks[handle]? with
    | some task =>
      if task.live then some (p, p.reach task.transfer (p.peerEntry task.engine signal))
      else none
    | none => none
  | p, .transferAction card =>
    match p.cardById card with
    | some found => some (p, p.actionEvents found)
    | none => none
  | p, .cancelCard card =>
    match p.cardById card with
    | some found => some (p, p.cancelEvents found)
    | none => none
  | p, .finalizeDestroy card =>
    match p.cardById card with
    | some found => some ({ p with cards := p.cards.filter fun other => other.id ≠ card },
        p.sweep found.transfer (destroyedDir found))
    | none => none

/-- Whether a card goes by an id. -/
def CardNames (p : Process) (card : TransferCard) (id : Nat) : Prop :=
  id ∈ card.ids ∨ (id, card.id) ∈ p.engineToCard ∨ (id, card.id) ∈ p.pendingChildren
deriving Decidable

/-- The transfers that an id is known to belong to. -/
def knowers (p : Process) (id : Nat) : List Transfer :=
  (p.tasks.filter fun task => task.live ∧ task.Names id).map TransferTask.transfer ++
    (p.cards.filter fun card => p.CardNames card id).map TransferCard.transfer

/-- An id is free for a transfer. -/
def KnownOnly (p : Process) (id : Nat) (transfer : Transfer) : Prop :=
  ∀ other ∈ p.knowers id, other = transfer
deriving Decidable

/-- No live task of another transfer works in a directory. -/
def DirOnly (p : Process) (dir : Nat) (transfer : Transfer) : Prop :=
  ∀ task ∈ p.tasks, task.live → task.parts = some dir → task.transfer = transfer
deriving Decidable

/-- Nothing refers to the id of a new card. -/
def Unused (p : Process) (id : Nat) : Prop :=
  p.knowers id = [] ∧ ∀ pair ∈ p.engineToCard ++ p.pendingChildren, pair.2 ≠ id
deriving Decidable

end Process

/-- The condition on one step: the id that a transfer gets is not known to belong to another one, no
other live transfer works in the directory it takes or removes, and nothing refers to the id of a
new card. -/
def knownOnlyGuard : Guard Process IdentityInput IdentityEvent :=
  fun _ p input =>
    match input with
    | .newCard => p.Unused p.nextCardId
    | .restoreDiskJob id =>
      (p.engineCardOf id).isSome = true ∨ (p.cardById id).isSome = true ∨ p.Unused id
    | .metaResp card engine m disk jobs => ∀ found ∈ p.cardById card,
        p.KnownOnly engine found.transfer ∧
          p.DirOnly (chooseJobDir disk jobs m engine) found.transfer
    | .offerReq engine => p.KnownOnly engine p.nextTransfer
    | .recvPush engine => p.KnownOnly engine p.nextTransfer ∧ p.DirOnly engine p.nextTransfer
    | .pushFiles card _ => ∀ found ∈ p.cardById card, p.KnownOnly p.nextJobId found.transfer
    | .metaReq none => p.KnownOnly p.nextSourceJobId p.nextTransfer
    | .metaReq (some handle) => ∀ task ∈ p.tasks[handle]?,
        p.KnownOnly p.nextSourceJobId task.transfer
    | .started handle attach => ∀ task ∈ p.tasks[handle]?, p.createsCard task attach = true →
        p.Unused p.nextCardId
    | .instantHit handle => ∀ task ∈ p.tasks[handle]?, p.engineCardOf task.engine = none →
        p.Unused p.nextCardId
    | .finalizeDestroy card => ∀ found ∈ p.cardById card,
        p.DirOnly (Process.destroyedDir found) found.transfer
    | _ => True

instance (trace : List IdentityEvent) (p : Process) (input : IdentityInput) :
    Decidable (knownOnlyGuard trace p input) := by
  unfold knownOnlyGuard
  split <;> infer_instance

namespace Process

/-- Some registry has an entry under an id. -/
def Listed (p : Process) (id handle : Nat) : Prop :=
  p.taskControls id = some handle ∨ p.senderJobs id = some handle ∨
    p.pushControls id = some handle

/-- An id belongs to one transfer, live tasks of different transfers work in different directories,
and every entry of a registry leads to a task that goes by its id. -/
structure Apart (p : Process) : Prop where
  known : ∀ id one other, one ∈ p.knowers id → other ∈ p.knowers id → one = other
  parts : ∀ task ∈ p.tasks, task.live = true → ∀ dir ∈ task.parts, p.DirOnly dir task.transfer
  listed : ∀ id handle, p.Listed id handle →
    ∃ task, p.tasks[handle]? = some task ∧ task.engine = id

/-- No two live tasks of different transfers have a parts directory, an id, an entry of a registry
or a card of the mapping in common. -/
structure Separate (p : Process) : Prop where
  parts : ∀ one ∈ p.tasks, ∀ other ∈ p.tasks, one.live = true → other.live = true →
    one.transfer ≠ other.transfer → ∀ dir, one.parts = some dir → other.parts ≠ some dir
  engine : ∀ one ∈ p.tasks, ∀ other ∈ p.tasks, one.live = true → other.live = true →
    one.transfer ≠ other.transfer → one.engine ≠ other.engine
  listed : ∀ task ∈ p.tasks, task.live = true → ∀ handle, p.Listed task.engine handle →
    ∀ found, p.tasks[handle]? = some found → found.live = true → found.transfer = task.transfer
  card : ∀ task ∈ p.tasks, task.live = true → ∀ card,
    p.cardById (p.cardIdOf task.engine) = some card → card.transfer = task.transfer

variable {p next : Process} {id card engine handle dir : Nat} {one other transfer : Transfer}
  {task : TransferTask} {found : TransferCard} {ids : List Nat}

theorem mem_knowers :
    transfer ∈ p.knowers id ↔
      (∃ task ∈ p.tasks, task.live = true ∧ task.Names id ∧ task.transfer = transfer) ∨
        ∃ card ∈ p.cards, p.CardNames card id ∧ card.transfer = transfer := by
  simp only [knowers, List.mem_append, List.mem_map, List.mem_filter, Bool.decide_and,
    Bool.decide_eq_true, Bool.and_eq_true, decide_eq_true_eq]
  constructor
  · rintro (⟨task, ⟨hmem, hlive, hname⟩, rfl⟩ | ⟨card, ⟨hmem, hname⟩, rfl⟩)
    · exact .inl ⟨task, hmem, hlive, hname, rfl⟩
    · exact .inr ⟨card, hmem, hname, rfl⟩
  · rintro (⟨task, hmem, hlive, hname, rfl⟩ | ⟨card, hmem, hname, rfl⟩)
    · exact .inl ⟨task, ⟨hmem, hlive, hname⟩, rfl⟩
    · exact .inr ⟨card, ⟨hmem, hname⟩, rfl⟩

/-- A live task knows its ids. -/
theorem knows_task (hmem : task ∈ p.tasks) (hlive : task.live = true) (hname : task.Names id) :
    task.transfer ∈ p.knowers id :=
  mem_knowers.mpr (.inl ⟨task, hmem, hlive, hname, rfl⟩)

/-- A card knows its ids. -/
theorem knows_card (hmem : found ∈ p.cards) (hname : p.CardNames found id) :
    found.transfer ∈ p.knowers id :=
  mem_knowers.mpr (.inr ⟨found, hmem, hname, rfl⟩)

theorem card_names_self : p.CardNames found found.id :=
  .inl (List.mem_cons_self ..)

/-- What `cardById` finds is a card of the given id. -/
theorem mem_of_card_by_id (h : p.cardById id = some found) : found ∈ p.cards ∧ found.id = id :=
  ⟨List.mem_of_find?_eq_some h, by simpa using List.find?_some h⟩

/-- The job of a binding is in it. -/
theorem mem_of_lookup {pairs : List (Nat × Nat)} (h : pairs.lookup engine = some card) :
    (engine, card) ∈ pairs := by
  obtain ⟨before, after, rfl, -⟩ := List.lookup_eq_some_iff.mp h
  simp

/-- What one transfer knows is free for it. -/
theorem Apart.knownOnly (h : p.Apart) (hknows : transfer ∈ p.knowers id) :
    p.KnownOnly id transfer :=
  fun _ hother => h.known id _ _ hother hknows

/-- The id of a card is free for its transfer. -/
theorem Apart.known_by_card (h : p.Apart) (hcard : p.cardById card = some found) :
    p.KnownOnly card found.transfer := by
  obtain ⟨hmem, rfl⟩ := mem_of_card_by_id hcard
  exact h.knownOnly (knows_card hmem card_names_self)

/-- A card that goes by an id is a card of the transfer the id is free for. -/
theorem KnownOnly.owner (h : p.KnownOnly id transfer) (hmem : found ∈ p.cards)
    (hname : p.CardNames found id) : found.transfer = transfer :=
  h _ (knows_card hmem hname)

/-- The card that an event of a live task is for, if there is one, is of its transfer. -/
theorem Apart.report_card (h : p.Apart) (hmem : task ∈ p.tasks) (hlive : task.live = true)
    (hfound : p.cardById (p.reportCard task) = some found) : found.transfer = task.transfer := by
  obtain ⟨hcard, hid⟩ := mem_of_card_by_id hfound
  have hengine : p.KnownOnly task.engine task.transfer :=
    h.knownOnly (knows_task hmem hlive (.inl rfl))
  have hown : ∀ card, task.card = some card → found.id = card → found.transfer = task.transfer := by
    intro card hsome hsame
    have honly : p.KnownOnly card task.transfer := h.knownOnly (knows_task hmem hlive (.inr hsome))
    exact honly.owner hcard (hsame ▸ card_names_self)
  have hmapped : found.id = p.cardIdOf task.engine → found.transfer = task.transfer := by
    intro hsame
    refine hengine.owner hcard ?_
    cases hlookup : p.engineCardOf task.engine with
    | none =>
      have heq : found.id = task.engine := by simpa [cardIdOf, hlookup] using hsame
      exact heq ▸ card_names_self
    | some card =>
      have heq : found.id = card := by simpa [cardIdOf, hlookup] using hsame
      exact .inr (.inl (heq ▸ mem_of_lookup hlookup))
  unfold reportCard at hid
  split at hid
  · next card hkind hsome => exact hown _ hsome hid
  · next card hkind hsome => exact hown _ hsome hid
  · next hkind =>
    cases hparent : p.pendingChildren.lookup task.engine with
    | none => exact hmapped (by simpa [hparent] using hid)
    | some parent =>
      have heq : found.id = parent := by simpa [hparent] using hid
      exact hengine.owner hcard (.inr (.inr (heq ▸ mem_of_lookup hparent)))
  · exact hmapped hid

/-- A card of the transfer is told of its events. -/
theorem tell_own (h : ∀ found, p.cardById id = some found → found.transfer = transfer) :
    ∀ event ∈ p.tell transfer id, event.Own := by
  intro event hevent
  unfold tell at hevent
  split at hevent
  · next found hfound =>
    obtain rfl := List.mem_singleton.mp hevent
    exact (h found hfound).symm
  · cases hevent

/-- An entry under an id of the transfer leads to a task of the transfer. -/
theorem Apart.reach_own (h : p.Apart) {entry : Option Nat}
    (hentry : ∀ handle, entry = some handle → ∃ id, p.Listed id handle ∧ p.KnownOnly id transfer) :
    ∀ event ∈ p.reach transfer entry, event.Own := by
  intro event hevent
  unfold reach at hevent
  split at hevent
  · next task htask =>
    split at hevent
    · next hlive =>
      obtain rfl := List.mem_singleton.mp hevent
      obtain ⟨handle, hhandle, hget⟩ := Option.bind_eq_some_iff.mp htask
      obtain ⟨id, hlisted, honly⟩ := hentry handle hhandle
      obtain ⟨found, hfound, rfl⟩ := h.listed id handle hlisted
      obtain rfl : found = task := Option.some.inj (hfound.symm.trans hget)
      have hknows := knows_task (List.mem_of_getElem? hget) hlive (.inl rfl)
      exact (honly _ hknows).symm
    · cases hevent
  · cases hevent

/-- Only tasks of the transfer lose files. -/
theorem DirOnly.sweep_own (h : p.DirOnly dir transfer) :
    ∀ event ∈ p.sweep transfer dir, event.Own := by
  intro event hevent
  obtain ⟨task, hmem, rfl⟩ := List.mem_map.mp hevent
  obtain ⟨htask, hlive, hparts⟩ : task ∈ p.tasks ∧ task.live = true ∧ task.parts = some dir := by
    simpa using List.mem_filter.mp hmem
  exact (h task htask hlive hparts).symm

/-- In a process that is apart, live transfers are separate. -/
theorem Apart.separate (h : p.Apart) : p.Separate := by
  refine ⟨?_, ?_, ?_, ?_⟩
  · intro one hone other hother hlive hlive' hne dir hdir hdir'
    exact hne (h.parts other hother hlive' dir hdir' one hone hlive hdir)
  · intro one hone other hother hlive hlive' hne hsame
    exact hne (h.known one.engine _ _ (knows_task hone hlive (.inl rfl))
      (knows_task hother hlive' (.inl hsame.symm)))
  · intro task hmem hlive handle hlisted found hfound hlive'
    obtain ⟨other, hother, hengine⟩ := h.listed _ _ hlisted
    obtain rfl : other = found := Option.some.inj (hother.symm.trans hfound)
    exact h.known task.engine _ _
      (knows_task (List.mem_of_getElem? hfound) hlive' (.inl hengine))
      (knows_task hmem hlive (.inl rfl))
  · intro task hmem hlive card hcard
    obtain ⟨hmemCard, hid⟩ := mem_of_card_by_id hcard
    have honly : p.KnownOnly task.engine task.transfer :=
      h.knownOnly (knows_task hmem hlive (.inl rfl))
    refine honly.owner hmemCard ?_
    cases hlookup : p.engineCardOf task.engine with
    | none =>
      have heq : card.id = task.engine := by simpa [cardIdOf, hlookup] using hid
      exact heq ▸ card_names_self
    | some mapped =>
      have heq : card.id = mapped := by simpa [cardIdOf, hlookup] using hid
      exact .inr (.inl (heq ▸ mem_of_lookup hlookup))

/-- What is known after a change was known before, or an id of the given ones has become known to
the transfer. -/
def Grows (p next : Process) (ids : List Nat) (transfer : Transfer) : Prop :=
  ∀ id other, other ∈ next.knowers id → other ∈ p.knowers id ∨ id ∈ ids ∧ other = transfer

/-- Changes of the cards and mappings, seen card by card. -/
theorem grows_of_cards (htasks : next.tasks = p.tasks)
    (hcards : ∀ found ∈ next.cards, ∀ id, next.CardNames found id →
      (∃ card ∈ p.cards, p.CardNames card id ∧ card.transfer = found.transfer) ∨
        id ∈ ids ∧ found.transfer = transfer) : Grows p next ids transfer := by
  intro id other hother
  rcases mem_knowers.mp hother with ⟨task, hmem, hlive, hname, rfl⟩ | ⟨found, hmem, hname, rfl⟩
  · exact .inl (knows_task (htasks ▸ hmem) hlive hname)
  · rcases hcards found hmem id hname with ⟨card, hcard, hname, hsame⟩ | hnew
    · exact .inl (hsame ▸ knows_card hcard hname)
    · exact .inr hnew

/-- An id stays with one transfer when it grows by ids that are free for that transfer. -/
theorem Grows.unique (hgrows : Grows p next ids transfer)
    (hids : ∀ id ∈ ids, p.KnownOnly id transfer)
    (h : ∀ id one other, one ∈ p.knowers id → other ∈ p.knowers id → one = other) :
    ∀ id one other, one ∈ next.knowers id → other ∈ next.knowers id → one = other := by
  intro id one other hone hother
  rcases hgrows id one hone with hone | ⟨hid, rfl⟩
  · rcases hgrows id other hother with hother | ⟨hid, rfl⟩
    · exact h id one other hone hother
    · exact hids id hid one hone
  · rcases hgrows id other hother with hother | ⟨-, rfl⟩
    · exact (hids id hid other hother).symm
    · rfl

/-- Two changes for one transfer. -/
theorem Grows.trans {mid : Process} {more : List Nat} (hfirst : Grows p mid ids transfer)
    (hsecond : Grows mid next more transfer) : Grows p next (ids ++ more) transfer := by
  intro id other hother
  rcases hsecond id other hother with hmid | ⟨hid, hsame⟩
  · rcases hfirst id other hmid with hold | ⟨hid, hsame⟩
    · exact .inl hold
    · exact .inr ⟨List.mem_append_left _ hid, hsame⟩
  · exact .inr ⟨List.mem_append_right _ hid, hsame⟩

/-- A mapping to a card of the transfer. -/
theorem grows_bind_passive
    (hcard : ∀ found ∈ p.cards, found.id = card → found.transfer = transfer) :
    Grows p (p.bindPassive engine card) [engine] transfer := by
  refine grows_of_cards rfl fun found hmem id hname => ?_
  rcases hname with hids | hmap | hparent
  · exact .inl ⟨found, hmem, .inl hids, rfl⟩
  · rcases List.mem_cons.mp hmap with hnew | hold
    · obtain ⟨rfl, hid⟩ : id = engine ∧ found.id = card := by simpa using hnew
      exact .inr ⟨List.mem_singleton_self _, hcard found hmem hid⟩
    · exact .inl ⟨found, hmem, .inr (.inl (List.mem_of_mem_filter hold)), rfl⟩
  · exact .inl ⟨found, hmem, .inr (.inr hparent), rfl⟩

/-- A card of the transfer changes in place, and refers to no id that is not given. -/
theorem grows_map_card {f : TransferCard → TransferCard}
    (hid : ∀ found, (f found).id = found.id) (hsame : ∀ found, (f found).transfer = found.transfer)
    (hids : ∀ found, ∀ id ∈ (f found).ids, id ∈ found.ids ∨ id ∈ ids)
    (hcard : ∀ found ∈ p.cards, found.id = card → found.transfer = transfer) :
    Grows p (p.mapCard card f) ids transfer := by
  refine grows_of_cards rfl fun found hmem id hname => ?_
  obtain ⟨before, hbefore, rfl⟩ := List.mem_map.mp hmem
  by_cases hthis : before.id = card
  · rw [if_pos hthis] at hname ⊢
    rw [hsame before]
    rcases hname with hname | hmap | hparent
    · rcases hids before id hname with hold | hnew
      · exact .inl ⟨before, hbefore, .inl hold, rfl⟩
      · exact .inr ⟨hnew, hcard before hbefore hthis⟩
    · exact .inl ⟨before, hbefore, .inr (.inl (hid before ▸ hmap)), rfl⟩
    · exact .inl ⟨before, hbefore, .inr (.inr (hid before ▸ hparent)), rfl⟩
  · rw [if_neg hthis] at hname ⊢
    exact .inl ⟨before, hbefore, hname, rfl⟩

/-- The id of the card becomes known by `bind_engine_id`. -/
theorem grows_bind_engine_id
    (hcard : ∀ found ∈ p.cards, found.id = card → found.transfer = transfer) :
    Grows p (p.bindEngineId engine card) [engine, engine] transfer := by
  refine (grows_bind_passive hcard).trans
    (grows_map_card (fun _ => rfl) (fun _ => rfl) (fun found id hid => ?_) hcard)
  simp only [TransferCard.ids, Option.toList_some, List.singleton_append, List.mem_cons,
    List.mem_append] at hid ⊢
  tauto

/-- A batch has one more child. -/
theorem grows_bind_child
    (hcard : ∀ found ∈ p.cards, found.id = card → found.transfer = transfer) :
    Grows p (p.bindChild engine card) [engine, engine] transfer := by
  have hmap : Grows p (p.mapCard card fun found =>
      { found with children := found.children ++ [some engine], offerJob := some engine })
      [engine] transfer := by
    refine grows_map_card (fun _ => rfl) (fun _ => rfl) (fun found id hid => ?_) hcard
    simp only [TransferCard.ids, List.reduceOption_append, List.reduceOption_singleton,
      Option.toList_some, List.mem_cons, List.mem_append] at hid ⊢
    tauto
  refine hmap.trans (grows_of_cards rfl fun found hmem id hname => ?_)
  rcases hname with hids | hmapped | hparent
  · exact .inl ⟨found, hmem, .inl hids, rfl⟩
  · exact .inl ⟨found, hmem, .inr (.inl hmapped), rfl⟩
  · rcases List.mem_cons.mp hparent with hnew | hold
    · obtain ⟨rfl, hid⟩ : id = engine ∧ found.id = card := by simpa using hnew
      obtain ⟨before, hbefore, rfl⟩ := List.mem_map.mp hmem
      refine .inr ⟨List.mem_singleton_self _, ?_⟩
      by_cases hthis : before.id = card
      · rw [if_pos hthis]
        exact hcard before hbefore hthis
      · rw [if_neg hthis] at hid
        exact absurd hid hthis
    · exact .inl ⟨found, hmem, .inr (.inr (List.mem_of_mem_filter hold)), rfl⟩

/-- Nothing is known of an id that is not used. -/
theorem Unused.knownOnly (h : p.Unused id) : p.KnownOnly id transfer := by
  intro other hother
  rw [h.1] at hother
  cases hother

/-- A new card under an id that is not used; it refers to no other id. -/
theorem grows_put_card (hunused : p.Unused found.id) (hids : ∀ id ∈ found.ids, id = found.id) :
    Grows p (p.putCard found) [found.id] found.transfer := by
  refine grows_of_cards rfl fun other hmem id hname => ?_
  rcases List.mem_cons.mp hmem with rfl | hold
  · refine .inr ⟨List.mem_singleton.mpr ?_, rfl⟩
    rcases hname with hname | hmap | hparent
    · exact hids id hname
    · exact absurd rfl (hunused.2 _ (List.mem_append_left _ hmap))
    · exact absurd rfl (hunused.2 _ (List.mem_append_right _ hparent))
  · exact .inl ⟨other, List.mem_of_mem_filter hold, hname, rfl⟩

/-- `card_create`. -/
theorem grows_card_create {partsId : Option Nat} (hunused : p.Unused p.nextCardId) :
    Grows p (p.cardCreate partsId transfer) [p.nextCardId] transfer := by
  have hput : Grows p (p.putCard ⟨p.nextCardId, none, partsId, [], none, transfer⟩)
      [p.nextCardId] transfer := grows_put_card hunused (by simp [TransferCard.ids])
  exact fun id other hother => hput id other hother

/-- The card of a task that starts is created and bound. -/
theorem grows_create_bound (hunused : p.Unused p.nextCardId) :
    Grows p (p.createBound task) ([p.nextCardId] ++ [task.engine, task.engine]) task.transfer := by
  refine (grows_card_create hunused).trans (grows_bind_engine_id fun found hmem hid => ?_)
  rcases List.mem_cons.mp hmem with rfl | hold
  · rfl
  · have hother : found.id ≠ p.nextCardId := by simpa using (List.mem_filter.mp hold).2
    exact absurd hid hother

/-- Cards and mappings change for one transfer, by ids that are free for it. -/
theorem Apart.grow (h : p.Apart) (htasks : next.tasks = p.tasks)
    (hlisted : ∀ id handle, next.Listed id handle → p.Listed id handle)
    (hgrows : Grows p next ids transfer) (hids : ∀ id ∈ ids, p.KnownOnly id transfer) :
    next.Apart := by
  refine ⟨hgrows.unique hids h.known, ?_, ?_⟩
  · intro task hmem hlive dir hdir other hother
    exact h.parts task (htasks ▸ hmem) hlive dir hdir other (htasks ▸ hother)
  · intro id handle hentry
    rw [htasks]
    exact h.listed id handle (hlisted id handle hentry)

/-- Cards and their ids only go. -/
theorem Apart.shrink (h : p.Apart) (htasks : next.tasks = p.tasks)
    (hlisted : ∀ id handle, next.Listed id handle → p.Listed id handle)
    (hcards : ∀ found ∈ next.cards, ∀ id, next.CardNames found id →
      ∃ card ∈ p.cards, p.CardNames card id ∧ card.transfer = found.transfer) : next.Apart := by
  have hgrows : Grows p next [] p.nextTransfer :=
    grows_of_cards htasks fun found hmem id hname => .inl (hcards found hmem id hname)
  exact h.grow htasks hlisted hgrows fun _ hid => absurd hid List.not_mem_nil

/-- A task begins under an id that is free for its transfer, in a directory no other works in. -/
theorem Apart.spawn (h : p.Apart) (htasks : next.tasks = p.tasks ++ [task])
    (hcards : next.cards = p.cards) (hmap : next.engineToCard = p.engineToCard)
    (hchildren : next.pendingChildren = p.pendingChildren)
    (hlisted : ∀ id handle, next.Listed id handle →
      p.Listed id handle ∨ id = task.engine ∧ handle = p.tasks.length)
    (hengine : p.KnownOnly task.engine task.transfer)
    (hcard : ∀ card ∈ task.card, p.KnownOnly card task.transfer)
    (hdir : ∀ dir ∈ task.parts, p.DirOnly dir task.transfer) : next.Apart := by
  have hgrows : Grows p next (task.engine :: task.card.toList) task.transfer := by
    intro id other hother
    rcases mem_knowers.mp hother with ⟨found, hmem, hlive, hname, rfl⟩ | ⟨found, hmem, hname, rfl⟩
    · rw [htasks] at hmem
      rcases List.mem_append.mp hmem with hold | hnew
      · exact .inl (knows_task hold hlive hname)
      · obtain rfl := List.mem_singleton.mp hnew
        refine .inr ⟨?_, rfl⟩
        rcases hname with rfl | hname
        · exact List.mem_cons_self ..
        · exact List.mem_cons_of_mem _ (by simp [hname])
    · refine .inl (knows_card (hcards ▸ hmem) ?_)
      rcases hname with hids | hmapped | hparent
      · exact .inl hids
      · exact .inr (.inl (hmap ▸ hmapped))
      · exact .inr (.inr (hchildren ▸ hparent))
  refine ⟨hgrows.unique ?_ h.known, ?_, ?_⟩
  · intro id hid
    rcases List.mem_cons.mp hid with rfl | hid
    · exact hengine
    · exact hcard id (by simpa using hid)
  · intro one hone hlive dir hone' other hother hlive' hother'
    rw [htasks] at hone hother
    rcases List.mem_append.mp hone with hold | hnew
    · rcases List.mem_append.mp hother with hold' | hnew
      · exact h.parts one hold hlive dir hone' other hold' hlive' hother'
      · obtain rfl := List.mem_singleton.mp hnew
        exact (hdir dir hother' one hold hlive hone').symm
    · obtain rfl := List.mem_singleton.mp hnew
      rcases List.mem_append.mp hother with hold | hnew
      · exact hdir dir hone' other hold hlive' hother'
      · obtain rfl := List.mem_singleton.mp hnew
        rfl
  · intro id handle hentry
    rw [htasks]
    rcases hlisted id handle hentry with hold | ⟨rfl, rfl⟩
    · obtain ⟨found, hget, hsame⟩ := h.listed id handle hold
      exact ⟨found, List.getElem?_append_left (List.getElem?_eq_some_iff.mp hget).1 ▸ hget, hsame⟩
    · exact ⟨task, by simp, rfl⟩

/-- A card that has lost a child goes by no id it did not have. -/
theorem erase_child_names {erased : Option Nat}
    (hmem : found ∈ p.cards.map fun other => if other.id = card then
      { other with children := other.children.erase erased } else other)
    (hname : p.CardNames found id) :
    ∃ before ∈ p.cards, p.CardNames before id ∧ before.transfer = found.transfer := by
  obtain ⟨before, hbefore, rfl⟩ := List.mem_map.mp hmem
  refine ⟨before, hbefore, ?_, by split <;> rfl⟩
  split at hname
  · rcases hname with hids | hmapped
    · refine .inl ?_
      simp only [TransferCard.ids, List.mem_cons, List.mem_append,
        List.reduceOption_mem_iff] at hids ⊢
      rcases hids with hid | (hid | hid) | hid
      · exact .inl hid
      · exact .inr (.inl (.inl hid))
      · exact .inr (.inl (.inr (List.mem_of_mem_erase hid)))
      · exact .inr (.inr hid)
    · exact .inr hmapped
  · exact hname

/-- A task ends, and a child of a batch with it. -/
theorem Apart.finish (h : p.Apart) (hget : p.tasks[handle]? = some task)
    (htasks : next.tasks = p.tasks.set handle { task with live := false })
    (hlisted : ∀ id handle, next.Listed id handle → p.Listed id handle)
    (hcards : ∀ found ∈ next.cards, ∀ id, next.CardNames found id →
      ∃ card ∈ p.cards, p.CardNames card id ∧ card.transfer = found.transfer) : next.Apart := by
  -- The live tasks are among those of before.
  have hlive : ∀ other ∈ next.tasks, other.live = true → other ∈ p.tasks := by
    intro other hmem hlive
    rw [htasks] at hmem
    rcases List.mem_or_eq_of_mem_set hmem with hold | rfl
    · exact hold
    · cases hlive
  have hgrows : Grows p next [] task.transfer := by
    intro id other hother
    rcases mem_knowers.mp hother with ⟨found, hmem, halive, hname, rfl⟩ | ⟨found, hmem, hname, rfl⟩
    · exact .inl (knows_task (hlive found hmem halive) halive hname)
    · obtain ⟨card, hcard, hname, hsame⟩ := hcards found hmem id hname
      exact .inl (hsame ▸ knows_card hcard hname)
  refine ⟨hgrows.unique (fun _ hid => absurd hid List.not_mem_nil) h.known, ?_, ?_⟩
  · intro one hone halive dir hdir other hother halive' hdir'
    exact h.parts one (hlive one hone halive) halive dir hdir other (hlive other hother halive')
      halive' hdir'
  · intro id other hentry
    obtain ⟨found, hfound, hsame⟩ := h.listed id other (hlisted id other hentry)
    rw [htasks]
    by_cases hthis : handle = other
    · subst hthis
      obtain rfl : found = task := Option.some.inj (hfound.symm.trans hget)
      have hlt : handle < p.tasks.length := (List.getElem?_eq_some_iff.mp hget).1
      exact ⟨{ found with live := false }, by simp [hlt], hsame⟩
    · exact ⟨found, by rw [List.getElem?_set_ne hthis]; exact hfound, hsame⟩

/-- An entry leaves a registry, or one of the own task comes in. -/
theorem Apart.enlist (h : p.Apart) (htasks : next.tasks = p.tasks) (hcards : next.cards = p.cards)
    (hmap : next.engineToCard = p.engineToCard)
    (hchildren : next.pendingChildren = p.pendingChildren)
    (hget : p.tasks[handle]? = some task)
    (hlisted : ∀ id other, next.Listed id other →
      p.Listed id other ∨ id = task.engine ∧ other = handle) : next.Apart := by
  have hgrows : Grows p next [] task.transfer := by
    refine grows_of_cards htasks fun found hmem id hname => .inl ⟨found, hcards ▸ hmem, ?_, rfl⟩
    rcases hname with hids | hmapped | hparent
    · exact .inl hids
    · exact .inr (.inl (hmap ▸ hmapped))
    · exact .inr (.inr (hchildren ▸ hparent))
  refine ⟨hgrows.unique (fun _ hid => absurd hid List.not_mem_nil) h.known, ?_, ?_⟩
  · intro one hone hlive dir hdir other hother
    exact h.parts one (htasks ▸ hone) hlive dir hdir other (htasks ▸ hother)
  · intro id other hentry
    rw [htasks]
    rcases hlisted id other hentry with hold | ⟨rfl, rfl⟩
    · exact h.listed id other hold
    · exact ⟨task, hget, rfl⟩

/-- A registry that gets one entry more. -/
theorem put_cases {registry : Nat → Option Nat} {key value : Nat}
    (h : Function.update registry key (some value) id = some handle) :
    registry id = some handle ∨ id = key ∧ handle = value := by
  rw [Function.update_apply] at h
  split at h
  · next hsame => exact .inr ⟨hsame, (Option.some.inj h).symm⟩
  · exact .inl h

/-- A registry that loses an entry. -/
theorem erase_cases {registry : Nat → Option Nat} {key : Nat}
    (h : Function.update registry key none id = some handle) : registry id = some handle := by
  rw [Function.update_apply] at h
  obtain ⟨-, h⟩ := of_unless h
  exact h

/-- The shell binds or makes the card of a task of the transfer. -/
theorem Apart.start (h : p.Apart) (hmem : task ∈ p.tasks) (hlive : task.live = true)
    {attach : Attach} (hunused : p.createsCard task attach = true → p.Unused p.nextCardId) :
    (p.start task attach).Apart := by
  have hengine : p.KnownOnly task.engine task.transfer :=
    h.knownOnly (knows_task hmem hlive (.inl rfl))
  have hcard : ∀ card, task.card = some card → ∀ found ∈ p.cards, found.id = card →
      found.transfer = task.transfer := by
    intro card hsome found hfound hid
    have honly : p.KnownOnly card task.transfer := h.knownOnly (knows_task hmem hlive (.inr hsome))
    exact honly.owner hfound (hid ▸ card_names_self)
  have hids : ∀ id ∈ [task.engine, task.engine], p.KnownOnly id task.transfer := by
    simpa using hengine
  unfold Process.start
  split
  · next hcreates =>
    have hfree := hunused hcreates
    refine h.grow rfl (fun _ _ hentry => hentry) (grows_create_bound hfree) fun id hid => ?_
    rcases List.mem_append.mp hid with hid | hid
    · exact List.mem_singleton.mp hid ▸ hfree.knownOnly
    · exact hids id hid
  · split
    · next card _ hsome _ =>
      have hgrows : Grows p (p.mapCard card fun found =>
          { found with children := found.children ++ [none] }) [] task.transfer := by
        refine grows_map_card (fun _ => rfl) (fun _ => rfl) (fun found id hid => .inl ?_)
          (hcard _ hsome)
        simpa [TransferCard.ids, List.reduceOption_append] using hid
      exact h.grow rfl (fun _ _ hentry => hentry) hgrows (fun _ hid => absurd hid List.not_mem_nil)
    · next card _ hsome _ =>
      split
      · exact h
      · exact h.grow rfl (fun _ _ hentry => hentry) (grows_bind_engine_id (hcard _ hsome)) hids
    · next card _ hsome _ =>
      split
      · exact h
      · exact h.grow rfl (fun _ _ hentry => hentry) (grows_bind_engine_id (hcard _ hsome)) hids
    · next card _ hsome _ =>
      exact h.grow rfl (fun _ _ hentry => hentry) (grows_bind_passive (hcard _ hsome))
        (by simpa using hengine)
    · next card _ hsome _ =>
      exact h.grow rfl (fun _ _ hentry => hentry) (grows_bind_child (hcard _ hsome)) hids
    · exact h

/-- The controls of a card reach only tasks of its transfer. -/
theorem Apart.card_reach (h : p.Apart) (hcard : found ∈ p.cards) (hid : id ∈ found.ids)
    {entry : Option Nat} (hentry : ∀ handle, entry = some handle → p.Listed id handle) :
    ∀ event ∈ p.reach found.transfer entry, event.Own :=
  h.reach_own fun handle hsome =>
    ⟨id, hentry handle hsome, h.knownOnly (knows_card hcard (.inl hid))⟩

/-- The id that a card's controls go to is one of its ids. -/
theorem action_id_mem : found.engineId.getD found.id ∈ found.ids := by
  cases hengine : found.engineId <;> simp [TransferCard.ids, hengine]

theorem action_events_own (h : p.Apart) (hcard : found ∈ p.cards) :
    ∀ event ∈ p.actionEvents found, event.Own := by
  intro event hevent
  unfold actionEvents at hevent
  split at hevent
  · obtain ⟨job, hjob, hevent⟩ := List.mem_flatMap.mp hevent
    have hid : job ∈ found.ids := by
      simp only [TransferCard.ids, List.mem_cons, List.mem_append] at hjob ⊢
      tauto
    rcases List.mem_append.mp hevent with hevent | hevent
    · exact h.card_reach hcard hid (fun _ hsome => .inr (.inl hsome)) event hevent
    · exact h.card_reach hcard hid (fun _ hsome => .inr (.inr hsome)) event hevent
  · refine h.card_reach hcard action_id_mem (fun handle hsome => ?_) event hevent
    rcases Option.or_eq_some_iff.mp hsome with hsome | ⟨-, hsome⟩
    · rcases Option.or_eq_some_iff.mp hsome with hsome | ⟨-, hsome⟩
      · exact .inr (.inl hsome)
      · exact .inr (.inr hsome)
    · exact .inl hsome

theorem cancel_events_own (h : p.Apart) (hcard : found ∈ p.cards) :
    ∀ event ∈ p.cancelEvents found, event.Own := by
  intro event hevent
  rcases List.mem_append.mp hevent with hevent | hevent
  · rcases List.mem_append.mp hevent with hevent | hevent
    · exact h.card_reach hcard action_id_mem (fun _ hsome => .inr (.inl hsome)) event hevent
    · exact h.card_reach hcard action_id_mem (fun _ hsome => .inr (.inr hsome)) event hevent
  · exact h.card_reach hcard action_id_mem (fun _ hsome => .inl hsome) event hevent

/-- What the peer of a task sends reaches a registry entry under the id of the task. -/
theorem listed_of_peer_entry {signal : PeerSignal} (h : p.peerEntry engine signal = some handle) :
    p.Listed engine handle := by
  cases signal with
  | cancel =>
    rcases Option.or_eq_some_iff.mp h with hsome | ⟨-, hsome⟩
    · exact .inr (.inl hsome)
    · exact .inl hsome
  | pause => exact .inl h
  | received => exact .inr (.inl h)

/-- A task that was live is so after the shell has handled its start. -/
theorem start_tasks {attach : Attach} : (p.start task attach).tasks = p.tasks := by
  unfold Process.start
  split
  · rfl
  · split <;> first | rfl | (split <;> rfl)

/-- What a step is answered with. -/
theorem own_answer {after : Process} {events emitted : List IdentityEvent}
    (hstep : some (after, events) = some (next, emitted)) (hafter : after.Apart)
    (hevents : ∀ event ∈ events, event.Own) : next.Apart ∧ ∀ event ∈ emitted, event.Own := by
  obtain ⟨rfl, rfl⟩ := answer_inj hstep
  exact ⟨hafter, hevents⟩

theorem quiet_answer {after : Process} {emitted : List IdentityEvent}
    (hstep : some (after, []) = some (next, emitted)) (hafter : after.Apart) :
    next.Apart ∧ ∀ event ∈ emitted, event.Own :=
  own_answer hstep hafter (by simp)

/-- One step keeps the transfers apart, and reaches only the transfer it is done for. -/
theorem Apart.step (h : p.Apart) {trace emitted : List IdentityEvent} {input : IdentityInput}
    (hguard : knownOnlyGuard trace p input) (hstep : Process.step p input = some (next, emitted)) :
    next.Apart ∧ ∀ event ∈ emitted, event.Own := by
  cases input with simp only [Process.step] at hstep
  | newCard =>
    have hunused : p.Unused p.nextCardId := hguard
    exact quiet_answer hstep (h.grow rfl (fun _ _ hentry => hentry) (grows_card_create hunused)
      (by simpa using hunused.knownOnly))
  | restoreDiskJob id =>
    split at hstep
    · exact quiet_answer hstep h
    · next hnew =>
      have hunused : p.Unused id := by
        rcases hguard with hmapped | hcard | hunused
        · exact absurd (.inl hmapped) hnew
        · exact absurd (.inr hcard) hnew
        · exact hunused
      have hput : Grows p (p.putCard { orphanCard id with transfer := p.nextTransfer }) [id]
          p.nextTransfer := grows_put_card hunused (by simp [TransferCard.ids, orphanCard])
      exact quiet_answer hstep (h.grow rfl (fun _ _ hentry => hentry) hput
        (by simpa using hunused.knownOnly))
  | metaResp card engine m disk jobs =>
    split at hstep
    · cases hstep
    · next found hfound =>
      obtain ⟨honly, hdir⟩ := hguard found hfound
      refine quiet_answer hstep (h.spawn rfl rfl rfl rfl (fun _ _ hentry => .inl hentry) honly
        ?_ ?_)
      · rintro other ⟨⟩
        exact h.known_by_card hfound
      · rintro other ⟨⟩
        exact hdir
  | offerReq engine =>
    exact quiet_answer hstep (h.spawn rfl rfl rfl rfl (fun _ _ hentry => .inl hentry) hguard
      (fun _ hnone => by cases hnone) (fun _ hnone => by cases hnone))
  | recvPush engine =>
    refine quiet_answer hstep (h.spawn rfl rfl rfl rfl (fun _ _ hentry => .inl hentry) hguard.1
      (fun _ hnone => by cases hnone) ?_)
    rintro other ⟨⟩
    exact hguard.2
  | pushFiles card large =>
    split at hstep
    · cases hstep
    · next found hfound =>
      refine quiet_answer hstep (h.spawn rfl rfl rfl rfl (fun id other hentry => ?_)
        (hguard found hfound) ?_ (fun _ hnone => by cases hnone))
      · cases large with
        | false => exact .inl hentry
        | true =>
          rcases hentry with hentry | hentry | hentry
          · exact .inl (.inl hentry)
          · exact .inl (.inr (.inl hentry))
          · exact (put_cases hentry).imp_left fun hold => .inr (.inr hold)
      · rintro other ⟨⟩
        exact h.known_by_card hfound
  | metaReq push =>
    -- The new task is the only one that enters a registry.
    have hentries : ∀ id other, p.taskControls id = some other ∨
        Function.update p.senderJobs p.nextSourceJobId (some p.tasks.length) id = some other ∨
        p.pushControls id = some other →
        p.Listed id other ∨ id = p.nextSourceJobId ∧ other = p.tasks.length := by
      intro id other hentry
      rcases hentry with hentry | hentry | hentry
      · exact .inl (.inl hentry)
      · exact (put_cases hentry).imp_left fun hold => .inr (.inl hold)
      · exact .inl (.inr (.inr hentry))
    cases push with
    | none =>
      exact quiet_answer hstep (h.spawn rfl rfl rfl rfl hentries hguard
        (fun _ hnone => by cases hnone) (fun _ hnone => by cases hnone))
    | some handle =>
      simp only [Process.step] at hstep
      split at hstep
      · next task htask =>
        obtain ⟨hlive, hstep⟩ := of_when hstep
        refine quiet_answer hstep (h.spawn rfl rfl rfl rfl hentries (hguard task htask)
          (fun card hcard => ?_) (fun _ hnone => by cases hnone))
        have hknows : task.transfer ∈ p.knowers card :=
          knows_task (List.mem_of_getElem? htask) hlive.2 (.inr hcard)
        exact h.knownOnly hknows
      · cases hstep
  | register handle =>
    split at hstep
    · next task htask =>
      obtain ⟨-, hstep⟩ := of_when hstep
      refine quiet_answer hstep (h.enlist rfl rfl rfl rfl htask fun id other hentry => ?_)
      rcases hentry with hentry | hentry
      · exact (put_cases hentry).imp_left .inl
      · exact .inl (.inr hentry)
    · cases hstep
  | unregister handle =>
    split at hstep
    · next task htask =>
      split at hstep
      · exact quiet_answer hstep (h.enlist rfl rfl rfl rfl htask fun id other hentry =>
          .inl (hentry.imp_left erase_cases))
      · exact quiet_answer hstep (h.enlist rfl rfl rfl rfl htask fun id other hentry =>
          .inl (hentry.imp_right (Or.imp_left erase_cases)))
      · exact quiet_answer hstep (h.enlist rfl rfl rfl rfl htask fun id other hentry =>
          .inl (hentry.imp_right (Or.imp_right erase_cases)))
      · cases hstep
    · cases hstep
  | started handle attach =>
    split at hstep
    · next task htask =>
      obtain ⟨hlive, hstep⟩ := of_when hstep
      have hmem := List.mem_of_getElem? htask
      have hnext : (p.start task attach).Apart := h.start hmem hlive (hguard task htask)
      split at hstep
      · exact quiet_answer hstep hnext
      · have hstill : task ∈ (p.start task attach).tasks := by
          rw [start_tasks]
          exact hmem
        exact own_answer hstep hnext
          (tell_own fun found hfound => hnext.report_card hstill hlive hfound)
    · cases hstep
  | instantHit handle =>
    split at hstep
    · next task htask =>
      obtain ⟨hlive, hstep⟩ := of_when hstep
      have hmem := List.mem_of_getElem? htask
      have hnext : Apart (if (p.engineCardOf task.engine).isSome then p
          else p.createBound task) := by
        split
        · exact h
        · next hnone =>
          have hfree := hguard task htask (by simpa using hnone)
          refine h.grow rfl (fun _ _ hentry => hentry) (grows_create_bound hfree)
            fun id hid => ?_
          have hengine := h.knownOnly (knows_task hmem hlive.1 (.inl rfl))
          rcases List.mem_append.mp hid with hid | hid
          · exact List.mem_singleton.mp hid ▸ hfree.knownOnly
          · obtain rfl : id = task.engine := by simpa using hid
            exact hengine
      refine own_answer hstep hnext (tell_own fun found hfound => ?_)
      refine hnext.separate.card task ?_ hlive.1 found hfound
      split
      · exact hmem
      · exact hmem
    · cases hstep
  | report handle =>
    split at hstep
    · next task htask =>
      obtain ⟨hlive, hstep⟩ := of_when hstep
      exact own_answer hstep h (tell_own fun found hfound =>
        h.report_card (List.mem_of_getElem? htask) hlive hfound)
    · cases hstep
  | childDone handle =>
    split at hstep
    · next task htask =>
      split at hstep
      · exact quiet_answer hstep (h.shrink rfl (fun _ _ hentry => hentry)
          fun found hmem id hname => erase_child_names hmem hname)
      · cases hstep
    · cases hstep
  | finish handle =>
    split at hstep
    · next task htask =>
      split at hstep
      · exact quiet_answer hstep (h.finish htask rfl (fun _ _ hentry => hentry)
          fun found hmem id hname => erase_child_names hmem hname)
      · exact quiet_answer hstep (h.finish htask rfl (fun _ _ hentry => hentry)
          fun found hmem id hname => ⟨found, hmem, hname, rfl⟩)
    · cases hstep
  | removeParts handle =>
    split at hstep
    · next task htask =>
      split at hstep
      · next dir hdir =>
        obtain ⟨hlive, hstep⟩ := of_when hstep
        have honly := h.parts task (List.mem_of_getElem? htask) hlive dir hdir
        exact own_answer hstep h honly.sweep_own
      · cases hstep
    · cases hstep
  | fromPeer handle signal =>
    split at hstep
    · next task htask =>
      obtain ⟨hlive, hstep⟩ := of_when hstep
      have hengine := h.knownOnly (knows_task (List.mem_of_getElem? htask) hlive (.inl rfl))
      exact own_answer hstep h (h.reach_own fun other hentry =>
        ⟨task.engine, listed_of_peer_entry hentry, hengine⟩)
    · cases hstep
  | transferAction card =>
    split at hstep
    · next found hfound =>
      exact own_answer hstep h (action_events_own h (mem_of_card_by_id hfound).1)
    · cases hstep
  | cancelCard card =>
    split at hstep
    · next found hfound =>
      exact own_answer hstep h (cancel_events_own h (mem_of_card_by_id hfound).1)
    · cases hstep
  | finalizeDestroy card =>
    split at hstep
    · next found hfound =>
      have hdir : p.DirOnly (destroyedDir found) found.transfer := hguard found hfound
      exact own_answer hstep (h.shrink rfl (fun _ _ hentry => hentry) fun other hmem id hname =>
        ⟨other, List.mem_of_mem_filter hmem, hname, rfl⟩) hdir.sweep_own
    · cases hstep

/-- The transfers are apart, and what happened reached the transfer it was done for. -/
structure Undisturbed (trace : List IdentityEvent) (p : Process) : Prop where
  apart : p.Apart
  own : ∀ event ∈ trace, event.Own

/-- No two of the cards loaded at the start refer to one id. -/
def CardsApart (p : Process) : Prop :=
  ∀ one ∈ p.cards, ∀ other ∈ p.cards, ∀ id ∈ one.ids, id ∈ other.ids →
    one.transfer = other.transfer
deriving Decidable

variable {orphans : List Nat} {saved : List SavedCard}

/-- Nothing runs and nothing is mapped. -/
structure Idle (p : Process) : Prop where
  tasks : p.tasks = []
  engineToCard : p.engineToCard = []
  pendingChildren : p.pendingChildren = []
  listed : ∀ id handle, ¬ p.Listed id handle

theorem Idle.put_card (h : p.Idle) : (p.putCard found).Idle :=
  { h with }

/-- A loaded process has cards only. -/
theorem load_idle : (load orphans saved).Idle := by
  have hempty : empty.Idle := ⟨rfl, rfl, rfl, by simp [Listed, empty]⟩
  have horphans : (orphans.foldl (fun p id => p.putCard (orphanCard id)) empty).Idle :=
    List.foldlRecOn orphans _ hempty fun _ hidle _ _ => hidle.put_card
  have hsaved : (saved.foldl loadSaved
      (orphans.foldl (fun p id => p.putCard (orphanCard id)) empty)).Idle := by
    refine List.foldlRecOn saved _ horphans fun q hidle entry _ => ?_
    unfold loadSaved
    split
    · exact hidle
    · split
      · exact hidle.put_card
      · exact hidle
  exact { hsaved with }

/-- Nothing but its cards knows an id in an idle process. -/
theorem Idle.apart (h : p.Idle) (hcards : p.CardsApart) : p.Apart := by
  have hknower : ∀ id other, other ∈ p.knowers id →
      ∃ card ∈ p.cards, id ∈ card.ids ∧ card.transfer = other := by
    intro id other hother
    rcases mem_knowers.mp hother with ⟨task, hmem, -⟩ | ⟨card, hmem, hname, hsame⟩
    · rw [h.tasks] at hmem
      cases hmem
    · rcases hname with hids | hmapped | hparent
      · exact ⟨card, hmem, hids, hsame⟩
      · rw [h.engineToCard] at hmapped
        cases hmapped
      · rw [h.pendingChildren] at hparent
        cases hparent
  refine ⟨?_, ?_, ?_⟩
  · intro id one other hone hother
    obtain ⟨card, hcard, hid, rfl⟩ := hknower id one hone
    obtain ⟨card', hcard', hid', rfl⟩ := hknower id other hother
    exact hcards card hcard card' hcard' id hid hid'
  · intro task hmem
    rw [h.tasks] at hmem
    cases hmem
  · intro id handle hentry
    exact absurd hentry (h.listed id handle)

end Process

/-- A peer fetches a file from here, and a file is downloaded from another peer, whose job has the id
`downloaded`. The start of both is shown, and the user pauses the download. -/
def fetchAndDownload (downloaded : Nat) : List IdentityInput :=
  [.newCard, .metaReq none,
    .metaResp cardIdBase downloaded (.fromMeta "a.bin" 1 ["h"]) .empty [], .register 1,
    .started 0 .own, .started 1 .own, .transferAction cardIdBase]

end LocalTrans
