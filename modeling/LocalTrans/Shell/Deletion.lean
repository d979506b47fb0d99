import LocalTrans.Shell.Identity

/-!
# Removing parts directories

`PartsStore` has the process of `Identity` and the parts directories on the disk, each with the
transfer whose download it holds; it stays there when its task has ended. A card is destroyed with
the directory that its engine id names, and a job on the disk with the directory of its own id.
`ownDirGuard` says when a directory may be made and an id bound to a card, so that what is removed
belongs to the card.
-/

namespace LocalTrans

open Foundation

/-- A process, and the names of the parts directories with whose data they hold. -/
structure PartsStore where
  process : Process
  dirs : List (Nat × Transfer)

/-- A step of the process, or the user destroys a job on the disk. -/
inductive DeletionInput where
  | process (input : IdentityInput)
  | destroyDiskJob (id : Nat)

namespace Process

/-- The transfers of the cards that are bound to the id of a task when its start is shown. -/
def bound (p : Process) (task : TransferTask) (attach : Attach) : List Transfer :=
  if p.createsCard task attach then [task.transfer]
  else
    match task.kind, attach, task.card with
    | .push, .batch, some _ => []
    | .pull, _, some card | .push, _, some card =>
      if (p.cardById card).any fun found => found.engineId.isSome then []
      else (p.cards.filter fun found => found.id = card).map TransferCard.transfer
    | _, _, _ => []

end Process

namespace PartsStore

/-- The start of a process over the parts directories and the saved cards. -/
def load (orphans : List Nat) (saved : List SavedCard) : PartsStore :=
  { process := Process.load orphans saved, dirs := orphans.map fun id => (id, .restored id) }

/-- `remove_dir_all` on a parts directory. -/
def removeDir (s : PartsStore) (name : Nat) : List (Nat × Transfer) :=
  s.dirs.filter fun pair => pair.1 ≠ name

/-- A directory is made, or an existing one taken up. -/
def holdDir (s : PartsStore) (name : Nat) (transfer : Transfer) : List (Nat × Transfer) :=
  (name, transfer) :: s.removeDir name

/-- The directories after a step of the process. -/
def dirsAfter (s : PartsStore) : IdentityInput → List (Nat × Transfer)
  | .restoreDiskJob id =>
    if (s.process.engineCardOf id).isSome ∨ (s.process.cardById id).isSome then s.dirs
    else s.holdDir id s.process.nextTransfer
  | .metaResp card engine m disk jobs =>
    match s.process.cardById card with
    | some found => s.holdDir (chooseJobDir disk jobs m engine) found.transfer
    | none => s.dirs
  | .recvPush engine => s.holdDir engine s.process.nextTransfer
  | .removeParts handle =>
    match (s.process.tasks[handle]?).bind TransferTask.parts with
    | some dir => s.removeDir dir
    | none => s.dirs
  | .finalizeDestroy card =>
    match s.process.cardById card with
    | some found => s.removeDir (Process.destroyedDir found)
    | none => s.dirs
  | _ => s.dirs

/-- A job can be restored while its directory is there. -/
def Possible (s : PartsStore) : IdentityInput → Prop
  | .restoreDiskJob id => (s.process.engineCardOf id).isSome ∨ (s.process.cardById id).isSome ∨
      ∃ pair ∈ s.dirs, pair.1 = id
  | _ => True

instance (s : PartsStore) (input : IdentityInput) : Decidable (s.Possible input) := by
  unfold Possible
  induction input using IdentityInput.casesOn <;> infer_instance

/-- A step of the process with what it does to the directories. -/
def processStep (s : PartsStore) (input : IdentityInput) :
    Option (PartsStore × List IdentityEvent) :=
  if s.Possible input then
    (s.process.step input).map fun (process, events) =>
      ({ process, dirs := s.dirsAfter input }, events)
  else none

/-- One step. `destroy_disk_job` destroys the card that the id is mapped to, or, without a mapping,
removes the directory. -/
def step : Machine PartsStore DeletionInput IdentityEvent
  | s, .process input => s.processStep input
  | s, .destroyDiskJob id =>
    match s.process.engineCardOf id with
    | some card =>
      if (s.process.cardById card).isSome then s.processStep (.finalizeDestroy card)
      else some (s, [])
    | none => some ({ s with dirs := s.removeDir id }, [])

/-- The directory of this name is the only one of the transfer, and no other's. -/
def NamesOnly (s : PartsStore) (name : Nat) (transfer : Transfer) : Prop :=
  ∀ pair ∈ s.dirs, pair.1 = name ↔ pair.2 = transfer
deriving Decidable

/-- No card and no running task is left of the transfer. -/
def Abandoned (s : PartsStore) (transfer : Transfer) : Prop :=
  (∀ card ∈ s.process.cards, card.transfer ≠ transfer) ∧
    ∀ task ∈ s.process.tasks, task.live = true → task.transfer ≠ transfer
deriving Decidable

/-- The transfer may take the directory of this name: it is no other's, no card of another transfer
would be destroyed with it, and no card of the transfer is bound to another one. -/
def MayHold (s : PartsStore) (name : Nat) (transfer : Transfer) : Prop :=
  (∀ pair ∈ s.dirs, pair.1 = name → pair.2 = transfer ∨ s.Abandoned pair.2) ∧
    ∀ card ∈ s.process.cards, (Process.destroyedDir card = name → card.transfer = transfer) ∧
      (card.transfer = transfer → card.engineId = none ∨ card.engineId = some name)
deriving Decidable

/-- A card for which a download was begun is bound. -/
def DownloadBound (s : PartsStore) (card : TransferCard) : Prop :=
  card.engineId.isSome = true ∨
    ∀ task ∈ s.process.tasks, task.kind = .pull → task.transfer ≠ card.transfer
deriving Decidable

end PartsStore

/-- The condition on one step. A download takes a directory that is no other transfer's, and the
id that is bound to a card names the directory of the card's own transfer, if it has one, and of
no other. The id of a new card names no directory. A card is destroyed once the start of its
download was shown. -/
def ownDirGuard : Guard PartsStore DeletionInput IdentityEvent :=
  fun _ s input =>
    match input with
    | .process .newCard => ∀ pair ∈ s.dirs, pair.1 ≠ s.process.nextCardId
    | .process (.restoreDiskJob id) =>
      (s.process.engineCardOf id).isSome ∨ (s.process.cardById id).isSome ∨
        s.MayHold id s.process.nextTransfer
    | .process (.metaResp card engine m disk jobs) => ∀ found ∈ s.process.cardById card,
        s.MayHold (chooseJobDir disk jobs m engine) found.transfer
    | .process (.recvPush engine) => s.MayHold engine s.process.nextTransfer
    | .process (.started handle attach) => ∀ task ∈ s.process.tasks[handle]?,
        ∀ transfer ∈ s.process.bound task attach, s.NamesOnly task.engine transfer
    | .process (.instantHit handle) => ∀ task ∈ s.process.tasks[handle]?,
        s.process.engineCardOf task.engine = none → s.NamesOnly task.engine task.transfer
    | .process (.finalizeDestroy card) => ∀ found ∈ s.process.cardById card, s.DownloadBound found
    | .destroyDiskJob id => ∀ card ∈ s.process.engineCardOf id,
        ∀ found ∈ s.process.cardById card, s.DownloadBound found
    | _ => True

instance (trace : List IdentityEvent) (s : PartsStore) (input : DeletionInput) :
    Decidable (ownDirGuard trace s input) := by
  unfold ownDirGuard
  split <;> infer_instance

namespace Process

/-- The transfer has begun. -/
def Old (p : Process) : Transfer → Prop
  | .restored _ => True
  | .begun n => n < p.transfers

/-- Two cards of a transfer that are destroyed with the same directory. -/
structure SameDir (before after : TransferCard) : Prop where
  transfer : before.transfer = after.transfer
  engineId : before.engineId = after.engineId
  dir : destroyedDir before = destroyedDir after

/-- No card is made or bound between the states, and downloads stay on record. -/
structure Alike (p next : Process) : Prop where
  cards : ∀ card ∈ next.cards, ∃ before ∈ p.cards, SameDir before card
  tasks : ∀ task ∈ next.tasks, next.Old task.transfer ∨
    ∃ before ∈ p.tasks, before.transfer = task.transfer
  pulls : ∀ task ∈ p.tasks, task.kind = .pull →
    ∃ after ∈ next.tasks, after.kind = .pull ∧ after.transfer = task.transfer
  transfers : p.transfers ≤ next.transfers

variable {p next : Process} {transfer : Transfer} {task : TransferTask} {found : TransferCard}
  {handle : Nat}

theorem Old.mono (h : p.Old transfer) (hle : p.transfers ≤ next.transfers) : next.Old transfer := by
  cases transfer with
  | restored card => trivial
  | begun n => exact Nat.lt_of_lt_of_le h hle

theorem next_transfer_not_old : ¬ p.Old p.nextTransfer :=
  Nat.lt_irrefl p.transfers

/-- The cards that are there are those that were. -/
theorem alike_of_subset (hcards : ∀ card ∈ next.cards, card ∈ p.cards) (htasks : next.tasks = p.tasks)
    (htransfers : p.transfers ≤ next.transfers) : p.Alike next := by
  refine ⟨fun card hmem => ⟨card, hcards card hmem, rfl, rfl, rfl⟩, ?_, ?_, htransfers⟩
  · intro task hmem
    exact .inr ⟨task, htasks ▸ hmem, rfl⟩
  · intro task hmem hkind
    exact ⟨task, htasks ▸ hmem, hkind, rfl⟩

theorem Alike.refl (p : Process) : p.Alike p :=
  alike_of_subset (fun _ hmem => hmem) rfl (Nat.le_refl _)

/-- A change of cards that keeps what they are destroyed by. -/
theorem alike_map_card {id : Nat} {f : TransferCard → TransferCard}
    (hf : ∀ card, SameDir card (f card)) : p.Alike (p.mapCard id f) := by
  refine ⟨?_, fun task hmem => .inr ⟨task, hmem, rfl⟩,
    fun task hmem hkind => ⟨task, hmem, hkind, rfl⟩, Nat.le_refl _⟩
  intro card hmem
  obtain ⟨before, hbefore, rfl⟩ := List.mem_map.mp hmem
  split
  · exact ⟨before, hbefore, hf before⟩
  · exact ⟨before, hbefore, rfl, rfl, rfl⟩

/-- A task begins. -/
theorem alike_spawn (hold : next.Old task.transfer) (hcards : next.cards = p.cards)
    (htasks : next.tasks = p.tasks ++ [task]) (htransfers : p.transfers ≤ next.transfers) :
    p.Alike next := by
  refine ⟨fun card hmem => ⟨card, hcards ▸ hmem, rfl, rfl, rfl⟩, ?_, ?_, htransfers⟩
  · intro other hmem
    rw [htasks] at hmem
    rcases List.mem_append.mp hmem with hmem | hmem
    · exact .inr ⟨other, hmem, rfl⟩
    · rw [List.mem_singleton.mp hmem]
      exact .inl hold
  · intro other hmem hkind
    exact ⟨other, htasks ▸ List.mem_append_left _ hmem, hkind, rfl⟩

/-- A task ends and stays on record. -/
theorem alike_end (hget : p.tasks[handle]? = some task) :
    p.Alike { p with tasks := p.tasks.set handle { task with live := false } } := by
  have hmem : task ∈ p.tasks := List.mem_of_getElem? hget
  obtain ⟨hlt, hat⟩ := List.getElem?_eq_some_iff.mp hget
  refine ⟨fun card hmem => ⟨card, hmem, rfl, rfl, rfl⟩, ?_, ?_, Nat.le_refl _⟩
  · intro other hother
    rcases List.mem_or_eq_of_mem_set hother with hold | rfl
    · exact .inr ⟨other, hold, rfl⟩
    · exact .inr ⟨task, hmem, rfl⟩
  · intro other hother hkind
    obtain ⟨i, hi, rfl⟩ := List.mem_iff_getElem.mp hother
    by_cases hsame : i = handle
    · subst hsame
      rw [hat] at hkind ⊢
      exact ⟨_, List.mem_set hlt _, hkind, rfl⟩
    · refine ⟨p.tasks[i], List.mem_iff_getElem.mpr ⟨i, by simpa using hi, ?_⟩, hkind, rfl⟩
      exact List.getElem_set_of_ne (Ne.symm hsame) _ _

theorem SameDir.trans {before between after : TransferCard} (hfirst : SameDir before between)
    (hsecond : SameDir between after) : SameDir before after :=
  ⟨hfirst.transfer.trans hsecond.transfer, hfirst.engineId.trans hsecond.engineId,
    hfirst.dir.trans hsecond.dir⟩

theorem Alike.trans {mid : Process} (hfirst : p.Alike mid) (hsecond : mid.Alike next) :
    p.Alike next := by
  refine ⟨?_, ?_, ?_, Nat.le_trans hfirst.transfers hsecond.transfers⟩
  · intro card hmem
    obtain ⟨between, hbetween, hsame⟩ := hsecond.cards card hmem
    obtain ⟨before, hbefore, hsame'⟩ := hfirst.cards between hbetween
    exact ⟨before, hbefore, hsame'.trans hsame⟩
  · intro task hmem
    rcases hsecond.tasks task hmem with hnew | ⟨between, hbetween, hsame⟩
    · exact .inl hnew
    · rcases hfirst.tasks between hbetween with hold | ⟨before, hbefore, hsame'⟩
      · exact .inl (hsame ▸ hold.mono hsecond.transfers)
      · exact .inr ⟨before, hbefore, hsame'.trans hsame⟩
  · intro task hmem hkind
    obtain ⟨between, hbetween, hkind', hsame⟩ := hfirst.pulls task hmem hkind
    obtain ⟨after, hafter, hkind'', hsame'⟩ := hsecond.pulls between hbetween hkind'
    exact ⟨after, hafter, hkind'', hsame'.trans hsame⟩

/-- The steps that make or bind no card and give no task a directory. -/
def Plain : IdentityInput → Prop
  | .newCard | .restoreDiskJob _ | .metaResp .. | .recvPush _ | .started .. | .instantHit _ => False
  | _ => True

theorem step_alike {input : IdentityInput} {events : List IdentityEvent} (hplain : Plain input)
    (hcards : ∀ card ∈ p.cards, p.Old card.transfer) (htasks : ∀ task ∈ p.tasks, p.Old task.transfer)
    (h : p.step input = some (next, events)) : p.Alike next := by
  cases input with simp only [step] at h
  | newCard | restoreDiskJob _ | metaResp _ _ _ _ _ | recvPush _ | started _ _ | instantHit _ =>
    exact absurd hplain id
  | offerReq engine =>
    obtain ⟨rfl, -⟩ := answer_inj h
    exact alike_spawn (Nat.lt_succ_self _) rfl rfl (Nat.le_succ _)
  | pushFiles card large =>
    split at h
    · cases h
    · next found hfound =>
      obtain ⟨rfl, -⟩ := answer_inj h
      have hold := hcards found (mem_of_card_by_id hfound).1
      refine alike_spawn ?_ rfl rfl (Nat.le_refl _)
      exact hold.mono (Nat.le_refl _)
  | metaReq push =>
    cases push with
    | none =>
      obtain ⟨rfl, -⟩ := answer_inj h
      exact alike_spawn (Nat.lt_succ_self _) rfl rfl (Nat.le_succ _)
    | some handle =>
      simp only [step] at h
      split at h
      · next task htask =>
        obtain ⟨-, rfl, -⟩ := when_answer h
        have hold := htasks task (List.mem_of_getElem? htask)
        refine alike_spawn ?_ rfl rfl (Nat.le_refl _)
        exact hold.mono (Nat.le_refl _)
      · cases h
  | register handle =>
    split at h
    · split at h
      · obtain ⟨rfl, -⟩ := answer_inj h
        exact alike_of_subset (fun _ hmem => hmem) rfl (Nat.le_refl _)
      · cases h
    · cases h
  | unregister handle =>
    split at h
    · split at h
      · obtain ⟨rfl, -⟩ := answer_inj h
        exact alike_of_subset (fun _ hmem => hmem) rfl (Nat.le_refl _)
      · obtain ⟨rfl, -⟩ := answer_inj h
        exact alike_of_subset (fun _ hmem => hmem) rfl (Nat.le_refl _)
      · obtain ⟨rfl, -⟩ := answer_inj h
        exact alike_of_subset (fun _ hmem => hmem) rfl (Nat.le_refl _)
      · cases h
    · cases h
  | report handle | fromPeer handle signal =>
    split at h
    · split at h
      · obtain ⟨rfl, -⟩ := answer_inj h
        exact Alike.refl p
      · cases h
    · cases h
  | childDone handle =>
    split at h
    · split at h
      · obtain ⟨rfl, -⟩ := answer_inj h
        exact alike_map_card fun card => ⟨rfl, rfl, rfl⟩
      · cases h
    · cases h
  | finish handle =>
    split at h
    · next task htask =>
      split at h
      · obtain ⟨rfl, -⟩ := answer_inj h
        exact (alike_end htask).trans (alike_map_card fun card => ⟨rfl, rfl, rfl⟩)
      · obtain ⟨rfl, -⟩ := answer_inj h
        exact alike_end htask
    · cases h
  | removeParts handle =>
    split at h
    · split at h
      · split at h
        · obtain ⟨rfl, -⟩ := answer_inj h
          exact Alike.refl p
        · cases h
      · cases h
    · cases h
  | transferAction card | cancelCard card =>
    split at h
    · obtain ⟨rfl, -⟩ := answer_inj h
      exact Alike.refl p
    · cases h
  | finalizeDestroy card =>
    split at h
    · obtain ⟨rfl, -⟩ := answer_inj h
      exact alike_of_subset (fun _ hmem => List.mem_of_mem_filter hmem) rfl (Nat.le_refl _)
    · cases h

/-- The cards after a binding: one that has changed has the id. -/
theorem bind_engine_id_cards {engine id : Nat} :
    ∀ card ∈ (p.bindEngineId engine id).cards, card ∈ p.cards ∧ card.id ≠ id ∨
      ∃ before ∈ p.cards, before.id = id ∧ card.transfer = before.transfer ∧
        card.engineId = some engine := by
  intro card hmem
  obtain ⟨before, hbefore, rfl⟩ := List.mem_map.mp hmem
  split
  · next hid => exact .inr ⟨before, hbefore, hid, rfl, rfl⟩
  · next hid => exact .inl ⟨hbefore, hid⟩

theorem create_bound_cards : ∀ card ∈ (p.createBound task).cards, card ∈ p.cards ∨
    card.transfer = task.transfer ∧ card.engineId = some task.engine := by
  intro card hmem
  rcases bind_engine_id_cards card hmem with ⟨hmem, hother⟩ | ⟨before, hbefore, hid, hsame, hbound⟩
  · rcases List.mem_cons.mp hmem with rfl | hold
    · exact absurd rfl hother
    · exact .inl (List.mem_of_mem_filter hold)
  · rcases List.mem_cons.mp hbefore with rfl | hold
    · exact .inr ⟨hsame, hbound⟩
    · exact absurd hid (by simpa using (List.mem_filter.mp hold).2)

/-- The start of a task binds the cards of the transfers in `bound`, and no others. -/
theorem start_cards {attach : Attach} : ∀ card ∈ (p.start task attach).cards,
    (∃ before ∈ p.cards, SameDir before card) ∨
      card.transfer ∈ p.bound task attach ∧ card.engineId = some task.engine := by
  have hsame : ∀ card ∈ p.cards, ∃ before ∈ p.cards, SameDir before card :=
    fun card hmem => ⟨card, hmem, rfl, rfl, rfl⟩
  have hchild : ∀ id f, (∀ card, SameDir card (f card)) →
      ∀ card ∈ (p.mapCard id f).cards, ∃ before ∈ p.cards, SameDir before card :=
    fun id f hf => (alike_map_card hf).cards
  have hbind : ∀ id, ∀ card ∈ (p.bindEngineId task.engine id).cards,
      (∃ before ∈ p.cards, SameDir before card) ∨
        card.transfer ∈ (p.cards.filter fun found => found.id = id).map TransferCard.transfer ∧
          card.engineId = some task.engine := by
    intro id card hmem
    rcases bind_engine_id_cards card hmem with ⟨hold, -⟩ | ⟨before, hbefore, hid, heq, hbound⟩
    · exact .inl (hsame card hold)
    · exact .inr ⟨List.mem_map.mpr ⟨before, List.mem_filter.mpr ⟨hbefore, by simpa using hid⟩,
        heq.symm⟩, hbound⟩
  intro card hmem
  by_cases hcreate : p.createsCard task attach = true
  · simp only [start, bound, hcreate, if_true] at hmem ⊢
    rcases create_bound_cards card hmem with hold | ⟨heq, hbound⟩
    · exact .inl (hsame card hold)
    · exact .inr ⟨List.mem_singleton.mpr heq, hbound⟩
  · simp only [start, bound, hcreate, if_false, Bool.false_eq_true] at hmem ⊢
    split at hmem
    · exact .inl (hchild _ _ (fun _ => by exact ⟨rfl, rfl, rfl⟩) card hmem)
    · next hkind hcard =>
      simp only [hkind, hcard]
      split at hmem
      · exact .inl (hsame card hmem)
      · next hunbound =>
        rw [if_neg hunbound]
        exact hbind _ card hmem
    · next hkind _ hcard =>
      simp only [hkind, hcard]
      split at hmem
      · exact .inl (hsame card hmem)
      · next hunbound =>
        rw [if_neg hunbound]
        exact hbind _ card hmem
    · exact .inl (hsame card hmem)
    · exact .inl (hchild _ (fun found => { found with
        children := found.children ++ [some task.engine], offerJob := some task.engine })
        (fun _ => ⟨rfl, rfl, rfl⟩) card hmem)
    · exact .inl (hsame card hmem)

theorem start_transfers {attach : Attach} : (p.start task attach).transfers = p.transfers := by
  unfold start
  split
  · rfl
  · split <;> first | rfl | (split <;> rfl)

end Process

namespace PartsStore

/-- A download of the transfer was begun. -/
def Pulls (s : PartsStore) (transfer : Transfer) : Prop :=
  ∃ task ∈ s.process.tasks, task.kind = .pull ∧ task.transfer = transfer

/-- The card is destroyed with no other transfer's directory, and it is bound to the directory of
its own transfer, unless the start of its download is still to be shown. -/
structure Fits (s : PartsStore) (card : TransferCard) : Prop where
  old : s.process.Old card.transfer
  alone : ∀ pair ∈ s.dirs, Process.destroyedDir card = pair.1 → card.transfer = pair.2
  own : ∀ pair ∈ s.dirs, card.transfer = pair.2 →
    card.engineId = some pair.1 ∨ card.engineId = none ∧ s.Pulls pair.2

/-- Every card fits, and the transfers of tasks and directories have begun. -/
structure Owned (s : PartsStore) : Prop where
  cards : ∀ card ∈ s.process.cards, s.Fits card
  tasks : ∀ task ∈ s.process.tasks, s.process.Old task.transfer
  dirs : ∀ pair ∈ s.dirs, s.process.Old pair.2

variable {s next : PartsStore} {name : Nat} {transfer : Transfer} {card before : TransferCard}
  {input : IdentityInput} {trace emitted : List IdentityEvent}

theorem Fits.keep (h : s.Fits before) (hsame : Process.SameDir before card)
    (hdirs : ∀ pair ∈ next.dirs, pair ∈ s.dirs)
    (htransfers : s.process.transfers ≤ next.process.transfers)
    (hpulls : ∀ transfer, s.Pulls transfer → next.Pulls transfer) : next.Fits card := by
  refine ⟨hsame.transfer ▸ h.old.mono htransfers, ?_, ?_⟩
  · intro pair hpair hdir
    exact hsame.transfer ▸ h.alone pair (hdirs pair hpair) (hsame.dir.trans hdir)
  · intro pair hpair hown
    rw [← hsame.engineId]
    refine (h.own pair (hdirs pair hpair) (hsame.transfer.trans hown)).imp id fun hopen => ?_
    exact ⟨hopen.1, hpulls _ hopen.2⟩

/-- A card that is bound to the only directory of its transfer. -/
theorem Fits.of_bound (name : Nat) (hnames : s.NamesOnly name card.transfer)
    (hold : s.process.Old card.transfer) (hbound : card.engineId = some name) : s.Fits card := by
  have hdir : Process.destroyedDir card = name := by simp [Process.destroyedDir, hbound]
  refine ⟨hold, ?_, ?_⟩
  · intro pair hpair hsame
    exact ((hnames pair hpair).mp (hsame.symm.trans hdir)).symm
  · intro pair hpair hown
    rw [(hnames pair hpair).mpr hown.symm]
    exact .inl hbound

/-- What makes or binds no card and takes no directory. -/
theorem Owned.alike (h : s.Owned) (halike : s.process.Alike next.process)
    (hdirs : ∀ pair ∈ next.dirs, pair ∈ s.dirs) : next.Owned := by
  have hpulls : ∀ transfer, s.Pulls transfer → next.Pulls transfer := by
    rintro transfer ⟨task, hmem, hkind, rfl⟩
    exact halike.pulls task hmem hkind
  refine ⟨?_, ?_, ?_⟩
  · intro card hmem
    obtain ⟨before, hbefore, hsame⟩ := halike.cards card hmem
    exact (h.cards before hbefore).keep hsame hdirs halike.transfers hpulls
  · intro task hmem
    rcases halike.tasks task hmem with hold | ⟨before, hbefore, hsame⟩
    · exact hold
    · exact hsame ▸ (h.tasks before hbefore).mono halike.transfers
  · intro pair hpair
    exact (h.dirs pair (hdirs pair hpair)).mono halike.transfers

/-- Cards change, and those that changed fit. -/
theorem Owned.recard (h : s.Owned) (hdirs : next.dirs = s.dirs)
    (htasks : next.process.tasks = s.process.tasks)
    (htransfers : s.process.transfers ≤ next.process.transfers)
    (hcards : ∀ card ∈ next.process.cards,
      (∃ before ∈ s.process.cards, Process.SameDir before card) ∨ next.Fits card) :
    next.Owned := by
  refine ⟨?_, ?_, ?_⟩
  · intro card hmem
    rcases hcards card hmem with ⟨before, hbefore, hsame⟩ | hfits
    · refine (h.cards before hbefore).keep hsame (fun pair hpair => hdirs ▸ hpair) htransfers ?_
      rintro transfer ⟨task, htask, hkind⟩
      exact ⟨task, htasks ▸ htask, hkind⟩
    · exact hfits
  · intro task hmem
    exact (h.tasks task (htasks ▸ hmem)).mono htransfers
  · intro pair hpair
    exact (h.dirs pair (hdirs ▸ hpair)).mono htransfers

theorem mem_hold_dir {pair : Nat × Transfer} (h : pair ∈ s.holdDir name transfer) :
    pair = (name, transfer) ∨ pair ∈ s.dirs ∧ pair.1 ≠ name := by
  rcases List.mem_cons.mp h with rfl | hrest
  · exact .inl rfl
  · exact .inr (by simpa [removeDir] using hrest)

/-- A transfer takes a directory, and its card, if it has one, waits for the start of a download. -/
theorem Owned.hold (h : s.Owned) (hold : s.process.Old transfer)
    (hcards : ∀ card ∈ s.process.cards,
      (Process.destroyedDir card = name → card.transfer = transfer) ∧
        (card.transfer = transfer → card.engineId = none ∨ card.engineId = some name))
    (hpulls : ∀ card ∈ s.process.cards, card.transfer = transfer → s.Pulls transfer) :
    Owned { s with dirs := s.holdDir name transfer } := by
  refine ⟨?_, h.tasks, ?_⟩
  · intro card hmem
    refine ⟨(h.cards card hmem).old, ?_, ?_⟩
    · intro pair hpair hdir
      rcases mem_hold_dir hpair with rfl | ⟨hrest, -⟩
      · exact (hcards card hmem).1 hdir
      · exact (h.cards card hmem).alone pair hrest hdir
    · intro pair hpair hown
      rcases mem_hold_dir hpair with rfl | ⟨hrest, -⟩
      · rcases (hcards card hmem).2 hown with hnone | hbound
        · exact .inr ⟨hnone, hpulls card hmem hown⟩
        · exact .inl hbound
      · exact (h.cards card hmem).own pair hrest hown
  · intro pair hpair
    rcases mem_hold_dir hpair with rfl | ⟨hrest, -⟩
    · exact hold
    · exact h.dirs pair hrest

/-- A transfer that has not begun has no card. -/
theorem Owned.fresh (h : s.Owned) : ∀ card ∈ s.process.cards,
    card.transfer ≠ s.process.nextTransfer :=
  fun card hmem hsame => Process.next_transfer_not_old (hsame ▸ (h.cards card hmem).old)

theorem plain_dirs (hplain : Process.Plain input) : ∀ pair ∈ s.dirsAfter input, pair ∈ s.dirs := by
  intro pair hpair
  cases input with
  | newCard | restoreDiskJob _ | metaResp _ _ _ _ _ | recvPush _ | started _ _ | instantHit _ =>
    exact absurd hplain id
  | removeParts handle | finalizeDestroy card =>
    simp only [dirsAfter] at hpair
    split at hpair
    · exact List.mem_of_mem_filter hpair
    · exact hpair
  | _ => exact hpair

theorem process_step_eq (hstep : s.processStep input = some (next, emitted)) :
    ∃ p, s.process.step input = some (p, emitted) ∧
      next = { process := p, dirs := s.dirsAfter input } := by
  unfold processStep at hstep
  obtain ⟨-, hstep⟩ := of_when hstep
  obtain ⟨⟨p, events⟩, hp, heq⟩ := Option.map_eq_some_iff.mp hstep
  obtain ⟨rfl, rfl⟩ := Prod.mk.inj heq
  exact ⟨p, hp, rfl⟩

/-- A new card names no directory. -/
theorem Owned.new_card (h : s.Owned) (hguard : ∀ pair ∈ s.dirs, pair.1 ≠ s.process.nextCardId) :
    Owned { s with process := { s.process.cardCreate none s.process.nextTransfer with
      transfers := s.process.transfers + 1 } } := by
  refine h.recard rfl rfl (Nat.le_succ _) fun card hmem => ?_
  rcases List.mem_cons.mp hmem with rfl | hold
  · refine .inr ⟨Nat.lt_succ_self _, ?_, ?_⟩
    · intro pair hpair hdir
      exact absurd hdir.symm (hguard pair hpair)
    · intro pair hpair hown
      exact absurd (hown ▸ h.dirs pair hpair) Process.next_transfer_not_old
  · exact .inl ⟨card, List.mem_of_mem_filter hold, rfl, rfl, rfl⟩

/-- The card of a restored job goes by the name of the directory. -/
theorem Owned.restore (h : s.Owned) {id : Nat} (hguard : s.MayHold id s.process.nextTransfer) :
    Owned {
      process := { s.process.putCard { Process.orphanCard id with transfer := s.process.nextTransfer }
        with nextCardId := max s.process.nextCardId (id + 1), transfers := s.process.transfers + 1 }
      dirs := s.holdDir id s.process.nextTransfer } := by
  have hbegun : Owned { s with process := { s.process with transfers := s.process.transfers + 1 } } :=
    h.alike (Process.alike_of_subset (fun _ hmem => hmem) rfl (Nat.le_succ _)) fun _ hpair => hpair
  have hheld := hbegun.hold (Nat.lt_succ_self _) hguard.2 fun card hmem hsame => absurd hsame (h.fresh card hmem)
  refine hheld.recard rfl rfl (Nat.le_refl _) fun card hmem => ?_
  rcases List.mem_cons.mp hmem with rfl | hold
  · refine .inr (Fits.of_bound id ?_ (Nat.lt_succ_self _) rfl)
    intro pair hpair
    rcases mem_hold_dir hpair with rfl | ⟨hrest, hother⟩
    · exact ⟨fun _ => rfl, fun _ => rfl⟩
    · refine ⟨fun hid => absurd hid hother, fun hown => ?_⟩
      exact absurd (hown ▸ h.dirs pair hrest) Process.next_transfer_not_old
  · exact .inl ⟨card, List.mem_of_mem_filter hold, rfl, rfl, rfl⟩

/-- Cards that were bound name the only directory of their transfer. -/
theorem Owned.bind (h : s.Owned) {p : Process} (engine : Nat)
    (htasks : p.tasks = s.process.tasks) (htransfers : p.transfers = s.process.transfers)
    (hcards : ∀ card ∈ p.cards, (∃ before ∈ s.process.cards, Process.SameDir before card) ∨
      s.NamesOnly engine card.transfer ∧ s.process.Old card.transfer ∧
        card.engineId = some engine) : Owned { s with process := p } := by
  refine h.recard rfl htasks (Nat.le_of_eq htransfers.symm) fun card hmem => ?_
  rcases hcards card hmem with hsame | ⟨hnames, hold, hbound⟩
  · exact .inl hsame
  · exact .inr (Fits.of_bound engine hnames (hold.mono (Nat.le_of_eq htransfers.symm)) hbound)

/-- The card that is made for a task. -/
theorem Owned.create_bound (h : s.Owned) {task : TransferTask} (hmem : task ∈ s.process.tasks)
    (hnames : s.NamesOnly task.engine task.transfer) :
    Owned { s with process := s.process.createBound task } := by
  refine h.bind task.engine rfl rfl fun card hcard => ?_
  rcases Process.create_bound_cards card hcard with hold | ⟨hsame, hbound⟩
  · exact .inl ⟨card, hold, rfl, rfl, rfl⟩
  · rw [hsame]
    exact .inr ⟨hnames, h.tasks task hmem, hbound⟩

/-- The transfers whose cards are bound have begun. -/
theorem Owned.bound_old (h : s.Owned) {task : TransferTask} {attach : Attach}
    (hmem : task ∈ s.process.tasks) :
    ∀ transfer ∈ s.process.bound task attach, s.process.Old transfer := by
  have hcards : ∀ id, ∀ transfer ∈ (s.process.cards.filter fun found => found.id = id).map
      TransferCard.transfer, s.process.Old transfer := by
    intro id transfer hin
    obtain ⟨card, hcard, rfl⟩ := List.mem_map.mp hin
    exact (h.cards card (List.mem_of_mem_filter hcard)).old
  intro transfer hin
  unfold Process.bound at hin
  split at hin
  · rw [List.mem_singleton.mp hin]
    exact h.tasks task hmem
  · split at hin
    · cases hin
    · split at hin
      · cases hin
      · exact hcards _ transfer hin
    · split at hin
      · cases hin
      · exact hcards _ transfer hin
    · cases hin

/-- One step of the process under the condition. -/
theorem Owned.process_step (h : s.Owned) (hguard : ownDirGuard trace s (.process input))
    (hstep : s.processStep input = some (next, emitted)) : next.Owned := by
  obtain ⟨p, hp, rfl⟩ := process_step_eq hstep
  by_cases hplain : Process.Plain input
  · have hold : ∀ card ∈ s.process.cards, s.process.Old card.transfer :=
      fun card hmem => (h.cards card hmem).old
    exact h.alike (Process.step_alike hplain hold h.tasks hp) (plain_dirs hplain)
  · cases input with simp only [Process.step] at hp
    | newCard =>
      obtain ⟨rfl, -⟩ := answer_inj hp
      exact h.new_card hguard
    | restoreDiskJob id =>
      split at hp
      · next hknown =>
        obtain ⟨rfl, -⟩ := answer_inj hp
        simpa only [dirsAfter, if_pos hknown] using h
      · next hunknown =>
        obtain ⟨rfl, -⟩ := answer_inj hp
        simp only [dirsAfter, if_neg hunknown]
        rcases hguard with hmapped | hcard | hmay
        · exact absurd (.inl hmapped) hunknown
        · exact absurd (.inr hcard) hunknown
        · exact h.restore hmay
    | metaResp card engine m disk jobs =>
      split at hp
      · cases hp
      · next found hfound =>
        obtain ⟨rfl, -⟩ := answer_inj hp
        simp only [dirsAfter, hfound]
        have hmay := hguard found hfound
        have hold := (h.cards found (Process.mem_of_card_by_id hfound).1).old
        -- The task is there before its directory is taken.
        have hspawned : Owned { s with process := s.process.spawn {
            kind := .pull, engine, parts := some (chooseJobDir disk jobs m engine)
            card := some card, transfer := found.transfer, live := true } } := by
          refine h.alike (Process.alike_spawn ?_ rfl rfl (Nat.le_refl _)) fun _ hpair => hpair
          exact hold.mono (Nat.le_refl _)
        refine hspawned.hold (hold.mono (Nat.le_refl _)) hmay.2 fun other _ _ => ?_
        exact ⟨_, List.mem_append_right _ (List.mem_singleton_self _), rfl, rfl⟩
    | recvPush engine =>
      obtain ⟨rfl, -⟩ := answer_inj hp
      have hspawned : Owned { s with process := { s.process.spawn {
          kind := .recvPush, engine, parts := some engine, card := none
          transfer := s.process.nextTransfer, live := true } with
            transfers := s.process.transfers + 1 } } := by
        refine h.alike (Process.alike_spawn ?_ rfl rfl (Nat.le_succ _)) fun _ hpair => hpair
        exact Nat.lt_succ_self _
      refine hspawned.hold (Nat.lt_succ_self _) hguard.2 fun card hmem hsame => ?_
      exact absurd hsame (h.fresh card hmem)
    | started handle attach =>
      split at hp
      · next task htask =>
        have hmem := List.mem_of_getElem? htask
        have hnext : Owned { s with process := s.process.start task attach } := by
          refine h.bind task.engine Process.start_tasks Process.start_transfers ?_
          intro card hcard
          refine (Process.start_cards card hcard).imp id fun hbound => ?_
          exact ⟨hguard task htask _ hbound.1, h.bound_old hmem _ hbound.1, hbound.2⟩
        obtain ⟨-, hp⟩ := of_when hp
        split at hp
        · obtain ⟨rfl, -⟩ := answer_inj hp
          exact hnext
        · obtain ⟨rfl, -⟩ := answer_inj hp
          exact hnext
      · cases hp
    | instantHit handle =>
      split at hp
      · next task htask =>
        obtain ⟨-, rfl, -⟩ := when_answer hp
        split
        · exact h
        · next hunmapped =>
          have hfree : s.process.engineCardOf task.engine = none := by
            simpa using hunmapped
          exact h.create_bound (List.mem_of_getElem? htask) (hguard task htask hfree)
      · cases hp
    | _ => exact absurd trivial hplain

/-- One step under the condition. -/
theorem Owned.step (h : s.Owned) {input : DeletionInput} (hguard : ownDirGuard trace s input)
    (hstep : PartsStore.step s input = some (next, emitted)) : next.Owned := by
  cases input with
  | process input => exact h.process_step hguard hstep
  | destroyDiskJob id =>
    simp only [PartsStore.step] at hstep
    split at hstep
    · next card hcard =>
      split at hstep
      · have hdestroy : ownDirGuard trace s (.process (.finalizeDestroy card)) :=
          hguard card hcard
        exact h.process_step hdestroy hstep
      · obtain ⟨rfl, -⟩ := answer_inj hstep
        exact h
    · obtain ⟨rfl, -⟩ := answer_inj hstep
      exact h.alike (Process.Alike.refl _) fun _ hpair => List.mem_of_mem_filter hpair

/-- A loaded card that is not a directory's is destroyed with none of them. -/
structure Harmless (orphans : List Nat) (card : TransferCard) : Prop where
  transfer : card.transfer = .restored card.id
  bound : card.id ∈ orphans → card.engineId = some card.id
  dir : ∀ id ∈ orphans, Process.destroyedDir card = id → card.id = id

/-- What is there while the cards are loaded: every directory has its card. -/
structure Loading (orphans : List Nat) (p : Process) : Prop where
  known : ∀ id ∈ orphans, Process.orphanCard id ∈ p.cards
  cards : ∀ card ∈ p.cards, Harmless orphans card

/-- No saved card of a push names the directory of another id. -/
def SavedApart (orphans : List Nat) (saved : List SavedCard) : Prop :=
  ∀ entry ∈ saved, entry.push = true → ∀ id ∈ orphans, entry.partsId = some id → entry.id = id
deriving Decidable

variable {orphans : List Nat} {saved : List SavedCard}

theorem orphan_card_kept {p : Process} {id other : Nat}
    (hmem : Process.orphanCard id ∈ p.cards) :
    Process.orphanCard id ∈ (p.putCard (Process.orphanCard other)).cards := by
  by_cases hsame : id = other
  · exact hsame ▸ List.mem_cons_self
  · refine List.mem_cons_of_mem _ (List.mem_filter.mpr ⟨hmem, ?_⟩)
    exact decide_eq_true hsame

/-- Every directory gets its card. -/
theorem orphan_cards_put {ids : List Nat} {p : Process}
    (hput : ∀ id ∈ orphans, id ∈ ids ∨ Process.orphanCard id ∈ p.cards) :
    ∀ id ∈ orphans, Process.orphanCard id ∈
      (ids.foldl (fun p id => p.putCard (Process.orphanCard id)) p).cards := by
  induction ids generalizing p with
  | nil =>
    intro id hid
    simpa using hput id hid
  | cons first rest ih =>
    refine ih fun id hid => ?_
    rcases hput id hid with hmem | hdone
    · rcases List.mem_cons.mp hmem with rfl | hmem
      · exact .inr List.mem_cons_self
      · exact .inl hmem
    · exact .inr (orphan_card_kept hdone)

theorem orphans_loading :
    Loading orphans (orphans.foldl (fun p id => p.putCard (Process.orphanCard id)) .empty) := by
  refine ⟨orphan_cards_put fun id hid => .inl hid, ?_⟩
  refine List.foldlRecOn (motive := fun (p : Process) => ∀ card ∈ p.cards, Harmless orphans card)
    orphans _ ?_ ?_
  · intro card hmem
    cases hmem
  · intro p hcards id _ card hmem
    rcases List.mem_cons.mp hmem with rfl | hold
    · exact ⟨rfl, fun _ => rfl, fun other _ hdir => hdir⟩
    · exact hcards card (List.mem_of_mem_filter hold)

theorem Loading.load_saved {p : Process} (h : Loading orphans p) {entry : SavedCard}
    (hentry : entry.push = true → ∀ id ∈ orphans, entry.partsId = some id → entry.id = id) :
    Loading orphans (p.loadSaved entry) := by
  unfold Process.loadSaved
  split
  · exact h
  · next hunbound =>
    -- A directory of this id would have its card.
    have hother : entry.id ∉ orphans := fun hmem =>
      hunbound (List.any_eq_true.mpr ⟨_, h.known _ hmem, by simp [Process.orphanCard]⟩)
    split
    · refine ⟨fun id hid => ?_, fun card hmem => ?_⟩
      · refine List.mem_cons_of_mem _ (List.mem_filter.mpr ⟨h.known id hid, ?_⟩)
        have hne : id ≠ entry.id := fun heq => hother (heq ▸ hid)
        exact decide_eq_true hne
      · rcases List.mem_cons.mp hmem with rfl | hold
        · refine ⟨rfl, fun hid => absurd hid hother, fun id hid hdir => ?_⟩
          cases hpush : entry.push with
          | false => simpa [Process.destroyedDir, hpush] using hdir
          | true =>
            cases hparts : entry.partsId with
            | none => simpa [Process.destroyedDir, hpush, hparts] using hdir
            | some dir =>
              have hsame : dir = id := by
                simpa [Process.destroyedDir, hpush, hparts] using hdir
              exact hentry hpush id hid (hsame ▸ hparts)
        · exact h.cards card (List.mem_of_mem_filter hold)
    · exact h

theorem load_owned (hsaved : SavedApart orphans saved) : (load orphans saved).Owned := by
  have hloading : Loading orphans (saved.foldl Process.loadSaved
      (orphans.foldl (fun p id => p.putCard (Process.orphanCard id)) .empty)) :=
    List.foldlRecOn saved _ orphans_loading fun p hp entry hmem =>
      hp.load_saved (hsaved entry hmem)
  refine ⟨fun card hmem => ?_, ?_, ?_⟩
  · obtain ⟨hrestored, hbound, hdir⟩ := hloading.cards card hmem
    refine ⟨by rw [hrestored]; trivial, ?_, ?_⟩
    · intro pair hpair hsame
      obtain ⟨id, hid, rfl⟩ := List.mem_map.mp hpair
      rw [hrestored, hdir id hid hsame]
    · intro pair hpair hown
      obtain ⟨id, hid, rfl⟩ := List.mem_map.mp hpair
      obtain rfl : card.id = id := by simpa [hrestored] using hown
      exact .inl (hbound hid)
  · intro task hmem
    have hidle : (Process.load orphans saved).tasks = [] := Process.load_idle.tasks
    rw [show (load orphans saved).process.tasks = [] from hidle] at hmem
    cases hmem
  · intro pair hpair
    obtain ⟨id, -, rfl⟩ := List.mem_map.mp hpair
    trivial

/-- What a step that destroys a card or a job leaves of the directories: with a card, all but
those of its transfer; with a job that no card is mapped to, all but the one of its id, which goes
with no card of another transfer and is the one that its own card, where it is bound, goes by. -/
structure DeletesOwn (s : PartsStore) (input : DeletionInput) (next : PartsStore) : Prop where
  card : ∀ id found, (input = .process (.finalizeDestroy id) ∨
      ∃ job, input = .destroyDiskJob job ∧ s.process.engineCardOf job = some id) →
    s.process.cardById id = some found →
    (∀ pair ∈ s.dirs, pair ∉ next.dirs → pair.2 = found.transfer) ∧
      ∀ pair ∈ next.dirs, pair.2 ≠ found.transfer
  job : ∀ id, input = .destroyDiskJob id → s.process.engineCardOf id = none →
    (∀ pair ∈ s.dirs, pair ∉ next.dirs → pair.1 = id ∧ ∀ card ∈ s.process.cards,
      (Process.destroyedDir card = id → card.transfer = pair.2) ∧
        (card.transfer = pair.2 → card.engineId = some id ∨ card.engineId = none)) ∧
      ∀ pair ∈ next.dirs, pair.1 ≠ id

/-- A card goes with the directories of its transfer. -/
theorem Owned.destroy_card (h : s.Owned) {id : Nat} {found : TransferCard}
    (hfound : s.process.cardById id = some found) (hbound : s.DownloadBound found)
    (hstep : s.processStep (.finalizeDestroy id) = some (next, emitted)) :
    (∀ pair ∈ s.dirs, pair ∉ next.dirs → pair.2 = found.transfer) ∧
      ∀ pair ∈ next.dirs, pair.2 ≠ found.transfer := by
  obtain ⟨p, -, rfl⟩ := process_step_eq hstep
  have hfits := h.cards found (Process.mem_of_card_by_id hfound).1
  simp only [dirsAfter, hfound]
  refine ⟨fun pair hpair hgone => ?_, fun pair hpair hown => ?_⟩
  · have hname : pair.1 = Process.destroyedDir found := by
      simpa [removeDir, hpair] using hgone
    exact (hfits.alone pair hpair hname.symm).symm
  · obtain ⟨hin, hname⟩ : pair ∈ s.dirs ∧ pair.1 ≠ Process.destroyedDir found := by
      simpa [removeDir] using hpair
    rcases hfits.own pair hin hown.symm with hid | ⟨hnone, task, hmem, hkind, hsame⟩
    · exact hname (by simp [Process.destroyedDir, hid])
    · rcases hbound with hsome | hnopull
      · simp [hnone] at hsome
      · exact hnopull task hmem hkind (hsame.trans hown)

theorem Owned.deletes_own (h : s.Owned) {input : DeletionInput} (hguard : ownDirGuard trace s input)
    (hstep : PartsStore.step s input = some (next, emitted)) : s.DeletesOwn input next := by
  refine ⟨?_, ?_⟩
  · rintro id found (rfl | ⟨job, rfl, hmapped⟩) hfound
    · exact h.destroy_card hfound (hguard found hfound) hstep
    · have hdestroy : s.processStep (.finalizeDestroy id) = some (next, emitted) := by
        simpa [PartsStore.step, hmapped, hfound] using hstep
      exact h.destroy_card hfound (hguard id hmapped found hfound) hdestroy
  · rintro id rfl hunmapped
    simp only [PartsStore.step, hunmapped] at hstep
    obtain ⟨rfl, -⟩ := answer_inj hstep
    refine ⟨fun pair hpair hgone => ?_, fun pair hpair => ?_⟩
    · obtain rfl : pair.1 = id := by simpa [removeDir, hpair] using hgone
      refine ⟨rfl, fun card hmem => ⟨?_, ?_⟩⟩
      · exact (h.cards card hmem).alone pair hpair
      · exact fun hown => ((h.cards card hmem).own pair hpair hown).imp id And.left
    · simpa using (List.mem_filter.mp hpair).2

end PartsStore

/-- In a run whose steps all meet the condition, from saved pushes that name no directory of
another id, a card that is destroyed goes with the directories of its own transfer, and a job on
the disk with the one of its id. -/
theorem destroyed_with_own_parts {orphans : List Nat} {saved : List SavedCard}
    {inputs : List DeletionInput} {trace emitted : List IdentityEvent} {s next : PartsStore}
    {input : DeletionInput} (hsaved : PartsStore.SavedApart orphans saved)
    (h : Exec PartsStore.step ownDirGuard (.load orphans saved) inputs trace s)
    (hguard : ownDirGuard trace s input) (hstep : PartsStore.step s input = some (next, emitted)) :
    s.DeletesOwn input next := by
  have howned : s.Owned := by
    clear hguard hstep
    induction h with
    | start => exact PartsStore.load_owned hsaved
    | step _ hmeets hnext ih => exact ih.step hmeets hnext
  exact howned.deletes_own hguard hstep

/-- A file is downloaded as job `job` of its sender while a peer fetches one from here, and the
start of both is shown. -/
def fetchBesideDownload (job : Nat) : List DeletionInput :=
  [.process .newCard, .process (.metaReq none),
    .process (.metaResp cardIdBase job (.fromMeta "a.bin" 1 ["h"]) .empty []),
    .process (.started 0 .own), .process (.started 1 .own)]

/-- The card of the fetched file. -/
def fetchedCard : Nat := cardIdBase + 1

/-- What a card that is destroyed after a run was for, with the directories before and after. -/
def destroyedAfter (guard : Guard PartsStore DeletionInput IdentityEvent)
    [∀ trace s input, Decidable (guard trace s input)] (inputs : List DeletionInput) (card : Nat) :
    Option (Transfer × List (Nat × Transfer) × List (Nat × Transfer)) :=
  (Machine.run PartsStore.step guard [] (.load [] []) inputs).bind fun reached =>
    if guard reached.2 reached.1 (.process (.finalizeDestroy card)) then
      (reached.1.process.cardById card).bind fun found =>
        (PartsStore.step reached.1 (.process (.finalizeDestroy card))).map fun moved =>
          (found.transfer, reached.1.dirs, moved.1.dirs)
    else none

/-- The step that `destroyedAfter` looks at. -/
theorem step_of_destroyed_after {guard : Guard PartsStore DeletionInput IdentityEvent}
    [∀ trace s input, Decidable (guard trace s input)] {inputs : List DeletionInput} {card : Nat}
    {transfer : Transfer} {before after : List (Nat × Transfer)}
    (h : destroyedAfter guard inputs card = some (transfer, before, after)) :
    ∃ trace s found next emitted, Exec PartsStore.step guard (.load [] []) inputs trace s ∧
      guard trace s (.process (.finalizeDestroy card)) ∧
      s.process.cardById card = some found ∧
      PartsStore.step s (.process (.finalizeDestroy card)) = some (next, emitted) ∧
      found.transfer = transfer ∧ s.dirs = before ∧ next.dirs = after := by
  obtain ⟨⟨s, trace⟩, hrun, hmove⟩ := Option.bind_eq_some_iff.mp h
  obtain ⟨hmeets, hmove⟩ := of_when hmove
  obtain ⟨found, hfound, hmove⟩ := Option.bind_eq_some_iff.mp hmove
  obtain ⟨⟨next, emitted⟩, hstep, hviews⟩ := Option.map_eq_some_iff.mp hmove
  obtain ⟨htransfer, hdirs⟩ := Prod.mk.inj hviews
  obtain ⟨hbefore, hafter⟩ := Prod.mk.inj hdirs
  exact ⟨trace, s, found, next, emitted, Exec.start.append_run hrun, hmeets, hfound, hstep,
    htransfer, hbefore, hafter⟩

/-- The ids differ: the directory of the download stays when the card of the fetched file goes. -/
theorem download_kept_beside_fetch :
    ∃ s next : PartsStore, s.DeletesOwn (.process (.finalizeDestroy fetchedCard)) next ∧
      s.dirs = [(sourceJobIdBase + 1, .begun 0)] ∧
      next.dirs = [(sourceJobIdBase + 1, .begun 0)] := by
  have hdestroyed : destroyedAfter ownDirGuard (fetchBesideDownload (sourceJobIdBase + 1)) fetchedCard =
      some (.begun 1, [(sourceJobIdBase + 1, .begun 0)], [(sourceJobIdBase + 1, .begun 0)]) := by
    decide
  obtain ⟨trace, s, found, next, emitted, hexec, hmeets, -, hstep, -, hbefore, hafter⟩ :=
    step_of_destroyed_after hdestroyed
  have hown := destroyed_with_own_parts (by decide) hexec hmeets hstep
  exact ⟨s, next, hown, hbefore, hafter⟩

/-- Both processes number their jobs from the same start: the card of the fetched file goes with the
directory of the download. -/
theorem foreign_parts_deleted :
    ¬ ∀ (orphans : List Nat) (saved : List SavedCard) (inputs : List DeletionInput)
      (trace emitted : List IdentityEvent) (s next : PartsStore) (input : DeletionInput),
      PartsStore.SavedApart orphans saved →
      Exec PartsStore.step Guard.free (.load orphans saved) inputs trace s →
      PartsStore.step s input = some (next, emitted) → s.DeletesOwn input next := by
  intro hall
  have hdestroyed : destroyedAfter Guard.free (fetchBesideDownload sourceJobIdBase) fetchedCard =
      some (.begun 1, [(sourceJobIdBase, .begun 0)], []) := by decide
  obtain ⟨trace, s, found, next, emitted, hexec, -, hfound, hstep, htransfer, hbefore, hafter⟩ :=
    step_of_destroyed_after hdestroyed
  have hown := hall [] [] _ trace emitted s next _ (by decide) hexec hstep
  have hgone := ((hown.card fetchedCard found (.inl rfl) hfound).1 (sourceJobIdBase, .begun 0)
    (by simp [hbefore]) (by simp [hafter]))
  rw [htransfer] at hgone
  exact absurd hgone (by decide)

end LocalTrans
