import LocalTrans.Shell.FolderDownload
import LocalTrans.Transfer.Progress

/-!
# The card of a transfer that is resumed

`resume_pending` looks for the parts directory of a card and fetches its file again, or takes the
card for that of a folder and fetches what the folder lists. `Resumption.handle` is what one event
of the new task does to the card. A card that is over refuses every event, and only the branch for
folders takes it out of that state first, if it is interrupted: `revives_iff` says which cards show
the new task and end as done.
-/

namespace LocalTrans.Desktop

/-- What `hex::decode` and `copy_from_slice` make of a fingerprint. -/
inductive PeerBytes where
  | fingerprint
  | invalid
  | panics
deriving DecidableEq

/-- The fingerprint in a row or a manifest, decoded into 32 bytes. -/
def decodePeer (peer : String) : PeerBytes :=
  let digits := peer.toList
  if digits.length % 2 ≠ 0 ∨
      ¬ digits.all fun c => c.isDigit || ('a' ≤ c && c ≤ 'f') || ('A' ≤ c && c ≤ 'F') then .invalid
  else if digits.length = 64 then .fingerprint
  else .panics

/-- The text of an id in a row: `format!("{:016x}")`. -/
def idText (id : Nat) : String :=
  String.ofList (List.leftpad 16 '0' (Nat.toDigits 16 id))

/-- `source_path.split_once('|')`. -/
def splitSource (source : String) : Option (String × String) :=
  match source.toList.span (· ≠ '|') with
  | (_, []) => none
  | (share, _ :: path) => some (String.ofList share, String.ofList path)

/-- What `resume_pending` reads: the cards under their ids, and `pending_jobs`. -/
structure ResumeDesk where
  cards : Nat → Option TransferCard
  jobs : List (Nat × Manifest)

/-- What `resume_pending` starts, and the card that the events go to. -/
inductive Resumption where
  | file (card : Nat) (shareId rel : String)
  | folder (card : Nat) (shareId dirPath : String)
deriving DecidableEq

/-- Why `resume_pending` refuses. The last one is the panic of `copy_from_slice`. -/
inductive ResumeError where
  | notFound (id : Nat)
  | invalidPeer
  | panicked
deriving DecidableEq

/-- What the task of a file reports: `ProgressEvent`, with the speeds. -/
inductive FileReport where
  | event (ev : ProgressEvent)
  | speed (bps : Nat)
deriving DecidableEq

/-- What the restarted task reports. -/
inductive TaskReport where
  | file (report : FileReport)
  | folder (delivery : FolderDelivery)
deriving DecidableEq

namespace TaskReport

/-- The bytes of a chunk. -/
def chunkBytes : TaskReport → Option Nat
  | .file (.event (.chunkDone _ _ bytes)) => some bytes
  | .folder (.chunk _ bytes) => some bytes
  | _ => none

/-- The report that the task has fetched everything. -/
def isDone : TaskReport → Bool
  | .file (.event (.done _)) => true
  | .folder (.event (.allDone _ failed)) => failed.isEmpty
  | _ => false

/-- The last report of a task. -/
def isLast : TaskReport → Bool
  | .file (.event (.done _)) | .file (.event (.failed _ _)) => true
  | .folder (.event (.allDone _ _)) => true
  | _ => false

end TaskReport

namespace ResumeDesk

/-- `resolve_engine_id`. -/
def resolveEngineId (desk : ResumeDesk) (id : Nat) : Nat :=
  ((desk.cards id).bind TransferCard.engineId).getD id

/-- The parts directory of a card: the one of its task, else one with the name of its file and its
peer. -/
def findManifest (desk : ResumeDesk) (rawId : Nat) : Option Manifest :=
  match desk.jobs.find? fun job => job.1 = desk.resolveEngineId rawId with
  | some job => some job.2
  | none => (desk.cards rawId).bind fun card =>
    (desk.jobs.find? fun job =>
      job.2.fileName = card.dto.name ∧ job.2.peer = some card.dto.peer).map Prod.snd

/-- A fingerprint is checked before the task is started. -/
def withPeer (peer : String) (resumption : Resumption) : Except ResumeError Resumption :=
  match decodePeer peer with
  | .fingerprint => .ok resumption
  | .invalid => .error .invalidPeer
  | .panics => .error .panicked

/-- `resume_pending`. -/
def resumePending (desk : ResumeDesk) (rawId : Nat) : Except ResumeError Resumption :=
  let jobId := desk.resolveEngineId rawId
  match desk.findManifest rawId with
  | some manifest =>
    withPeer (manifest.peer.getD "")
      (.file rawId (manifest.shareId.getD "") (manifest.rel.getD ""))
  | none =>
    match (desk.cards rawId).or (desk.cards jobId) with
    | none => .error (.notFound rawId)
    | some card =>
      match card.dto.sourcePath.bind splitSource with
      | some (shareId, dirPath) => withPeer card.dto.peer (.folder jobId shareId dirPath)
      | none => .error (.notFound jobId)

/-- What is done to a card of the table, where there is one. -/
def mapCard (desk : ResumeDesk) (id : Nat) (change : TransferCard → TransferCard) : ResumeDesk :=
  { desk with cards := fun other => if other = id then (desk.cards id).map change
                                    else desk.cards other }

/-- `bind_engine_id` with the name and the size of the file, for a card without a task. -/
def bindStarted (card : TransferCard) (job : Nat) (name : String) (total : Nat) : TransferCard :=
  match card.engineId with
  | some _ => card
  | none =>
    let bound := { card with
      engineId := some job
      dto := { card.dto with partsId := some (idText job) } }
    bound.cardMutate fun dto => { dto with name := name, total := total }

/-- `handle_pull_progress_event` on a card. `alive` is `placeholder_alive`, and the answer is that
flag afterwards. -/
def handlePullProgressEvent (card : TransferCard) (alive : Bool) (nowMs : Int) :
    FileReport → TransferCard × Bool
  | .event (.started job name total) =>
    ((bindStarted card job name total).cardApply .started nowMs, false)
  | .event (.chunkDone _ _ bytes) => (card.sourceChunkAdd bytes nowMs, alive)
  | .event (.resumed _ alreadyBytes) =>
    let started := if alive && card.engineId.isNone then card.cardApply .started nowMs else card
    (started.cardMutate fun dto => { dto with done := alreadyBytes }, alive)
  | .speed bps =>
    ((card.apply (.progress card.dto.done card.dto.total bps 0 none) nowMs).2, alive)
  | .event (.done _) => (card.cardApply .finished nowMs, false)
  | .event (.failed _ reason) => (card.cardApply (.failed (some reason)) nowMs, false)
  | .event (.instantHit _ _ _) => (card, alive)

/-- The pumps of `run_dir_pull_task` on a card. -/
def handleFolderDelivery (listing : List (String × Nat)) (card : TransferCard) (nowMs : Int) :
    FolderDelivery → TransferCard
  | .event ev =>
    FolderPull.applyEvent
      { task := .files, listing, ended := [], events := [], progress := [], card } nowMs ev
  | .chunk _ bytes => card.sourceChunkAdd bytes nowMs

/-- The branch for folders, before its task starts: an interrupted card is paused and resumed. -/
def reopen (card : TransferCard) (nowMs : Int) : TransferCard :=
  (card.cardMutate fun dto => { dto with
    done := 0
    speedBps := 0
    finishedAtMs := none
    state := if dto.state = "interrupted" then "paused" else dto.state }).cardApply .resumed nowMs

end ResumeDesk

namespace Resumption

/-- What is done to the cards before the task starts. -/
def begin (desk : ResumeDesk) (nowMs : Int) : Resumption → ResumeDesk
  | .file _ _ _ => desk
  | .folder card _ _ => desk.mapCard card fun card => ResumeDesk.reopen card nowMs

/-- What one report does to the cards, and to the flag `placeholder_alive` of the pump. -/
def handle (resumption : Resumption) (listing : List (String × Nat)) (pump : ResumeDesk × Bool)
    (report : TaskReport × Int) : ResumeDesk × Bool :=
  match resumption, report.1 with
  | .file card _ _, .file ev =>
    match pump.1.cards card with
    | none => pump
    | some found =>
      let (next, alive) := ResumeDesk.handlePullProgressEvent found pump.2 report.2 ev
      (pump.1.mapCard card fun _ => next, alive)
  | .folder card _ _, .folder delivery =>
    (pump.1.mapCard card fun found =>
      ResumeDesk.handleFolderDelivery listing found report.2 delivery, pump.2)
  | _, _ => pump

/-- The pump after some reports. -/
def run (resumption : Resumption) (listing : List (String × Nat)) (pump : ResumeDesk × Bool)
    (reports : List (TaskReport × Int)) : ResumeDesk × Bool :=
  reports.foldl (resumption.handle listing) pump

/-- The pump when the task starts. -/
def start (resumption : Resumption) (desk : ResumeDesk) (nowMs : Int) : ResumeDesk × Bool :=
  (resumption.begin desk nowMs, true)

/-- The task of a file reports on a file, that of a folder on a folder. -/
def Emits : Resumption → TaskReport → Prop
  | .file _ _ _, .file _ | .folder _ _ _, .folder _ => True
  | _, _ => False

instance (resumption : Resumption) (report : TaskReport) : Decidable (resumption.Emits report) :=
  match resumption, report with
  | .file _ _ _, .file _ | .folder _ _ _, .folder _ => isTrue trivial
  | .file _ _ _, .folder _ | .folder _ _ _, .file _ => isFalse id

/-- The reports are those of a task that has fetched everything: none before is its last one, and
after it there are only chunks that were waiting in the other channel. -/
structure EndsWithDone (resumption : Resumption) (before : List (TaskReport × Int))
    (last : TaskReport) (after : List (TaskReport × Int)) : Prop where
  kind : ∀ report ∈ before, resumption.Emits report.1
  kindLast : resumption.Emits last
  done : last.isDone = true
  before : ∀ report ∈ before, report.1.isLast = false
  after : ∀ report ∈ after, report.1.chunkBytes ≠ none

/-- Every chunk that is reported adds its bytes to the card. -/
def ShowsChunks (resumption : Resumption) (listing : List (String × Nat)) (cardId : Nat)
    (pump : ResumeDesk × Bool) (reports : List (TaskReport × Int)) : Prop :=
  ∀ before report after, reports = before ++ report :: after →
    ∀ bytes, report.1.chunkBytes = some bytes →
      ∀ shown, (resumption.run listing pump before).1.cards cardId = some shown →
        ∃ next, (resumption.run listing pump (before ++ [report])).1.cards cardId = some next ∧
          next.dto.done = (shown.dto.done + bytes) % 2 ^ 64

/-- The card ends as done and full. -/
def EndsFull (desk : ResumeDesk) (cardId : Nat) : Prop :=
  ∃ card, desk.cards cardId = some card ∧ card.dto.state = "done" ∧
    card.dto.done = card.dto.total

end Resumption

/-- The cards that the new task reaches: an interrupted one whose task, if it has one, bears its own
id, and that no unfinished parts directory belongs to. -/
structure Revivable (desk : ResumeDesk) (rawId : Nat) (card : TransferCard) : Prop where
  interrupted : card.dto.state = "interrupted"
  ownId : card.engineId.getD rawId = rawId
  noParts : ∀ job ∈ desk.jobs, job.1 ≠ rawId ∧
    ¬(job.2.fileName = card.dto.name ∧ job.2.peer = some card.dto.peer)

/-- `auto_resumable_jobs`, on the cards of the table: what `resume_pending` is called with when a
session comes up. -/
def autoResumableJobs (transfers : List (Nat × TransferCard)) (peerHex : String)
    (pendingJobIds alreadyRetried : List Nat) : List Nat :=
  (transfers.filter fun (id, card) =>
    card.dto.state = "failed" && card.dto.peer = peerHex && id ∈ pendingJobIds &&
      !alreadyRetried.contains id).map Prod.fst

section Cards

variable {card : TransferCard} {nowMs : Int}

/-- A card that is over refuses every event. -/
theorem card_apply_over (h : IsTerminal card.dto.state) (ev : CardEvent) :
    card.cardApply ev nowMs = card := by
  have hrefused : card.apply ev nowMs = (false, card) := by
    rcases TransferCard.apply_cases card ev nowMs with hrefused | ⟨state, found, next, hstate, hedge, -⟩
    · exact hrefused
    · cases state with
      | done | failed | interrupted => cases hedge
      | pending | active | paused | cancelling =>
        rw [hstate] at h
        exact absurd h (by decide)
  unfold TransferCard.cardApply
  rw [hrefused]
  rfl

/-- A card that is not active shows no progress. -/
theorem apply_progress_over (h : IsTerminal card.dto.state) {done total speedBps remoteDone : Nat} :
    (card.apply (.progress done total speedBps remoteDone none) nowMs).2 = card := by
  rw [TransferCard.apply_progress, if_neg]
  intro hactive
  rw [hactive] at h
  exact absurd h (by decide)

theorem bind_started_state (card : TransferCard) (job : Nat) (name : String) (total : Nat) :
    (ResumeDesk.bindStarted card job name total).dto.state = card.dto.state := by
  unfold ResumeDesk.bindStarted
  split
  · rfl
  · rfl

/-- No report of a file takes a card out of its last state. -/
theorem handle_file_over (h : IsTerminal card.dto.state) (alive : Bool) (nowMs : Int)
    (report : FileReport) :
    (ResumeDesk.handlePullProgressEvent card alive nowMs report).1.dto.state = card.dto.state := by
  cases report with
  | speed bps => exact congrArg (·.dto.state) (apply_progress_over h)
  | event ev =>
    cases ev with
    | started job name total =>
      have hbound := bind_started_state card job name total
      exact (congrArg (·.dto.state) (card_apply_over (hbound ▸ h) _)).trans hbound
    | chunkDone job chunk bytes => exact congrArg (·.dto.state) (apply_progress_over h)
    | resumed job alreadyBytes =>
      unfold ResumeDesk.handlePullProgressEvent
      dsimp only
      split
      · exact congrArg (·.dto.state) (card_apply_over h _)
      · rfl
    | done job => exact congrArg (·.dto.state) (card_apply_over h _)
    | failed job reason => exact congrArg (·.dto.state) (card_apply_over h _)
    | instantHit job name total => rfl

/-- `child_upsert` leaves the state of the card alone. -/
theorem child_upsert_state (card : TransferCard) (child : ChildDto) :
    (card.childUpsert child).dto.state = card.dto.state := by
  unfold TransferCard.childUpsert
  split
  · rfl
  · rfl

/-- No delivery of a folder takes a card out of its last state. -/
theorem handle_folder_over (h : IsTerminal card.dto.state) (listing : List (String × Nat))
    (nowMs : Int) (delivery : FolderDelivery) :
    (ResumeDesk.handleFolderDelivery listing card nowMs delivery).dto.state = card.dto.state := by
  cases delivery with
  | chunk file bytes => exact congrArg (·.dto.state) (apply_progress_over h)
  | event ev =>
    cases ev with
    | enumerated count total => exact congrArg (·.dto.state) (card_apply_over h _)
    | fileDone file =>
      exact (child_upsert_state _ _).trans (congrArg (·.dto.state) (apply_progress_over h))
    | fileFailed file reason => exact child_upsert_state _ _
    | allDone succeeded failed =>
      unfold ResumeDesk.handleFolderDelivery FolderPull.applyEvent
      dsimp only
      split
      · exact congrArg (·.dto.state) (card_apply_over h _)
      · exact congrArg (·.dto.state) (card_apply_over h _)

/-- On an active card every chunk adds its bytes. -/
theorem chunk_on_active (h : card.dto.state = "active") (bytes : Nat) :
    (card.sourceChunkAdd bytes nowMs).dto.state = "active" ∧
      (card.sourceChunkAdd bytes nowMs).dto.done = (card.dto.done + bytes) % 2 ^ 64 := by
  unfold TransferCard.sourceChunkAdd
  rw [TransferCard.apply_progress, if_pos h]
  exact ⟨h, rfl⟩

/-- An active card is not started again. -/
theorem start_on_active (h : card.dto.state = "active") : card.cardApply .started nowMs = card := by
  have hstate : card.dto.state = asStr .active := h
  unfold TransferCard.cardApply
  rw [TransferCard.apply_eq hstate (by decide)]
  rfl

/-- Before its last delivery the card of a folder stays active. -/
theorem handle_folder_active (h : card.dto.state = "active") (listing : List (String × Nat))
    {delivery : FolderDelivery} (hlast : (TaskReport.folder delivery).isLast = false) :
    (ResumeDesk.handleFolderDelivery listing card nowMs delivery).dto.state = "active" := by
  cases delivery with
  | chunk file bytes => exact (chunk_on_active h bytes).1
  | event ev =>
    cases ev with
    | enumerated count total =>
      show (card.cardApply .started nowMs).dto.state = "active"
      rw [start_on_active h]
      exact h
    | fileDone file => exact (child_upsert_state _ _).trans (chunk_on_active h _).1
    | fileFailed file reason => exact (child_upsert_state _ _).trans h
    | allDone succeeded failed => cases hlast

/-- With nothing failed, an active card ends as done and full. -/
theorem finish_active (h : card.dto.state = "active") (nowMs : Int) :
    (card.cardApply .finished nowMs).dto.state = "done" ∧
      (card.cardApply .finished nowMs).dto.done = (card.cardApply .finished nowMs).dto.total := by
  have hstate : card.dto.state = asStr .active := h
  unfold TransferCard.cardApply
  rw [TransferCard.apply_eq hstate (by decide)]
  exact ⟨rfl, rfl⟩

/-- An interrupted card is active when the task of the folder starts, and a failed one is not. -/
theorem reopen_state (hstate : card.dto.state = "interrupted" ∨ card.dto.state = "failed")
    (nowMs : Int) :
    (ResumeDesk.reopen card nowMs).dto.state =
      if card.dto.state = "interrupted" then "active" else card.dto.state := by
  unfold ResumeDesk.reopen
  rcases hstate with h | h
  · have hpaused : ((card.cardMutate fun dto => { dto with
        done := 0
        speedBps := 0
        finishedAtMs := none
        state := if dto.state = "interrupted" then "paused" else dto.state })).dto.state =
        asStr .paused := by
      show (if card.dto.state = "interrupted" then "paused" else card.dto.state) = "paused"
      rw [h]
      rfl
    rw [if_pos h]
    unfold TransferCard.cardApply
    rw [TransferCard.apply_eq hpaused (by decide)]
    rfl
  · have hne : ¬ card.dto.state = "interrupted" := by
      rw [h]
      decide
    rw [if_neg hne, card_apply_over]
    · exact if_neg hne
    · exact .inr (.inl ((if_neg hne).trans h))

end Cards

section Runs

variable {desk : ResumeDesk} {rawId : Nat} {card : TransferCard} (resumption : Resumption)
  (listing : List (String × Nat)) {pump : ResumeDesk × Bool} {report : TaskReport × Int}
  {reports before after : List (TaskReport × Int)}

namespace Resumption

theorem run_append : resumption.run listing pump (before ++ after) =
    resumption.run listing (resumption.run listing pump before) after :=
  List.foldl_append

/-- No report takes a card out of its last state, whichever card the task writes to. -/
theorem handle_over (hcard : pump.1.cards rawId = some card) (hover : IsTerminal card.dto.state) :
    ∃ next, (resumption.handle listing pump report).1.cards rawId = some next ∧
      next.dto.state = card.dto.state := by
  obtain ⟨report, nowMs⟩ := report
  cases resumption with
  | file id shareId rel =>
    cases report with
    | folder delivery => exact ⟨card, hcard, rfl⟩
    | file ev =>
      unfold handle
      dsimp only
      split
      · exact ⟨card, hcard, rfl⟩
      · next found hfound =>
        by_cases hid : rawId = id
        · subst hid
          obtain rfl := Option.some.inj (hcard.symm.trans hfound)
          refine ⟨_, ?_, handle_file_over hover pump.2 nowMs ev⟩
          show (if rawId = rawId then _ else _) = _
          rw [if_pos rfl, hfound]
          rfl
        · exact ⟨card, (if_neg hid).trans hcard, rfl⟩
  | folder id shareId dirPath =>
    cases report with
    | file ev => exact ⟨card, hcard, rfl⟩
    | folder delivery =>
      by_cases hid : rawId = id
      · subst hid
        refine ⟨_, ?_, handle_folder_over hover listing nowMs delivery⟩
        show (if rawId = rawId then _ else _) = _
        rw [if_pos rfl, hcard]
        rfl
      · exact ⟨card, (if_neg hid).trans hcard, rfl⟩

theorem run_over (hcard : pump.1.cards rawId = some card) (hover : IsTerminal card.dto.state) :
    ∃ next, (resumption.run listing pump reports).1.cards rawId = some next ∧
      next.dto.state = card.dto.state := by
  induction reports generalizing pump card with
  | nil => exact ⟨card, hcard, rfl⟩
  | cons report rest ih =>
    obtain ⟨mid, hmid, hsame⟩ := handle_over resumption listing hcard hover
    obtain ⟨next, hnext, hstate⟩ := ih hmid (hsame ▸ hover)
    exact ⟨next, hnext, hstate.trans hsame⟩

/-- A card that is over when the task starts, and not done, never ends as done. -/
theorem not_full_of_over (hcard : pump.1.cards rawId = some card)
    (hstate : card.dto.state = "interrupted" ∨ card.dto.state = "failed") :
    ¬EndsFull (resumption.run listing pump reports).1 rawId := by
  rintro ⟨last, hlast, hdone, -⟩
  obtain ⟨next, hnext, hsame⟩ := run_over resumption listing hcard
    (hstate.elim (fun h => .inr (.inr h)) fun h => .inr (.inl h))
  obtain rfl := Option.some.inj (hlast.symm.trans hnext)
  rw [← hsame, hdone] at hstate
  exact absurd hstate (by decide)

section Folder

variable (shareId dirPath : String)

/-- What one delivery does to the card of the folder. -/
theorem handle_folder (hcard : pump.1.cards rawId = some card) (delivery : FolderDelivery)
    (nowMs : Int) :
    ((folder rawId shareId dirPath).handle listing pump (.folder delivery, nowMs)).1.cards rawId =
      some (ResumeDesk.handleFolderDelivery listing card nowMs delivery) := by
  show (if rawId = rawId then _ else _) = _
  rw [if_pos rfl, hcard]
  rfl

/-- The card of the folder is active until the task has fetched everything. -/
theorem run_active (hcard : pump.1.cards rawId = some card) (hactive : card.dto.state = "active")
    (hkind : ∀ report ∈ reports, (folder rawId shareId dirPath).Emits report.1)
    (hlast : ∀ report ∈ reports, report.1.isLast = false) :
    ∃ next, ((folder rawId shareId dirPath).run listing pump reports).1.cards rawId = some next ∧
      next.dto.state = "active" := by
  induction reports generalizing pump card with
  | nil => exact ⟨card, hcard, hactive⟩
  | cons report rest ih =>
    obtain ⟨report, nowMs⟩ := report
    cases report with
    | file ev => exact absurd (hkind _ List.mem_cons_self) id
    | folder delivery =>
      exact ih (handle_folder listing shareId dirPath hcard delivery nowMs)
        (handle_folder_active hactive listing (hlast _ List.mem_cons_self))
        (fun report hmem => hkind report (List.mem_cons_of_mem _ hmem))
        (fun report hmem => hlast report (List.mem_cons_of_mem _ hmem))

theorem shows_chunks (hcard : pump.1.cards rawId = some card)
    (hactive : card.dto.state = "active")
    (hkind : ∀ report ∈ reports, (folder rawId shareId dirPath).Emits report.1)
    (hlast : ∀ report ∈ reports, report.1.isLast = false) :
    (folder rawId shareId dirPath).ShowsChunks listing rawId pump reports := by
  rintro before ⟨report, nowMs⟩ after rfl bytes hbytes shown hshown
  obtain ⟨found, hfound, hfoundActive⟩ := run_active listing shareId dirPath hcard hactive
    (fun report hmem => hkind report (List.mem_append_left _ hmem))
    fun report hmem => hlast report (List.mem_append_left _ hmem)
  obtain rfl := Option.some.inj (hshown.symm.trans hfound)
  have hkindReport := hkind (report, nowMs) (by simp)
  cases report with
  | file ev => exact absurd hkindReport id
  | folder delivery =>
    rw [run_append]
    refine ⟨_, handle_folder listing shareId dirPath hshown delivery nowMs, ?_⟩
    cases delivery with
    | event ev => cases hbytes
    | chunk file size =>
      obtain rfl := Option.some.inj hbytes
      exact (chunk_on_active hfoundActive size).2

/-- A chunk that comes after the end leaves the card as it is. -/
theorem run_chunks_over (hcard : pump.1.cards rawId = some card)
    (hover : IsTerminal card.dto.state)
    (hchunks : ∀ report ∈ reports, report.1.chunkBytes ≠ none) :
    ((folder rawId shareId dirPath).run listing pump reports).1.cards rawId = some card := by
  induction reports generalizing pump with
  | nil => exact hcard
  | cons report rest ih =>
    obtain ⟨report, nowMs⟩ := report
    have hrest : ∀ report ∈ rest, report.1.chunkBytes ≠ none :=
      fun report hmem => hchunks report (List.mem_cons_of_mem _ hmem)
    cases report with
    | file ev => exact ih hcard hrest
    | folder delivery =>
      cases delivery with
      | event ev => exact absurd rfl (hchunks _ List.mem_cons_self)
      | chunk file bytes =>
        refine ih ((handle_folder listing shareId dirPath hcard _ nowMs).trans
          (congrArg some ?_)) hrest
        exact apply_progress_over hover

/-- An active card of a folder ends as done and full. -/
theorem folder_ends_full (hcard : pump.1.cards rawId = some card)
    (hactive : card.dto.state = "active") {last : TaskReport} {lastMs : Int}
    (hends : (folder rawId shareId dirPath).EndsWithDone before last after) :
    EndsFull ((folder rawId shareId dirPath).run listing pump
      (before ++ (last, lastMs) :: after)).1 rawId := by
  obtain ⟨found, hfound, hfoundActive⟩ := run_active listing shareId dirPath hcard hactive
    hends.kind hends.before
  rw [run_append]
  have hlast := hends.kindLast
  have hdone := hends.done
  cases last with
  | file ev => exact absurd hlast id
  | folder delivery =>
    cases delivery with
    | chunk file bytes => cases hdone
    | event ev =>
      cases ev with
      | enumerated count total => cases hdone
      | fileDone file => cases hdone
      | fileFailed file reason => cases hdone
      | allDone succeeded failed =>
        obtain rfl : failed = [] := List.isEmpty_iff.mp hdone
        obtain ⟨hstate, hfull⟩ := finish_active hfoundActive lastMs
        have hfinished := handle_folder listing shareId dirPath hfound
          (.event (.allDone succeeded [])) lastMs
        have hrest := run_chunks_over listing shareId dirPath hfinished (.inl hstate)
          hends.after
        exact ⟨_, hrest, hstate, hfull⟩

end Folder

end Resumption

variable {resumption}

theorem with_peer_ok {peer : String} {started : Resumption}
    (h : ResumeDesk.withPeer peer started = .ok resumption) : started = resumption := by
  unfold ResumeDesk.withPeer at h
  split at h
  · exact Except.ok.inj h
  · cases h
  · cases h

/-- No parts directory is found for a card exactly when none bears the id of its task, or the name
of its file and its peer. -/
theorem find_manifest_none_iff (hcard : desk.cards rawId = some card) :
    desk.findManifest rawId = none ↔ ∀ job ∈ desk.jobs, job.1 ≠ card.engineId.getD rawId ∧
      ¬(job.2.fileName = card.dto.name ∧ job.2.peer = some card.dto.peer) := by
  have hjob : desk.resolveEngineId rawId = card.engineId.getD rawId := by
    unfold ResumeDesk.resolveEngineId
    rw [hcard]
    rfl
  unfold ResumeDesk.findManifest
  rw [hjob, hcard]
  constructor
  · intro h
    split at h
    · cases h
    · next hid =>
      have hcontent := Option.map_eq_none_iff.mp h
      intro job hmem
      exact ⟨by simpa using List.find?_eq_none.mp hid job hmem,
        by simpa using List.find?_eq_none.mp hcontent job hmem⟩
  · intro h
    have hid : (desk.jobs.find? fun job => job.1 = card.engineId.getD rawId) = none :=
      List.find?_eq_none.mpr fun job hmem => by simpa using (h job hmem).1
    have hcontent : (desk.jobs.find? fun job =>
        job.2.fileName = card.dto.name ∧ job.2.peer = some card.dto.peer) = none :=
      List.find?_eq_none.mpr fun job hmem => by simpa using (h job hmem).2
    rw [hid]
    exact Option.map_eq_none_iff.mpr hcontent

/-- What `resume_pending` starts for a card. -/
theorem resumption_cases (hcard : desk.cards rawId = some card)
    (haccept : desk.resumePending rawId = .ok resumption) :
    ((∃ manifest, desk.findManifest rawId = some manifest) ∧
        ∃ shareId rel, resumption = .file rawId shareId rel) ∨
      desk.findManifest rawId = none ∧
        ∃ shareId dirPath, resumption = .folder (card.engineId.getD rawId) shareId dirPath := by
  have hjob : desk.resolveEngineId rawId = card.engineId.getD rawId := by
    unfold ResumeDesk.resolveEngineId
    rw [hcard]
    rfl
  unfold ResumeDesk.resumePending at haccept
  rw [hjob, hcard] at haccept
  cases hfound : desk.findManifest rawId with
  | some manifest =>
    rw [hfound] at haccept
    exact .inl ⟨⟨manifest, rfl⟩, _, _, (with_peer_ok haccept).symm⟩
  | none =>
    rw [hfound] at haccept
    refine .inr ⟨rfl, ?_⟩
    dsimp only [Option.some_or] at haccept
    split at haccept
    · exact ⟨_, _, (with_peer_ok haccept).symm⟩
    · cases haccept

/-- The new task writes to the card itself, as that of a folder, exactly when the task of the card
bears its id and no parts directory belongs to it. -/
theorem folder_resumption_iff (hcard : desk.cards rawId = some card)
    (haccept : desk.resumePending rawId = .ok resumption) :
    (∃ shareId dirPath, resumption = .folder rawId shareId dirPath) ↔
      card.engineId.getD rawId = rawId ∧ ∀ job ∈ desk.jobs, job.1 ≠ rawId ∧
        ¬(job.2.fileName = card.dto.name ∧ job.2.peer = some card.dto.peer) := by
  rcases resumption_cases hcard haccept with
    ⟨⟨manifest, hfound⟩, shareId, rel, rfl⟩ | ⟨hnone, shareId, dirPath, rfl⟩
  · constructor
    · rintro ⟨_, _, h⟩
      cases h
    · rintro ⟨hown, hjobs⟩
      rw [← hown] at hjobs
      have hnone := (find_manifest_none_iff hcard).mpr (by simpa only [hown] using hjobs)
      rw [hfound] at hnone
      cases hnone
  · have hjobs := (find_manifest_none_iff hcard).mp hnone
    constructor
    · rintro ⟨_, _, h⟩
      have hown := (Resumption.folder.inj h).1
      rw [hown] at hjobs
      exact ⟨hown, hjobs⟩
    · rintro ⟨hown, -⟩
      exact ⟨shareId, dirPath, by rw [hown]⟩

/-- The card as the new task finds it, where it is not taken out of its last state. -/
theorem begin_over (hcard : desk.cards rawId = some card)
    (hstate : card.dto.state = "interrupted" ∨ card.dto.state = "failed")
    (hlost : ¬((∃ shareId dirPath, resumption = .folder rawId shareId dirPath) ∧
      card.dto.state = "interrupted")) (nowMs : Int) :
    ∃ found, (resumption.begin desk nowMs).cards rawId = some found ∧
      (found.dto.state = "interrupted" ∨ found.dto.state = "failed") := by
  cases resumption with
  | file id shareId rel => exact ⟨card, hcard, hstate⟩
  | folder id shareId dirPath =>
    by_cases hid : rawId = id
    · subst hid
      have hne : ¬card.dto.state = "interrupted" := fun h => hlost ⟨⟨_, _, rfl⟩, h⟩
      have hreopened := reopen_state hstate nowMs
      rw [if_neg hne] at hreopened
      refine ⟨_, ?_, .inr (hreopened.trans (hstate.resolve_left hne))⟩
      show (if rawId = rawId then _ else _) = _
      rw [if_pos rfl, hcard]
      rfl
    · exact ⟨card, (if_neg hid).trans hcard, hstate⟩

/-- The card that is taken out of its last state. -/
theorem begin_active (shareId dirPath : String) (hcard : desk.cards rawId = some card)
    (hstate : card.dto.state = "interrupted") (nowMs : Int) :
    ∃ found, (Resumption.begin desk nowMs (.folder rawId shareId dirPath)).cards rawId =
        some found ∧ found.dto.state = "active" := by
  have hreopened := reopen_state (.inl hstate) nowMs
  rw [if_pos hstate] at hreopened
  refine ⟨_, ?_, hreopened⟩
  show (if rawId = rawId then _ else _) = _
  rw [if_pos rfl, hcard]
  rfl

/-- For a card that is interrupted or failed and that `resume_pending` accepts, and for the reports
of a task that has fetched everything: the card shows every chunk and ends as done and full exactly
when it is the interrupted one of a folder without a parts directory. -/
theorem revives_iff (hcard : desk.cards rawId = some card)
    (hstate : card.dto.state = "interrupted" ∨ card.dto.state = "failed")
    (haccept : desk.resumePending rawId = .ok resumption) (startedMs lastMs : Int)
    {last : TaskReport} (hends : resumption.EndsWithDone before last after) :
    Resumption.EndsFull (resumption.run listing (resumption.start desk startedMs)
          (before ++ (last, lastMs) :: after)).1 rawId ∧
        resumption.ShowsChunks listing rawId (resumption.start desk startedMs) before ↔
      Revivable desk rawId card := by
  constructor
  · rintro ⟨hfull, -⟩
    by_contra hnot
    have hlost : ¬((∃ shareId dirPath, resumption = .folder rawId shareId dirPath) ∧
        card.dto.state = "interrupted") := by
      rintro ⟨hfolder, hinterrupted⟩
      obtain ⟨hown, hjobs⟩ := (folder_resumption_iff hcard haccept).mp hfolder
      exact hnot ⟨hinterrupted, hown, hjobs⟩
    obtain ⟨found, hfound, hover⟩ := begin_over hcard hstate hlost startedMs
    exact Resumption.not_full_of_over resumption listing hfound hover hfull
  · intro h
    obtain ⟨shareId, dirPath, rfl⟩ :=
      (folder_resumption_iff hcard haccept).mpr ⟨h.ownId, h.noParts⟩
    obtain ⟨found, hfound, hactive⟩ := begin_active shareId dirPath hcard h.interrupted startedMs
    exact ⟨Resumption.folder_ends_full listing shareId dirPath hfound hactive hends,
      Resumption.shows_chunks listing shareId dirPath hfound hactive hends.kind hends.before⟩

end Runs

/-- The fingerprint of a peer. -/
def samplePeer : String := String.ofList (List.replicate 64 'a')

/-- The card of a folder whose download was interrupted, and no parts directory. -/
def interruptedFolder : ResumeDesk where
  cards := fun id => if id = 5 then
      some (.new { sampleRow with
        jobId := 5, name := "[文件夹] docs", state := "interrupted", peer := samplePeer,
        done := 4, sourcePath := some "s1|docs" })
    else none
  jobs := []

/-- The folder is listed and its file comes in one chunk. -/
def folderReports : List (TaskReport × Int) :=
  [(.folder (.event (.enumerated 1 10)), 2), (.folder (.chunk 0 10), 3),
    (.folder (.event (.fileDone 0)), 4)]

theorem revives_sample :
    let pump := Resumption.start (.folder 5 "s1" "docs") interruptedFolder 1
    Resumption.EndsFull (Resumption.run (.folder 5 "s1" "docs") [("a.bin", 10)] pump
        (folderReports ++ [(.folder (.event (.allDone 1 [])), 5)])).1 5 ∧
      Resumption.ShowsChunks (.folder 5 "s1" "docs") [("a.bin", 10)] 5 pump folderReports :=
  have haccept : interruptedFolder.resumePending 5 = .ok (.folder 5 "s1" "docs") := by
    decide +kernel
  have hends : Resumption.EndsWithDone (.folder 5 "s1" "docs") folderReports
      (.folder (.event (.allDone 1 []))) [] :=
    ⟨by decide, trivial, rfl, by decide, by decide⟩
  (revives_iff [("a.bin", 10)] rfl (.inl rfl) haccept 1 5 hends).mpr ⟨rfl, rfl, by decide⟩

/-- The card of a file whose download was interrupted, and its parts directory. -/
def interruptedFile : ResumeDesk where
  cards := fun id => if id = 5 then
      some {
        dto := { sampleRow with
          jobId := 5, state := "interrupted", peer := samplePeer, done := 40 }
        engineId := some 9
        removed := false
        cancellingSinceMs := none
        lastTransition := none }
    else none
  jobs := [(9, .fromMetaWithSource "t.bin" 100 ["a"] (some samplePeer) (some "s1") (some "t.bin"))]

/-- The card of a file that is fetched again stays interrupted, whatever the task reports. -/
theorem interrupted_file_stays :
    ¬∀ (desk : ResumeDesk) (rawId : Nat) (card : TransferCard) (resumption : Resumption)
      (listing : List (String × Nat)) (before after : List (TaskReport × Int)) (last : TaskReport)
      (startedMs lastMs : Int),
      desk.cards rawId = some card →
      (card.dto.state = "interrupted" ∨ card.dto.state = "failed") →
      desk.resumePending rawId = .ok resumption →
      resumption.EndsWithDone before last after →
      Resumption.EndsFull (resumption.run listing (resumption.start desk startedMs)
          (before ++ (last, lastMs) :: after)).1 rawId ∧
        resumption.ShowsChunks listing rawId (resumption.start desk startedMs) before := by
  intro hall
  have hfull := (hall interruptedFile 5 _ (.file 5 "s1" "t.bin") []
    [(.file (.event (.started 9 "t.bin" 100)), 2), (.file (.event (.resumed 9 40)), 3),
      (.file (.event (.chunkDone 9 0 60)), 4)] [] (.file (.event (.done 9))) 1 5 rfl (.inl rfl)
    (by decide +kernel) ⟨by decide, trivial, rfl, by decide, by decide⟩).1
  exact Resumption.not_full_of_over _ _ rfl (.inl rfl) hfull

end LocalTrans.Desktop
