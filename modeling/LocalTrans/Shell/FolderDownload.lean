import LocalTrans.Foundation.Execution
import LocalTrans.Shell.Children
import Mathlib.Algebra.BigOperators.Group.Finset.Piecewise
import Mathlib.Algebra.Order.BigOperators.Group.Finset

/-!
# The bytes of a folder that is downloaded

`run_dir_pull_task` runs `start_pull_dir` next to two pumps. One takes the events of the folder, the
other the progress of its files, each from a channel of its own, and both write the bytes to the card
of the folder. `FolderPull` is the task with its channels and the card. What has reached the card is
the history of a run; `received` reads off it how many bytes the files have brought. The card counts
the bytes of a file that is fetched more than once, so `folder_accounted_run` holds of the runs in
which files with bytes are not reported as done, and `folder_double_count` shows what else happens.
-/

namespace LocalTrans.Desktop

open Foundation

/-- `DirPullEvent`. A file is named by its place in the listing. -/
inductive DirPullEvent where
  | enumerated (fileCount totalBytes : Nat)
  | fileDone (file : Nat)
  | fileFailed (file : Nat) (reason : String)
  | allDone (succeeded : Nat) (failed : List String)
deriving DecidableEq

/-- `ProgressEvent` of a file: a chunk that was written, or what the pump does not look at. -/
inductive FileProgress where
  | chunkDone (file bytes : Nat)
  | other
deriving DecidableEq

/-- Where `start_pull_dir` stands: it asks for the listing, fetches the files in turn, or is over. -/
inductive PullTask where
  | listing
  | files
  | over
deriving DecidableEq

/-- A folder that is downloaded: the task with the listing and how each file it tried ended, the two
channels, and the card. -/
structure FolderPull where
  task : PullTask
  listing : List (String × Nat)
  ended : List (Option String)
  events : List DirPullEvent
  progress : List FileProgress
  card : TransferCard

/-- What happens to the folder. `fetched` and `lost` are the two answers of `start_pull_parts`, and
`stops` is an error that ends `start_pull_dir`. -/
inductive FolderInput where
  | listed (files : List (String × Nat))
  | stops (reason : String) (nowMs : Int)
  | chunk (bytes : Nat)
  | reports
  | fetched
  | lost (reason : String)
  | closes
  | takeEvent (nowMs : Int)
  | takeProgress (nowMs : Int)

/-- What reaches the card. -/
inductive FolderDelivery where
  | event (ev : DirPullEvent)
  | chunk (file bytes : Nat)
deriving DecidableEq

namespace FolderPull

/-- The capacity of the two channels. -/
def channelCapacity : Nat := 64

/-- The path of a file of the listing. -/
def relPath (s : FolderPull) (file : Nat) : String := ((s.listing[file]?).map Prod.fst).getD ""

/-- The size of a file of the listing. -/
def size (s : FolderPull) (file : Nat) : Nat := ((s.listing[file]?).map Prod.snd).getD 0

/-- The sizes of the listed files, added up. -/
def listedBytes (s : FolderPull) : Nat := ∑ file ∈ Finset.range s.listing.length, s.size file

/-- The paths of the files that failed. -/
def failedPaths (s : FolderPull) : List String :=
  (s.ended.zipIdx.filter fun outcome => outcome.1.isSome).map fun outcome => s.relPath outcome.2

/-- What the pump of the folder's events does to the card. -/
def applyEvent (s : FolderPull) (nowMs : Int) : DirPullEvent → TransferCard
  | .enumerated _ totalBytes =>
    (s.card.cardApply .started nowMs).cardMutate fun dto => { dto with total := totalBytes }
  | .fileDone file =>
    (s.card.sourceChunkAdd (s.size file) nowMs).childUpsert
      { jobId := "", name := s.relPath file, total := s.size file, done := s.size file,
        state := "done" }
  | .fileFailed file _ =>
    s.card.childUpsert
      { jobId := "", name := s.relPath file, total := 0, done := 0, state := "failed" }
  | .allDone _ failed =>
    if failed = [] then s.card.cardApply .finished nowMs
    else s.card.cardApply (.failed (some (toString failed.length ++ " 个文件失败"))) nowMs

/-- One step of the task or of a pump. A sender waits while its channel is full, and the report of a
chunk is dropped then. -/
def step : Machine FolderPull FolderInput FolderDelivery
  | s, .listed files =>
    if s.task = .listing ∧ files ≠ [] then
      let totalBytes := (files.map Prod.snd).sum % 2 ^ 64
      some ({ s with
        task := .files
        listing := files
        events := s.events ++ [.enumerated files.length totalBytes] }, [])
    else none
  | s, .stops reason nowMs =>
    if s.task = .over then none
    else some ({ s with
      task := .over, card := s.card.cardApply (.failed (some reason)) nowMs }, [])
  | s, .chunk bytes =>
    if s.task = .files ∧ s.ended.length < s.listing.length then
      if s.progress.length < channelCapacity then
        some ({ s with progress := s.progress ++ [.chunkDone s.ended.length bytes] }, [])
      else some (s, [])
    else none
  | s, .reports =>
    if s.progress.length < channelCapacity then
      some ({ s with progress := s.progress ++ [.other] }, [])
    else none
  | s, .fetched =>
    if s.task = .files ∧ s.ended.length < s.listing.length ∧
        s.events.length < channelCapacity then
      some ({ s with
        ended := s.ended ++ [none]
        events := s.events ++ [.fileDone s.ended.length] }, [])
    else none
  | s, .lost reason =>
    if s.task = .files ∧ s.ended.length < s.listing.length ∧
        s.events.length < channelCapacity then
      some ({ s with
        ended := s.ended ++ [some reason]
        events := s.events ++ [.fileFailed s.ended.length reason] }, [])
    else none
  | s, .closes =>
    if s.task = .files ∧ s.ended.length = s.listing.length ∧
        s.events.length < channelCapacity then
      some ({ s with
        task := .over
        events := s.events ++
          [.allDone (s.ended.length - s.failedPaths.length) s.failedPaths] }, [])
    else none
  | s, .takeEvent nowMs =>
    match s.events with
    | [] => none
    | ev :: rest =>
      some ({ s with events := rest, card := s.applyEvent nowMs ev }, [.event ev])
  | s, .takeProgress nowMs =>
    match s.progress with
    | [] => none
    | .other :: rest => some ({ s with progress := rest }, [])
    | .chunkDone file bytes :: rest =>
      some ({ s with progress := rest, card := s.card.sourceChunkAdd bytes nowMs },
        [.chunk file bytes])

/-- A folder whose card is new, or was set up again to resume: no bytes are counted yet. -/
structure Opening (s : FolderPull) : Prop where
  task : s.task = .listing
  listing : s.listing = []
  ended : s.ended = []
  events : s.events = []
  progress : s.progress = []
  done : s.card.dto.done = 0
  names : (s.card.dto.children.map ChildDto.name).Nodup

/-- The bytes of the chunks of a file that reached the card. -/
def chunkBytes (trace : List FolderDelivery) (file : Nat) : Nat :=
  (trace.map fun delivery =>
    match delivery with
    | .chunk of bytes => if of = file then bytes else 0
    | .event _ => 0).sum

/-- The bytes a file has brought: all of them once it is done, and those of its chunks before. -/
def fileReceived (s : FolderPull) (trace : List FolderDelivery) (file : Nat) : Nat :=
  if .event (.fileDone file) ∈ trace then s.size file else chunkBytes trace file

/-- The bytes of the files received so far. -/
def received (s : FolderPull) (trace : List FolderDelivery) : Nat :=
  ∑ file ∈ Finset.range s.listing.length, s.fileReceived trace file

/-- The listing has reached the card. -/
def Enumerated (trace : List FolderDelivery) : Prop :=
  ∃ count total, .event (.enumerated count total) ∈ trace

/-- The folder's last event has reached the card. -/
def Closed (trace : List FolderDelivery) : Prop :=
  ∃ succeeded failed, .event (.allDone succeeded failed) ∈ trace

/-- The file has exactly one child. -/
def OneChild (s : FolderPull) (file : Nat) : Prop :=
  (s.card.dto.children.map ChildDto.name).count (s.relPath file) = 1

/-- The card accounts for the folder: its total is the listed bytes, its bytes are those received and
no more, and each file that ended has one child. -/
structure Accounted (trace : List FolderDelivery) (s : FolderPull) : Prop where
  total : Enumerated trace → s.card.dto.total = s.listedBytes
  done : s.card.dto.done = s.received trace
  le_total : s.card.dto.done ≤ s.card.dto.total
  done_child : ∀ file, .event (.fileDone file) ∈ trace → s.OneChild file
  failed_child : ∀ file reason, .event (.fileFailed file reason) ∈ trace → s.OneChild file
  children : Closed trace → ∀ file < s.listing.length, s.OneChild file

/-- No child of the file's name has more bytes than the card. -/
def FitsChild (s : FolderPull) (file : Nat) : Prop :=
  ∀ child ∈ s.card.dto.children, child.name = s.relPath file → child.done ≤ s.card.dto.done
deriving Decidable

/-- An event of the folder is accounted for: a file that is done has no bytes, and a child of an
earlier run has not more bytes than the card. -/
def EventOnce (s : FolderPull) : DirPullEvent → Prop
  | .fileDone file => s.size file = 0 ∧ s.FitsChild file
  | .fileFailed file _ => s.FitsChild file
  | _ => True

/-- A report is accounted for: a chunk with bytes reaches an active card after the listing, within
the listed size of its file. -/
def ReportOnce (trace : List FolderDelivery) (s : FolderPull) : FileProgress → Prop
  | .chunkDone file bytes =>
    bytes = 0 ∨ (s.card.dto.state = "active" ∧ Enumerated trace ∧
      chunkBytes trace file + bytes ≤ s.size file)
  | .other => True

/-- What a run keeps to: the listed bytes are a `u64`, and what reaches the card is accounted for. -/
def CountedOnce : Guard FolderPull FolderInput FolderDelivery
  | _, _, .listed files => (files.map Prod.snd).sum < 2 ^ 64
  | _, s, .takeEvent _ =>
    match s.events with
    | ev :: _ => s.EventOnce ev
    | [] => True
  | trace, s, .takeProgress _ =>
    match s.progress with
    | report :: _ => s.ReportOnce trace report
    | [] => True
  | _, _, _ => True

section Deliveries

variable {trace later : List FolderDelivery} {file bytes : Nat} {ev : DirPullEvent}

/-- The events of the folder that reached the card. -/
def folderEvents (trace : List FolderDelivery) : List DirPullEvent :=
  trace.filterMap fun delivery =>
    match delivery with
    | .event ev => some ev
    | .chunk _ _ => none

theorem mem_folder_events : ev ∈ folderEvents trace ↔ .event ev ∈ trace := by
  unfold folderEvents
  rw [List.mem_filterMap]
  constructor
  · rintro ⟨delivery, hmem, hev⟩
    cases delivery with
    | event found =>
      obtain rfl := Option.some.inj hev
      exact hmem
    | chunk _ _ => cases hev
  · intro hmem
    exact ⟨_, hmem, rfl⟩

theorem folder_events_append :
    folderEvents (trace ++ later) = folderEvents trace ++ folderEvents later :=
  List.filterMap_append

theorem chunk_bytes_append :
    chunkBytes (trace ++ later) file = chunkBytes trace file + chunkBytes later file := by
  simp only [chunkBytes, List.map_append, List.sum_append]

theorem chunk_bytes_event : chunkBytes [.event ev] file = 0 := rfl

theorem chunk_bytes_chunk {of : Nat} :
    chunkBytes [.chunk of bytes] file = if file = of then bytes else 0 := by
  by_cases h : file = of
  · subst h
    simp [chunkBytes]
  · simp [chunkBytes, h, Ne.symm h]

theorem enumerated_append (h : Enumerated trace) : Enumerated (trace ++ later) := by
  obtain ⟨count, total, hmem⟩ := h
  exact ⟨count, total, List.mem_append_left _ hmem⟩

end Deliveries

/-- A list that ends in a new element, cut behind that element: nothing is left. -/
theorem cut_behind_last {α : Type*} {before after rest : List α} {last : α}
    (h : before ++ after = rest ++ [last]) (hmem : last ∈ before) (hnew : last ∉ rest) :
    before = rest ++ [last] ∧ after = [] := by
  rcases List.eq_nil_or_concat after with rfl | ⟨start, final, rfl⟩
  · exact ⟨by simpa using h, rfl⟩
  · have hinit : before ++ start = rest := by
      rw [List.concat_eq_append, ← List.append_assoc] at h
      exact (List.append_inj' h rfl).1
    exact absurd (hinit ▸ List.mem_append_left start hmem) hnew

/-- The event of a file that ended. -/
def endedEvent (outcome : Option String × Nat) : DirPullEvent :=
  match outcome.1 with
  | none => .fileDone outcome.2
  | some reason => .fileFailed outcome.2 reason

/-- The events of the files that ended, in order. -/
def endedEvents (s : FolderPull) : List DirPullEvent := s.ended.zipIdx.map endedEvent

theorem ended_events_append {ended : List (Option String)} {outcome : Option String} :
    (ended ++ [outcome]).zipIdx.map endedEvent =
      ended.zipIdx.map endedEvent ++ [endedEvent (outcome, ended.length)] := by
  simp [List.zipIdx_append]

/-- The channels are FIFO: what reached the card and what waits is what `start_pull_dir` sent. -/
structure Flow (trace : List FolderDelivery) (s : FolderPull) : Prop where
  unlisted : s.task = .listing → s.listing = []
  started : s.task = .files → s.listing ≠ []
  ended_le : s.ended.length ≤ s.listing.length
  none_sent : s.listing = [] → folderEvents trace ++ s.events = []
  sent : s.listing ≠ [] → ∃ count total closing,
    folderEvents trace ++ s.events = .enumerated count total :: (s.endedEvents ++ closing) ∧
      total = (s.listing.map Prod.snd).sum % 2 ^ 64 ∧
      (closing = [] ∨ (s.task = .over ∧ s.ended.length = s.listing.length ∧
        ∃ succeeded, closing = [.allDone succeeded s.failedPaths]))
  queued : ∀ file bytes, .chunkDone file bytes ∈ s.progress → file < s.listing.length

variable {trace : List FolderDelivery} {s next : FolderPull} {input : FolderInput}
  {emitted : List FolderDelivery} {file bytes : Nat} {ev : DirPullEvent}
  {rest : List DirPullEvent}

variable {succeeded : Nat} {failed : List String}

/-- The events of the files name neither the listing nor the end. -/
theorem all_done_not_ended : .allDone succeeded failed ∉ s.endedEvents := by
  intro hmem
  obtain ⟨⟨outcome, index⟩, -, hev⟩ := List.mem_map.mp hmem
  cases outcome with
  | none => cases hev
  | some reason => cases hev

theorem enumerated_not_ended {count total : Nat} : .enumerated count total ∉ s.endedEvents := by
  intro hmem
  obtain ⟨⟨outcome, index⟩, -, hev⟩ := List.mem_map.mp hmem
  cases outcome with
  | none => cases hev
  | some reason => cases hev

/-- Each file that ended has its event. -/
theorem ended_event_mem (h : file < s.ended.length) :
    endedEvent (s.ended[file], file) ∈ s.endedEvents :=
  List.mem_map.mpr ⟨_, List.mem_zipIdx_iff_getElem?.mpr (List.getElem?_eq_getElem h), rfl⟩

namespace Flow

/-- An event that waits behind the first one comes after the listing. -/
theorem enumerated (h : Flow trace s) (hevents : s.events = ev :: rest)
    (hev : ∀ count total, ev ≠ .enumerated count total) : Enumerated trace := by
  by_cases hlisting : s.listing = []
  · have hnone := h.none_sent hlisting
    rw [hevents] at hnone
    simp at hnone
  · obtain ⟨count, total, closing, hsent, -, -⟩ := h.sent hlisting
    rw [hevents] at hsent
    cases hdelivered : folderEvents trace with
    | nil =>
      rw [hdelivered] at hsent
      exact absurd (List.cons.inj hsent).1 (hev count total)
    | cons first others =>
      rw [hdelivered] at hsent
      obtain ⟨rfl, -⟩ := List.cons.inj hsent
      exact ⟨count, total, mem_folder_events.mp (by simp [hdelivered])⟩

/-- Where the first event that waits is the listing, it brings the listed bytes. -/
theorem enumerated_total {count total : Nat} (h : Flow trace s)
    (hevents : s.events = .enumerated count total :: rest) :
    total = (s.listing.map Prod.snd).sum % 2 ^ 64 := by
  by_cases hlisting : s.listing = []
  · have hnone := h.none_sent hlisting
    rw [hevents] at hnone
    simp at hnone
  · obtain ⟨count', total', closing, hsent, htotal, hclosing⟩ := h.sent hlisting
    rw [hevents] at hsent
    cases hdelivered : folderEvents trace with
    | nil =>
      rw [hdelivered] at hsent
      obtain ⟨-, rfl⟩ := DirPullEvent.enumerated.inj (List.cons.inj hsent).1
      exact htotal
    | cons first others =>
      -- a second listing would have to be the event of a file
      rw [hdelivered] at hsent
      have hmem : .enumerated count total ∈ s.endedEvents ++ closing := by
        rw [← (List.cons.inj hsent).2]
        simp
      rcases List.mem_append.mp hmem with hended | hclosed
      · exact absurd hended enumerated_not_ended
      · rcases hclosing with rfl | ⟨-, -, succeeded, rfl⟩
        · cases hclosed
        · simp at hclosed

/-- Once the last event reached the card, the events of all files did. -/
theorem closed (h : Flow trace s) (hmem : .event (.allDone succeeded failed) ∈ trace) :
    s.ended.length = s.listing.length ∧ failed = s.failedPaths ∧
      ∀ ev ∈ s.endedEvents, .event ev ∈ trace := by
  have hdelivered := mem_folder_events.mpr hmem
  by_cases hlisting : s.listing = []
  · have hnone := h.none_sent hlisting
    rw [(List.append_eq_nil_iff.mp hnone).1] at hdelivered
    cases hdelivered
  · obtain ⟨count, total, closing, hsent, -, hclosing⟩ := h.sent hlisting
    have hin : .allDone succeeded failed ∈
        DirPullEvent.enumerated count total :: (s.endedEvents ++ closing) := by
      rw [← hsent]
      exact List.mem_append_left _ hdelivered
    rcases hclosing with rfl | ⟨-, hlength, succeeded', rfl⟩
    · rw [List.append_nil] at hin
      rcases List.mem_cons.mp hin with heq | hended
      · cases heq
      · exact absurd hended all_done_not_ended
    · have hlast : DirPullEvent.allDone succeeded failed = .allDone succeeded' s.failedPaths := by
        rcases List.mem_cons.mp hin with heq | hended
        · cases heq
        · rcases List.mem_append.mp hended with hended | hclosed
          · exact absurd hended all_done_not_ended
          · exact List.mem_singleton.mp hclosed
      rw [hlast] at hdelivered
      have hnew : DirPullEvent.allDone succeeded' s.failedPaths ∉
          DirPullEvent.enumerated count total :: s.endedEvents := by
        intro hmem
        rcases List.mem_cons.mp hmem with heq | hended
        · cases heq
        · exact all_done_not_ended hended
      obtain ⟨hall, -⟩ := cut_behind_last (by simpa using hsent) hdelivered hnew
      refine ⟨hlength, (DirPullEvent.allDone.inj hlast).2, fun ev hev => ?_⟩
      rw [← mem_folder_events, hall]
      simp [hev]

end Flow

variable {card : TransferCard}

/-- What is delivered leaves its channel, and nothing else moves. -/
theorem Flow.take (h : Flow trace s) {later : List FolderDelivery} {progress : List FileProgress}
    (hevents : folderEvents later ++ rest = s.events)
    (hprogress : ∀ report ∈ progress, report ∈ s.progress) :
    Flow (trace ++ later) { s with events := rest, progress := progress, card := card } where
  __ := h
  none_sent hlisting := by
    rw [folder_events_append, List.append_assoc, hevents]
    exact h.none_sent hlisting
  sent hlisting := by
    rw [folder_events_append, List.append_assoc, hevents]
    exact h.sent hlisting
  queued file bytes hmem := h.queued file bytes (hprogress _ hmem)

/-- A file that ends sends its event. -/
theorem Flow.ends (h : Flow trace s) (htask : s.task = .files)
    (hlt : s.ended.length < s.listing.length) (outcome : Option String) :
    Flow trace { s with
      ended := s.ended ++ [outcome]
      events := s.events ++ [endedEvent (outcome, s.ended.length)] } where
  __ := h
  ended_le := by
    rw [List.length_append, List.length_singleton]
    exact hlt
  none_sent hlisting := absurd hlisting (h.started htask)
  sent hlisting := by
    obtain ⟨count, total, closing, hsent, htotal, rfl | ⟨hover, -, -⟩⟩ := h.sent hlisting
    · refine ⟨count, total, [], ?_, htotal, .inl rfl⟩
      rw [← List.append_assoc, hsent, endedEvents, endedEvents, ended_events_append]
      simp
    · rw [htask] at hover
      cases hover

/-- Every step keeps the order of the channels. -/
theorem Flow.step (h : Flow trace s) (hnext : step s input = some (next, emitted)) :
    Flow (trace ++ emitted) next := by
  cases input with simp only [FolderPull.step] at hnext
  | listed files =>
    obtain ⟨hok, rfl, rfl⟩ := when_answer hnext
    obtain ⟨htask, hfiles⟩ := hok
    have hlisting := h.unlisted htask
    have hended : s.ended = [] := by
      have := h.ended_le
      rw [hlisting] at this
      exact List.length_eq_zero_iff.mp (Nat.le_zero.mp this)
    have hnone := h.none_sent hlisting
    refine ⟨by simp, fun _ => hfiles, ?_, fun hnil => absurd hnil hfiles, fun _ => ?_, ?_⟩
    · show s.ended.length ≤ files.length
      simp [hended]
    · refine ⟨files.length, (files.map Prod.snd).sum % 2 ^ 64, [], ?_, rfl, .inl rfl⟩
      rw [List.append_nil, ← List.append_assoc, hnone, endedEvents, hended]
      rfl
    · intro file bytes hmem
      have := h.queued file bytes hmem
      rw [hlisting] at this
      exact absurd this (Nat.not_lt_zero _)
  | stops reason nowMs =>
    obtain ⟨htask, hnext⟩ := of_unless hnext
    refine silent_answer hnext
      (⟨by simp, by simp, h.ended_le, h.none_sent, fun hlisting => ?_, h.queued⟩)
    obtain ⟨count, total, closing, hsent, htotal, rfl | ⟨hover, -, -⟩⟩ := h.sent hlisting
    · exact ⟨count, total, [], hsent, htotal, .inl rfl⟩
    · exact absurd hover htask
  | chunk bytes =>
    obtain ⟨hok, hnext⟩ := of_when hnext
    split at hnext
    · refine silent_answer hnext { h with queued := ?_ }
      intro file found hmem
      rcases List.mem_append.mp hmem with hold | hnew
      · exact h.queued file found hold
      · obtain ⟨rfl, -⟩ := FileProgress.chunkDone.inj (List.mem_singleton.mp hnew)
        exact hok.2
    · exact silent_answer hnext h
  | reports =>
    obtain ⟨-, hnext⟩ := of_when hnext
    refine silent_answer hnext { h with queued := ?_ }
    intro file found hmem
    rcases List.mem_append.mp hmem with hold | hnew
    · exact h.queued file found hold
    · cases List.mem_singleton.mp hnew
  | fetched =>
    obtain ⟨hok, hnext⟩ := of_when hnext
    exact silent_answer hnext (h.ends hok.1 hok.2.1 none)
  | lost reason =>
    obtain ⟨hok, hnext⟩ := of_when hnext
    exact silent_answer hnext (h.ends hok.1 hok.2.1 (some reason))
  | closes =>
    obtain ⟨hok, hnext⟩ := of_when hnext
    refine silent_answer hnext (⟨by simp, by simp, h.ended_le,
      fun hnil => absurd hnil (h.started hok.1), fun hlisting => ?_, h.queued⟩)
    obtain ⟨count, total, closing, hsent, htotal, rfl | ⟨hover, -, -⟩⟩ := h.sent hlisting
    · refine ⟨count, total, [.allDone (s.ended.length - s.failedPaths.length) s.failedPaths], ?_,
        htotal, .inr ⟨rfl, hok.2.1, s.ended.length - s.failedPaths.length, rfl⟩⟩
      rw [← List.append_assoc, hsent]
      simp [endedEvents, failedPaths, relPath]
    · rw [hok.1] at hover
      cases hover
  | takeEvent nowMs =>
    split at hnext
    · cases hnext
    · next ev rest hevents =>
      obtain ⟨rfl, rfl⟩ := answer_inj hnext
      exact h.take (by rw [hevents]; rfl) fun _ hmem => hmem
  | takeProgress nowMs =>
    split at hnext
    · cases hnext
    · next rest hprogress =>
      obtain ⟨rfl, rfl⟩ := answer_inj hnext
      exact h.take rfl fun report hmem => by rw [hprogress]; exact List.mem_cons_of_mem _ hmem
    · next file bytes rest hprogress =>
      obtain ⟨rfl, rfl⟩ := answer_inj hnext
      exact h.take rfl fun report hmem => by rw [hprogress]; exact List.mem_cons_of_mem _ hmem

/-- What the card holds, told by what has reached it: while every file that is done has no bytes, the
bytes of the card are those of the chunks. -/
structure Ledger (trace : List FolderDelivery) (s : FolderPull) : Prop where
  names : (s.card.dto.children.map ChildDto.name).Nodup
  fits : s.listedBytes < 2 ^ 64
  done : s.card.dto.done = ∑ file ∈ Finset.range s.listing.length, chunkBytes trace file
  total : Enumerated trace → s.card.dto.total = s.listedBytes
  before : ¬ Enumerated trace → ∀ file, chunkBytes trace file = 0
  counted : ∀ file, chunkBytes trace file ≤ s.size file
  empty : ∀ file, .event (.fileDone file) ∈ trace → s.size file = 0
  done_child : ∀ file, .event (.fileDone file) ∈ trace →
    s.relPath file ∈ s.card.dto.children.map ChildDto.name
  failed_child : ∀ file reason, .event (.fileFailed file reason) ∈ trace →
    s.relPath file ∈ s.card.dto.children.map ChildDto.name

theorem listed_bytes_eq (files : List (String × Nat)) :
    ∑ file ∈ Finset.range files.length, ((files[file]?).map Prod.snd).getD 0 =
      (files.map Prod.snd).sum := by
  induction files with
  | nil => rfl
  | cons file rest ih =>
    rw [List.length_cons, Finset.sum_range_succ']
    simp only [List.getElem?_cons_succ, ih, List.getElem?_cons_zero, Option.map_some,
      Option.getD_some, List.map_cons, List.sum_cons]
    omega

namespace Ledger

/-- The bytes of the card are listed bytes. -/
theorem done_le (h : Ledger trace s) : s.card.dto.done ≤ s.listedBytes := by
  rw [h.done]
  exact Finset.sum_le_sum fun file _ => h.counted file

/-- Before the listing, the card has no bytes. -/
theorem done_zero (h : Ledger trace s) (hbefore : ¬ Enumerated trace) : s.card.dto.done = 0 := by
  rw [h.done]
  exact Finset.sum_eq_zero fun file _ => h.before hbefore file

/-- The ledger is about the listing, the bytes and the children. -/
theorem congr (h : Ledger trace s) (hlisting : next.listing = s.listing)
    (hcard : TransferCard.SameBytes s.card next.card) : Ledger trace next := by
  obtain ⟨htotal, hdone, hchildren⟩ := hcard
  have hsize : next.size = s.size := by
    funext file
    rw [size, size, hlisting]
  have hpath : next.relPath = s.relPath := by
    funext file
    rw [relPath, relPath, hlisting]
  have hbytes : next.listedBytes = s.listedBytes := by rw [listedBytes, listedBytes, hlisting, hsize]
  exact {
    names := by rw [hchildren]; exact h.names
    fits := by rw [hbytes]; exact h.fits
    done := by rw [hdone, hlisting]; exact h.done
    total := fun hlisted => by rw [htotal, hbytes]; exact h.total hlisted
    before := h.before
    counted := fun file => by rw [hsize]; exact h.counted file
    empty := fun file hmem => by rw [hsize]; exact h.empty file hmem
    done_child := fun file hmem => by rw [hchildren, hpath]; exact h.done_child file hmem
    failed_child := fun file reason hmem => by
      rw [hchildren, hpath]; exact h.failed_child file reason hmem }

/-- With the ledger, the card accounts for the folder. -/
theorem accounted (h : Ledger trace s) (hflow : Flow trace s) : Accounted trace s := by
  have hle : s.card.dto.done ≤ s.card.dto.total := by
    by_cases hlisted : Enumerated trace
    · rw [h.total hlisted]
      exact h.done_le
    · rw [h.done_zero hlisted]
      exact Nat.zero_le _
  have hone : ∀ file, s.relPath file ∈ s.card.dto.children.map ChildDto.name → s.OneChild file :=
    fun file hmem => List.count_eq_one_of_mem h.names hmem
  refine ⟨h.total, ?_, hle, fun file hmem => hone file (h.done_child file hmem),
    fun file reason hmem => hone file (h.failed_child file reason hmem), ?_⟩
  · rw [h.done, received]
    refine Finset.sum_congr rfl fun file _ => ?_
    unfold fileReceived
    split
    · next hmem =>
      have hcounted := h.counted file
      rw [h.empty file hmem] at hcounted ⊢
      exact Nat.le_zero.mp hcounted
    · rfl
  · rintro ⟨succeeded, failed, hmem⟩ file hlt
    obtain ⟨hlength, -, hall⟩ := hflow.closed hmem
    rw [← hlength] at hlt
    have hevent := hall _ (ended_event_mem hlt)
    cases houtcome : s.ended[file] with
    | none =>
      rw [houtcome] at hevent
      exact hone file (h.done_child file hevent)
    | some reason =>
      rw [houtcome] at hevent
      exact hone file (h.failed_child file reason hevent)

/-- The listing arrives: what the ledger says of files is said of none before it. -/
theorem listed (h : Ledger trace s) (hflow : Flow trace s) (htask : s.task = .listing)
    (hsame : next.card = s.card) (hfits : (next.listing.map Prod.snd).sum < 2 ^ 64) :
    Ledger trace next := by
  have hlisting := hflow.unlisted htask
  have hnone : folderEvents trace = [] := (List.append_eq_nil_iff.mp (hflow.none_sent hlisting)).1
  have hevent : ∀ ev, .event ev ∉ trace := by
    intro ev hmem
    have hdelivered := mem_folder_events.mpr hmem
    rw [hnone] at hdelivered
    cases hdelivered
  have hzero : ∀ file, chunkBytes trace file = 0 := by
    intro file
    have hcounted := h.counted file
    rw [size, hlisting] at hcounted
    exact Nat.le_zero.mp hcounted
  exact {
    names := by rw [hsame]; exact h.names
    fits := by rw [listedBytes]; unfold size; rw [listed_bytes_eq]; exact hfits
    done := by
      rw [hsame, h.done, hlisting]
      exact (Finset.sum_eq_zero fun file _ => hzero file).symm
    total := fun ⟨count, total, hmem⟩ => absurd hmem (hevent _)
    before := fun _ => hzero
    counted := fun file => by rw [hzero file]; exact Nat.zero_le _
    empty := fun file hmem => absurd hmem (hevent _)
    done_child := fun file hmem => absurd hmem (hevent _)
    failed_child := fun file reason hmem => absurd hmem (hevent _) }

/-- A chunk reaches the card, within the size of its file, and is counted. -/
theorem chunk (h : Ledger trace s) {progress : List FileProgress} (hfile : file < s.listing.length)
    (hlisted : bytes = 0 ∨ Enumerated trace) (hle : chunkBytes trace file + bytes ≤ s.size file)
    (htotal : card.dto.total = s.card.dto.total)
    (hchildren : card.dto.children = s.card.dto.children)
    (hdone : card.dto.done = s.card.dto.done + bytes) :
    Ledger (trace ++ [.chunk file bytes]) { s with progress := progress, card := card } := by
  have hevent : ∀ ev, .event ev ∈ trace ++ [.chunk file bytes] → .event ev ∈ trace := by
    intro ev hmem
    rcases List.mem_append.mp hmem with hold | hnew
    · exact hold
    · cases List.mem_singleton.mp hnew
  have hbytes : ∀ other, chunkBytes (trace ++ [.chunk file bytes]) other =
      chunkBytes trace other + if other = file then bytes else 0 := by
    intro other
    rw [chunk_bytes_append, chunk_bytes_chunk]
  exact {
    names := by
      show (card.dto.children.map ChildDto.name).Nodup
      rw [hchildren]
      exact h.names
    fits := h.fits
    done := by
      show card.dto.done = ∑ other ∈ Finset.range s.listing.length, _
      rw [hdone, h.done]
      simp only [hbytes, Finset.sum_add_distrib, Finset.sum_ite_eq', Finset.mem_range, if_pos hfile]
    total := fun ⟨count, total, hmem⟩ => by
      show card.dto.total = _
      rw [htotal]
      exact h.total ⟨count, total, hevent _ hmem⟩
    before := fun hbefore other => by
      have hnone : ¬ Enumerated trace := fun hold => hbefore (enumerated_append hold)
      obtain rfl := hlisted.resolve_right hnone
      rw [hbytes, h.before hnone]
      split
      · rfl
      · rfl
    counted := fun other => by
      rw [hbytes]
      split
      · next heq =>
        subst heq
        exact hle
      · exact h.counted other
    empty := fun other hmem => h.empty other (hevent _ hmem)
    done_child := fun other hmem => by
      show s.relPath other ∈ card.dto.children.map ChildDto.name
      rw [hchildren]
      exact h.done_child other (hevent _ hmem)
    failed_child := fun other reason hmem => by
      show s.relPath other ∈ card.dto.children.map ChildDto.name
      rw [hchildren]
      exact h.failed_child other reason (hevent _ hmem) }

/-- An event of the folder reaches the card: no bytes are counted for it, and a file that ended has
its child. -/
theorem event (h : Ledger trace s) (ev : DirPullEvent) (hdone : card.dto.done = s.card.dto.done)
    (htotal : Enumerated (trace ++ [.event ev]) → card.dto.total = s.listedBytes)
    (hnames : (card.dto.children.map ChildDto.name).Nodup)
    (hkept : ∀ name ∈ s.card.dto.children.map ChildDto.name,
      name ∈ card.dto.children.map ChildDto.name) (hfile : ∀ file, ev = .fileDone file →
      s.size file = 0 ∧ s.relPath file ∈ card.dto.children.map ChildDto.name)
    (hfailed : ∀ file reason, ev = .fileFailed file reason →
      s.relPath file ∈ card.dto.children.map ChildDto.name) :
    Ledger (trace ++ [.event ev]) { s with events := rest, card := card } := by
  have hbytes : ∀ other, chunkBytes (trace ++ [.event ev]) other = chunkBytes trace other := by
    intro other
    rw [chunk_bytes_append, chunk_bytes_event, Nat.add_zero]
  have hevent : ∀ found, .event found ∈ trace ++ [.event ev] → .event found ∈ trace ∨ ev = found := by
    intro found hmem
    rcases List.mem_append.mp hmem with hold | hnew
    · exact .inl hold
    · exact .inr (FolderDelivery.event.inj (List.mem_singleton.mp hnew)).symm
  exact {
    names := hnames
    fits := h.fits
    done := by
      show card.dto.done = ∑ other ∈ Finset.range s.listing.length, _
      simp only [hbytes]
      rw [hdone, h.done]
    total := htotal
    before := fun hbefore other => by
      rw [hbytes]
      exact h.before (fun hold => hbefore (enumerated_append hold)) other
    counted := fun other => by
      rw [hbytes]
      exact h.counted other
    empty := fun other hmem => by
      rcases hevent _ hmem with hold | hnew
      · exact h.empty other hold
      · exact (hfile other hnew).1
    done_child := fun other hmem => by
      rcases hevent _ hmem with hold | hnew
      · exact hkept _ (h.done_child other hold)
      · exact (hfile other hnew).2
    failed_child := fun other reason hmem => by
      rcases hevent _ hmem with hold | hnew
      · exact hkept _ (h.failed_child other reason hold)
      · exact hfailed other reason hnew }

/-- The child of a file that ended is added to a card with no more bytes for it. -/
theorem child (h : Ledger trace s) (file : Nat) (hlisted : Enumerated trace) {child : ChildDto}
    (hsame : TransferCard.SameBytes s.card card) (hid : child.jobId = "")
    (hname : child.name = s.relPath file) (htotal : child.total = 0) (hdone : child.done = 0)
    (hfits : s.FitsChild file) (ev : DirPullEvent)
    (hev : ev = .fileDone file ∧ s.size file = 0 ∨ ∃ reason, ev = .fileFailed file reason) :
    Ledger (trace ++ [.event ev]) { s with events := rest, card := card.childUpsert child } := by
  obtain ⟨hcardTotal, hcardDone, hcardChildren⟩ := hsame
  have hbound := h.fits
  have hlistedTotal := h.total hlisted
  have hle := h.done_le
  have hempty : (card.childUpsert child).dto.total = card.dto.total ∧
      (card.childUpsert child).dto.done = card.dto.done := TransferCard.child_upsert_empty hid
    htotal hdone
    (by rw [hcardTotal, hcardDone, hlistedTotal]; exact hle)
    (by rw [hcardTotal, hlistedTotal]; unfold u64Max; omega)
    (fun c hmem heq => by
      rw [hcardChildren] at hmem
      rw [hcardDone]
      exact hfits c hmem (heq.trans hname))
  have hnames := TransferCard.child_upsert_names card hid
  rw [hcardChildren, hname] at hnames
  have hmem : s.relPath file ∈ (card.childUpsert child).dto.children.map ChildDto.name := by
    rw [hnames]
    split
    · next hknown => exact hknown
    · exact List.mem_append_right _ List.mem_cons_self
  refine h.event ev (hempty.2.trans hcardDone) (fun _ => ?_) ?_ ?_ ?_ ?_
  · rw [hempty.1, hcardTotal, hlistedTotal]
  · rw [hnames]
    split
    · exact h.names
    · next hnew => exact List.concat_eq_append ▸ h.names.concat hnew
  · intro name hold
    rw [hnames]
    split
    · exact hold
    · exact List.mem_append_left _ hold
  · rintro other rfl
    rcases hev with ⟨heq, hsize⟩ | ⟨reason, heq⟩
    · obtain rfl := DirPullEvent.fileDone.inj heq
      exact ⟨hsize, hmem⟩
    · cases heq
  · rintro other reason rfl
    rcases hev with ⟨heq, -⟩ | ⟨reason', heq⟩
    · cases heq
    · obtain ⟨rfl, -⟩ := DirPullEvent.fileFailed.inj heq
      exact hmem

end Ledger

namespace Ledger

/-- The last event writes no bytes. -/
theorem ended (h : Ledger trace s) (hlisted : Enumerated trace)
    (hsame : TransferCard.SameBytes s.card card) :
    Ledger (trace ++ [.event (.allDone succeeded failed)])
      { s with events := rest, card := card } := by
  obtain ⟨htotal, hdone, hchildren⟩ := hsame
  refine h.event _ hdone (fun _ => htotal.trans (h.total hlisted)) ?_ ?_ ?_ ?_
  · rw [hchildren]
    exact h.names
  · intro name hmem
    rw [hchildren]
    exact hmem
  · intro file heq
    cases heq
  · intro file reason heq
    cases heq

/-- Where no file failed, all files are done, and none of them has bytes. -/
theorem all_done_zero (h : Ledger trace s) (hflow : Flow trace s)
    (hevents : s.events = .allDone succeeded [] :: rest) : s.listedBytes = 0 := by
  have hnext : Flow (trace ++ [.event (.allDone succeeded [])]) { s with events := rest } :=
    hflow.take (by rw [hevents]; rfl) fun _ hmem => hmem
  have hlast : FolderDelivery.event (.allDone succeeded []) ∈
      trace ++ [.event (.allDone succeeded [])] := List.mem_append_right _ List.mem_cons_self
  obtain ⟨hlength, hfailed, hall⟩ := hnext.closed hlast
  refine Finset.sum_eq_zero fun file hmem => h.empty file ?_
  have hlt : file < s.ended.length := by
    rw [show s.ended.length = s.listing.length from hlength]
    exact Finset.mem_range.mp hmem
  have hevent := hall _ (ended_event_mem hlt)
  cases houtcome : s.ended[file] with
  | none =>
    rw [houtcome] at hevent
    rcases List.mem_append.mp hevent with hold | hnew
    · exact hold
    · cases List.mem_singleton.mp hnew
  | some reason =>
    -- a file that failed would be among the failed paths
    have hmem : (some reason, file) ∈ s.ended.zipIdx :=
      List.mem_zipIdx_iff_getElem?.mpr (houtcome ▸ List.getElem?_eq_getElem hlt)
    have hpath : s.relPath file ∈ s.failedPaths :=
      List.mem_map.mpr ⟨_, List.mem_filter.mpr ⟨hmem, rfl⟩, rfl⟩
    rw [show s.failedPaths = [] from hfailed.symm] at hpath
    cases hpath

end Ledger

/-- A guarded step keeps the ledger. -/
theorem Ledger.step (h : Ledger trace s) (hflow : Flow trace s) (hguard : CountedOnce trace s input)
    (hnext : step s input = some (next, emitted)) : Ledger (trace ++ emitted) next := by
  have hbound := h.fits
  have hle := h.done_le
  cases input with simp only [FolderPull.step] at hnext
  | listed files =>
    obtain ⟨hok, hnext⟩ := of_when hnext
    exact silent_answer hnext (h.listed hflow hok.1 rfl hguard)
  | stops reason nowMs =>
    obtain ⟨-, hnext⟩ := of_unless hnext
    exact silent_answer hnext
      (h.congr rfl (TransferCard.card_apply_failed_bytes s.card (some reason) nowMs))
  | chunk bytes =>
    obtain ⟨-, hnext⟩ := of_when hnext
    split at hnext
    · exact silent_answer hnext (h.congr rfl (.refl _))
    · exact silent_answer hnext h
  | reports | fetched | lost reason | closes =>
    obtain ⟨-, hnext⟩ := of_when hnext
    exact silent_answer hnext (h.congr rfl (.refl _))
  | takeProgress nowMs =>
    split at hnext
    · cases hnext
    · exact silent_answer hnext (h.congr rfl (.refl _))
    · next file bytes rest hprogress =>
      obtain ⟨rfl, rfl⟩ := answer_inj hnext
      have hfile : file < s.listing.length :=
        hflow.queued file bytes (by rw [hprogress]; exact List.mem_cons_self)
      simp only [CountedOnce, hprogress, ReportOnce] at hguard
      rcases hguard with rfl | ⟨hactive, hlisted, hcounted⟩
      · obtain ⟨htotal, hdone, hchildren⟩ :=
          TransferCard.source_chunk_add_zero s.card nowMs (by omega)
        exact h.chunk hfile (.inl rfl) (h.counted file) htotal hchildren hdone
      · -- with this chunk, the files still have no more bytes than were listed
        have hroom : s.card.dto.done + bytes ≤ s.listedBytes := by
          rw [h.done, listedBytes]
          calc ∑ other ∈ Finset.range s.listing.length, chunkBytes trace other + bytes
              = ∑ other ∈ Finset.range s.listing.length,
                  (chunkBytes trace other + if other = file then bytes else 0) := by
                rw [Finset.sum_add_distrib, Finset.sum_ite_eq', if_pos (Finset.mem_range.mpr hfile)]
            _ ≤ ∑ other ∈ Finset.range s.listing.length, s.size other := by
                refine Finset.sum_le_sum fun other _ => ?_
                split
                · next heq =>
                  subst heq
                  exact hcounted
                · exact h.counted other
        obtain ⟨htotal, hchildren, hdone⟩ := TransferCard.source_chunk_add_bytes
          s.card bytes nowMs (by omega)
        rw [if_pos hactive] at hdone
        exact h.chunk hfile (.inr hlisted) hcounted htotal hchildren hdone
  | takeEvent nowMs =>
    split at hnext
    · cases hnext
    · next ev rest hevents =>
      obtain ⟨rfl, rfl⟩ := answer_inj hnext
      simp only [CountedOnce, hevents, EventOnce] at hguard
      cases ev with
      | enumerated count total =>
        obtain ⟨-, hdone, hchildren⟩ :=
          TransferCard.card_apply_started_bytes s.card nowMs
        have htotal : total = s.listedBytes := by
          rw [hflow.enumerated_total hevents, listedBytes]
          unfold size
          rw [listed_bytes_eq]
          refine Nat.mod_eq_of_lt ?_
          have := h.fits
          unfold listedBytes size at this
          rwa [listed_bytes_eq] at this
        refine h.event _ hdone (fun _ => htotal) ?_ ?_ ?_ ?_
        · show ((s.card.cardApply .started nowMs).dto.children.map ChildDto.name).Nodup
          rw [hchildren]
          exact h.names
        · intro name hmem
          show name ∈ (s.card.cardApply .started nowMs).dto.children.map ChildDto.name
          rw [hchildren]
          exact hmem
        · intro file heq
          cases heq
        · intro file reason heq
          cases heq
      | fileDone file =>
        obtain ⟨hsize, hfits⟩ := hguard
        have hlisted := hflow.enumerated hevents (fun _ _ heq => by cases heq)
        have hsame := TransferCard.source_chunk_add_zero s.card nowMs (by omega)
        refine h.child file hlisted ?_ rfl rfl hsize hsize hfits _ (.inl ⟨rfl, hsize⟩)
        rw [hsize]
        exact hsame
      | fileFailed file reason =>
        have hlisted := hflow.enumerated hevents (fun _ _ heq => by cases heq)
        exact h.child file hlisted (.refl _) rfl rfl rfl rfl hguard _
          (.inr ⟨reason, rfl⟩)
      | allDone succeeded failed =>
        have hlisted := hflow.enumerated hevents (fun _ _ heq => by cases heq)
        by_cases hfailed : failed = []
        · have hzero : s.listedBytes = 0 := h.all_done_zero hflow (by rw [hevents, hfailed])
          obtain ⟨htotal, hchildren, hdone⟩ :=
            TransferCard.card_apply_finished_bytes s.card nowMs
          have hsame : (s.card.cardApply .finished nowMs).dto.done = s.card.dto.done := by
            rcases hdone with hold | hfull
            · exact hold
            · rw [hfull, h.total hlisted]
              omega
          simp only [applyEvent, if_pos hfailed]
          exact h.ended hlisted ⟨htotal, hsame, hchildren⟩
        · simp only [applyEvent, if_neg hfailed]
          exact h.ended hlisted (TransferCard.card_apply_failed_bytes s.card _ nowMs)

/-- Nothing was sent before the folder was opened. -/
theorem Opening.flow (h : Opening s) : Flow [] s where
  unlisted _ := h.listing
  started htask := by
    rw [h.task] at htask
    cases htask
  ended_le := by
    rw [h.ended]
    exact Nat.zero_le _
  none_sent _ := h.events
  sent hlisting := absurd h.listing hlisting
  queued file bytes hmem := by
    rw [h.progress] at hmem
    cases hmem

/-- An opened folder has no bytes. -/
theorem Opening.ledger (h : Opening s) : Ledger [] s where
  names := h.names
  fits := by
    rw [listedBytes, h.listing]
    exact Nat.two_pow_pos 64
  done := by
    rw [h.done, h.listing]
    rfl
  total hlisted := by
    obtain ⟨count, total, hmem⟩ := hlisted
    cases hmem
  before _ file := rfl
  counted file := Nat.zero_le _
  empty file hmem := by cases hmem
  done_child file hmem := by cases hmem
  failed_child file reason hmem := by cases hmem

/-- In every run from an opened folder that keeps to `CountedOnce`, the card accounts for the folder
in every state. -/
theorem folder_accounted_run {first : FolderPull} (hopening : Opening first)
    {inputs : List FolderInput} (h : Exec step CountedOnce first inputs trace s) :
    Accounted trace s := by
  have hinv : Flow trace s ∧ Ledger trace s := by
    induction h with
    | start => exact ⟨hopening.flow, hopening.ledger⟩
    | step _ hguard hnext ih => exact ⟨ih.1.step hnext, ih.2.step ih.1 hguard hnext⟩
  exact hinv.2.accounted hinv.1

/-- Whether a delivery is the listing. -/
def FolderDelivery.isListing : FolderDelivery → Bool
  | .event (.enumerated _ _) => true
  | _ => false

theorem enumerated_iff : trace.any FolderDelivery.isListing = true ↔ Enumerated trace := by
  rw [List.any_eq_true]
  constructor
  · rintro ⟨delivery, hmem, hlisting⟩
    unfold FolderDelivery.isListing at hlisting
    split at hlisting
    · next count total => exact ⟨count, total, hmem⟩
    · cases hlisting
  · rintro ⟨count, total, hmem⟩
    exact ⟨_, hmem, rfl⟩

instance (trace : List FolderDelivery) : Decidable (Enumerated trace) :=
  decidable_of_iff _ enumerated_iff

instance (s : FolderPull) : ∀ ev, Decidable (s.EventOnce ev)
  | .fileDone _ => inferInstanceAs (Decidable (_ ∧ _))
  | .fileFailed file _ => inferInstanceAs (Decidable (s.FitsChild file))
  | .enumerated _ _ => inferInstanceAs (Decidable True)
  | .allDone _ _ => inferInstanceAs (Decidable True)

instance (trace : List FolderDelivery) (s : FolderPull) : ∀ report, Decidable (s.ReportOnce trace report)
  | .chunkDone _ _ => inferInstanceAs (Decidable (_ ∨ _))
  | .other => inferInstanceAs (Decidable True)

instance (trace : List FolderDelivery) (s : FolderPull) :
    ∀ input, Decidable (CountedOnce trace s input)
  | .listed _ => inferInstanceAs (Decidable (_ < _))
  | .takeEvent _ =>
    match hevents : s.events with
    | ev :: _ => decidable_of_iff (s.EventOnce ev) (by simp only [CountedOnce, hevents])
    | [] => .isTrue (by simp only [CountedOnce, hevents])
  | .takeProgress _ =>
    match hprogress : s.progress with
    | report :: _ =>
      decidable_of_iff (s.ReportOnce trace report) (by simp only [CountedOnce, hprogress])
    | [] => .isTrue (by simp only [CountedOnce, hprogress])
  | .stops _ _ | .chunk _ | .reports | .fetched | .lost _ | .closes => .isTrue trivial

/-- A folder with a new card. -/
def sampleFolder : FolderPull where
  task := .listing
  listing := []
  ended := []
  events := []
  progress := []
  card := .new { sampleRow with name := "[文件夹] docs", total := 0 }

theorem sample_folder_opening : Opening sampleFolder := ⟨rfl, rfl, rfl, rfl, rfl, rfl, List.nodup_nil⟩

/-- One file of ten bytes, received in one chunk and reported as done: the card counts thirty bytes
of twenty. -/
theorem folder_double_count :
    ¬ ∀ first : FolderPull, Opening first → ∀ inputs trace s,
      Exec step Guard.free first inputs trace s → Accounted trace s := by
  intro hall
  obtain ⟨trace, last, hexec, hview⟩ := exec_reaches step Guard.free sampleFolder
    [.listed [("a.bin", 10)], .chunk 10, .fetched, .takeEvent 1, .takeProgress 2, .takeEvent 3]
    (fun s => (s.card.dto.total, s.card.dto.done)) (20, 30) (by decide +kernel)
  have hle := (hall sampleFolder sample_folder_opening _ _ _ hexec).le_total
  obtain ⟨htotal, hdone⟩ := Prod.mk.inj hview
  omega

/-- A folder with an empty file and one that fails after its first chunk. -/
def sampleFolderInputs : List FolderInput :=
  [.listed [("a.txt", 0), ("b.bin", 10)], .fetched, .chunk 4, .takeEvent 1, .takeProgress 2,
    .takeEvent 3, .lost "超时", .takeEvent 4, .closes, .takeEvent 5]

theorem folder_accounted_run_sample : ∃ trace s,
    Exec step CountedOnce sampleFolder sampleFolderInputs trace s ∧ Accounted trace s := by
  obtain ⟨trace, last, hexec, -⟩ := exec_reaches step CountedOnce sampleFolder sampleFolderInputs
    (fun s => (s.card.dto.total, s.card.dto.done)) (10, 4) (by decide +kernel)
  exact ⟨trace, last, hexec, folder_accounted_run sample_folder_opening hexec⟩

end FolderPull

end LocalTrans.Desktop
