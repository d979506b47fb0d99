import LocalTrans.Transfer.ResumeSearch
import Mathlib.Data.List.Perm.Subperm
import Mathlib.Algebra.Order.BigOperators.Group.List
import Mathlib.Algebra.Order.Group.Nat

/-!
# Progress of a resumed transfer

One file is fetched: the receiving end runs `start_pull_parts` or `recv_push_large_file`, the
sending end is the router with its `run_sender` tasks and the probe. Between them go the control
messages of the job, in order, and the streams of chunks, in any order. Both ends count bytes and
report them. `progress_accounted` says what the reports add up to when a part of the file is there
already.
-/

namespace LocalTrans

open Foundation

/-- The function that fetches the file: a pull, or the receiving end of a push. -/
inductive FetchedBy where
  | startPullParts
  | recvPushLargeFile
deriving DecidableEq

/-- The control messages of a job that the receiving end sends. -/
inductive JobMsg where
  | fetchReq (chunk : Nat)
  | recvProgress (cumulativeBytes : Nat)
  | recvAck
deriving DecidableEq

/-- Where the receiving end stands: before the answer to `MetaReq`, before `Started`, before the
part writer is there, in the loop, after `finalize`, after `Done`, or after an error. -/
inductive FetchPhase where
  | asking | answered | started | fetching | finalised | done | failed
deriving DecidableEq

/-- A job with both its ends. `stop` is the end of the running window, `idx` where it began; they
agree between windows. `serving` are the `run_sender` tasks before the chunk is written,
`uncounted` those that have not counted it. -/
structure FetchJob where
  fetcher : FetchedBy
  manifest : Manifest
  phase : FetchPhase
  idx : Nat
  stop : Nat
  sent : Nat
  completed : Nat
  cumulative : Nat
  toSender : List JobMsg
  registered : Bool
  serving : List Nat
  streams : List Nat
  uncounted : List Nat
  bytesCounter : Nat
  remoteDone : Nat
deriving DecidableEq

/-- What can happen. The first eight are the receiving end, `fail` is any error of it; `room` says
whether the channel of the progress events has room, `kept` whether a message passes the control
loop and the checks of the router. -/
inductive FetchInput where
  | start
  | resume
  | window (size : Nat)
  | request
  | receive (chunk : Nat) (room : Bool)
  | close
  | finalise
  | finish
  | fail
  | answer
  | handle (kept : Bool)
  | send (chunk : Nat)
  | giveUp (chunk : Nat)
  | count (chunk : Nat) (room : Bool)
  | abandon (chunk : Nat)
  | sample
  | unregister

/-- The progress events of both ends, the requests, and what is lost: an event for which the channel
has no room, a message, or the rest of a `run_sender` task. -/
inductive FetchEvent where
  | started (total : Nat)
  | resumed (alreadyBytes : Nat)
  | requested (chunk : Nat)
  | chunkDone (chunk bytes : Nat)
  | chunkDropped (chunk : Nat)
  | finalised
  | done
  | sourceStarted (total : Nat)
  | sourceChunkDone (chunk bytes : Nat)
  | sourceDropped (chunk : Nat)
  | sourceSpeed (remoteDone : Nat)
  | sourceDone
  | sourceFailed
  | messageLost (msg : JobMsg)
  | abandoned (chunk : Nat)
deriving DecidableEq

namespace Manifest

/-- The bytes of the chunks that are marked, as the resume baseline adds them up. -/
def alreadyBytes (m : Manifest) : Nat :=
  ((m.received.zipIdx.filter fun (received, _) => received).map fun (_, i) => m.chunkLen i).sum

/-- The bytes of some chunks. -/
def bytesOf (m : Manifest) (chunks : List Nat) : Nat := (chunks.map m.chunkLen).sum

section Bytes

variable {m : Manifest} {chunks others : List Nat}

@[simp] theorem bytes_of_nil : m.bytesOf [] = 0 := rfl

@[simp] theorem bytes_of_snoc {chunk : Nat} :
    m.bytesOf (chunks ++ [chunk]) = m.bytesOf chunks + m.chunkLen chunk := by
  unfold bytesOf
  rw [List.map_append, List.sum_append, List.map_singleton, List.sum_singleton]

theorem bytes_of_perm (h : chunks.Perm others) : m.bytesOf chunks = m.bytesOf others :=
  (h.map _).sum_eq

theorem bytes_of_subperm (h : chunks.Subperm others) : m.bytesOf chunks ≤ m.bytesOf others := by
  obtain ⟨same, hsame, hsub⟩ := h
  rw [← bytes_of_perm hsame]
  exact (hsub.map _).sum_le_sum (by simp)

/-- The first chunks reach as far as they can. -/
theorem bytes_of_range (count : Nat) :
    m.bytesOf (List.range count) = min m.totalSize (count * chunkSize) := by
  induction count with
  | zero => simp
  | succ count ih =>
    have hlen : m.chunkLen count = min chunkSize (m.totalSize - count * chunkSize) := rfl
    rw [List.range_succ, bytes_of_snoc, ih, hlen, Nat.succ_mul]
    omega

/-- The marked chunks and the missing ones are all chunks. -/
theorem marked_add_missing (size : Nat → Nat) (bits : List Bool) (first : Nat) :
    (((bits.zipIdx first).filter fun (received, _) => received).map fun (_, i) => size i).sum +
        (((bits.zipIdx first).filterMap fun (received, i) =>
          if received then none else some i).map size).sum =
      ((List.range' first bits.length).map size).sum := by
  induction bits generalizing first with
  | nil => rfl
  | cons bit bits ih =>
    have hrest := ih (first + 1)
    cases bit with
    | true =>
      simp [List.range'_succ] at hrest ⊢
      omega
    | false =>
      simp [List.range'_succ] at hrest ⊢
      omega

/-- What is there and what is missing make up the file. -/
theorem already_add_missing (hbitmap : m.received.length = m.chunkCount)
    (hchunks : m.chunkHashes.length = chunksNeeded m.totalSize) :
    m.alreadyBytes + m.bytesOf m.missingChunks = m.totalSize := by
  have hsum := marked_add_missing m.chunkLen m.received 0
  have hall : m.bytesOf (List.range m.received.length) = m.totalSize := by
    rw [bytes_of_range, hbitmap, chunkCount, hchunks]
    unfold chunksNeeded chunkSize
    split <;> omega
  rw [← List.range_eq_range'] at hsum
  exact hsum.trans hall

/-- No chunk is missing twice. -/
theorem missing_nodup (m : Manifest) : m.missingChunks.Nodup := by
  have hsub : ∀ (bits : List Bool) (first : Nat),
      ((bits.zipIdx first).filterMap fun (received, i) => if received then none else some i).Sublist
        (List.range' first bits.length) := by
    intro bits
    induction bits with
    | nil => simp
    | cons bit bits ih =>
      intro first
      have hrest := ih (first + 1)
      cases bit with
      | true => simpa [List.range'_succ] using hrest.cons first
      | false => simpa [List.range'_succ] using hrest
  exact (hsub m.received 0).nodup List.nodup_range'

end Bytes

end Manifest

namespace FetchJob

/-- Nothing has been asked for; `manifest` is the one the part writer will have. -/
def start (fetcher : FetchedBy) (manifest : Manifest) : FetchJob where
  fetcher
  manifest
  phase := .asking
  idx := 0
  stop := 0
  sent := 0
  completed := 0
  cumulative := 0
  toSender := []
  registered := false
  serving := []
  streams := []
  uncounted := []
  bytesCounter := 0
  remoteDone := 0

/-- `missing_chunks`, read before the loop. -/
def missing (job : FetchJob) : List Nat := job.manifest.missingChunks

/-- The chunks of the running window. -/
def batch (job : FetchJob) : List Nat := (job.missing.take job.stop).drop job.idx

/-- The size of the next window: a pull adapts it, a push has four chunks. -/
def windowSize (job : FetchJob) (size : Nat) : Nat :=
  match job.fetcher with
  | .startPullParts => max size 1
  | .recvPushLargeFile => 4

/-- The resume baseline is reported by a pull alone, if there is one. -/
def baseline (job : FetchJob) : List FetchEvent :=
  match job.fetcher with
  | .startPullParts =>
    if job.manifest.alreadyBytes > 0 then [.resumed job.manifest.alreadyBytes] else []
  | .recvPushLargeFile => []

/-- What a push sends after each window. -/
def windowReport (job : FetchJob) : List JobMsg :=
  match job.fetcher with
  | .startPullParts => []
  | .recvPushLargeFile => [.recvProgress job.cumulative]

/-- The router takes a message of the job. -/
def handleMsg (job : FetchJob) (kept : Bool) : JobMsg → FetchJob × List FetchEvent
  | .fetchReq chunk =>
    if kept ∧ job.registered ∧ chunk < job.manifest.chunkCount then
      ({ job with serving := job.serving ++ [chunk] }, [])
    else (job, [.messageLost (.fetchReq chunk)])
  | .recvProgress bytes =>
    if kept ∧ job.registered then ({ job with remoteDone := bytes }, [])
    else (job, [.messageLost (.recvProgress bytes)])
  | .recvAck =>
    if kept ∧ job.registered then ({ job with registered := false }, [.sourceDone])
    else (job, [.messageLost .recvAck])

/-- One step of either end. -/
def step : Machine FetchJob FetchInput FetchEvent := fun job input =>
  match input with
  | .answer =>
    if job.phase = .asking then
      some ({ job with phase := .answered, registered := true },
        [.sourceStarted job.manifest.totalSize])
    else none
  | .start =>
    if job.phase = .answered then
      some ({ job with phase := .started }, [.started job.manifest.totalSize])
    else none
  | .resume =>
    if job.phase = .started then some ({ job with phase := .fetching }, job.baseline) else none
  | .window size =>
    if job.phase = .fetching ∧ job.idx = job.stop ∧ job.idx < job.missing.length then
      some ({ job with stop := min (job.idx + job.windowSize size) job.missing.length }, [])
    else none
  | .request =>
    if job.phase = .fetching ∧ job.sent < job.stop then
      match job.missing[job.sent]? with
      | some chunk =>
        some ({ job with
          sent := job.sent + 1
          toSender := job.toSender ++ [.fetchReq chunk] }, [.requested chunk])
      | none => none
    else none
  | .receive chunk room =>
    if job.phase = .fetching ∧ job.sent = job.stop ∧ job.completed < job.sent ∧
        chunk ∈ job.streams then
      if chunk ∈ job.batch then
        let bytes := job.manifest.chunkLen chunk
        some ({ job with
          streams := job.streams.erase chunk
          completed := job.completed + 1
          cumulative := job.cumulative + bytes },
          if room then [.chunkDone chunk bytes] else [.chunkDropped chunk])
      else some ({ job with streams := job.streams.erase chunk, phase := .failed }, [])
    else none
  | .close =>
    if job.phase = .fetching ∧ job.idx < job.stop ∧ job.completed = job.stop then
      some ({ job with
        idx := job.stop
        toSender := job.toSender ++ job.windowReport }, [])
    else none
  | .finalise =>
    if job.phase = .fetching ∧ job.idx = job.stop ∧ job.missing.length ≤ job.idx then
      some ({ job with phase := .finalised, toSender := job.toSender ++ [.recvAck] },
        [.finalised])
    else none
  | .finish =>
    if job.phase = .finalised then some ({ job with phase := .done }, [.done]) else none
  | .fail =>
    if job.phase = .finalised ∨ job.phase = .done then none
    else some ({ job with phase := .failed }, [])
  | .handle kept =>
    match job.toSender with
    | msg :: rest => some (handleMsg { job with toSender := rest } kept msg)
    | [] => none
  | .send chunk =>
    if chunk ∈ job.serving then
      some ({ job with
        serving := job.serving.erase chunk
        streams := job.streams ++ [chunk]
        uncounted := job.uncounted ++ [chunk] }, [])
    else none
  | .giveUp chunk =>
    if chunk ∈ job.serving then
      some ({ job with serving := job.serving.erase chunk }, [.abandoned chunk])
    else none
  | .count chunk room =>
    if chunk ∈ job.uncounted then
      let bytes := job.manifest.chunkLen chunk
      some ({ job with
        uncounted := job.uncounted.erase chunk
        bytesCounter := job.bytesCounter + bytes },
        if room then [.sourceChunkDone chunk bytes] else [.sourceDropped chunk])
    else none
  | .abandon chunk =>
    if chunk ∈ job.uncounted then
      some ({ job with uncounted := job.uncounted.erase chunk }, [.abandoned chunk])
    else none
  | .sample =>
    if job.phase = .asking then none else some (job, [.sourceSpeed job.remoteDone])
  | .unregister =>
    if job.registered then some ({ job with registered := false }, [.sourceFailed]) else none

end FetchJob

/-- What the events of a run add up to: the chunks that were asked for, that arrived, and that the
sending end counted, those whose event or task was lost, and the progress that the events show of
the receiving end, of the sending end, and of the receiving end at the sending end. -/
structure FetchLedger where
  resumed : Nat
  requested : List Nat
  arrived : List Nat
  dropped : List Nat
  finalised : Bool
  counted : List Nat
  sourceDropped : List Nat
  abandoned : List Nat
  progressLost : Bool
  sourceDone : Bool
  shown : Nat
  shownSent : Nat
  shownRemote : Nat

namespace FetchLedger

/-- Nothing has happened. -/
def blank : FetchLedger where
  resumed := 0
  requested := []
  arrived := []
  dropped := []
  finalised := false
  counted := []
  sourceDropped := []
  abandoned := []
  progressLost := false
  sourceDone := false
  shown := 0
  shownSent := 0
  shownRemote := 0

/-- Enter an event. `Resumed` sets the progress that is shown, a chunk adds to it. -/
def note (l : FetchLedger) : FetchEvent → FetchLedger
  | .resumed bytes => { l with resumed := bytes, shown := bytes }
  | .requested chunk => { l with requested := l.requested ++ [chunk] }
  | .chunkDone chunk bytes =>
    { l with arrived := l.arrived ++ [chunk], shown := l.shown + bytes }
  | .chunkDropped chunk =>
    { l with arrived := l.arrived ++ [chunk], dropped := l.dropped ++ [chunk] }
  | .finalised => { l with finalised := true }
  | .sourceChunkDone chunk bytes =>
    { l with counted := l.counted ++ [chunk], shownSent := l.shownSent + bytes }
  | .sourceDropped chunk =>
    { l with counted := l.counted ++ [chunk], sourceDropped := l.sourceDropped ++ [chunk] }
  | .sourceSpeed remoteDone => { l with shownRemote := remoteDone }
  | .sourceDone => { l with sourceDone := true }
  | .messageLost (.recvProgress _) => { l with progressLost := true }
  | .abandoned chunk => { l with abandoned := l.abandoned ++ [chunk] }
  | .started _ | .done | .sourceStarted _ | .sourceFailed | .messageLost _ => l

/-- The ledger of a run. -/
def «of» (trace : List FetchEvent) : FetchLedger := trace.foldl note blank

@[simp] theorem of_append (before after : List FetchEvent) :
    FetchLedger.of (before ++ after) = after.foldl note (.of before) := by
  simp [FetchLedger.of]

end FetchLedger

namespace FetchJob

/-- The chunks that are asked for in messages. -/
def fetches (msgs : List JobMsg) : List Nat :=
  msgs.filterMap fun msg => match msg with
    | .fetchReq chunk => some chunk
    | _ => none

/-- The progress that is told in messages. -/
def reports (msgs : List JobMsg) : List Nat :=
  msgs.filterMap fun msg => match msg with
    | .recvProgress bytes => some bytes
    | _ => none

/-- What the receiving end reports as its baseline. -/
def resumedFrom (job : FetchJob) : Nat :=
  match job.fetcher with
  | .startPullParts => job.manifest.alreadyBytes
  | .recvPushLargeFile => 0

/-- The receiving end has received the file. -/
def Over (job : FetchJob) : Prop := job.phase = .finalised ∨ job.phase = .done

/-- The receiving end asks for the missing chunks in order, window by window, and shows the baseline
and what arrived. -/
structure Windows (job : FetchJob) (l : FetchLedger) : Prop where
  idx_le : job.idx ≤ job.completed
  completed_le : job.completed ≤ job.sent
  sent_le : job.sent ≤ job.stop
  stop_le : job.stop ≤ job.missing.length
  asked : l.requested = job.missing.take job.sent
  arrived : l.arrived.length = job.completed
  dropped_le : l.dropped.length ≤ l.arrived.length
  early : job.phase = .asking ∨ job.phase = .answered ∨ job.phase = .started →
    job.stop = 0 ∧ l.resumed = 0 ∧ l.shown = 0
  begun : job.phase = .fetching ∨ job.Over → l.resumed = job.resumedFrom
  resumed_le : l.resumed ≤ job.resumedFrom
  shown : l.shown + job.manifest.bytesOf l.dropped = l.resumed + job.manifest.bytesOf l.arrived
  asked_all : job.Over → job.missing.length ≤ job.idx
  finalised : l.finalised = true → job.Over

/-- Each chunk is on its way in one place, and the sending end counts what it sent. -/
structure Chunks (job : FetchJob) (l : FetchLedger) : Prop where
  pending : ∀ chunk, l.arrived.count chunk + (fetches job.toSender).count chunk +
    job.serving.count chunk + job.streams.count chunk ≤ l.requested.count chunk
  owed : ∀ chunk, l.counted.count chunk + job.uncounted.count chunk + job.serving.count chunk +
    (fetches job.toSender).count chunk ≤ l.requested.count chunk
  sent : ∀ chunk, l.arrived.count chunk + job.streams.count chunk ≤
    l.counted.count chunk + l.abandoned.count chunk + job.uncounted.count chunk
  cumulative : job.cumulative = job.manifest.bytesOf l.arrived
  counter : job.bytesCounter = job.manifest.bytesOf l.counted
  shownSent : l.shownSent + job.manifest.bytesOf l.sourceDropped = job.manifest.bytesOf l.counted

/-- What the sending end knows of the receiving end, and what is on its way to it, grows. -/
structure Reported (job : FetchJob) (l : FetchLedger) : Prop where
  sorted : (job.remoteDone :: reports job.toSender).Pairwise (· ≤ ·)
  below : ∀ bytes ∈ job.remoteDone :: reports job.toSender, bytes ≤ job.cumulative
  sample : l.shownRemote ≤ job.remoteDone
  pull : job.fetcher = .startPullParts → job.remoteDone = 0 ∧ reports job.toSender = []
  last : job.fetcher = .recvPushLargeFile → l.progressLost = false →
    (reports job.toSender).getLastD job.remoteDone = job.manifest.bytesOf (job.missing.take job.idx)
  ack : ∀ before after, job.toSender = before ++ .recvAck :: after → after = [] ∧ job.Over
  sourceDone : l.sourceDone = true → job.toSender = [] ∧ job.Over

section Steps

variable {job next : FetchJob} {input : FetchInput} {emitted : List FetchEvent} {l : FetchLedger}

/-- What the router does with a message. -/
theorem handle_cases {kept : Bool} (h : step job (.handle kept) = some (next, emitted)) :
    ∃ msg rest, job.toSender = msg :: rest ∧
      ((∃ chunk, msg = .fetchReq chunk ∧ emitted = [] ∧
          next = { job with toSender := rest, serving := job.serving ++ [chunk] }) ∨
        (∃ bytes, msg = .recvProgress bytes ∧ emitted = [] ∧
          next = { job with toSender := rest, remoteDone := bytes }) ∨
        (msg = .recvAck ∧ emitted = [.sourceDone] ∧
          next = { job with toSender := rest, registered := false }) ∨
        emitted = [.messageLost msg] ∧ next = { job with toSender := rest }) := by
  unfold step at h
  cases hqueue : job.toSender with
  | nil => simp [hqueue] at h
  | cons msg rest =>
    refine ⟨msg, rest, rfl, ?_⟩
    simp only [hqueue, Option.some.injEq] at h
    unfold handleMsg at h
    cases msg with
    | fetchReq chunk =>
      dsimp only at h
      split at h
      · obtain ⟨rfl, rfl⟩ := Prod.mk.inj h
        exact .inl ⟨chunk, rfl, rfl, rfl⟩
      · obtain ⟨rfl, rfl⟩ := Prod.mk.inj h
        exact .inr (.inr (.inr ⟨rfl, rfl⟩))
    | recvProgress bytes =>
      dsimp only at h
      split at h
      · obtain ⟨rfl, rfl⟩ := Prod.mk.inj h
        exact .inr (.inl ⟨bytes, rfl, rfl, rfl⟩)
      · obtain ⟨rfl, rfl⟩ := Prod.mk.inj h
        exact .inr (.inr (.inr ⟨rfl, rfl⟩))
    | recvAck =>
      dsimp only at h
      split at h
      · obtain ⟨rfl, rfl⟩ := Prod.mk.inj h
        exact .inr (.inr (.inl ⟨rfl, rfl, rfl⟩))
      · obtain ⟨rfl, rfl⟩ := Prod.mk.inj h
        exact .inr (.inr (.inr ⟨rfl, rfl⟩))

/-- What the receiving end does with a stream: a chunk of the window is taken, any other ends it. -/
theorem receive_cases {chunk : Nat} {room : Bool}
    (h : step job (.receive chunk room) = some (next, emitted)) :
    job.phase = .fetching ∧ job.sent = job.stop ∧ job.completed < job.sent ∧ chunk ∈ job.streams ∧
      (((emitted = [.chunkDone chunk (job.manifest.chunkLen chunk)] ∨
            emitted = [.chunkDropped chunk]) ∧
          next = { job with
            streams := job.streams.erase chunk
            completed := job.completed + 1
            cumulative := job.cumulative + job.manifest.chunkLen chunk }) ∨
        emitted = [] ∧
          next = { job with streams := job.streams.erase chunk, phase := .failed }) := by
  unfold step at h
  dsimp only at h
  obtain ⟨hguard, h⟩ := of_when h
  obtain ⟨hphase, hsent, hlt, hmem⟩ := hguard
  refine ⟨hphase, hsent, hlt, hmem, ?_⟩
  split at h
  · obtain ⟨rfl, rfl⟩ := answer_inj h
    refine .inl ⟨?_, rfl⟩
    cases room with
    | true => exact .inl rfl
    | false => exact .inr rfl
  · obtain ⟨rfl, rfl⟩ := answer_inj h
    exact .inr ⟨rfl, rfl⟩

/-- A task of the sending end counts its chunk. -/
theorem count_cases {chunk : Nat} {room : Bool}
    (h : step job (.count chunk room) = some (next, emitted)) :
    chunk ∈ job.uncounted ∧
      (emitted = [.sourceChunkDone chunk (job.manifest.chunkLen chunk)] ∨
        emitted = [.sourceDropped chunk]) ∧
      next = { job with
        uncounted := job.uncounted.erase chunk
        bytesCounter := job.bytesCounter + job.manifest.chunkLen chunk } := by
  unfold step at h
  dsimp only at h
  obtain ⟨hmem, rfl, rfl⟩ := when_answer h
  refine ⟨hmem, ?_, rfl⟩
  cases room with
  | true => exact .inl rfl
  | false => exact .inr rfl

/-- The baseline is reported if there is one. -/
theorem baseline_cases (job : FetchJob) :
    job.baseline = [] ∧ job.resumedFrom = 0 ∨ job.baseline = [.resumed job.resumedFrom] := by
  unfold baseline resumedFrom
  cases job.fetcher with
  | startPullParts =>
    dsimp only
    split
    · exact .inr rfl
    · next hnone => exact .inl ⟨rfl, Nat.eq_zero_of_not_pos hnone⟩
  | recvPushLargeFile => exact .inl ⟨rfl, rfl⟩

/-- The next request is for the next missing chunk. -/
theorem request_cases (h : step job .request = some (next, emitted)) :
    ∃ chunk, job.phase = .fetching ∧ job.sent < job.stop ∧ job.missing[job.sent]? = some chunk ∧
      emitted = [.requested chunk] ∧
      next = { job with
        sent := job.sent + 1
        toSender := job.toSender ++ [.fetchReq chunk] } := by
  unfold step at h
  dsimp only at h
  obtain ⟨hguard, h⟩ := of_when h
  split at h
  · next chunk hchunk =>
    obtain ⟨rfl, rfl⟩ := answer_inj h
    exact ⟨chunk, hguard.1, hguard.2, hchunk, rfl, rfl⟩
  · cases h

/-- Which file is fetched, and how, stays. -/
theorem step_fixed (h : step job input = some (next, emitted)) :
    next.manifest = job.manifest ∧ next.fetcher = job.fetcher := by
  cases input with
  | handle kept =>
    obtain ⟨msg, rest, -, ⟨-, -, -, rfl⟩ | ⟨-, -, -, rfl⟩ | ⟨-, -, rfl⟩ | ⟨-, rfl⟩⟩ :=
      handle_cases h
    all_goals exact ⟨rfl, rfl⟩
  | receive chunk room =>
    obtain ⟨-, -, -, -, ⟨-, rfl⟩ | ⟨-, rfl⟩⟩ := receive_cases h
    all_goals exact ⟨rfl, rfl⟩
  | count chunk room =>
    obtain ⟨-, -, rfl⟩ := count_cases h
    exact ⟨rfl, rfl⟩
  | request =>
    obtain ⟨chunk, -, -, -, -, rfl⟩ := request_cases h
    exact ⟨rfl, rfl⟩
  | fail =>
    obtain ⟨-, rfl, -⟩ := unless_answer h
    exact ⟨rfl, rfl⟩
  | sample =>
    obtain ⟨-, rfl, -⟩ := unless_answer h
    exact ⟨rfl, rfl⟩
  | answer | start | resume | window | close | finalise | finish | send | giveUp | abandon
  | unregister =>
    obtain ⟨-, rfl, -⟩ := when_answer h
    exact ⟨rfl, rfl⟩

/-- Nothing has arrived when nothing was asked for. -/
theorem Windows.none_arrived (h : Windows job l) (hstop : job.stop = 0) : l.arrived = [] := by
  have hidle : job.completed = 0 := by
    have hcompleted := h.completed_le
    have hsent := h.sent_le
    omega
  exact List.length_eq_zero_iff.mp (h.arrived.trans hidle)

/-- A step keeps the windows in order. -/
theorem Windows.step (h : Windows job l) (hstep : step job input = some (next, emitted)) :
    Windows next (emitted.foldl FetchLedger.note l) := by
  cases input with
  | answer =>
    obtain ⟨hphase, rfl, rfl⟩ := when_answer hstep
    exact { h with
      early := fun _ => h.early (.inl hphase)
      begun := by simp [Over]
      asked_all := by simp [Over]
      finalised := fun hfinal => by simpa [Over, hphase] using h.finalised hfinal }
  | start =>
    obtain ⟨hphase, rfl, rfl⟩ := when_answer hstep
    exact { h with
      early := fun _ => h.early (.inr (.inl hphase))
      begun := by simp [Over]
      asked_all := by simp [Over]
      finalised := fun hfinal => by simpa [Over, hphase] using h.finalised hfinal }
  | resume =>
    obtain ⟨hphase, rfl, rfl⟩ := when_answer hstep
    obtain ⟨hstop, hresumed, hshown⟩ := h.early (.inr (.inr hphase))
    have harrived := h.none_arrived hstop
    have hsum := h.shown
    have hover : l.finalised = true → False := fun hfinal => by
      simpa [Over, hphase] using h.finalised hfinal
    rw [harrived, hresumed, hshown] at hsum
    rcases job.baseline_cases with ⟨hnone, hzero⟩ | hbaseline
    · rw [hnone]
      exact { h with
        early := by simp
        begun := fun _ => hresumed.trans hzero.symm
        asked_all := by simp [Over]
        finalised := fun hfinal => (hover hfinal).elim }
    · rw [hbaseline]
      exact { h with
        early := by simp
        begun := fun _ => rfl
        resumed_le := Nat.le_refl _
        shown := by
          show job.resumedFrom + job.manifest.bytesOf l.dropped =
            job.resumedFrom + job.manifest.bytesOf l.arrived
          rw [harrived]
          omega
        asked_all := by simp [Over]
        finalised := fun hfinal => (hover hfinal).elim }
  | window size =>
    obtain ⟨⟨hphase, hidx, hleft⟩, rfl, rfl⟩ := when_answer hstep
    have hsent := h.sent_le
    exact { h with
      sent_le := by
        show job.sent ≤ min _ _
        omega
      stop_le := Nat.min_le_right _ _
      early := fun hearly => by simp [hphase] at hearly }
  | request =>
    obtain ⟨chunk, hphase, hlt, hchunk, rfl, rfl⟩ := request_cases hstep
    have hcompleted := h.completed_le
    exact { h with
      completed_le := Nat.le_succ_of_le hcompleted
      sent_le := hlt
      asked := by
        show l.requested ++ [chunk] = List.take (job.sent + 1) _
        rw [h.asked, List.take_add_one]
        show _ = _ ++ (job.missing[job.sent]?).toList
        rw [hchunk]
        rfl }
  | receive chunk room =>
    obtain ⟨hphase, hsent, hlt, -, ⟨hevent, rfl⟩ | ⟨rfl, rfl⟩⟩ := receive_cases hstep
    · have hidx := h.idx_le
      have hsum := h.shown
      have harrived : (l.arrived ++ [chunk]).length = job.completed + 1 := by
        rw [List.length_append, h.arrived]
        rfl
      have hdropped := h.dropped_le
      rcases hevent with rfl | rfl
      · exact { h with
          idx_le := Nat.le_succ_of_le hidx
          completed_le := hlt
          arrived := harrived
          dropped_le := by
            show l.dropped.length ≤ (l.arrived ++ [chunk]).length
            rw [List.length_append]
            omega
          early := fun hearly => by simp [hphase] at hearly
          shown := by
            show l.shown + job.manifest.chunkLen chunk + job.manifest.bytesOf l.dropped =
              l.resumed + job.manifest.bytesOf (l.arrived ++ [chunk])
            rw [Manifest.bytes_of_snoc]
            omega }
      · exact { h with
          idx_le := Nat.le_succ_of_le hidx
          completed_le := hlt
          arrived := harrived
          dropped_le := by
            show (l.dropped ++ [chunk]).length ≤ (l.arrived ++ [chunk]).length
            rw [List.length_append, List.length_append]
            omega
          shown := by
            show l.shown + job.manifest.bytesOf (l.dropped ++ [chunk]) =
              l.resumed + job.manifest.bytesOf (l.arrived ++ [chunk])
            rw [Manifest.bytes_of_snoc, Manifest.bytes_of_snoc]
            omega }
    · exact { h with
        early := by simp
        begun := by simp [Over]
        asked_all := by simp [Over]
        finalised := fun hfinal => by simpa [Over, hphase] using h.finalised hfinal }
  | close =>
    obtain ⟨⟨hphase, hlt, hcompleted⟩, rfl, rfl⟩ := when_answer hstep
    exact { h with
      idx_le := hcompleted.ge
      asked_all := by simp [Over, hphase] }
  | finalise =>
    obtain ⟨⟨hphase, hidx, hall⟩, rfl, rfl⟩ := when_answer hstep
    exact { h with
      early := by simp
      begun := fun _ => h.begun (.inl hphase)
      asked_all := fun _ => hall
      finalised := fun _ => .inl rfl }
  | finish =>
    obtain ⟨hphase, rfl, rfl⟩ := when_answer hstep
    exact { h with
      early := by simp
      begun := fun _ => h.begun (.inr (.inl hphase))
      asked_all := fun _ => h.asked_all (.inl hphase)
      finalised := fun _ => .inr rfl }
  | fail =>
    obtain ⟨⟨hfinal, hdone⟩, rfl, rfl⟩ := by simpa [FetchJob.step] using hstep
    exact { h with
      early := by simp
      begun := by simp [Over]
      asked_all := by simp [Over]
      finalised := fun hended => by simpa [Over, hfinal, hdone] using h.finalised hended }
  | handle kept =>
    obtain ⟨msg, rest, -, ⟨chunk, -, rfl, rfl⟩ | ⟨bytes, -, rfl, rfl⟩ | ⟨-, rfl, rfl⟩ | ⟨rfl, rfl⟩⟩ :=
      handle_cases hstep
    · exact { h with }
    · exact { h with }
    · exact { h with }
    · cases msg <;> exact { h with }
  | count chunk room =>
    obtain ⟨-, rfl | rfl, rfl⟩ := count_cases hstep
    all_goals exact { h with }
  | sample =>
    obtain ⟨-, rfl, rfl⟩ := unless_answer hstep
    exact { h with }
  | send | giveUp | abandon | unregister =>
    obtain ⟨-, rfl, rfl⟩ := when_answer hstep
    exact { h with }

@[simp] theorem fetches_append (before after : List JobMsg) :
    fetches (before ++ after) = fetches before ++ fetches after :=
  List.filterMap_append

@[simp] theorem reports_append (before after : List JobMsg) :
    reports (before ++ after) = reports before ++ reports after :=
  List.filterMap_append

@[simp] theorem fetches_report : fetches job.windowReport = [] := by
  unfold windowReport
  cases job.fetcher <;> rfl

/-- A task that takes a chunk from a list has it once less there. -/
theorem count_erase_add {chunks : List Nat} {chunk : Nat} (h : chunk ∈ chunks) (other : Nat) :
    (chunks.erase chunk).count other + [chunk].count other = chunks.count other := by
  rw [← List.count_append]
  exact ((List.perm_append_singleton _ _).trans (List.perm_cons_erase h).symm).count_eq other

/-- The places of a chunk are counted anew. -/
theorem Chunks.recount {job' : FetchJob} {l' : FetchLedger} (h : Chunks job l)
    (hcounts : ∀ chunk,
      l.arrived.count chunk + (fetches job.toSender).count chunk + job.serving.count chunk +
          job.streams.count chunk ≤ l.requested.count chunk →
      l.counted.count chunk + job.uncounted.count chunk + job.serving.count chunk +
          (fetches job.toSender).count chunk ≤ l.requested.count chunk →
      l.arrived.count chunk + job.streams.count chunk ≤
          l.counted.count chunk + l.abandoned.count chunk + job.uncounted.count chunk →
      (l'.arrived.count chunk + (fetches job'.toSender).count chunk + job'.serving.count chunk +
          job'.streams.count chunk ≤ l'.requested.count chunk ∧
        l'.counted.count chunk + job'.uncounted.count chunk + job'.serving.count chunk +
          (fetches job'.toSender).count chunk ≤ l'.requested.count chunk) ∧
        l'.arrived.count chunk + job'.streams.count chunk ≤
          l'.counted.count chunk + l'.abandoned.count chunk + job'.uncounted.count chunk)
    (hcumulative : job'.cumulative = job'.manifest.bytesOf l'.arrived)
    (hcounter : job'.bytesCounter = job'.manifest.bytesOf l'.counted)
    (hshown : l'.shownSent + job'.manifest.bytesOf l'.sourceDropped = job'.manifest.bytesOf l'.counted) :
    Chunks job' l' where
  pending chunk := (hcounts chunk (h.pending chunk) (h.owed chunk) (h.sent chunk)).1.1
  owed chunk := (hcounts chunk (h.pending chunk) (h.owed chunk) (h.sent chunk)).1.2
  sent chunk := (hcounts chunk (h.pending chunk) (h.owed chunk) (h.sent chunk)).2
  cumulative := hcumulative
  counter := hcounter
  shownSent := hshown

/-- A step moves a chunk from one place to the next. -/
theorem Chunks.step (h : Chunks job l) (hstep : step job input = some (next, emitted)) :
    Chunks next (emitted.foldl FetchLedger.note l) := by
  cases input with
  | request =>
    obtain ⟨chunk, hphase, hlt, hchunk, rfl, rfl⟩ := request_cases hstep
    refine h.recount (fun other hpending howed hsent => ?_) h.cumulative h.counter h.shownSent
    have hasked : fetches (job.toSender ++ [.fetchReq chunk]) = fetches job.toSender ++ [chunk] :=
      fetches_append ..
    dsimp only [List.foldl_cons, List.foldl_nil, FetchLedger.note]
    rw [hasked, List.count_append, List.count_append]
    omega
  | receive chunk room =>
    obtain ⟨-, -, -, hmem, ⟨hevent, rfl⟩ | ⟨rfl, rfl⟩⟩ := receive_cases hstep
    · have hcumulative : job.cumulative + job.manifest.chunkLen chunk =
          job.manifest.bytesOf (l.arrived ++ [chunk]) := by
        rw [Manifest.bytes_of_snoc, h.cumulative]
      rcases hevent with rfl | rfl
      all_goals
        refine h.recount (fun other hpending howed hsent => ?_) hcumulative h.counter h.shownSent
        have hone := count_erase_add hmem other
        dsimp only [List.foldl_cons, List.foldl_nil, FetchLedger.note]
        rw [List.count_append]
        omega
    · refine h.recount (fun other hpending howed hsent => ?_) h.cumulative h.counter h.shownSent
      have hone := count_erase_add hmem other
      dsimp only [List.foldl_nil]
      omega
  | close =>
    obtain ⟨-, rfl, rfl⟩ := when_answer hstep
    refine h.recount (fun other hpending howed hsent => ?_) h.cumulative h.counter h.shownSent
    have hsame : fetches (job.toSender ++ job.windowReport) = fetches job.toSender := by simp
    dsimp only [List.foldl_nil]
    rw [hsame]
    exact ⟨⟨hpending, howed⟩, hsent⟩
  | finalise =>
    obtain ⟨-, rfl, rfl⟩ := when_answer hstep
    refine h.recount (fun other hpending howed hsent => ?_) h.cumulative h.counter h.shownSent
    have hsame : fetches (job.toSender ++ [.recvAck]) = fetches job.toSender := by
      rw [fetches_append]
      exact List.append_nil _
    dsimp only [List.foldl_cons, List.foldl_nil, FetchLedger.note]
    rw [hsame]
    exact ⟨⟨hpending, howed⟩, hsent⟩
  | handle kept =>
    obtain ⟨msg, rest, hqueue, hresult⟩ := handle_cases hstep
    have hfetches : ∀ other, (fetches rest).count other + (fetches [msg]).count other =
        (fetches job.toSender).count other := by
      intro other
      have hsplit : fetches job.toSender = fetches [msg] ++ fetches rest := by
        rw [hqueue]
        exact fetches_append [msg] rest
      rw [hsplit, List.count_append]
      exact Nat.add_comm ..
    -- whatever the message was, its chunk leaves the queue
    have hrest : Chunks { job with toSender := rest } l := by
      refine h.recount (fun other hpending howed hsent => ?_) h.cumulative h.counter h.shownSent
      have hone := hfetches other
      dsimp only
      omega
    rcases hresult with ⟨chunk, rfl, rfl, rfl⟩ | ⟨bytes, -, rfl, rfl⟩ | ⟨-, rfl, rfl⟩ | ⟨rfl, rfl⟩
    · refine h.recount (fun other hpending howed hsent => ?_) h.cumulative h.counter h.shownSent
      have hone : (fetches rest).count other + [chunk].count other = _ := hfetches other
      dsimp only [List.foldl_nil]
      rw [List.count_append]
      omega
    · exact { hrest with }
    · exact { hrest with }
    · cases msg <;> exact { hrest with }
  | send chunk =>
    obtain ⟨hmem, rfl, rfl⟩ := when_answer hstep
    refine h.recount (fun other hpending howed hsent => ?_) h.cumulative h.counter h.shownSent
    have hone := count_erase_add hmem other
    dsimp only [List.foldl_nil]
    rw [List.count_append, List.count_append]
    omega
  | giveUp chunk =>
    obtain ⟨hmem, rfl, rfl⟩ := when_answer hstep
    refine h.recount (fun other hpending howed hsent => ?_) h.cumulative h.counter h.shownSent
    have hone := count_erase_add hmem other
    dsimp only [List.foldl_cons, List.foldl_nil, FetchLedger.note]
    rw [List.count_append]
    omega
  | count chunk room =>
    obtain ⟨hmem, hevent, rfl⟩ := count_cases hstep
    have hcounter : job.bytesCounter + job.manifest.chunkLen chunk =
        job.manifest.bytesOf (l.counted ++ [chunk]) := by
      rw [Manifest.bytes_of_snoc, h.counter]
    have hshown : l.shownSent + job.manifest.chunkLen chunk + job.manifest.bytesOf l.sourceDropped =
        job.manifest.bytesOf (l.counted ++ [chunk]) := by
      rw [Manifest.bytes_of_snoc, ← h.shownSent]
      omega
    have hdropped : l.shownSent + job.manifest.bytesOf (l.sourceDropped ++ [chunk]) =
        job.manifest.bytesOf (l.counted ++ [chunk]) := by
      rw [Manifest.bytes_of_snoc, ← hshown]
      omega
    rcases hevent with rfl | rfl
    · refine h.recount (fun other hpending howed hsent => ?_) h.cumulative hcounter hshown
      have hone := count_erase_add hmem other
      dsimp only [List.foldl_cons, List.foldl_nil, FetchLedger.note]
      rw [List.count_append]
      omega
    · refine h.recount (fun other hpending howed hsent => ?_) h.cumulative hcounter hdropped
      have hone := count_erase_add hmem other
      dsimp only [List.foldl_cons, List.foldl_nil, FetchLedger.note]
      rw [List.count_append]
      omega
  | abandon chunk =>
    obtain ⟨hmem, rfl, rfl⟩ := when_answer hstep
    refine h.recount (fun other hpending howed hsent => ?_) h.cumulative h.counter h.shownSent
    have hone := count_erase_add hmem other
    dsimp only [List.foldl_cons, List.foldl_nil, FetchLedger.note]
    rw [List.count_append]
    omega
  | resume =>
    obtain ⟨-, rfl, rfl⟩ := when_answer hstep
    rcases job.baseline_cases with ⟨hbaseline, -⟩ | hbaseline
    all_goals
      rw [hbaseline]
      exact { h with }
  | sample =>
    obtain ⟨-, rfl, rfl⟩ := unless_answer hstep
    exact { h with }
  | answer | start | window | finish | fail | unregister =>
    obtain ⟨-, rfl, rfl⟩ := by simpa [FetchJob.step] using hstep
    exact { h with }

/-- When no task is left, what arrived is what was asked for. -/
theorem Chunks.all_arrived (h : Chunks job l) (hwindows : Windows job l)
    (hall : job.completed = job.sent) : l.arrived.Perm l.requested := by
  have hsub : l.arrived.Subperm l.requested := by
    refine List.subperm_ext_iff.mpr fun chunk _ => ?_
    have hpending := h.pending chunk
    omega
  refine hsub.perm_of_length_le ?_
  rw [hwindows.asked, hwindows.arrived, List.length_take]
  omega

/-- Before the end no acknowledgement was sent. -/
theorem Reported.not_acked (h : Reported job l) (hphase : ¬ job.Over) : .recvAck ∉ job.toSender := by
  intro hmem
  obtain ⟨before, after, hqueue⟩ := List.append_of_mem hmem
  exact hphase (h.ack before after hqueue).2

/-- Before the end the sending end does not know of it. -/
theorem Reported.not_done (h : Reported job l) (hphase : ¬ job.Over) : l.sourceDone ≠ true :=
  fun hdone => hphase (h.sourceDone hdone).2

/-- A queue does not split at a message that is not in it. -/
theorem split_of_new {msgs : List JobMsg} {msg : JobMsg} (hnew : msg ∉ msgs)
    (before after : List JobMsg) : msgs ≠ before ++ msg :: after := by
  rintro rfl
  exact hnew (List.mem_append_right before List.mem_cons_self)

/-- The first of its kind that is queued is the last in the queue. -/
theorem last_of_new {msgs before after : List JobMsg} {msg : JobMsg} (hnew : msg ∉ msgs)
    (h : msgs ++ [msg] = before ++ msg :: after) : after = [] := by
  rcases List.eq_nil_or_concat after with hnil | ⟨start, last, rfl⟩
  · exact hnil
  · have hsplit : msgs ++ [msg] = (before ++ msg :: start) ++ [last] := by simpa using h
    exact absurd (List.append_inj' hsplit rfl).1 (split_of_new hnew before start)

/-- What a push tells after a window. -/
theorem reports_window (hfetcher : job.fetcher = .recvPushLargeFile) :
    reports job.windowReport = [job.cumulative] := by
  unfold windowReport
  rw [hfetcher]
  rfl

/-- A pull tells nothing. -/
theorem reports_pull (hfetcher : job.fetcher = .startPullParts) : job.windowReport = [] := by
  unfold windowReport
  rw [hfetcher]

/-- A message of the queue is handled or lost. -/
theorem Reported.handle {kept : Bool} (h : Reported job l)
    (hstep : FetchJob.step job (.handle kept) = some (next, emitted)) :
    Reported next (emitted.foldl FetchLedger.note l) := by
  obtain ⟨msg, rest, hqueue, hresult⟩ := handle_cases hstep
  have hreports : reports job.toSender = reports [msg] ++ reports rest := by
    rw [hqueue]
    exact reports_append [msg] rest
  have hsub : (reports rest).Sublist (reports job.toSender) := by
    rw [hreports]
    exact List.sublist_append_right ..
  have hack : ∀ before after, rest = before ++ .recvAck :: after → after = [] ∧ job.Over :=
    fun before after hrest => h.ack (msg :: before) after (by rw [hqueue, hrest]; rfl)
  have hnot : l.sourceDone ≠ true := fun hdone => by
    have hempty := (h.sourceDone hdone).1
    rw [hqueue] at hempty
    cases hempty
  have hpull : job.fetcher = .startPullParts → job.remoteDone = 0 ∧ reports rest = [] := by
    intro hfetcher
    obtain ⟨hzero, hnone⟩ := h.pull hfetcher
    exact ⟨hzero, List.sublist_nil.mp (hnone ▸ hsub)⟩
  have hsorted := h.sorted.sublist (hsub.cons_cons job.remoteDone)
  have hbelow : ∀ bytes ∈ job.remoteDone :: reports rest, bytes ≤ job.cumulative :=
    fun bytes hmem => h.below bytes ((hsub.cons_cons _).subset hmem)
  -- a message that is not a report leaves what was told last
  have hlast : reports [msg] = [] → job.fetcher = .recvPushLargeFile → l.progressLost = false →
      (reports rest).getLastD job.remoteDone = job.manifest.bytesOf (job.missing.take job.idx) := by
    intro hsilent hfetcher hlost
    have hbefore := h.last hfetcher hlost
    rwa [hreports, hsilent] at hbefore
  rcases hresult with ⟨chunk, rfl, rfl, rfl⟩ | ⟨bytes, rfl, rfl, rfl⟩ | ⟨rfl, rfl, rfl⟩ | ⟨rfl, rfl⟩
  · exact { h with
      sorted := hsorted
      below := hbelow
      pull := hpull
      last := hlast rfl
      ack := hack
      sourceDone := fun hdone => absurd hdone hnot }
  · have hall : reports job.toSender = bytes :: reports rest := hreports
    have hgrow := h.sorted
    have hbounds := h.below
    rw [hall] at hgrow hbounds
    exact { h with
      sorted := (List.pairwise_cons.mp hgrow).2
      below := fun value hmem => hbounds value (List.mem_cons_of_mem _ hmem)
      sample := Nat.le_trans h.sample ((List.pairwise_cons.mp hgrow).1 bytes List.mem_cons_self)
      pull := fun hfetcher => by
        have hnone := (h.pull hfetcher).2
        rw [hall] at hnone
        cases hnone
      last := fun hfetcher hlost => by
        have hbefore := h.last hfetcher hlost
        rwa [hall, List.getLastD_cons] at hbefore
      ack := hack
      sourceDone := fun hdone => absurd hdone hnot }
  · obtain ⟨hempty, hover⟩ := h.ack [] rest hqueue
    exact { h with
      sorted := hsorted
      below := hbelow
      pull := hpull
      last := hlast rfl
      ack := hack
      sourceDone := fun _ => ⟨hempty, hover⟩ }
  · cases msg with
    | recvProgress bytes =>
      exact { h with
        sorted := hsorted
        below := hbelow
        pull := hpull
        last := fun _ hlost => by cases hlost
        ack := hack
        sourceDone := fun hdone => absurd hdone hnot }
    | fetchReq | recvAck =>
      exact { h with
        sorted := hsorted
        below := hbelow
        pull := hpull
        last := hlast rfl
        ack := hack
        sourceDone := fun hdone => absurd hdone hnot }

/-- A step keeps the reports in order. -/
theorem Reported.step (h : Reported job l) (hwindows : Windows job l) (hchunks : Chunks job l)
    (hstep : FetchJob.step job input = some (next, emitted)) :
    Reported next (emitted.foldl FetchLedger.note l) := by
  cases input with
  | handle kept => exact h.handle hstep
  | request =>
    obtain ⟨chunk, hphase, -, -, rfl, rfl⟩ := request_cases hstep
    have hnot : ¬ job.Over := by simp [Over, hphase]
    have hsame : reports (job.toSender ++ [.fetchReq chunk]) = reports job.toSender := by
      rw [reports_append]
      exact List.append_nil _
    have hnew : .recvAck ∉ job.toSender ++ [.fetchReq chunk] := by
      simpa using h.not_acked hnot
    exact { h with
      sorted := by simpa only [hsame] using h.sorted
      below := by simpa only [hsame] using h.below
      pull := by simpa only [hsame] using h.pull
      last := by
        dsimp only
        rw [hsame]
        exact h.last
      ack := fun before after hqueue => absurd hqueue (split_of_new hnew before after)
      sourceDone := fun hdone => absurd hdone (h.not_done hnot) }
  | receive chunk room =>
    obtain ⟨hphase, -, -, -, ⟨hevent, rfl⟩ | ⟨rfl, rfl⟩⟩ := receive_cases hstep
    · have hbelow : ∀ bytes ∈ job.remoteDone :: reports job.toSender,
          bytes ≤ job.cumulative + job.manifest.chunkLen chunk :=
        fun bytes hmem => Nat.le_add_right_of_le (h.below bytes hmem)
      rcases hevent with rfl | rfl
      · exact { h with below := hbelow }
      · exact { h with below := hbelow }
    · have hnot : ¬ job.Over := by simp [Over, hphase]
      exact { h with
        ack := fun before after hqueue => absurd (h.ack before after hqueue).2 hnot
        sourceDone := fun hdone => absurd hdone (h.not_done hnot) }
  | close =>
    obtain ⟨⟨hphase, hlt, hcompleted⟩, rfl, rfl⟩ := when_answer hstep
    have hnot : ¬ job.Over := by simp [Over, hphase]
    have hnew : .recvAck ∉ job.toSender ++ job.windowReport := by
      have hreport : .recvAck ∉ job.windowReport := by
        unfold windowReport
        cases job.fetcher <;> simp
      simpa [hreport] using h.not_acked hnot
    cases hfetcher : job.fetcher with
    | startPullParts =>
      have hsame : job.toSender ++ job.windowReport = job.toSender := by
        rw [reports_pull hfetcher, List.append_nil]
      rw [hsame]
      exact { h with
        last := by simp
        pull := fun _ => h.pull hfetcher }
    | recvPushLargeFile =>
      have hall : reports (job.toSender ++ job.windowReport) =
          reports job.toSender ++ [job.cumulative] := by
        rw [reports_append, reports_window hfetcher]
      have hsent : job.completed = job.sent := by
        have hcompletedLe := hwindows.completed_le
        have hsentLe := hwindows.sent_le
        omega
      have htold : job.cumulative = job.manifest.bytesOf (job.missing.take job.stop) := by
        have hperm := hchunks.all_arrived hwindows hsent
        rw [hchunks.cumulative, Manifest.bytes_of_perm hperm, hwindows.asked, ← hsent,
          hcompleted]
      exact { h with
        sorted := by
          show (job.remoteDone :: reports (job.toSender ++ job.windowReport)).Pairwise (· ≤ ·)
          rw [hall, ← List.cons_append]
          refine List.pairwise_append.mpr ⟨h.sorted, List.pairwise_singleton .., ?_⟩
          intro bytes hmem last hlast
          rw [List.mem_singleton.mp hlast]
          exact h.below bytes hmem
        below := fun bytes hmem => by
          have hcases : bytes ∈ (job.remoteDone :: reports job.toSender) ++ [job.cumulative] := by
            rw [List.cons_append, ← hall]
            exact hmem
          rcases List.mem_append.mp hcases with hbefore | hlast
          · exact h.below bytes hbefore
          · exact (List.mem_singleton.mp hlast).le
        pull := by simp
        last := fun _ _ => by
          show (reports (job.toSender ++ job.windowReport)).getLastD job.remoteDone = _
          rw [hall, List.getLastD_concat]
          exact htold
        ack := fun before after hqueue =>
          absurd hqueue (split_of_new hnew before after)
        sourceDone := fun hdone => absurd hdone (h.not_done hnot) }
  | finalise =>
    obtain ⟨⟨hphase, hidx, hall⟩, rfl, rfl⟩ := when_answer hstep
    have hnot : ¬ job.Over := by simp [Over, hphase]
    have hsame : reports (job.toSender ++ [.recvAck]) = reports job.toSender := by
      rw [reports_append]
      exact List.append_nil _
    exact { h with
      sorted := by simpa only [hsame] using h.sorted
      below := by simpa only [hsame] using h.below
      pull := by simpa only [hsame] using h.pull
      last := by
        dsimp only
        rw [hsame]
        exact h.last
      ack := fun before after hqueue => ⟨last_of_new (h.not_acked hnot) hqueue, .inl rfl⟩
      sourceDone := fun hdone => absurd hdone (h.not_done hnot) }
  | finish =>
    obtain ⟨hphase, rfl, rfl⟩ := when_answer hstep
    exact { h with
      ack := fun before after hqueue => ⟨(h.ack before after hqueue).1, .inr rfl⟩
      sourceDone := fun hdone => ⟨(h.sourceDone hdone).1, .inr rfl⟩ }
  | fail =>
    obtain ⟨⟨hfinal, hdone⟩, rfl, rfl⟩ := by simpa [FetchJob.step] using hstep
    have hnot : ¬ job.Over := by simp [Over, hfinal, hdone]
    exact { h with
      ack := fun before after hqueue => absurd (h.ack before after hqueue).2 hnot
      sourceDone := fun hdone => absurd hdone (h.not_done hnot) }
  | answer | start =>
    obtain ⟨hphase, rfl, rfl⟩ := when_answer hstep
    have hnot : ¬ job.Over := by simp [Over, hphase]
    exact { h with
      ack := fun before after hqueue => absurd (h.ack before after hqueue).2 hnot
      sourceDone := fun hdone => absurd hdone (h.not_done hnot) }
  | resume =>
    obtain ⟨hphase, rfl, rfl⟩ := when_answer hstep
    have hnot : ¬ job.Over := by simp [Over, hphase]
    rcases job.baseline_cases with ⟨hbaseline, -⟩ | hbaseline
    all_goals
      rw [hbaseline]
      exact { h with
        ack := fun before after hqueue => absurd (h.ack before after hqueue).2 hnot
        sourceDone := fun hdone => absurd hdone (h.not_done hnot) }
  | count chunk room =>
    obtain ⟨-, rfl | rfl, rfl⟩ := count_cases hstep
    all_goals exact { h with }
  | sample =>
    obtain ⟨-, rfl, rfl⟩ := unless_answer hstep
    exact { h with sample := Nat.le_refl _ }
  | window | send | giveUp | abandon | unregister =>
    obtain ⟨-, rfl, rfl⟩ := when_answer hstep
    exact { h with }

/-- A step emits one event at most. -/
theorem step_emits (h : step job input = some (next, emitted)) :
    emitted = [] ∨ ∃ event, emitted = [event] := by
  cases input with
  | handle kept =>
    obtain ⟨msg, rest, -, ⟨-, -, rfl, -⟩ | ⟨-, -, rfl, -⟩ | ⟨-, rfl, -⟩ | ⟨rfl, -⟩⟩ :=
      handle_cases h
    all_goals simp
  | receive chunk room =>
    obtain ⟨-, -, -, -, ⟨rfl | rfl, -⟩ | ⟨rfl, -⟩⟩ := receive_cases h
    all_goals simp
  | count chunk room =>
    obtain ⟨-, rfl | rfl, -⟩ := count_cases h
    all_goals simp
  | request =>
    obtain ⟨chunk, -, -, -, rfl, -⟩ := request_cases h
    simp
  | resume =>
    obtain ⟨-, -, rfl⟩ := when_answer h
    rcases job.baseline_cases with ⟨hbaseline, -⟩ | hbaseline
    all_goals simp [hbaseline]
  | answer | start | window | close | finalise | finish | send | giveUp | abandon | unregister
  | fail | sample =>
    obtain ⟨-, -, rfl⟩ := by simpa [step] using h
    simp

/-- An event of a step: the baseline comes first, and a sample is what is known. -/
theorem event_cases {event : FetchEvent} (h : step job input = some (next, [event])) :
    (∀ bytes, event = .resumed bytes → job.phase = .started) ∧
      (∀ bytes, event = .sourceSpeed bytes → bytes = job.remoteDone) ∧
      (∀ chunk, event = .requested chunk → job.phase = .fetching) := by
  cases input with
  | handle kept =>
    obtain ⟨msg, rest, -, ⟨-, -, hevent, -⟩ | ⟨-, -, hevent, -⟩ | ⟨-, hevent, -⟩ | ⟨hevent, -⟩⟩ :=
      handle_cases h
    all_goals simp_all
  | receive chunk room =>
    obtain ⟨-, -, -, -, ⟨hevent | hevent, -⟩ | ⟨hevent, -⟩⟩ := receive_cases h
    all_goals simp_all
  | count chunk room =>
    obtain ⟨-, hevent | hevent, -⟩ := count_cases h
    all_goals simp_all
  | request =>
    obtain ⟨chunk, hphase, -, -, hevent, -⟩ := request_cases h
    simp_all
  | resume =>
    obtain ⟨hphase, -, hevent⟩ := when_answer h
    rcases job.baseline_cases with ⟨hbaseline, -⟩ | hbaseline
    · simp [hbaseline] at hevent
    · rw [hbaseline] at hevent
      obtain rfl := List.singleton_inj.mp hevent
      simp [hphase]
  | sample =>
    obtain ⟨-, -, rfl⟩ := by simpa [step] using h
    simp
  | answer | start | finalise | finish | giveUp | abandon | unregister =>
    obtain ⟨-, -, rfl⟩ := by simpa [step] using h
    simp
  | window | close | send | fail => simp [step] at h

/-- What is shown never goes back. -/
theorem shown_grows (hwindows : Windows job l) (hreported : Reported job l)
    (h : step job input = some (next, emitted)) :
    l.shown ≤ (emitted.foldl FetchLedger.note l).shown ∧
      l.shownSent ≤ (emitted.foldl FetchLedger.note l).shownSent ∧
      l.shownRemote ≤ (emitted.foldl FetchLedger.note l).shownRemote := by
  rcases step_emits h with rfl | ⟨event, rfl⟩
  · exact ⟨Nat.le_refl _, Nat.le_refl _, Nat.le_refl _⟩
  · obtain ⟨hresumed, hspeed, -⟩ := event_cases h
    cases event with
    | resumed bytes =>
      have hzero := (hwindows.early (.inr (.inr (hresumed bytes rfl)))).2.2
      refine ⟨?_, Nat.le_refl _, Nat.le_refl _⟩
      show l.shown ≤ bytes
      omega
    | sourceSpeed bytes =>
      refine ⟨Nat.le_refl _, Nat.le_refl _, ?_⟩
      show l.shownRemote ≤ bytes
      rw [hspeed bytes rfl]
      exact hreported.sample
    | chunkDone chunk bytes => exact ⟨Nat.le_add_right .., Nat.le_refl _, Nat.le_refl _⟩
    | sourceChunkDone chunk bytes => exact ⟨Nat.le_refl _, Nat.le_add_right .., Nat.le_refl _⟩
    | messageLost msg => cases msg <;> exact ⟨Nat.le_refl _, Nat.le_refl _, Nat.le_refl _⟩
    | started | requested | chunkDropped | finalised | done | sourceStarted | sourceDropped
    | sourceDone | sourceFailed | abandoned =>
      exact ⟨Nat.le_refl _, Nat.le_refl _, Nat.le_refl _⟩

end Steps

section Runs

variable {fetcher : FetchedBy} {manifest : Manifest} {job : FetchJob} {inputs : List FetchInput}
  {trace : List FetchEvent} {guard : Guard FetchJob FetchInput FetchEvent}

/-- The job and the ledger of its events agree. -/
structure Balanced (fetcher : FetchedBy) (manifest : Manifest) (trace : List FetchEvent)
    (job : FetchJob) : Prop where
  windows : Windows job (.of trace)
  chunks : Chunks job (.of trace)
  reported : Reported job (.of trace)
  manifest_eq : job.manifest = manifest
  fetcher_eq : job.fetcher = fetcher

theorem start_balanced : Balanced fetcher manifest [] (start fetcher manifest) where
  windows := {
    idx_le := Nat.le_refl _
    completed_le := Nat.le_refl _
    sent_le := Nat.le_refl _
    stop_le := Nat.zero_le _
    asked := rfl
    arrived := rfl
    dropped_le := Nat.le_refl _
    early := fun _ => ⟨rfl, rfl, rfl⟩
    begun := by simp [start, Over]
    resumed_le := Nat.zero_le _
    shown := rfl
    asked_all := by simp [start, Over]
    finalised := by simp [FetchLedger.of, FetchLedger.blank] }
  chunks := {
    pending := fun _ => Nat.le_refl _
    owed := fun _ => Nat.le_refl _
    sent := fun _ => Nat.le_refl _
    cumulative := rfl
    counter := rfl
    shownSent := rfl }
  reported := {
    sorted := List.pairwise_singleton ..
    below := by simp [start, reports]
    sample := Nat.le_refl _
    pull := fun _ => ⟨rfl, rfl⟩
    last := fun _ _ => rfl
    ack := by simp [start]
    sourceDone := by simp [FetchLedger.of, FetchLedger.blank] }
  manifest_eq := rfl
  fetcher_eq := rfl

theorem balanced_run (h : Exec step guard (start fetcher manifest) inputs trace job) :
    Balanced fetcher manifest trace job := by
  refine h.invariant start_balanced ?_
  intro trace job input next emitted hinv _ hnext
  obtain ⟨hmanifest, hfetcher⟩ := step_fixed hnext
  exact {
    windows := FetchLedger.of_append .. ▸ hinv.windows.step hnext
    chunks := FetchLedger.of_append .. ▸ hinv.chunks.step hnext
    reported := FetchLedger.of_append .. ▸ hinv.reported.step hinv.windows hinv.chunks hnext
    manifest_eq := hmanifest.trans hinv.manifest_eq
    fetcher_eq := hfetcher.trans hinv.fetcher_eq }

/-- No report of a run shows more than a later one. -/
theorem climbs_run (h : Exec step guard (start fetcher manifest) inputs trace job) :
    ∀ before, before <+: trace →
      (FetchLedger.of before).shown ≤ (FetchLedger.of trace).shown ∧
        (FetchLedger.of before).shownSent ≤ (FetchLedger.of trace).shownSent ∧
        (FetchLedger.of before).shownRemote ≤ (FetchLedger.of trace).shownRemote := by
  induction h with
  | start =>
    intro before hprefix
    rw [List.prefix_nil.mp hprefix]
    exact ⟨Nat.le_refl _, Nat.le_refl _, Nat.le_refl _⟩
  | @step inputs trace job next input emitted hexec _ hnext ih =>
    have hinv := balanced_run hexec
    obtain ⟨hshown, hsent, hremote⟩ := shown_grows hinv.windows hinv.reported hnext
    intro before hprefix
    have hcases : before <+: trace ∨ before = trace ++ emitted := by
      rcases step_emits hnext with rfl | ⟨event, rfl⟩
      · exact .inl (by simpa using hprefix)
      · exact (List.prefix_concat_iff.mp hprefix).symm
    rcases hcases with hbefore | rfl
    · obtain ⟨hless, hlessSent, hlessRemote⟩ := ih before hbefore
      rw [FetchLedger.of_append]
      exact ⟨Nat.le_trans hless hshown, Nat.le_trans hlessSent hsent,
        Nat.le_trans hlessRemote hremote⟩
    · exact ⟨Nat.le_refl _, Nat.le_refl _, Nat.le_refl _⟩

/-- When the first chunks are asked for, the baseline is shown. -/
theorem starts_run (h : Exec step guard (start fetcher manifest) inputs trace job) :
    EachEvent (fun before event => ∀ chunk, event = .requested chunk →
      (FetchLedger.of before).arrived = [] →
        (FetchLedger.of before).shown = (start fetcher manifest).resumedFrom) trace := by
  induction h with
  | start => exact each_event_nil
  | @step inputs trace job next input emitted hexec _ hnext ih =>
    refine each_event_append.mpr ⟨ih, ?_⟩
    rcases step_emits hnext with rfl | ⟨event, rfl⟩
    · exact each_event_nil
    · refine each_event_singleton.mpr ?_
      rw [List.append_nil]
      intro chunk hevent hnone
      have hinv := balanced_run hexec
      have hbegun := hinv.windows.begun (.inl ((event_cases hnext).2.2 chunk hevent))
      have hsum := hinv.windows.shown
      have hdropped : (FetchLedger.of trace).dropped = [] := by
        have hle := hinv.windows.dropped_le
        rw [hnone] at hle
        exact List.length_eq_zero_iff.mp (Nat.le_zero.mp hle)
      rw [hnone, hdropped, Manifest.bytes_of_nil, hbegun] at hsum
      have hfrom : job.resumedFrom = (start fetcher manifest).resumedFrom := by
        unfold resumedFrom
        rw [hinv.fetcher_eq, hinv.manifest_eq]
        rfl
      rw [← hfrom]
      simpa using hsum

/-- Chunks that were asked for are missing ones, in bytes. -/
theorem Balanced.bytes_le (h : Balanced fetcher manifest trace job) {chunks : List Nat}
    (hasked : ∀ chunk, chunks.count chunk ≤ (FetchLedger.of trace).requested.count chunk) :
    manifest.bytesOf chunks ≤ manifest.bytesOf manifest.missingChunks := by
  have hsub : chunks.Subperm (FetchLedger.of trace).requested :=
    List.subperm_ext_iff.mpr fun chunk _ => hasked chunk
  refine Manifest.bytes_of_subperm (hsub.trans ?_)
  rw [h.windows.asked, ← h.manifest_eq]
  exact (List.take_sublist ..).subperm

theorem Balanced.arrived_le (h : Balanced fetcher manifest trace job) :
    manifest.bytesOf (FetchLedger.of trace).arrived ≤ manifest.bytesOf manifest.missingChunks := by
  refine h.bytes_le fun chunk => ?_
  have hpending := h.chunks.pending chunk
  omega

theorem Balanced.counted_le (h : Balanced fetcher manifest trace job) :
    manifest.bytesOf (FetchLedger.of trace).counted ≤ manifest.bytesOf manifest.missingChunks := by
  refine h.bytes_le fun chunk => ?_
  have howed := h.chunks.owed chunk
  omega

/-- At the end every missing chunk was asked for and has arrived. -/
theorem Balanced.ended (h : Balanced fetcher manifest trace job) (hover : job.Over) :
    (FetchLedger.of trace).requested = manifest.missingChunks ∧
      (FetchLedger.of trace).arrived.Perm manifest.missingChunks ∧
      job.missing.take job.idx = manifest.missingChunks := by
  have hmissing : job.missing = manifest.missingChunks := by
    unfold missing
    rw [h.manifest_eq]
  have hidx := h.windows.asked_all hover
  have hcompleted := h.windows.idx_le
  have hsent := h.windows.completed_le
  have hstop := h.windows.sent_le
  have hlength := h.windows.stop_le
  have hasked : (FetchLedger.of trace).requested = manifest.missingChunks := by
    rw [h.windows.asked, List.take_of_length_le (by omega), hmissing]
  refine ⟨hasked, ?_, by rw [List.take_of_length_le hidx, hmissing]⟩
  rw [← hasked]
  exact h.chunks.all_arrived h.windows (by omega)

/-- When every task has counted its chunk, the sending end counted every missing chunk. -/
theorem Balanced.counted_all (h : Balanced fetcher manifest trace job) (hover : job.Over)
    (huncounted : job.uncounted = []) (habandoned : (FetchLedger.of trace).abandoned = []) :
    manifest.bytesOf (FetchLedger.of trace).counted = manifest.bytesOf manifest.missingChunks := by
  refine Nat.le_antisymm h.counted_le ?_
  rw [← Manifest.bytes_of_perm (h.ended hover).2.1]
  refine Manifest.bytes_of_subperm (List.subperm_ext_iff.mpr fun chunk _ => ?_)
  have hsent := h.chunks.sent chunk
  rw [habandoned, huncounted, List.count_nil] at hsent
  omega

end Runs

end FetchJob

/-- The directory a fetch works in: a pull looks for one with a part of the same file, a push takes
the one of its job id. -/
def FetchedBy.opens (fetcher : FetchedBy) (disk : Disk) (jobs : List Nat) (m : Manifest) (jobId : Nat)
    (first second : SaveOutcome) : Disk × Except EngineError PartWriter :=
  match fetcher with
  | .startPullParts => attempt disk jobs m jobId first second
  | .recvPushLargeFile => PartWriter.loadOrOpen disk jobId m first second

/-- The requests and the progress of a fetch into a directory that has the chunks `manifest` marks.
Of the progress that is shown, the receiving end's counts what it has of the file and the sending
end's what it has sent for this job. -/
structure ProgressAccounted (fetcher : FetchedBy) (manifest : Manifest) (trace : List FetchEvent)
    (job : FetchJob) : Prop where
  requested : (FetchLedger.of trace).requested <+: manifest.missingChunks
  once : (FetchLedger.of trace).requested.Nodup
  complete : (FetchLedger.of trace).finalised = true →
    (FetchLedger.of trace).requested = manifest.missingChunks
  starts : ∀ before chunk after, trace = before ++ .requested chunk :: after →
    (FetchLedger.of before).arrived = [] → (FetchLedger.of before).shown = manifest.alreadyBytes
  climbs : ∀ before, before <+: trace →
    (FetchLedger.of before).shown ≤ (FetchLedger.of trace).shown ∧
      (FetchLedger.of before).shownSent ≤ (FetchLedger.of trace).shownSent ∧
      (FetchLedger.of before).shownRemote ≤ (FetchLedger.of trace).shownRemote
  within : (FetchLedger.of trace).shown ≤ manifest.totalSize ∧
    (FetchLedger.of trace).shownSent + manifest.alreadyBytes ≤ manifest.totalSize ∧
    (FetchLedger.of trace).shownRemote ≤ job.remoteDone ∧
    job.remoteDone + manifest.alreadyBytes ≤ manifest.totalSize
  ends : (FetchLedger.of trace).finalised = true → (FetchLedger.of trace).dropped = [] →
    (FetchLedger.of trace).shown = manifest.totalSize
  sentEnds : (FetchLedger.of trace).finalised = true → job.uncounted = [] →
    (FetchLedger.of trace).abandoned = [] → (FetchLedger.of trace).sourceDropped = [] →
    (FetchLedger.of trace).shownSent + manifest.alreadyBytes = manifest.totalSize
  untold : fetcher = .startPullParts → job.remoteDone = 0
  told : fetcher = .recvPushLargeFile → (FetchLedger.of trace).sourceDone = true →
    (FetchLedger.of trace).progressLost = false → job.remoteDone = manifest.totalSize

section Accounted

variable {fetcher : FetchedBy} {disk next : Disk} {jobs : List Nat} {m manifest : Manifest}
  {jobId : Nat} {first second : SaveOutcome} {writer : PartWriter}

/-- What is taken up describes the whole file. -/
theorem opened_whole {fileName : String} {totalSize : Nat} {chunkHashes : List String}
    {peer shareId rel : Option String} (hanswer : chunkHashes.length = chunksNeeded totalSize)
    (hopen : fetcher.opens disk jobs
      (Manifest.fromMetaWithSource fileName totalSize chunkHashes peer shareId rel) jobId first second =
        (next, .ok writer)) :
    writer.manifest.received.length = writer.manifest.chunkCount ∧
      writer.manifest.chunkHashes.length = chunksNeeded writer.manifest.totalSize := by
  have htaken : ∃ job, writer.manifest = takenUp disk job
      (Manifest.fromMetaWithSource fileName totalSize chunkHashes peer shareId rel) := by
    cases fetcher with
    | startPullParts => exact ⟨_, (opened_of_load hopen).manifest⟩
    | recvPushLargeFile => exact ⟨_, (opened_of_load hopen).manifest⟩
  obtain ⟨job, htaken⟩ := htaken
  obtain ⟨hsize, hhashes⟩ := @taken_up_same_chunks disk job
    (Manifest.fromMetaWithSource fileName totalSize chunkHashes peer shareId rel)
  rw [htaken]
  constructor
  · unfold takenUp
    split
    · next existing hload =>
      split
      · exact Disk.bitmap_of_load hload
      · simp [Manifest.fromMetaWithSource, Manifest.chunkCount]
    · simp [Manifest.fromMetaWithSource, Manifest.chunkCount]
  · rw [hsize, hhashes]
    exact hanswer

/-- A pull takes up an unfinished directory of the same file if there is one. -/
theorem pull_takes_up (hopen : attempt disk jobs m jobId first second = (next, .ok writer))
    (hpending : ∃ old ∈ jobs, Pending disk m old) :
    ∃ old ∈ jobs, Pending disk m old ∧ disk.load old = some writer.manifest := by
  rcases choose_cases disk jobs m with ⟨old, hmem, hold, hchoose⟩ | ⟨hnone, -⟩
  · refine ⟨old, hmem, hold, ?_⟩
    obtain ⟨existing, hload, -, hresumes⟩ := hold
    unfold attempt at hopen
    rw [hchoose] at hopen
    rw [(opened_of_load hopen).manifest, taken_up_existing hload hresumes, hload]
  · obtain ⟨old, hmem, hold⟩ := hpending
    exact absurd hold (hnone old hmem)

end Accounted

/-- A fetch of a file, by a pull that may find a part of it, or by a push whose directory has
nothing of it: what is asked for and shown in any run adds up. A pull takes up an unfinished
directory of the same file if there is one. -/
theorem progress_accounted (fetcher : FetchedBy) (disk next : Disk) (jobs : List Nat)
    (fileName : String) (totalSize : Nat) (chunkHashes : List String)
    (peer shareId rel : Option String) (jobId : Nat) (first second : SaveOutcome)
    (writer : PartWriter) (inputs : List FetchInput) (trace : List FetchEvent) (job : FetchJob)
    (hanswer : chunkHashes.length = chunksNeeded totalSize)
    (hopen : fetcher.opens disk jobs
      (Manifest.fromMetaWithSource fileName totalSize chunkHashes peer shareId rel) jobId first second =
        (next, .ok writer))
    (hpush : fetcher = .recvPushLargeFile → writer.manifest.alreadyBytes = 0)
    (hexec : Exec FetchJob.step Guard.free (FetchJob.start fetcher writer.manifest) inputs trace job) :
    (fetcher = .startPullParts →
      (∃ old ∈ jobs, Pending disk
        (Manifest.fromMetaWithSource fileName totalSize chunkHashes peer shareId rel) old) →
      ∃ old ∈ jobs, Pending disk
          (Manifest.fromMetaWithSource fileName totalSize chunkHashes peer shareId rel) old ∧
        disk.load old = some writer.manifest) ∧
      ProgressAccounted fetcher writer.manifest trace job := by
  have hinv := FetchJob.balanced_run hexec
  obtain ⟨hbitmap, hwhole⟩ := opened_whole hanswer hopen
  have htotal := Manifest.already_add_missing hbitmap hwhole
  have harrived := hinv.arrived_le
  have hcounted := hinv.counted_le
  have hshown := hinv.windows.shown
  have hshownSent := hinv.chunks.shownSent
  have hfrom : job.resumedFrom = writer.manifest.alreadyBytes := by
    unfold FetchJob.resumedFrom
    rw [hinv.fetcher_eq, hinv.manifest_eq]
    cases fetcher with
    | startPullParts => rfl
    | recvPushLargeFile => exact (hpush rfl).symm
  have hresumed := hinv.windows.resumed_le
  rw [hinv.manifest_eq] at hshown hshownSent
  rw [hfrom] at hresumed
  have hremote : job.remoteDone ≤ writer.manifest.bytesOf (FetchLedger.of trace).arrived := by
    rw [← hinv.manifest_eq, ← hinv.chunks.cumulative]
    exact hinv.reported.below _ List.mem_cons_self
  refine ⟨fun hpull => ?_, ?_⟩
  · subst hpull
    exact pull_takes_up hopen
  · exact {
      requested := by
        rw [hinv.windows.asked, ← hinv.manifest_eq]
        exact List.take_prefix ..
      once := by
        rw [hinv.windows.asked]
        exact (List.take_sublist ..).nodup (Manifest.missing_nodup _)
      complete := fun hfinal => (hinv.ended (hinv.windows.finalised hfinal)).1
      starts := fun before chunk after hsplit hnone => by
        have hstart := FetchJob.starts_run hexec before _ after hsplit chunk rfl hnone
        rw [hstart]
        cases fetcher with
        | startPullParts => rfl
        | recvPushLargeFile => exact (hpush rfl).symm
      climbs := FetchJob.climbs_run hexec
      within := ⟨by omega, by omega, hinv.reported.sample, by omega⟩
      ends := fun hfinal hdropped => by
        have hover := hinv.windows.finalised hfinal
        have hbegun := hinv.windows.begun (.inr hover)
        have hall := Manifest.bytes_of_perm (m := writer.manifest) (hinv.ended hover).2.1
        rw [hdropped, Manifest.bytes_of_nil, hbegun, hfrom, hall] at hshown
        omega
      sentEnds := fun hfinal huncounted habandoned hdropped => by
        have hover := hinv.windows.finalised hfinal
        have hall := hinv.counted_all hover huncounted habandoned
        rw [hdropped, Manifest.bytes_of_nil] at hshownSent
        omega
      untold := fun hpull => (hinv.reported.pull (hinv.fetcher_eq.trans hpull)).1
      told := fun hfetcher hdone hlost => by
        obtain ⟨hempty, hover⟩ := hinv.reported.sourceDone hdone
        have hlast := hinv.reported.last (hinv.fetcher_eq.trans hfetcher) hlost
        rw [hempty, (hinv.ended hover).2.2, hinv.manifest_eq] at hlast
        have hnothing := hpush hfetcher
        have htold : job.remoteDone = _ := hlast
        omega }

/-- A file of two chunks of which the first was received. -/
def halfFetched : Manifest :=
  { Manifest.fromMeta "a" (chunkSize + 1024 * 1024) ["x", "y"] with received := [true, false] }

/-- The job directory 1 has it. -/
def halfDisk : Disk :=
  { Disk.empty with
    dirs := fun job =>
      if job = 1 then { manifest := .saved halfFetched, part := some 0 }
      else { manifest := .absent, part := none }
    nextFile := 1 }

/-- A pull is answered, takes what is missing, and is acknowledged. -/
def resumedPull : List FetchInput :=
  [.answer, .start, .resume, .window 1, .request, .handle true, .send 1, .count 1 true,
    .receive 1 true, .close, .finalise, .finish, .handle true]

/-- A push is answered and asks for its first chunk. -/
def retriedPush : List FetchInput := [.answer, .start, .resume, .window 0, .request]

/-- The pull takes up directory 1. -/
theorem half_taken_up :
    attempt halfDisk [1] (Manifest.fromMetaWithSource "a" (chunkSize + 1024 * 1024) ["x", "y"]
      none none none) 2 .done .done = (halfDisk, .ok ⟨1, 0, halfFetched⟩) := by
  have hchoose : chooseJobDir halfDisk [1] (Manifest.fromMetaWithSource "a"
      (chunkSize + 1024 * 1024) ["x", "y"] none none none) 2 = 1 := by decide +kernel
  unfold attempt
  rw [hchoose]
  rfl

/-- A pull finds the first of two chunks, and shows four of five megabytes before it asks. -/
theorem progress_accounted_half :
    ∃ trace job, (FetchLedger.of trace).finalised = true ∧
      ProgressAccounted .startPullParts halfFetched trace job := by
  obtain ⟨job, hexec⟩ := exec_of_run FetchJob.step Guard.free
    (FetchJob.start .startPullParts halfFetched) resumedPull (by decide +kernel)
  exact ⟨_, job, by decide +kernel,
    (progress_accounted .startPullParts halfDisk halfDisk [1] "a" (chunkSize + 1024 * 1024)
      ["x", "y"] none none none 2 .done .done ⟨1, 0, halfFetched⟩ resumedPull _ job
      (by decide +kernel) half_taken_up (by simp) hexec).2⟩

/-- What a retry would carry over if both ends counted what an earlier attempt left: only chunks
that it misses are asked for, and at the end both ends show the whole file. -/
def FetchedBy.CarriesOver (fetcher : FetchedBy) : Prop :=
  ∀ (disk next : Disk) (jobs : List Nat) (m existing : Manifest) (old jobId : Nat)
    (writer : PartWriter) (inputs : List FetchInput) (trace : List FetchEvent) (job : FetchJob),
    m.chunkHashes.length = chunksNeeded m.totalSize → jobs = [old] →
    disk.load old = some existing → PartWriter.resumes existing m = true →
    fetcher.opens disk jobs m jobId .done .done = (next, .ok writer) →
    Exec FetchJob.step Guard.free (FetchJob.start fetcher writer.manifest) inputs trace job →
    (∀ chunk ∈ (FetchLedger.of trace).requested, chunk ∈ existing.missingChunks) ∧
      ((FetchLedger.of trace).finalised = true → job.uncounted = [] →
        (FetchLedger.of trace).abandoned = [] → (FetchLedger.of trace).dropped = [] →
        (FetchLedger.of trace).sourceDropped = [] →
        (FetchLedger.of trace).shown = m.totalSize ∧ (FetchLedger.of trace).shownSent = m.totalSize)

/-- A pull that is resumed ends with less shown at the sending end; a push that is retried asks for
a chunk that is there. -/
theorem retry_not_carried_over :
    ¬ FetchedBy.CarriesOver .startPullParts ∧ ¬ FetchedBy.CarriesOver .recvPushLargeFile := by
  constructor
  · intro hclaim
    have hrun : (Machine.run FetchJob.step Guard.free [] (FetchJob.start .startPullParts halfFetched)
        resumedPull).map (fun result =>
          (result.1.uncounted ++ (FetchLedger.of result.2).abandoned ++
              ((FetchLedger.of result.2).dropped ++ (FetchLedger.of result.2).sourceDropped),
            (FetchLedger.of result.2).finalised, (FetchLedger.of result.2).shownSent)) =
        some ([], true, 1024 * 1024) := by decide +kernel
    obtain ⟨⟨job, trace⟩, hlast, hview⟩ := Option.map_eq_some_iff.mp hrun
    simp only [Prod.mk.injEq, List.append_eq_nil_iff] at hview
    obtain ⟨⟨⟨huncounted, habandoned⟩, hdropped, hsourceDropped⟩, hfinal, hsent⟩ := hview
    have hboth := (hclaim halfDisk halfDisk [1] (Manifest.fromMetaWithSource "a"
      (chunkSize + 1024 * 1024) ["x", "y"] none none none) halfFetched 1 2 ⟨1, 0, halfFetched⟩ _ _ _
      (by decide +kernel) rfl rfl (by decide +kernel) half_taken_up
      (Exec.start.append_run hlast)).2 hfinal huncounted habandoned hdropped hsourceDropped
    rw [hsent] at hboth
    exact absurd hboth.2 (by decide +kernel)
  · intro hclaim
    have hrun : (Machine.run FetchJob.step Guard.free [] (FetchJob.start .recvPushLargeFile
        (Manifest.fromMeta "a" (chunkSize + 1024 * 1024) ["x", "y"])) retriedPush).map (fun result =>
          (FetchLedger.of result.2).requested) = some [0] := by decide +kernel
    obtain ⟨⟨job, trace⟩, hlast, hview⟩ := Option.map_eq_some_iff.mp hrun
    have hasked := (hclaim halfDisk _ [1] (Manifest.fromMeta "a" (chunkSize + 1024 * 1024) ["x", "y"])
      halfFetched 1 2 _ _ _ _ (by decide +kernel) rfl rfl (by decide +kernel) rfl
      (Exec.start.append_run hlast)).1 0
    rw [hview] at hasked
    exact absurd (hasked List.mem_cons_self) (by decide +kernel)

end LocalTrans
