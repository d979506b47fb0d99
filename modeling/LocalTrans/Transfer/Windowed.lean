import LocalTrans.Transfer.Completion
import Mathlib.Data.List.Perm.Subperm

/-!
# Receiving a window of chunks

`run_receiver_windowed` asks for the chunks of a batch, a window of them at a time, and takes as
many streams as it has asked for; a task of its own receives each stream. Three counters say how
far it is. `windowed_receive` relates them to the chunks: what arrived in all is a run of
`runReceiver`, and every chunk of the batch is there exactly if no stream carried the chunk of
another.
-/

namespace LocalTrans

open Foundation

section Writing

variable (hash : List UInt8 → String)

/-- `Wrote hash disk writer chunks next marked`: these chunks were written one after the other. -/
inductive Wrote (disk : Disk) (writer : PartWriter) : List Nat → Disk → PartWriter → Prop where
  | start : Wrote disk writer [] disk writer
  | chunk {chunks : List Nat} {before next : Disk} {current marked : PartWriter} {i : Nat}
      {data : List UInt8} {outcome : PartWriter.WriteOutcome} :
      Wrote disk writer chunks before current →
      current.writeChunk hash before i data outcome = (next, marked, .ok ()) →
      Wrote disk writer (chunks ++ [i]) next marked

/-- A chunk is in a file, with the hash of the manifest. -/
def ChunkThere (m : Manifest) (content : List UInt8) (i : Nat) : Prop :=
  m.chunkHashes[i]? = some (hash (m.chunk content i)) ∧
    (m.chunkLen i ≠ 0 → m.chunkOffset i + m.chunkLen i ≤ content.length)

variable {hash} {disk next : Disk} {writer marked : PartWriter} {chunks batch : List Nat} {i : Nat}

/-- The file and the description of the chunks stay the same. -/
theorem Wrote.same (h : Wrote hash disk writer chunks next marked) :
    marked.file = writer.file ∧ marked.manifest.SameChunks writer.manifest ∧
      marked.manifest.received.length = writer.manifest.received.length := by
  induction h with
  | start => exact ⟨rfl, ⟨rfl, rfl⟩, rfl⟩
  | chunk _ hwrite ih =>
    obtain ⟨-, rfl, -⟩ := write_chunk_ok hwrite
    refine ⟨ih.1, ih.2.1, ?_⟩
    show (List.set _ _ _).length = _
    rw [List.length_set]
    exact ih.2.2

/-- What is marked afterwards was marked before or written. -/
theorem Wrote.marked_iff (h : Wrote hash disk writer chunks next marked) :
    marked.manifest.received[i]? = some true ↔
      writer.manifest.received[i]? = some true ∨
        i ∈ chunks ∧ i < writer.manifest.received.length := by
  induction h with
  | start => simp
  | @chunk chunks before next current marked j data outcome hbefore hwrite ih =>
    have hlength := hbefore.same.2.2
    obtain ⟨-, rfl, -⟩ := write_chunk_ok hwrite
    show (current.manifest.received.set j true)[i]? = some true ↔ _
    by_cases hij : j = i
    · subst hij
      rw [List.getElem?_set_self']
      constructor
      · intro hset
        cases hold : current.manifest.received[j]? with
        | none =>
          rw [hold] at hset
          cases hset
        | some bit =>
          obtain ⟨hlt, -⟩ := List.getElem?_eq_some_iff.mp hold
          exact .inr ⟨List.mem_append_right _ (List.mem_singleton_self j), by omega⟩
      · intro hwas
        have hlt : j < current.manifest.received.length := by
          rcases hwas with hwas | ⟨-, hlt⟩
          · obtain ⟨hlt, -⟩ := List.getElem?_eq_some_iff.mp hwas
            omega
          · omega
        rw [List.getElem?_eq_getElem hlt]
        rfl
    · rw [List.getElem?_set_ne hij, ih]
      have hne : i ∉ [j] := fun hmem => hij (List.mem_singleton.mp hmem).symm
      simp [List.mem_append, hne]

/-- A chunk that was written is there, whatever was written after it. -/
theorem Wrote.there (h : Wrote hash disk writer chunks next marked) (hi : i ∈ chunks) :
    ChunkThere hash marked.manifest (next.store marked.file) i := by
  induction h with
  | start => cases hi
  | @chunk chunks before next current marked j data outcome hbefore hwrite ih =>
    have hhash := write_chunk_hash hwrite
    obtain ⟨hlength, rfl, hstore, -⟩ := write_chunk_ok hwrite
    unfold ChunkThere
    rw [hstore]
    show current.manifest.chunkHashes[i]? =
        some (hash (current.manifest.chunk (writeAt 0 _ (current.manifest.chunkOffset j) data) i)) ∧
      (current.manifest.chunkLen i ≠ 0 → current.manifest.chunkOffset i +
        current.manifest.chunkLen i ≤ (writeAt 0 _ (current.manifest.chunkOffset j) data).length)
    by_cases hij : j = i
    · subst hij
      rw [Manifest.chunk_write_self hlength, hhash]
      refine ⟨rfl, fun hlen => ?_⟩
      have hdata : data ≠ [] := by
        rintro rfl
        exact hlen hlength.symm
      rw [length_writeAt hdata]
      omega
    · have hmem : i ∈ chunks := by
        rcases List.mem_append.mp hi with hmem | hmem
        · exact hmem
        · exact absurd (List.mem_singleton.mp hmem).symm hij
      obtain ⟨hold, hreach⟩ := ih hmem
      rw [Manifest.chunk_write_other hij (Nat.le_of_eq hlength) hreach]
      exact ⟨hold, fun hlen => Nat.le_trans (hreach hlen) le_length_writeAt⟩

end Writing

/-- A stream of a chunk as its task reads it: the header, or why it cannot be read, and the bytes
after it. -/
structure ChunkStream where
  header : Except EngineError ChunkStreamHeader
  data : List UInt8
deriving DecidableEq

/-- The chunk a stream says it carries. -/
def ChunkStream.chunk (stream : ChunkStream) : Nat :=
  match stream.header with
  | .ok header => header.chunk
  | .error _ => 0

/-- Whether `run_receiver_windowed` asks for more, waits for what happens next, or has returned. -/
inductive WindowPhase where
  | refilling
  | selecting
  | returned (result : Except EngineError Unit)
deriving DecidableEq

/-- `run_receiver_windowed`: its counters, the streams whose tasks run, the finished tasks that have
not been joined with what they returned, and the part writer the tasks share. -/
structure Windowed where
  sent : Nat
  accepted : Nat
  completed : Nat
  running : List ChunkStream
  finished : List (ChunkStream × Except EngineError Unit)
  disk : Disk
  writer : PartWriter
  phase : WindowPhase

/-- What can happen: the next request is sent, a stream is accepted, a task does its work, a task is
joined, or nothing has arrived for too long. -/
inductive WindowInput where
  | request (failure : Option String)
  | accept (stream : Except String ChunkStream)
  | work (stream : ChunkStream) (outcome : PartWriter.WriteOutcome)
  | join (entry : ChunkStream × Except EngineError Unit)
  | timeout

/-- A chunk is asked for, a stream is accepted, or a task that succeeded is joined. -/
inductive WindowEvent where
  | requested (chunk : Nat)
  | accepted (stream : ChunkStream)
  | joined (stream : ChunkStream)

namespace Windowed

variable (hash : List UInt8 → String) (job : Nat) (batch : List Nat) (window : Nat)

/-- A task: the header is checked, the bytes of the chunk are read, and the chunk is written. -/
def receiveStream (disk : Disk) (writer : PartWriter) (stream : ChunkStream)
    (outcome : PartWriter.WriteOutcome) : Disk × PartWriter × Except EngineError Unit :=
  match stream.header with
  | .error error => (disk, writer, .error error)
  | .ok header =>
    if header.jobId ≠ job ∨ header.chunk ∉ batch then
      (disk, writer, .error (.protocol "块流不匹配"))
    else
      let length := writer.manifest.chunkLen header.chunk
      if stream.data.length < length then (disk, writer, .error (.io "读块数据"))
      else writer.writeChunk hash disk header.chunk (stream.data.take length) outcome

/-- Where the loop goes after a refill: on asking, on waiting, or to its end. -/
def nextPhase (state : Windowed) : WindowPhase :=
  if state.sent < batch.length ∧ state.sent - state.completed < window then .refilling
  else if state.completed < batch.length then .selecting
  else .returned (.ok ())

/-- Go on with the loop. -/
def settle (state : Windowed) : Windowed :=
  { state with phase := nextPhase batch window state }

/-- Nothing has been asked for yet. -/
def start (disk : Disk) (writer : PartWriter) : Windowed :=
  settle batch window {
    sent := 0, accepted := 0, completed := 0, running := [], finished := [], disk := disk,
    writer := writer, phase := .refilling }

/-- One step of the function or of one of its tasks. When it has returned, the tasks are aborted. -/
def step : Machine Windowed WindowInput WindowEvent
  | state, .request failure =>
    match state.phase, batch[state.sent]? with
    | .refilling, some chunk =>
      match failure with
      | some text =>
        some ({ state with phase := .returned (.error (.rpc ("发送 FetchReq 失败: " ++ text))) }, [])
      | none => some (settle batch window { state with sent := state.sent + 1 }, [.requested chunk])
    | _, _ => none
  | state, .accept stream =>
    if state.phase = .selecting ∧ state.accepted < state.sent then
      match stream with
      | .error text =>
        some ({ state with
          accepted := state.accepted + 1
          phase := .returned (.error (.io ("accept_uni: " ++ text))) }, [])
      | .ok stream =>
        some ({ state with
          accepted := state.accepted + 1
          running := state.running ++ [stream] }, [.accepted stream])
    else none
  | state, .work stream outcome =>
    if (state.phase = .refilling ∨ state.phase = .selecting) ∧ stream ∈ state.running then
      let (disk, writer, result) :=
        receiveStream hash job batch state.disk state.writer stream outcome
      some ({ state with
        disk, writer
        running := state.running.erase stream
        finished := state.finished ++ [(stream, result)] }, [])
    else none
  | state, .join (stream, result) =>
    if state.phase = .selecting ∧ (stream, result) ∈ state.finished then
      let joined : Windowed := { state with
        completed := state.completed + 1
        finished := state.finished.erase (stream, result) }
      match result with
      | .error error => some ({ joined with phase := .returned (.error error) }, [])
      | .ok _ => some (settle batch window joined, [.joined stream])
    else none
  | state, .timeout =>
    if state.phase = .selecting then
      some ({ state with phase := .returned (.error .timeout) }, [])
    else none

/-- The chunks that were asked for. -/
def requestedChunks (trace : List WindowEvent) : List Nat :=
  trace.filterMap fun event => match event with
    | .requested chunk => some chunk
    | _ => none

/-- The streams that were accepted. -/
def acceptedStreams (trace : List WindowEvent) : List ChunkStream :=
  trace.filterMap fun event => match event with
    | .accepted stream => some stream
    | _ => none

/-- The streams whose tasks succeeded and were joined. -/
def joinedStreams (trace : List WindowEvent) : List ChunkStream :=
  trace.filterMap fun event => match event with
    | .joined stream => some stream
    | _ => none

@[simp] theorem requested_append (before after : List WindowEvent) :
    requestedChunks (before ++ after) = requestedChunks before ++ requestedChunks after :=
  List.filterMap_append

@[simp] theorem accepted_append (before after : List WindowEvent) :
    acceptedStreams (before ++ after) = acceptedStreams before ++ acceptedStreams after :=
  List.filterMap_append

@[simp] theorem joined_append (before after : List WindowEvent) :
    joinedStreams (before ++ after) = joinedStreams before ++ joinedStreams after :=
  List.filterMap_append

/-- Whether a stream carries a chunk of the batch of this job. -/
def belongs (stream : ChunkStream) : Bool :=
  match stream.header with
  | .ok header => header.jobId == job && batch.contains header.chunk
  | .error _ => false

section Tasks

variable {hash job batch window} {disk next : Disk} {writer marked : PartWriter}
  {stream : ChunkStream} {outcome : PartWriter.WriteOutcome} {state : Windowed}

/-- A chunk that belongs to the batch is in it. -/
theorem chunk_of_belongs (h : belongs job batch stream = true) : stream.chunk ∈ batch := by
  unfold belongs at h
  unfold ChunkStream.chunk
  split at h
  · rw [Bool.and_eq_true] at h
    exact List.contains_iff_mem.mp h.2
  · cases h

/-- A task that succeeds has written the chunk of its stream, which belongs to the batch. -/
theorem receive_ok
    (h : receiveStream hash job batch disk writer stream outcome = (next, marked, .ok ())) :
    belongs job batch stream = true ∧ ∃ data,
      writer.writeChunk hash disk stream.chunk data outcome = (next, marked, .ok ()) := by
  unfold receiveStream at h
  split at h
  · cases h
  · next header hheader =>
    split at h
    · cases h
    · next hmatch =>
      rw [not_or, not_not, not_not] at hmatch
      dsimp only at h
      split at h
      · cases h
      · unfold belongs ChunkStream.chunk
        rw [hheader]
        dsimp only
        rw [Bool.and_eq_true, beq_iff_eq, List.contains_iff_mem]
        exact ⟨hmatch, _, h⟩

/-- The loop only asks while the window has room. -/
theorem next_phase_refilling (h : nextPhase batch window state = .refilling) :
    state.sent < batch.length ∧ state.sent - state.completed < window := by
  unfold nextPhase at h
  split at h
  · assumption
  · split at h
    · cases h
    · cases h

/-- It ends well only when as many tasks were joined as there are chunks. -/
theorem next_phase_returned {result : Except EngineError Unit}
    (h : nextPhase batch window state = .returned result) :
    result = .ok () ∧ batch.length ≤ state.completed := by
  unfold nextPhase at h
  split at h
  · cases h
  · split at h
    · cases h
    · next hdone =>
      cases h
      exact ⟨rfl, Nat.le_of_not_lt hdone⟩

end Tasks

/-- What holds of the requests and the joined streams in every state. -/
structure Sends (trace : List WindowEvent) (state : Windowed) : Prop where
  requests : requestedChunks trace = batch.take state.sent
  sent_le : state.sent ≤ batch.length
  ahead : state.sent ≤ (joinedStreams trace).length + window
  rest : ∃ rest, (acceptedStreams trace).Perm (joinedStreams trace ++ rest)
  belong : ∀ stream ∈ joinedStreams trace, belongs job batch stream = true

/-- What the counters count, and what was written, until an error is returned. -/
structure Counts (disk : Disk) (writer : PartWriter) (trace : List WindowEvent) (state : Windowed) :
    Prop where
  accepted : state.accepted = (acceptedStreams trace).length
  accepted_le : state.accepted ≤ state.sent
  completed : state.completed = (joinedStreams trace).length
  streams : (acceptedStreams trace).Perm
    (joinedStreams trace ++ (state.finished.map Prod.fst ++ state.running))
  succeeded : ∀ entry ∈ state.finished, entry.2 = .ok () → belongs job batch entry.1 = true
  written : (∀ entry ∈ state.finished, entry.2 = .ok ()) →
    ∃ chunks, Wrote hash disk writer chunks state.disk state.writer ∧
      chunks.Perm ((joinedStreams trace ++ state.finished.map Prod.fst).map ChunkStream.chunk)
  refill : state.phase = .refilling →
    state.sent < batch.length ∧ state.sent - state.completed < window
  returned : state.phase = .returned (.ok ()) → batch.length ≤ state.completed

/-- The function has not returned an error. -/
def Alive (state : Windowed) : Prop :=
  ∀ error, state.phase ≠ .returned (.error error)

/-- The invariant of the loop. -/
structure Tracks (disk : Disk) (writer : PartWriter) (trace : List WindowEvent) (state : Windowed) :
    Prop where
  sends : Sends job batch window trace state
  counts : state.Alive → Counts hash job batch window disk writer trace state

section Steps

variable {hash job batch window} {disk : Disk} {writer : PartWriter} {trace : List WindowEvent}
  {state next : Windowed} {input : WindowInput} {emitted : List WindowEvent}

/-- More tasks were joined than streams accepted never. -/
theorem Counts.completed_le (h : Counts hash job batch window disk writer trace state) :
    state.completed ≤ state.accepted := by
  have hlength := h.streams.length_eq
  rw [List.length_append, ← h.completed, ← h.accepted] at hlength
  omega

theorem start_tracks : Tracks hash job batch window disk writer [] (start batch window disk writer) where
  sends :=
    { requests := rfl
      sent_le := Nat.zero_le _
      ahead := Nat.zero_le _
      rest := ⟨[], List.Perm.refl _⟩
      belong := fun stream hmem => by cases hmem }
  counts _ :=
    { accepted := rfl
      accepted_le := Nat.le_refl _
      completed := rfl
      streams := List.Perm.refl _
      succeeded := fun entry hmem => by cases hmem
      written := fun _ => ⟨[], .start, List.Perm.refl _⟩
      refill := fun hphase => next_phase_refilling hphase
      returned := fun hphase => (next_phase_returned hphase).2 }

/-- An error is returned, and nothing is emitted. -/
theorem Tracks.fail {error : EngineError} (h : Tracks hash job batch window disk writer trace state)
    (hsent : next.sent = state.sent) (hphase : next.phase = .returned (.error error)) :
    Tracks hash job batch window disk writer (trace ++ []) next where
  sends :=
    { requests := by rw [List.append_nil, h.sends.requests, hsent]
      sent_le := by rw [hsent]; exact h.sends.sent_le
      ahead := by rw [List.append_nil, hsent]; exact h.sends.ahead
      rest := by rw [List.append_nil]; exact h.sends.rest
      belong := by rw [List.append_nil]; exact h.sends.belong }
  counts halive := absurd hphase (halive error)

/-- A request is sent. -/
theorem Tracks.request {chunk : Nat} (h : Tracks hash job batch window disk writer trace state)
    (hphase : state.phase = .refilling) (hchunk : batch[state.sent]? = some chunk) :
    Tracks hash job batch window disk writer (trace ++ [.requested chunk])
      (settle batch window { state with sent := state.sent + 1 }) := by
  have halive : state.Alive := fun error herror => by
    rw [hphase] at herror
    cases herror
  have hcounts := h.counts halive
  obtain ⟨hless, hroom⟩ := hcounts.refill hphase
  have hcompleted := hcounts.completed_le
  have haccepted := hcounts.accepted_le
  have hjoined : joinedStreams (trace ++ [.requested chunk]) = joinedStreams trace := by
    rw [joined_append]
    exact List.append_nil _
  have hstreams : acceptedStreams (trace ++ [.requested chunk]) = acceptedStreams trace := by
    rw [accepted_append]
    exact List.append_nil _
  refine ⟨⟨?_, hless, ?_, ?_, ?_⟩, fun _ => ⟨?_, ?_, ?_, ?_, hcounts.succeeded, ?_, ?_, ?_⟩⟩
  · show _ = batch.take (state.sent + 1)
    rw [requested_append, h.sends.requests, List.take_add_one, hchunk]
    rfl
  · show state.sent + 1 ≤ _
    rw [hjoined, ← hcounts.completed]
    omega
  · rw [hjoined, hstreams]
    exact h.sends.rest
  · rw [hjoined]
    exact h.sends.belong
  · rw [hstreams]
    exact hcounts.accepted
  · exact Nat.le_succ_of_le haccepted
  · rw [hjoined]
    exact hcounts.completed
  · rw [hjoined, hstreams]
    exact hcounts.streams
  · rw [hjoined]
    exact hcounts.written
  · exact fun hphase => next_phase_refilling hphase
  · exact fun hphase => (next_phase_returned hphase).2

/-- A stream is accepted. -/
theorem Tracks.accept {stream : ChunkStream} (h : Tracks hash job batch window disk writer trace state)
    (hphase : state.phase = .selecting) (hless : state.accepted < state.sent) :
    Tracks hash job batch window disk writer (trace ++ [.accepted stream])
      { state with accepted := state.accepted + 1, running := state.running ++ [stream] } := by
  have halive : state.Alive := fun error herror => by
    rw [hphase] at herror
    cases herror
  have hcounts := h.counts halive
  have hjoined : joinedStreams (trace ++ [.accepted stream]) = joinedStreams trace := by
    rw [joined_append]
    exact List.append_nil _
  have hstreams : acceptedStreams (trace ++ [.accepted stream]) =
      acceptedStreams trace ++ [stream] := accepted_append _ _
  have hrequests : requestedChunks (trace ++ [.accepted stream]) = requestedChunks trace := by
    rw [requested_append]
    exact List.append_nil _
  obtain ⟨rest, hrest⟩ := h.sends.rest
  refine ⟨⟨?_, h.sends.sent_le, ?_, ⟨rest ++ [stream], ?_⟩, ?_⟩,
    fun _ => ⟨?_, hless, ?_, ?_, hcounts.succeeded, ?_, ?_, ?_⟩⟩
  · rw [hrequests]
    exact h.sends.requests
  · rw [hjoined]
    exact h.sends.ahead
  · rw [hjoined, hstreams, ← List.append_assoc]
    exact hrest.append_right _
  · rw [hjoined]
    exact h.sends.belong
  · rw [hstreams, List.length_append, ← hcounts.accepted]
    rfl
  · rw [hjoined]
    exact hcounts.completed
  · rw [hjoined, hstreams]
    have hmore := hcounts.streams.append_right [stream]
    simpa only [List.append_assoc] using hmore
  · rw [hjoined]
    exact hcounts.written
  · exact fun hrefill => by
      have hsame : state.phase = .refilling := hrefill
      rw [hphase] at hsame
      cases hsame
  · exact fun hreturned => by
      have hsame : state.phase = .returned (.ok ()) := hreturned
      rw [hphase] at hsame
      cases hsame

/-- A task does its work. -/
theorem Tracks.work {stream : ChunkStream} {outcome : PartWriter.WriteOutcome}
    {result : Disk × PartWriter × Except EngineError Unit}
    (h : Tracks hash job batch window disk writer trace state)
    (hphase : state.phase = .refilling ∨ state.phase = .selecting) (hmem : stream ∈ state.running)
    (hresult : receiveStream hash job batch state.disk state.writer stream outcome = result) :
    Tracks hash job batch window disk writer (trace ++ [])
      { state with
        disk := result.1, writer := result.2.1, running := state.running.erase stream
        finished := state.finished ++ [(stream, result.2.2)] } := by
  have halive : state.Alive := fun error herror => by
    rcases hphase with hphase | hphase
    · rw [hphase] at herror
      cases herror
    · rw [hphase] at herror
      cases herror
  have hcounts := h.counts halive
  have hreceived (hok : result.2.2 = .ok ()) :
      receiveStream hash job batch state.disk state.writer stream outcome =
        (result.1, result.2.1, .ok ()) := by
    rw [hresult]
    exact Prod.ext rfl (Prod.ext rfl hok)
  rw [List.append_nil]
  refine ⟨⟨h.sends.requests, h.sends.sent_le, h.sends.ahead, h.sends.rest, h.sends.belong⟩,
    fun _ => ⟨hcounts.accepted, hcounts.accepted_le, hcounts.completed, ?_, ?_, ?_, hcounts.refill,
      hcounts.returned⟩⟩
  · -- the stream moves from the running to the finished tasks
    refine hcounts.streams.trans (List.Perm.append_left _ ?_)
    show (state.finished.map Prod.fst ++ state.running).Perm
      ((state.finished ++ [(stream, result.2.2)]).map Prod.fst ++ state.running.erase stream)
    rw [List.map_append, List.append_assoc]
    exact List.Perm.append_left _ (List.perm_cons_erase hmem)
  · intro entry hentry hok
    rcases List.mem_append.mp hentry with hentry | hentry
    · exact hcounts.succeeded entry hentry hok
    · cases List.mem_singleton.mp hentry
      exact (receive_ok (hreceived hok)).1
  · intro hall
    obtain ⟨chunks, hwrote, hperm⟩ := hcounts.written fun entry hentry =>
      hall entry (List.mem_append_left _ hentry)
    have hok : result.2.2 = .ok () :=
      hall (stream, result.2.2) (List.mem_append_right _ (List.mem_singleton_self _))
    obtain ⟨-, data, hwrite⟩ := receive_ok (hreceived hok)
    refine ⟨chunks ++ [stream.chunk], hwrote.chunk hwrite, ?_⟩
    have hmore := hperm.append_right [stream.chunk]
    simpa [List.map_append, List.append_assoc] using hmore

/-- A task that succeeded is joined. -/
theorem Tracks.join {stream : ChunkStream} (h : Tracks hash job batch window disk writer trace state)
    (hphase : state.phase = .selecting) (hmem : (stream, .ok ()) ∈ state.finished) :
    Tracks hash job batch window disk writer (trace ++ [.joined stream])
      (settle batch window { state with
        completed := state.completed + 1
        finished := state.finished.erase (stream, .ok ()) }) := by
  have halive : state.Alive := fun error herror => by
    rw [hphase] at herror
    cases herror
  have hcounts := h.counts halive
  have hjoined : joinedStreams (trace ++ [.joined stream]) = joinedStreams trace ++ [stream] :=
    joined_append _ _
  have hstreams : acceptedStreams (trace ++ [.joined stream]) = acceptedStreams trace := by
    rw [accepted_append]
    exact List.append_nil _
  have hrequests : requestedChunks (trace ++ [.joined stream]) = requestedChunks trace := by
    rw [requested_append]
    exact List.append_nil _
  have herased : (state.finished.map Prod.fst).Perm
      (stream :: (state.finished.erase (stream, .ok ())).map Prod.fst) :=
    (List.perm_cons_erase hmem).map Prod.fst
  have hmoved : (joinedStreams trace ++ state.finished.map Prod.fst).Perm
      (joinedStreams trace ++ [stream] ++
        (state.finished.erase (stream, .ok ())).map Prod.fst) := by
    rw [List.append_assoc]
    exact List.Perm.append_left _ herased
  have htasks : (acceptedStreams trace).Perm (joinedStreams trace ++ [stream] ++
      ((state.finished.erase (stream, .ok ())).map Prod.fst ++ state.running)) := by
    refine hcounts.streams.trans ?_
    rw [← List.append_assoc, ← List.append_assoc]
    exact hmoved.append_right _
  refine ⟨⟨?_, h.sends.sent_le, ?_,
      ⟨(state.finished.erase (stream, .ok ())).map Prod.fst ++ state.running, ?_⟩, ?_⟩,
    fun _ => ⟨?_, hcounts.accepted_le, ?_, ?_, ?_, ?_, fun hphase => next_phase_refilling hphase,
      fun hphase => (next_phase_returned hphase).2⟩⟩
  · rw [hrequests]
    exact h.sends.requests
  · rw [hjoined, List.length_append]
    exact Nat.le_trans h.sends.ahead (by omega)
  · rw [hjoined, hstreams]
    exact htasks
  · intro other hother
    rw [hjoined] at hother
    rcases List.mem_append.mp hother with hother | hother
    · exact h.sends.belong other hother
    · rw [List.mem_singleton.mp hother]
      exact hcounts.succeeded _ hmem rfl
  · rw [hstreams]
    exact hcounts.accepted
  · show state.completed + 1 = _
    rw [hjoined, List.length_append, hcounts.completed]
    rfl
  · rw [hjoined, hstreams]
    exact htasks
  · exact fun entry hentry hok => hcounts.succeeded entry (List.mem_of_mem_erase hentry) hok
  · intro hall
    obtain ⟨chunks, hwrote, hperm⟩ := hcounts.written fun entry hentry => by
      by_cases hsame : entry = (stream, .ok ())
      · rw [hsame]
      · exact hall entry ((List.mem_erase_of_ne hsame).mpr hentry)
    refine ⟨chunks, hwrote, hperm.trans ?_⟩
    rw [hjoined]
    exact hmoved.map ChunkStream.chunk

/-- Every step keeps the invariant. -/
theorem Tracks.step (h : Tracks hash job batch window disk writer trace state)
    (hnext : Windowed.step hash job batch window state input = some (next, emitted)) :
    Tracks hash job batch window disk writer (trace ++ emitted) next := by
  cases input with simp only [Windowed.step] at hnext
  | request failure =>
    split at hnext
    · next chunk hphase hchunk =>
      cases failure with
      | some text =>
        cases hnext
        exact h.fail rfl rfl
      | none =>
        cases hnext
        exact h.request hphase hchunk
    · cases hnext
  | accept stream =>
    obtain ⟨hready, hnext⟩ := of_when hnext
    cases stream with
    | error text =>
      cases hnext
      exact h.fail rfl rfl
    | ok stream =>
      cases hnext
      exact h.accept hready.1 hready.2
  | work stream outcome =>
    obtain ⟨hready, hnext⟩ := of_when hnext
    cases hnext
    exact h.work hready.1 hready.2 rfl
  | join entry =>
    obtain ⟨stream, result⟩ := entry
    simp only [Windowed.step] at hnext
    obtain ⟨hready, hnext⟩ := of_when hnext
    cases result with
    | error error =>
      cases hnext
      exact h.fail rfl rfl
    | ok _ =>
      cases hnext
      exact h.join hready.1 hready.2
  | timeout =>
    obtain ⟨-, hnext⟩ := of_when hnext
    cases hnext
    exact h.fail rfl rfl

/-- It holds in every run. -/
theorem tracks_run {guard : Guard Windowed WindowInput WindowEvent} {inputs : List WindowInput}
    (hexec : Exec (Windowed.step hash job batch window) guard (start batch window disk writer)
      inputs trace state) : Tracks hash job batch window disk writer trace state := by
  induction hexec with
  | start => exact start_tracks
  | step _ _ hnext ih => exact ih.step hnext

end Steps

section Runs

variable {hash job batch window} {disk : Disk} {writer : PartWriter} {trace : List WindowEvent}
  {state : Windowed}

/-- When the function returns well, every stream that was accepted has been joined and belongs to
the batch, and their chunks have been written, as many as the batch has. -/
theorem Tracks.ended (h : Tracks hash job batch window disk writer trace state)
    (hphase : state.phase = .returned (.ok ())) :
    (∀ stream ∈ acceptedStreams trace, belongs job batch stream = true) ∧
      ∃ chunks, Wrote hash disk writer chunks state.disk state.writer ∧
        chunks.Perm ((acceptedStreams trace).map ChunkStream.chunk) ∧
        chunks.length = batch.length := by
  have hcounts := h.counts fun error herror => by
    rw [hphase] at herror
    cases herror
  have hdone := hcounts.returned hphase
  have hsent := h.sends.sent_le
  have haccepted := hcounts.accepted_le
  have hcompleted := hcounts.completed_le
  have hlength := hcounts.streams.length_eq
  rw [List.length_append, List.length_append, ← hcounts.accepted, ← hcounts.completed,
    List.length_map] at hlength
  have hfinished : state.finished = [] := List.eq_nil_of_length_eq_zero (by omega)
  have hrunning : state.running = [] := List.eq_nil_of_length_eq_zero (by omega)
  have hstreams := hcounts.streams
  rw [hfinished, hrunning, List.map_nil, List.append_nil, List.append_nil] at hstreams
  obtain ⟨chunks, hwrote, hperm⟩ := hcounts.written (by rw [hfinished]; simp)
  rw [hfinished, List.map_nil, List.append_nil] at hperm
  refine ⟨fun stream hmem => h.sends.belong stream (hstreams.subset hmem), chunks, hwrote,
    hperm.trans (hstreams.map _).symm, ?_⟩
  rw [hperm.length_eq, List.length_map, ← hcounts.completed]
  omega

/-- A list of chunks of a batch that is as long as the batch has all of them exactly if it has none
twice. -/
theorem covers_iff_nodup {chunks : List Nat} (hbatch : batch.Nodup)
    (hsubset : ∀ i ∈ chunks, i ∈ batch) (hlength : chunks.length = batch.length) :
    (∀ i ∈ batch, i ∈ chunks) ↔ chunks.Nodup := by
  constructor
  · intro hall
    have hperm : batch.Perm chunks :=
      (hbatch.subperm hall).perm_of_length_le (Nat.le_of_eq hlength)
    exact hperm.nodup hbatch
  · intro hnodup
    have hperm : chunks.Perm batch :=
      (hnodup.subperm hsubset).perm_of_length_le (Nat.le_of_eq hlength.symm)
    exact fun i hi => hperm.symm.subset hi

/-- A chunk is marked in the manifest, and its bytes in the file have the hash. -/
def Received (hash : List UInt8 → String) (state : Windowed) (i : Nat) : Prop :=
  state.writer.manifest.received[i]? = some true ∧
    ChunkThere hash state.writer.manifest (state.disk.store state.writer.file) i

/-- What holds when it returns well: no stream was of another batch, and every chunk was received
exactly if no two streams carried the same one. -/
theorem Tracks.returned_iff (h : Tracks hash job batch window disk writer trace state)
    (hbatch : batch.Nodup) (hmissing : ∀ i ∈ batch, i ∈ writer.manifest.missingChunks)
    (hphase : state.phase = .returned (.ok ())) :
    (∀ stream ∈ acceptedStreams trace, belongs job batch stream = true) ∧
      ((∀ i ∈ batch, Received hash state i) ↔
        ((acceptedStreams trace).map ChunkStream.chunk).Nodup) := by
  obtain ⟨hbelong, chunks, hwrote, hperm, hlength⟩ := h.ended hphase
  refine ⟨hbelong, ?_⟩
  have hsubset : ∀ i ∈ chunks, i ∈ batch := fun i hi => by
    obtain ⟨stream, hstream, rfl⟩ := List.mem_map.mp (hperm.subset hi)
    exact chunk_of_belongs (hbelong stream hstream)
  have hfalse (i : Nat) (hi : i ∈ batch) : writer.manifest.received[i]? = some false :=
    Manifest.mem_missing_chunks_iff.mp (hmissing i hi)
  rw [← hperm.nodup_iff, ← covers_iff_nodup hbatch hsubset hlength]
  constructor
  · intro hall i hi
    -- the chunk was missing before, so one of the writes marked it
    rcases hwrote.marked_iff.mp (hall i hi).1 with hbefore | ⟨hmem, -⟩
    · rw [hfalse i hi] at hbefore
      cases hbefore
    · exact hmem
  · intro hall i hi
    obtain ⟨hlt, -⟩ := List.getElem?_eq_some_iff.mp (hfalse i hi)
    exact ⟨hwrote.marked_iff.mpr (.inr ⟨hall i hi, hlt⟩), hwrote.there (hall i hi)⟩

end Runs

/-- The chunks of the batch that streams carried. -/
def carried (trace : List WindowEvent) : List Nat :=
  ((acceptedStreams trace).filter (belongs job batch)).map ChunkStream.chunk

/-- The chunks that were asked for and whose tasks have not been joined. -/
def outstanding (trace : List WindowEvent) : List Nat :=
  (requestedChunks trace).filter (· ∉ (joinedStreams trace).map ChunkStream.chunk)

/-- A stream of the batch carries a chunk that has been asked for and that no stream carried. -/
def Fresh (trace : List WindowEvent) (stream : ChunkStream) : Prop :=
  belongs job batch stream = true →
    stream.chunk ∈ requestedChunks trace ∧ stream.chunk ∉ carried job batch trace
deriving Decidable

/-- The stream that arrives. -/
def arriving : WindowInput → Option ChunkStream
  | .accept (.ok stream) => some stream
  | _ => none

/-- Every stream that arrives is fresh. -/
def freshGuard : Guard Windowed WindowInput WindowEvent :=
  fun trace _ input => ∀ stream ∈ arriving input, Fresh job batch trace stream
deriving Decidable

section Guarded

variable {hash job batch window} {disk : Disk} {writer : PartWriter} {trace : List WindowEvent}
  {state next : Windowed} {input : WindowInput} {inputs : List WindowInput}
  {emitted : List WindowEvent}

@[simp] theorem carried_append (before after : List WindowEvent) :
    carried job batch (before ++ after) = carried job batch before ++ carried job batch after := by
  unfold carried
  rw [accepted_append, List.filter_append, List.map_append]

/-- A step that emits something other than an accepted stream. -/
theorem emitted_cases
    (hnext : Windowed.step hash job batch window state input = some (next, emitted)) :
    acceptedStreams emitted = [] ∨
      ∃ stream, arriving input = some stream ∧ emitted = [.accepted stream] := by
  cases input with simp only [Windowed.step] at hnext
  | request failure =>
    split at hnext
    · cases failure with
      | some text => cases hnext; exact .inl rfl
      | none => cases hnext; exact .inl rfl
    · cases hnext
  | accept stream =>
    obtain ⟨-, hnext⟩ := of_when hnext
    cases stream with
    | error text => cases hnext; exact .inl rfl
    | ok stream => cases hnext; exact .inr ⟨stream, rfl, rfl⟩
  | work stream outcome =>
    obtain ⟨-, hnext⟩ := of_when hnext
    cases hnext; exact .inl rfl
  | join entry =>
    obtain ⟨stream, result⟩ := entry
    simp only [Windowed.step] at hnext
    obtain ⟨-, hnext⟩ := of_when hnext
    cases result with
    | error error => cases hnext; exact .inl rfl
    | ok _ => cases hnext; exact .inl rfl
  | timeout =>
    obtain ⟨-, hnext⟩ := of_when hnext
    cases hnext; exact .inl rfl

/-- Where every stream is fresh, the streams of the batch carry chunks that were asked for, each
once. -/
theorem carried_nodup
    (hexec : Exec (Windowed.step hash job batch window) (freshGuard job batch)
      (start batch window disk writer) inputs trace state) :
    (carried job batch trace).Nodup ∧ carried job batch trace ⊆ requestedChunks trace := by
  induction hexec with
  | start => exact ⟨List.nodup_nil, List.nil_subset _⟩
  | @step inputs trace state next input emitted _ hguard hnext ih =>
    obtain ⟨hnodup, hsubset⟩ := ih
    rw [carried_append, requested_append]
    rcases emitted_cases hnext with hnone | ⟨stream, harriving, rfl⟩
    · have hcarried : carried job batch emitted = [] := by
        unfold carried
        rw [hnone]
        rfl
      rw [hcarried, List.append_nil]
      exact ⟨hnodup, fun i hi => List.mem_append_left _ (hsubset hi)⟩
    · have hfresh := hguard stream harriving
      have hone : carried job batch [.accepted stream] =
          ([stream].filter (belongs job batch)).map ChunkStream.chunk := rfl
      rw [hone]
      by_cases hbelongs : belongs job batch stream = true
      · obtain ⟨hrequested, hnew⟩ := hfresh hbelongs
        rw [List.filter_cons_of_pos hbelongs]
        refine ⟨List.nodup_append.mpr ⟨hnodup, List.pairwise_singleton _ _, ?_⟩, ?_⟩
        · rintro i hi j hj rfl
          rw [List.mem_singleton.mp hj] at hi
          exact hnew hi
        · intro i hi
          rcases List.mem_append.mp hi with hi | hi
          · exact List.mem_append_left _ (hsubset hi)
          · rw [List.mem_singleton.mp hi]
            exact List.mem_append_left _ hrequested
      · rw [List.filter_cons_of_neg hbelongs]
        exact ⟨by simpa using hnodup, fun i hi => List.mem_append_left _ (hsubset (by simpa using hi))⟩

/-- The window bounds what is outstanding. -/
theorem outstanding_le (hbatch : batch.Nodup) (hsends : Sends job batch window trace state)
    (hnodup : (carried job batch trace).Nodup)
    (hsubset : carried job batch trace ⊆ requestedChunks trace) :
    (outstanding trace).length ≤ window := by
  obtain ⟨rest, hrest⟩ := hsends.rest
  have hjoined : ((joinedStreams trace).filter (belongs job batch)) = joinedStreams trace :=
    List.filter_eq_self.mpr hsends.belong
  have hcarried : (carried job batch trace).Perm ((joinedStreams trace).map ChunkStream.chunk ++
      (rest.filter (belongs job batch)).map ChunkStream.chunk) := by
    have hperm := (hrest.filter (belongs job batch)).map ChunkStream.chunk
    rw [List.filter_append, hjoined, List.map_append] at hperm
    exact hperm
  have hdone : ((joinedStreams trace).map ChunkStream.chunk).Nodup :=
    (List.nodup_append.mp (hcarried.nodup hnodup)).1
  have hasked : (joinedStreams trace).map ChunkStream.chunk ⊆ requestedChunks trace :=
    fun i hi => hsubset (hcarried.symm.subset (List.mem_append_left _ hi))
  have hrequests : (requestedChunks trace).Nodup := by
    rw [hsends.requests]
    exact hbatch.sublist (List.take_sublist _ _)
  have hlength : (requestedChunks trace).length = state.sent := by
    rw [hsends.requests, List.length_take, Nat.min_eq_left hsends.sent_le]
  -- the chunks that were asked for are the joined ones and the outstanding ones
  have hsplit : (joinedStreams trace).length + (outstanding trace).length =
      (requestedChunks trace).length := by
    have hboth : ((requestedChunks trace).filter
        (· ∈ (joinedStreams trace).map ChunkStream.chunk)).Perm
          ((joinedStreams trace).map ChunkStream.chunk) := by
      rw [List.perm_ext_iff_of_nodup (hrequests.filter _) hdone]
      intro i
      rw [List.mem_filter, decide_eq_true_iff]
      exact ⟨And.right, fun hi => ⟨hasked hi, hi⟩⟩
    have hcount := List.length_eq_length_filter_add (l := requestedChunks trace)
      (· ∈ (joinedStreams trace).map ChunkStream.chunk)
    rw [hboth.length_eq, List.length_map] at hcount
    rw [hcount]
    unfold outstanding
    simp only [decide_not]
  have hahead := hsends.ahead
  omega

end Guarded

/-- `run_receiver_windowed` on a batch of distinct missing chunks. When it returns well, no stream it
accepted was of another job or outside the batch, and every chunk was received exactly if no two
streams carried the same one. Where every stream of the batch carries a chunk that has been asked for
and that no stream carried before, the window bounds the chunks that are outstanding, and every chunk
of the batch was received when it returns well. -/
theorem windowed_receive (disk : Disk) (writer : PartWriter) (hbatch : batch.Nodup)
    (hmissing : ∀ i ∈ batch, i ∈ writer.manifest.missingChunks) :
    (∀ inputs trace (state : Windowed), Exec (Windowed.step hash job batch window) Guard.free
        (start batch window disk writer) inputs trace state →
      state.phase = .returned (.ok ()) →
      (∀ stream ∈ acceptedStreams trace, belongs job batch stream = true) ∧
        ((∀ i ∈ batch, Received hash state i) ↔
          ((acceptedStreams trace).map ChunkStream.chunk).Nodup)) ∧
      ∀ inputs trace (state : Windowed), Exec (Windowed.step hash job batch window)
          (freshGuard job batch) (start batch window disk writer) inputs trace state →
        (outstanding trace).length ≤ window ∧
          (state.phase = .returned (.ok ()) →
            (∀ stream ∈ acceptedStreams trace, belongs job batch stream = true) ∧
              ∀ i ∈ batch, Received hash state i) := by
  refine ⟨fun inputs trace state hexec => (tracks_run hexec).returned_iff hbatch hmissing, ?_⟩
  intro inputs trace state hexec
  have htracks := tracks_run hexec
  obtain ⟨hnodup, hsubset⟩ := carried_nodup hexec
  refine ⟨outstanding_le hbatch htracks.sends hnodup hsubset, fun hphase => ?_⟩
  obtain ⟨hbelong, hiff⟩ := htracks.returned_iff hbatch hmissing hphase
  refine ⟨hbelong, hiff.mpr ?_⟩
  unfold carried at hnodup
  rw [List.filter_eq_self.mpr hbelong] at hnodup
  exact hnodup

/-- SHA-256 of three bytes and of none. -/
def pairHash (data : List UInt8) : String :=
  if data = [97, 98, 99] then "ba7816bf8f01cfea414140de5dae2223b00361a396177a9cb410ff61f20015ad"
  else if data = [] then "e3b0c44298fc1c149afbf4c8996fb92427ae41e4649b934ca495991b7852b855"
  else ""

/-- A file of three bytes in two chunks, the second of them empty. -/
def pairManifest : Manifest :=
  Manifest.fromMeta "a.txt" 3 [pairHash [97, 98, 99], pairHash []]

/-- A part writer that has just been opened for it, and its disk. -/
def pairWriter : PartWriter :=
  { dir := 1, file := 0, manifest := pairManifest }

def pairDisk : Disk :=
  (PartWriter.open Disk.empty 1 pairManifest .done .done).1

/-- The stream of a chunk under job id 1. -/
def chunkStream (chunk : Nat) (data : List UInt8) : ChunkStream :=
  { header := .ok { jobId := 1, chunk := chunk }, data }

/-- A stream is accepted, its task does its work and is joined. -/
def taken (stream : ChunkStream) : List WindowInput :=
  [.accept (.ok stream), .work stream (.written none), .join (stream, .ok ())]

/-- Both chunks of a file are asked for, one after the other, and each is carried by a stream. -/
theorem windowed_receive_pair :
    ∃ inputs trace state, Exec (Windowed.step pairHash 1 [0, 1] 1) (freshGuard 1 [0, 1])
        (start [0, 1] 1 pairDisk pairWriter) inputs trace state ∧
      (outstanding trace).length ≤ 1 ∧ ∀ i ∈ [0, 1], Received pairHash state i := by
  obtain ⟨trace, state, hexec, hphase⟩ := exec_reaches (Windowed.step pairHash 1 [0, 1] 1)
    (freshGuard 1 [0, 1]) (start [0, 1] 1 pairDisk pairWriter)
    ([.request none] ++ taken (chunkStream 0 [97, 98, 99]) ++ [.request none] ++
      taken (chunkStream 1 []))
    Windowed.phase (.returned (.ok ())) (by decide)
  have hboth := (windowed_receive pairHash 1 [0, 1] 1 pairDisk pairWriter (by decide)
    (by decide)).2 _ _ _ hexec
  exact ⟨_, _, _, hexec, hboth.1, (hboth.2 hphase).2⟩

/-- Where two streams carry one chunk, the function returns well without the other. -/
theorem not_received_after_duplicate :
    ¬ ∀ (hash : List UInt8 → String) (job : Nat) (batch : List Nat) (window : Nat) (disk : Disk)
        (writer : PartWriter), batch.Nodup → (∀ i ∈ batch, i ∈ writer.manifest.missingChunks) →
      ∀ inputs trace (state : Windowed), Exec (Windowed.step hash job batch window) Guard.free
          (start batch window disk writer) inputs trace state →
        (outstanding trace).length ≤ window ∧
          (state.phase = .returned (.ok ()) →
            (∀ stream ∈ acceptedStreams trace, belongs job batch stream = true) ∧
              ∀ i ∈ batch, Received hash state i) := by
  intro hall
  obtain ⟨trace, state, hexec, hview⟩ := exec_reaches (Windowed.step pairHash 1 [0, 1] 2)
    Guard.free (start [0, 1] 2 pairDisk pairWriter)
    ([.request none, .request none] ++ taken (chunkStream 0 [97, 98, 99]) ++
      taken (chunkStream 0 [97, 98, 99]))
    (fun state => (state.phase, state.writer.manifest.received))
    (.returned (.ok ()), [true, false]) (by decide)
  obtain ⟨hphase, hreceived⟩ := Prod.ext_iff.mp hview
  dsimp only at hphase hreceived
  have hmarked := ((hall pairHash 1 [0, 1] 2 pairDisk pairWriter (by decide) (by decide) _ _ _
    hexec).2 hphase).2 1 (by decide)
  have hbit := hmarked.1
  rw [hreceived] at hbit
  cases hbit

end Windowed

end LocalTrans
