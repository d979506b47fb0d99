import LocalTrans.Transfer.Receive
import LocalTrans.Transfer.Resume

/-!
# Transfers that complete

A pull and a pushed large file trust the peer's answer to the metadata request: the bitmap has as
many bits as the answer has hashes, and a transfer is complete when all are set. What is placed
then is as long as what was left in `part.bin` or as the chunks that were fetched reach, whichever
is more (`fetched_length`). `completed_iff` compares this with the announced size.
-/

namespace LocalTrans

open Foundation

namespace Manifest

variable {m other : Manifest} {i : Nat} {indices : List Nat} {length bound : Nat}

/-- Where a chunk ends, 0 for one that lies past the end of the file. -/
def chunkEnd (m : Manifest) (i : Nat) : Nat :=
  if m.chunkLen i = 0 then 0 else m.chunkOffset i + m.chunkLen i

/-- How far a file reaches when these chunks have been written to it. -/
def reach (m : Manifest) (indices : List Nat) (length : Nat) : Nat :=
  indices.foldl (fun reached i => max reached (m.chunkEnd i)) length

/-- What bounds the length and all ends bounds the reach, and conversely. -/
theorem reach_le_iff : m.reach indices length ≤ bound ↔
    length ≤ bound ∧ ∀ i ∈ indices, m.chunkEnd i ≤ bound := by
  unfold reach
  induction indices generalizing length with
  | nil => simp
  | cons i indices ih =>
    rw [List.foldl_cons, ih, Nat.max_le]
    simp only [List.mem_cons, forall_eq_or_imp, and_assoc]

/-- The reach depends only on the size. -/
theorem reach_congr (h : m.totalSize = other.totalSize) :
    m.reach indices length = other.reach indices length := by
  unfold reach chunkEnd chunkLen chunkOffset
  rw [h]

end Manifest

section Fetching

variable {hash : List UInt8 → String} {disk first : Disk} {writer opened : PartWriter}
  {missing batch : List Nat} {i : Nat} {data : List UInt8}

variable {marked : PartWriter}

/-- What a successful write of a chunk has done. -/
theorem write_chunk_ok {outcome : PartWriter.WriteOutcome} {next : Disk}
    (h : writer.writeChunk hash disk i data outcome = (next, marked, .ok ())) :
    data.length = writer.manifest.chunkLen i ∧
      marked = { writer with manifest := writer.manifest.mark i } ∧
      next.store writer.file =
        writeAt 0 (disk.store writer.file) (writer.manifest.chunkOffset i) data ∧
      ∀ job, (next.dirs job).part = (disk.dirs job).part := by
  unfold PartWriter.writeChunk at h
  dsimp only at h
  split at h
  · cases h
  split at h
  · cases h
  next hlength =>
  have hdata : data.length = writer.manifest.chunkLen i := not_not.mp hlength
  split at h
  · cases h
  · split at h
    · cases h
      exact ⟨hdata, rfl, by simp [Disk.write], fun job => rfl⟩
    · cases h
      refine ⟨hdata, rfl, ?_, fun job => ?_⟩
      · simp [Disk.write]
      · rw [Disk.save_part]
        rfl
    · cases h

/-- The data of a chunk that was written has the hash of the manifest. -/
theorem write_chunk_hash {outcome : PartWriter.WriteOutcome} {next : Disk}
    (h : writer.writeChunk hash disk i data outcome = (next, marked, .ok ())) :
    writer.manifest.chunkHashes[i]? = some (hash data) := by
  unfold PartWriter.writeChunk at h
  dsimp only at h
  split at h
  · cases h
  · next hexpected => exact not_not.mp hexpected

/-- How far a transfer has come that fetches the missing chunks: the writer is the one that was
opened, a bit that is set now was set before or its chunk has been written, and the file reaches
no further than the missing chunks do. -/
structure Fetched (missing : List Nat) (first : Disk) (opened : PartWriter) (disk : Disk)
    (writer : PartWriter) : Prop where
  dir : writer.dir = opened.dir
  file : writer.file = opened.file
  chunks : writer.manifest.SameChunks opened.manifest
  name : writer.manifest.fileName = opened.manifest.fileName
  part : (disk.dirs opened.dir).part = (first.dirs opened.dir).part
  bits : writer.manifest.received.length = opened.manifest.received.length
  least : (first.store opened.file).length ≤ (disk.store opened.file).length
  most : (disk.store opened.file).length ≤
    opened.manifest.reach missing (first.store opened.file).length
  written : ∀ i, writer.manifest.received[i]? = some true →
    opened.manifest.received[i]? = some true ∨
      opened.manifest.chunkEnd i ≤ (disk.store opened.file).length

/-- Nothing has been fetched at first. -/
theorem Fetched.start : Fetched missing first opened first opened where
  dir := rfl
  file := rfl
  chunks := ⟨rfl, rfl⟩
  name := rfl
  part := rfl
  bits := rfl
  least := Nat.le_refl _
  most := (Manifest.reach_le_iff.mp (Nat.le_refl _)).1
  written _ hbit := .inl hbit

/-- The length of a file after a chunk was written to it. -/
theorem length_write_chunk {m : Manifest} {content : List UInt8} (h : data.length = m.chunkLen i) :
    (writeAt 0 content (m.chunkOffset i) data).length = max content.length (m.chunkEnd i) := by
  unfold Manifest.chunkEnd
  by_cases hzero : m.chunkLen i = 0
  · have hnil : data = [] := List.length_eq_zero_iff.mp (h.trans hzero)
    simp [hnil, writeAt, hzero]
  · have hdata : data ≠ [] := by
      intro hnil
      rw [hnil] at h
      exact hzero h.symm
    rw [length_writeAt hdata, h, if_neg hzero]

/-- A chunk that was missing is written. -/
theorem Fetched.write {outcome : PartWriter.WriteOutcome} {next : Disk}
    (h : Fetched missing first opened disk writer) (hi : i ∈ missing)
    (hwrite : writer.writeChunk hash disk i data outcome = (next, marked, .ok ())) :
    Fetched missing first opened next marked := by
  obtain ⟨hlength, rfl, hstore, hpart⟩ := write_chunk_ok hwrite
  have hend : writer.manifest.chunkEnd i = opened.manifest.chunkEnd i := by
    unfold Manifest.chunkEnd Manifest.chunkLen Manifest.chunkOffset
    rw [h.chunks.1]
  rw [h.file] at hstore
  have hgrown : (next.store opened.file).length =
      max (disk.store opened.file).length (opened.manifest.chunkEnd i) := by
    rw [hstore, length_write_chunk hlength, hend]
  refine ⟨h.dir, h.file, h.chunks, h.name, ?_, ?_, ?_, ?_, ?_⟩
  · rw [hpart, h.part]
  · show (writer.manifest.received.set i true).length = _
    rw [List.length_set, h.bits]
  · have hleast := h.least
    omega
  · have hmost := h.most
    have hreach := (Manifest.reach_le_iff.mp
      (Nat.le_refl (opened.manifest.reach missing (first.store opened.file).length))).2 i hi
    omega
  · intro j hbit
    have hbit : (writer.manifest.received.set i true)[j]? = some true := hbit
    by_cases hij : i = j
    · subst hij
      exact .inr (by omega)
    · rw [List.getElem?_set_ne hij] at hbit
      rcases h.written j hbit with hbefore | hend
      · exact .inl hbefore
      · exact .inr (by omega)

/-- What every successful write of a chunk of the window keeps holds after the window. -/
theorem run_receiver_keeps {P : Disk → PartWriter → Prop} {awaited : Nat}
    {arrivals rest : List Arrival} {next : Disk}
    (hwrite : ∀ i ∈ batch, ∀ disk writer data outcome next marked, P disk writer →
      PartWriter.writeChunk hash disk writer i data outcome = (next, marked, .ok ()) →
      P next marked) (h : P disk writer)
    (hreceive : runReceiver hash batch awaited disk writer arrivals = (next, marked, .ok rest)) :
    P next marked := by
  induction awaited generalizing disk writer arrivals with
  | zero =>
    cases hreceive
    exact h
  | succ awaited ih =>
    cases arrivals with
    | nil => cases hreceive
    | cons arrival arrivals =>
      cases arrival with
      | failed error => cases hreceive
      | chunk i data outcome =>
        unfold runReceiver at hreceive
        split at hreceive
        · cases hreceive
        next hmem =>
        split at hreceive
        · cases hreceive
        · next disk' writer' hwritten =>
          exact ih (hwrite i (not_not.mp hmem) _ _ _ _ _ _ h hwritten) hreceive

/-- What every successful write of a missing chunk keeps holds when all windows are received. -/
theorem fetch_missing_keeps {P : Disk → PartWriter → Prop} {window : Nat → Nat} {fuel : Nat}
    {arrivals : List Arrival} {next : Disk}
    (hwrite : ∀ i ∈ missing, ∀ disk writer data outcome next marked, P disk writer →
      PartWriter.writeChunk hash disk writer i data outcome = (next, marked, .ok ()) →
      P next marked) (h : P disk writer)
    (hfetch : fetchMissing hash window fuel disk writer missing arrivals = (next, marked, .ok ())) :
    P next marked := by
  induction fuel generalizing disk writer missing arrivals with
  | zero =>
    cases hfetch
    exact h
  | succ fuel ih =>
    cases missing with
    | nil =>
      cases hfetch
      exact h
    | cons i missing =>
      unfold fetchMissing at hfetch
      dsimp only at hfetch
      split at hfetch
      · cases hfetch
      · next disk' writer' rest hreceive =>
        have hwindow : P disk' writer' :=
          run_receiver_keeps (fun j hj => hwrite j (List.mem_of_mem_take hj)) h hreceive
        exact ih (fun j hj => hwrite j (List.mem_of_mem_drop hj)) hwindow hfetch

/-- All windows are received. -/
theorem Fetched.all {window : Nat → Nat} {fuel : Nat} {arrivals : List Arrival} {next : Disk}
    (h : Fetched missing first opened disk writer)
    (hfetch : fetchMissing hash window fuel disk writer missing arrivals = (next, marked, .ok ())) :
    Fetched missing first opened next marked :=
  fetch_missing_keeps (fun _ hi _ _ _ _ _ _ hfetched hwrite => hfetched.write hi hwrite) h hfetch

/-- When every bit is set, the file reaches exactly as far as what was left in it and the chunks
that were missing. -/
theorem fetched_length (h : Fetched opened.manifest.missingChunks first opened disk writer)
    (hall : writer.manifest.missingChunks = []) :
    (disk.store opened.file).length =
      opened.manifest.reach opened.manifest.missingChunks (first.store opened.file).length := by
  refine Nat.le_antisymm h.most (Manifest.reach_le_iff.mpr ⟨h.least, fun i hi => ?_⟩)
  have hunset := Manifest.mem_missing_chunks_iff.mp hi
  have hlt : i < writer.manifest.received.length := by
    obtain ⟨hlt, -⟩ := List.getElem?_eq_some_iff.mp hunset
    rw [h.bits]
    exact hlt
  have hset : writer.manifest.received[i]? = some true := by
    rw [List.getElem?_eq_getElem hlt]
    exact congrArg some (Manifest.missing_chunks_eq_nil_iff.mp hall _ (List.getElem_mem hlt))
  rcases h.written i hset with hbefore | hend
  · rw [hunset] at hbefore
    cases hbefore
  · exact hend

end Fetching

section Opening

variable {disk next : Disk} {writer : PartWriter} {job : Nat} {m : Manifest}
  {first second : SaveOutcome}

/-- The manifest a transfer works with: the one of the job directory if that is taken up. -/
def takenUp (disk : Disk) (job : Nat) (m : Manifest) : Manifest :=
  match disk.load job with
  | some existing => if PartWriter.resumes existing m then existing else m
  | none => m

/-- A job directory that resumes is taken up. -/
theorem taken_up_existing {existing : Manifest} (hload : disk.load job = some existing)
    (h : PartWriter.resumes existing m = true) : takenUp disk job m = existing := by
  unfold takenUp
  rw [hload]
  exact if_pos h

/-- A job directory for another file is not taken up. -/
theorem taken_up_other {existing : Manifest} (hload : disk.load job = some existing)
    (h : ¬ PartWriter.resumes existing m = true) : takenUp disk job m = m := by
  unfold takenUp
  rw [hload]
  exact if_neg h

/-- Where there is no manifest, nothing is taken up. -/
theorem taken_up_none (hload : disk.load job = none) : takenUp disk job m = m := by
  unfold takenUp
  rw [hload]

/-- A writer that works on the `part.bin` of a job directory, with what was left there. -/
structure Opened (disk next : Disk) (job : Nat) (m : Manifest) (writer : PartWriter) : Prop where
  dir : writer.dir = job
  manifest : writer.manifest = m
  part : (next.dirs job).part = some writer.file
  content : next.store writer.file = disk.partContent job

/-- A job directory that is opened anew keeps its `part.bin`. -/
theorem opened_of_open (h : PartWriter.open disk job m first second = (next, .ok writer)) :
    Opened disk next job m writer := by
  unfold PartWriter.open at h
  dsimp only at h
  split at h
  · cases h
    exact ⟨rfl, rfl, by rw [Disk.save_part, Disk.createPart_part],
      by rw [Disk.save_store, Disk.createPart_content]⟩
  · cases h

/-- A job directory that is taken up or opened anew. -/
theorem opened_of_load (h : PartWriter.loadOrOpen disk job m first second = (next, .ok writer)) :
    Opened disk next job (takenUp disk job m) writer := by
  unfold PartWriter.loadOrOpen at h
  split at h
  · next existing hload =>
    split at h
    · next hresumes =>
      split at h
      · next file hfile =>
        cases h
        rw [taken_up_existing hload hresumes]
        exact ⟨rfl, rfl, hfile, by simp [Disk.partContent, hfile]⟩
      · cases h
    · next hother =>
      rw [taken_up_other hload hother]
      exact opened_of_open h
  · next hload =>
    rw [taken_up_none hload]
    exact opened_of_open h

/-- What a transfer works with has the name that was announced. -/
theorem taken_up_name : (takenUp disk job m).fileName = m.fileName := by
  unfold takenUp
  split
  · split
    · next hresumes =>
      simp only [PartWriter.resumes, Bool.and_eq_true, beq_iff_eq] at hresumes
      exact hresumes.1.1
    · rfl
  · rfl

/-- What a transfer works with has the size and the hashes that were announced. -/
theorem taken_up_same_chunks : (takenUp disk job m).SameChunks m := by
  unfold takenUp
  split
  · split
    · next hresumes =>
      simp only [PartWriter.resumes, Bool.and_eq_true, beq_iff_eq] at hresumes
      exact ⟨hresumes.1.2, hresumes.2⟩
    · exact ⟨rfl, rfl⟩
  · exact ⟨rfl, rfl⟩

end Opening

section Placing

variable {platform : Platform} {fs next : FileSystem} {destDir : Location}
  {writer : PartWriter} {outcome : PartWriter.FinalizeOutcome} {placed : Placed}

/-- What the checks of `finalize` have found when it places a file. -/
theorem ready_ok {disk : Disk} {file : Nat}
    (h : PartWriter.readyToPlace disk writer outcome = .ok file) :
    writer.manifest.missingChunks = [] ∧ (disk.dirs writer.dir).part = some file ∧
      ∃ name, sanitizeFileName writer.manifest.fileName = .ok name := by
  unfold PartWriter.readyToPlace at h
  split at h
  · cases h
  split at h
  · cases h
  next name hname =>
  split at h
  · cases h
  next hmissing =>
  split at h
  · cases h
  split at h
  · next found hfound =>
    split at h
    · cases h
      exact ⟨not_not.mp hmissing, hfound, name, hname⟩
    · cases h
  · cases h

/-- What `finalize` places is the `part.bin` of the job directory, and nothing was missing. -/
theorem finalize_ok {disk after : Disk} {file : Nat} {content : List UInt8}
    (h : writer.finalize disk outcome = (after, .ok (file, content))) :
    writer.manifest.missingChunks = [] ∧ (disk.dirs writer.dir).part = some file ∧
      (∃ name, sanitizeFileName writer.manifest.fileName = .ok name) ∧
      content = disk.store file ∧ after.store = disk.store := by
  unfold PartWriter.finalize at h
  dsimp only at h
  split at h
  · cases h
  · next found hready =>
    cases h
    obtain ⟨hmissing, hpart, hname⟩ := ready_ok hready
    rw [Disk.save_part] at hpart
    exact ⟨hmissing, hpart, hname, by rw [Disk.save_store], by simp [Disk.removeDir]⟩

/-- The name under which `finalize` places a file. -/
def finalName (platform : Platform) (fs : FileSystem) (destDir : Location) (name : String) : String :=
  PartWriter.resolveNameConflict platform.style (fun name => fs.present (platform.join destDir name))
    name

/-- A file that was placed by `finalize` is what was in `part.bin`, under a name that
`resolve_name_conflict` chose. -/
theorem finalize_into_ok
    (h : finalizeInto platform fs destDir writer outcome = (next, .ok placed)) :
    ∃ file after, writer.manifest.missingChunks = [] ∧
      (fs.disk.dirs writer.dir).part = some file ∧
      (∃ name, sanitizeFileName writer.manifest.fileName = .ok name) ∧
      placed.place = platform.join destDir
        (finalName platform (fs.createDirAll destDir) destDir writer.manifest.fileName) ∧
      placed.content = fs.disk.store file ∧
      after.store = fs.disk.store ∧
      next = ({ fs.createDirAll destDir with disk := after } : FileSystem).link placed.place
        (.file file) := by
  unfold finalizeInto at h
  dsimp only at h
  split at h
  · cases h
  · next after file content hfinalize =>
    obtain ⟨hmissing, hpart, hname, hcontent, hstore⟩ := finalize_ok hfinalize
    cases h
    subst hcontent
    exact ⟨file, after, hmissing, hpart, hname, rfl, rfl, hstore, rfl⟩

/-- When `finalize` fails, no file has been placed. -/
theorem finalize_into_error {error : EngineError}
    (h : finalizeInto platform fs destDir writer outcome = (next, .error error)) :
    fs.OnlyDirs next := by
  unfold finalizeInto at h
  dsimp only at h
  split at h
  · cases h
    split
    · exact FileSystem.createDirAll_onlyDirs fs destDir
    · exact fun place => .inl rfl
  · cases h

end Placing

section Chunked

variable {hash : List UInt8 → String} {platform : Platform} {fs next : FileSystem}
  {partsRoot destDir : Location} {job : Nat} {m : Manifest}
  {window : Nat → Nat} {arrivals : List Arrival} {outcome : PartOutcome} {placed : Placed}
  {error : EngineError}

/-- The chunks that a transfer fetches. -/
def toFetch (disk : Disk) (job : Nat) (m : Manifest) : List Nat :=
  (takenUp disk job m).missingChunks

/-- How long the file is that a transfer into a job directory places: as long as what was left
there, or as the chunks reach that are still fetched. -/
def finalLength (disk : Disk) (job : Nat) (m : Manifest) : Nat :=
  m.reach (toFetch disk job m) (disk.partContent job).length

/-- Where `finalize` puts a file: under the name that `resolve_name_conflict` chooses. -/
def finalPlace (platform : Platform) (fs : FileSystem) (destDir : Location) (name : String) : Location :=
  platform.join destDir (finalName platform (fs.createDirAll destDir) destDir name)

/-- What a chunked transfer places: the length, the place, and what becomes of the file system. -/
theorem receive_chunked_ok
    (h : receiveChunked hash platform fs partsRoot destDir job m window arrivals outcome =
      (next, .ok placed)) :
    placed.content.length = finalLength fs.disk job m ∧
      placed.place = finalPlace platform fs destDir m.fileName ∧
      ∃ file, (next.tree = ((fs.createDirAll destDir).link placed.place (.file file)).tree) ∧
        next.disk.store file = placed.content := by
  unfold receiveChunked at h
  dsimp only at h
  split at h
  · cases h
  · next disk writer hload =>
    have hopened := opened_of_load hload
    split at h
    · cases h
    · next disk' writer' _ hfetch =>
      have hfetched := Fetched.start.all hfetch
      obtain ⟨file, after, hmissing, hpart, -, hplace, hcontent, hstore, hnext⟩ := finalize_into_ok h
      have hfile : file = writer.file := by
        have hsame := hfetched.part
        rw [hopened.dir, hopened.part] at hsame
        rw [hfetched.dir, hopened.dir, hsame] at hpart
        exact (Option.some.inj hpart).symm
      subst hfile
      refine ⟨?_, ?_, writer.file, by rw [hnext]; rfl, ?_⟩
      · rw [hcontent]
        show (disk'.store writer.file).length = _
        rw [fetched_length hfetched hmissing, hopened.content, hopened.manifest]
        exact Manifest.reach_congr taken_up_same_chunks.1
      · rw [hplace, hfetched.name, hopened.manifest, taken_up_name]
        rfl
      · rw [hnext, hcontent]
        show after.store writer.file = disk'.store writer.file
        rw [hstore]

/-- When a chunked transfer fails, no file has been placed. -/
theorem receive_chunked_error
    (h : receiveChunked hash platform fs partsRoot destDir job m window arrivals outcome =
      (next, .error error)) :
    fs.OnlyDirs next := by
  unfold receiveChunked at h
  dsimp only at h
  split at h
  · cases h
    exact fun place => .inl rfl
  · split at h
    · cases h
      exact fun place => .inl rfl
    · exact fun place => finalize_into_error h place

end Chunked

section Answers

variable {hash : List UInt8 → String} {format : IndexFormat} {platform : Platform}
  {fs next : FileSystem} {partsRoot destDir root : Location} {answer : MetaResp}
  {source : Option String × Option String × Option String} {jobs : List Nat} {window : Nat → Nat}
  {arrivals : List Arrival} {outcome : PartOutcome} {instant : InstantOutcome} {file : OfferFile}
  {placed : Placed} {error : EngineError}

/-- The answer has as many chunk hashes as its size needs. -/
def MetaResp.Consistent (answer : MetaResp) : Prop :=
  answer.chunkHashes.length = chunksNeeded answer.totalSize
deriving Decidable

/-- The manifest of a pull. -/
def pulledManifest (source : Option String × Option String × Option String) (answer : MetaResp) :
    Manifest :=
  Manifest.fromMetaWithSource answer.fileName answer.totalSize answer.chunkHashes source.1 source.2.1
    source.2.2

/-- How long the file is that a pull places. -/
def pulledLength (disk : Disk) (jobs : List Nat) (source : Option String × Option String × Option String)
    (answer : MetaResp) : Nat :=
  let m := pulledManifest source answer
  finalLength disk (chooseJobDir disk jobs m answer.jobId) m

/-- How long the file is that a push places: as long as the file that is copied, or as the chunks
make it. -/
def pushedLength (format : IndexFormat) (fs : FileSystem) (root : Location) (answer : MetaResp) : Nat :=
  match instantHit format fs root answer with
  | some (_, src) => ((fs.contentAt src).getD []).length
  | none =>
    let name := (sanitizeFileName answer.fileName).toOption.getD answer.fileName
    finalLength fs.disk answer.jobId
      (Manifest.fromMeta name answer.totalSize answer.chunkHashes)

/-- The length of a copy. -/
theorem pushed_length_hit {found : String} {src : Location}
    (h : instantHit format fs root answer = some (found, src)) :
    pushedLength format fs root answer = ((fs.contentAt src).getD []).length := by
  unfold pushedLength
  rw [h]

/-- The length of a file that is fetched in chunks. -/
theorem pushed_length_chunked {name : String} (h : instantHit format fs root answer = none)
    (hname : sanitizeFileName answer.fileName = .ok name) :
    pushedLength format fs root answer = finalLength fs.disk answer.jobId
      (Manifest.fromMeta name answer.totalSize answer.chunkHashes) := by
  unfold pushedLength
  rw [h, hname]
  rfl

/-- A manifest without chunks has nothing to fetch, whatever is taken up. -/
theorem to_fetch_empty {disk : Disk} {job : Nat}
    (h : answer.chunkHashes.length = 0) : toFetch disk job (pulledManifest source answer) = [] := by
  have hempty : answer.chunkHashes = [] := List.length_eq_zero_iff.mp h
  have hsame : (takenUp disk job (pulledManifest source answer)).chunkHashes = answer.chunkHashes :=
    taken_up_same_chunks.2
  have hbitmap : (takenUp disk job (pulledManifest source answer)).received = [] := by
    unfold takenUp at hsame ⊢
    split
    · next existing hload =>
      have hbits := Disk.bitmap_of_load hload
      split
      · next hresumes =>
        rw [hload] at hsame
        dsimp only at hsame
        rw [if_pos hresumes] at hsame
        have hcount : existing.chunkCount = 0 := by
          show existing.chunkHashes.length = 0
          rw [hsame]
          exact h
        exact List.length_eq_zero_iff.mp (hbits.trans hcount)
      · simp [pulledManifest, Manifest.fromMetaWithSource, hempty]
    · simp [pulledManifest, Manifest.fromMetaWithSource, hempty]
  simp [toFetch, Manifest.missingChunks, hbitmap]

/-- The length of what a pull places. -/
theorem start_pull_ok (h : startPullParts hash platform fs partsRoot destDir source (.ok answer)
    jobs window arrivals outcome = (next, .ok placed)) :
    placed.content.length = pulledLength fs.disk jobs source answer := by
  unfold startPullParts at h
  dsimp only at h
  split at h
  · next hcount =>
    split at h
    · cases h
    · next disk writer hopen =>
      have hopened := opened_of_open hopen
      obtain ⟨file, after, -, hpart, -, -, hcontent, -, -⟩ := finalize_into_ok h
      have hfile : file = writer.file := by
        have hpart : (disk.dirs writer.dir).part = some file := hpart
        rw [hopened.dir, hopened.part] at hpart
        exact (Option.some.inj hpart).symm
      subst hfile
      rw [hcontent]
      show (disk.store writer.file).length = _
      rw [hopened.content]
      unfold pulledLength finalLength
      dsimp only
      rw [to_fetch_empty hcount]
      rfl
  · exact (receive_chunked_ok h).1

/-- When a pull fails, no file has been placed. -/
theorem start_pull_error (h : startPullParts hash platform fs partsRoot destDir source (.ok answer)
    jobs window arrivals outcome = (next, .error error)) : fs.OnlyDirs next := by
  unfold startPullParts at h
  dsimp only at h
  split at h
  · split at h
    · cases h
      exact fun place => .inl rfl
    · exact fun place => finalize_into_error h place
  · exact receive_chunked_error h

/-- The length of what a push places. -/
theorem recv_push_ok (h : recvPushLargeFile hash format platform fs root file (.ok answer) arrivals
    outcome instant = (next, .ok placed)) :
    placed.content.length = pushedLength format fs root answer := by
  unfold recvPushLargeFile at h
  dsimp only at h
  split at h
  · cases h
  next fileName hname =>
  split at h
  · cases h
  split at h
  · next found src hhit =>
    split at h
    · cases h
    · next fs' placed' hplace =>
      cases h
      rw [(place_dedup_ok hplace).2.1, pushed_length_hit hhit]
  · next hmiss =>
    rw [pushed_length_chunked hmiss hname]
    split at h
    · cases h
    · next fs' placed' hreceive =>
      have hlength := (receive_chunked_ok hreceive).1
      split at h
      · cases h
        exact hlength
      · cases h
        exact hlength

/-- When a push fails, a file has been placed only if copying one broke off. -/
theorem recv_push_error (h : recvPushLargeFile hash format platform fs root file (.ok answer) arrivals
    outcome instant = (next, .error error)) :
    fs.OnlyDirs next ∨ ∃ written, instant.place.copy = .broken written := by
  unfold recvPushLargeFile at h
  dsimp only at h
  split at h
  · cases h
    exact .inl fun place => .inl rfl
  split at h
  · cases h
    exact .inl fun place => .inl rfl
  split at h
  · split at h
    · next hplace =>
      cases h
      exact place_dedup_error hplace
    · cases h
  · split at h
    · next hreceive =>
      cases h
      exact .inl (receive_chunked_error hreceive)
    · split at h
      · cases h
      · cases h

/-- The result of a transfer is what its answer announced: a file that was placed has the size,
and the hashes are as many as the size needs. -/
def Announced (answer : MetaResp) (placed : Placed) : Prop :=
  answer.Consistent ∧ placed.content.length = answer.totalSize

end Answers

/-- A pull that completes has placed what was announced if and only if the answer has as many
hashes as its size needs and what was left in the job directory, together with the chunks that are
still missing there, makes up the size; a push likewise, or with the size of the file that is
copied for an instant hit. A transfer that fails has placed nothing, unless that copy broke off. -/
theorem completed_announced_iff (hash : List UInt8 → String) (format : IndexFormat)
    (platform : Platform) (fs : FileSystem) (partsRoot destDir root : Location)
    (source : Option String × Option String × Option String) (file : OfferFile) (answer : MetaResp)
    (jobs : List Nat) (window : Nat → Nat) (arrivals : List Arrival) (outcome : PartOutcome)
    (instant : InstantOutcome) :
    (match startPullParts hash platform fs partsRoot destDir source (.ok answer) jobs window
        arrivals outcome with
      | (_, .ok placed) => Announced answer placed ↔
          answer.Consistent ∧ pulledLength fs.disk jobs source answer = answer.totalSize
      | (next, .error _) => fs.OnlyDirs next) ∧
    (match recvPushLargeFile hash format platform fs root file (.ok answer) arrivals outcome
        instant with
      | (_, .ok placed) => Announced answer placed ↔
          answer.Consistent ∧ pushedLength format fs root answer = answer.totalSize
      | (next, .error _) => fs.OnlyDirs next ∨ ∃ written, instant.place.copy = .broken written) := by
  constructor
  · split
    · next hpull => rw [Announced, start_pull_ok hpull]
    · next hpull => exact start_pull_error hpull
  · split
    · next hpush => rw [Announced, recv_push_ok hpush]
    · next hpush => exact recv_push_error hpush

/-- A system with Unix paths. -/
def unixPlatform : Platform :=
  { style := .unix, current := fun _ => { volume := "", names := [] } }

/-- A download directory. -/
def sampleRoot : Location := { volume := "", names := ["home", "downloads"] }

/-- Everything the file system is asked for succeeds. -/
def smoothParts : PartOutcome :=
  { first := .done, second := .done, finish := finalizeDone, dropped := .done }

/-- An answer that announces a byte and names no chunk. -/
def hollowAnswer : MetaResp :=
  { jobId := 5, fileName := "a", totalSize := 1, chunkHashes := [], fileHash := none }

/-- The answer announces a byte and has no hash; the pull completes with an empty file. -/
theorem hollow_answer_completes :
    ∃ next placed, startPullParts shortHash unixPlatform FileSystem.empty sampleRoot sampleRoot
        (none, none, none) (.ok hollowAnswer) [] (fun _ => 1) [] smoothParts = (next, .ok placed) ∧
      placed.content = [] ∧ ¬ hollowAnswer.Consistent ∧
      placed.content.length ≠ hollowAnswer.totalSize :=
  ⟨_, _, rfl, by decide, by decide, by decide⟩

end LocalTrans
