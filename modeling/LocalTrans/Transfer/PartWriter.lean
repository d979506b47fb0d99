import LocalTrans.Transfer.Manifest
import LocalTrans.Transfer.Names

/-!
# The part writer

`PartWriter` of `engine.rs` over the job directories of a parts root. A job directory has a
`manifest.json` and a `part.bin`; a writer keeps a handle to the file it opened, which stays the
same file when the directory entry is removed or renamed. Each operation takes the outcomes of
its file-system calls. A crash between two calls of an operation leaves the disk as the operation
does that fails there.
-/

namespace LocalTrans

open Foundation

/-- The `manifest.json` of a job directory; one that was torn or does not parse is unreadable. -/
inductive ManifestFile where
  | absent
  | unreadable
  | saved (m : Manifest)
deriving DecidableEq

/-- A job directory: its `manifest.json`, and the file its `part.bin` is. -/
structure JobDir where
  manifest : ManifestFile
  part : Option Nat
deriving DecidableEq

/-- The job directories under `.localtrans-parts`, and the contents of all files by number. -/
structure Disk where
  dirs : Nat → JobDir
  store : Nat → List UInt8
  nextFile : Nat

/-- `PartWriter`: the job directory, the open file, and the manifest in memory. -/
structure PartWriter where
  dir : Nat
  file : Nat
  manifest : Manifest
deriving DecidableEq

/-- How `Manifest::save` ends: done, torn in the middle of writing, or failed before. -/
inductive SaveOutcome where
  | done
  | torn
  | failed
deriving DecidableEq

namespace Disk

/-- No job directory yet. -/
def empty : Disk :=
  { dirs := fun _ => { manifest := .absent, part := none }, store := fun _ => [], nextFile := 0 }

/-- The contents of the `part.bin` of a job directory, nothing if there is none. -/
def partContent (disk : Disk) (job : Nat) : List UInt8 :=
  ((disk.dirs job).part.map disk.store).getD []

/-- `Manifest::save`. -/
def save (disk : Disk) (job : Nat) (m : Manifest) : SaveOutcome → Disk
  | .done =>
    { disk with dirs := Function.update disk.dirs job { disk.dirs job with manifest := .saved m } }
  | .torn =>
    { disk with
      dirs := Function.update disk.dirs job { disk.dirs job with manifest := .unreadable } }
  | .failed => disk

/-- `Manifest::load`, which refuses a bitmap of the wrong length. -/
def load (disk : Disk) (job : Nat) : Option Manifest :=
  match (disk.dirs job).manifest with
  | .saved m => if m.received.length = m.chunkHashes.length then some m else none
  | _ => none

/-- Open `part.bin` for writing, creating it if it is not there. Its contents stay. -/
def createPart (disk : Disk) (job : Nat) : Disk × Nat :=
  match (disk.dirs job).part with
  | some file => (disk, file)
  | none =>
    ({ dirs := Function.update disk.dirs job { disk.dirs job with part := some disk.nextFile }
       store := Function.update disk.store disk.nextFile []
       nextFile := disk.nextFile + 1 }, disk.nextFile)

/-- `remove_dir_all` of a job directory, which may stop with either file still there. -/
def removeDir (disk : Disk) (job : Nat) (partGone manifestGone : Bool) : Disk :=
  let dir := disk.dirs job
  { disk with
    dirs := Function.update disk.dirs job {
      manifest := if manifestGone then .absent else dir.manifest
      part := if partGone then none else dir.part } }

/-- Replace the contents of a file. -/
def write (disk : Disk) (file : Nat) (content : List UInt8) : Disk :=
  { disk with store := Function.update disk.store file content }

end Disk

namespace PartWriter

/-- The `Drop` of a writer saves its manifest, if there is a `part.bin`. -/
def drop (disk : Disk) (writer : PartWriter) (outcome : SaveOutcome) : Disk :=
  if (disk.dirs writer.dir).part.isSome then disk.save writer.dir writer.manifest outcome else disk

/-- `PartWriter::open`. When the first save fails, the writer is dropped, which saves again. -/
def «open» (disk : Disk) (job : Nat) (m : Manifest) (first second : SaveOutcome) :
    Disk × Except EngineError PartWriter :=
  let (disk, file) := disk.createPart job
  let writer : PartWriter := { dir := job, file, manifest := m }
  let disk := disk.save job m first
  if first = .done then (disk, .ok writer)
  else (writer.drop disk second, .error (.io "manifest.json"))

/-- What `load_or_open` compares to take up a job directory. -/
def resumes (existing m : Manifest) : Bool :=
  existing.fileName == m.fileName && existing.totalSize == m.totalSize &&
    existing.chunkHashes == m.chunkHashes

/-- `PartWriter::load_or_open`: take up the job directory, or open it anew. A `part.bin` that is
gone is an error. -/
def loadOrOpen (disk : Disk) (job : Nat) (m : Manifest) (first second : SaveOutcome) :
    Disk × Except EngineError PartWriter :=
  match disk.load job with
  | some existing =>
    if resumes existing m then
      match (disk.dirs job).part with
      | some file => (disk, .ok { dir := job, file, manifest := existing })
      | none => (disk, .error (.io "part.bin"))
    else PartWriter.open disk job m first second
  | none => PartWriter.open disk job m first second

/-- How writing a chunk goes: it fails with a part of the data written, or it succeeds and the
manifest is saved or not. -/
inductive WriteOutcome where
  | failed (written : Nat)
  | written (save : Option SaveOutcome)
deriving DecidableEq

variable (hash : List UInt8 → String)

/-- `PartWriter::write_chunk`: the hash and the length are checked, then the data is written and
the chunk marked. The manifest is saved now and then, and always after the last chunk. -/
def writeChunk (disk : Disk) (writer : PartWriter) (i : Nat) (data : List UInt8)
    (outcome : WriteOutcome) : Disk × PartWriter × Except EngineError Unit :=
  let m := writer.manifest
  if m.chunkHashes[i]? ≠ some (hash data) then (disk, writer, .error (.hashMismatch i))
  else if data.length ≠ m.chunkLen i then (disk, writer, .error (.hashMismatch i))
  else
    let content := disk.store writer.file
    match outcome with
    | .failed written =>
      (disk.write writer.file (writeAt 0 content (m.chunkOffset i) (data.take written)), writer,
        .error (.io "part.bin"))
    | .written outcome =>
      let disk := disk.write writer.file (writeAt 0 content (m.chunkOffset i) data)
      let writer := { writer with manifest := m.mark i }
      let isFinal := writer.manifest.missingChunks.isEmpty
      let outcome := if isFinal then some (outcome.getD .done) else outcome
      match outcome with
      | none => (disk, writer, .ok ())
      | some .done => (disk.save writer.dir writer.manifest .done, writer, .ok ())
      | some failure =>
        (disk.save writer.dir writer.manifest failure, writer, .error (.io "manifest.json"))

/-- The name `resolve_name_conflict` chooses: the hundredth numbered name even if it is taken. -/
def resolveNameConflict (style : PathStyle) (taken : String → Bool) (name : String) : String :=
  if !taken name then name
  else
    match ((List.range 100).map fun i => numberedName style name (i + 1)).find? fun candidate =>
        !taken candidate with
    | some candidate => candidate
    | none => numberedName style name 100

/-- The name that `resolve_name_conflict` chooses is the name or a numbered one. -/
theorem resolve_conflict_variant (style : PathStyle) (taken : String → Bool) (name : String) :
    resolveNameConflict style taken name = name ∨
      ∃ i, resolveNameConflict style taken name = numberedName style name i := by
  unfold resolveNameConflict
  split
  · exact .inl rfl
  · split
    · next candidate hfind =>
      obtain ⟨i, -, rfl⟩ := List.mem_map.mp (List.mem_of_find?_eq_some hfind)
      exact .inr ⟨_, rfl⟩
    · exact .inr ⟨100, rfl⟩

/-- How `finalize` goes: the outcome of the first save, whether the destination directory can be
created and the file renamed, what is left of the job directory, and the save on dropping. -/
structure FinalizeOutcome where
  save : SaveOutcome
  created : Bool
  renamed : Bool
  manifestGone : Bool
  dropped : SaveOutcome
deriving DecidableEq

/-- The checks of `finalize` before the file is moved. -/
def readyToPlace (disk : Disk) (writer : PartWriter) (outcome : FinalizeOutcome) :
    Except EngineError Nat :=
  if outcome.save ≠ .done then .error (.io "manifest.json")
  else
    match sanitizeFileName writer.manifest.fileName with
    | .error error => .error error
    | .ok _ =>
      if writer.manifest.missingChunks ≠ [] then .error .incomplete
      else if !outcome.created then .error (.io "create_dir_all")
      else
        match (disk.dirs writer.dir).part with
        | some file => if outcome.renamed then .ok file else .error (.io "rename")
        | none => .error (.io "rename")

/-- `PartWriter::finalize`: save, check, and rename `part.bin` away; the file that is placed is
returned. Then the job directory is removed as far as possible. -/
def finalize (disk : Disk) (writer : PartWriter) (outcome : FinalizeOutcome) :
    Disk × Except EngineError (Nat × List UInt8) :=
  let disk := disk.save writer.dir writer.manifest outcome.save
  match readyToPlace disk writer outcome with
  | .error error => (writer.drop disk outcome.dropped, .error error)
  | .ok file => (disk.removeDir writer.dir true outcome.manifestGone, .ok (file, disk.store file))

end PartWriter

/-- `pending_jobs`, and the choice of the job directory in `start_pull_parts`: an unfinished job
directory for the same file, or that of the new job. -/
def chooseJobDir (disk : Disk) (jobs : List Nat) (m : Manifest) (jobId : Nat) : Nat :=
  (jobs.find? fun job =>
    match disk.load job with
    | some existing => existing.missingChunks ≠ [] && PartWriter.resumes existing m
    | none => false).getD jobId

end LocalTrans
