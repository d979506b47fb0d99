import LocalTrans.Transfer.Dedup

/-!
# Receiving files

The ways a file is received: from the stream of small files, pushed with chunks that are fetched,
as a copy of a file that is there already, and pulled, alone or as part of a directory. Names and
directories come from the peer, and so do the answer to the metadata request and the chunks; how
the calls to the file system go is given with each operation.
-/

namespace LocalTrans

open Foundation

/-- One file of the stream of small files; its name has been sanitised. -/
structure SmallEntry where
  name : String
  rel : String
  data : List UInt8
deriving DecidableEq

/-- What is read next from the stream of small files. -/
inductive BatchFront where
  | ended
  | entry (entry : SmallEntry) (rest : List UInt8)
  | failed (error : EngineError)
deriving DecidableEq

/-- `String::from_utf8`. -/
def fromUtf8 (bytes : List UInt8) : Option String :=
  String.fromUTF8? (ByteArray.mk bytes.toArray)

/-- `read_exact`: so many bytes, if the stream has them. -/
def readBytes (count : Nat) (stream : List UInt8) : Option (List UInt8 × List UInt8) :=
  if stream.length < count then none else some (stream.take count, stream.drop count)

/-- A length in two bytes and a text of that length. -/
def readText (lengthError textError utf8Error : String) (stream : List UInt8) :
    Except EngineError (String × List UInt8) :=
  match readBytes 2 stream with
  | none => .error (.io lengthError)
  | some (length, stream) =>
    match readBytes (fromBeBytes length) stream with
    | none => .error (.io textError)
    | some (bytes, stream) =>
      match fromUtf8 bytes with
      | none => .error (.protocol utf8Error)
      | some text => .ok (text, stream)

/-- The rest of an entry, after its name. -/
def readBody (name : String) (stream : List UInt8) : BatchFront :=
  match readText "读目录长" "读目录名" "目录名非 UTF-8" stream with
  | .error error => .failed error
  | .ok (rel, stream) =>
    match readBytes 8 stream with
    | none => .failed (.io "读文件大小")
    | some (size, stream) =>
      let fileSize := fromBeBytes size
      if fileSize > smallFileLimit then
        .failed (.protocol ("批流文件超过小文件上限: 声明 " ++ toString fileSize ++
          " 字节, 上限 " ++ toString smallFileLimit))
      else
        match readBytes fileSize stream with
        | none => .failed (.io "读文件数据")
        | some (data, stream) => .entry { name, rel, data } stream

/-- One iteration of `recv_small_files_batched` up to the data of the file. A stream that ends
cleanly before the next entry is complete. -/
def nextEntry (stream : List UInt8) (clean : Bool) : BatchFront :=
  if stream.isEmpty && clean then .ended
  else if stream.length = 1 && clean then
    .failed (.protocol "名长读取不完整: 流结束前读了 1 字节")
  else
    match readText "读名长" "读文件名" "文件名非 UTF-8" stream with
    | .error error => .failed error
    | .ok (name, stream) =>
      match sanitizeFileName name with
      | .error error => .failed error
      | .ok name => readBody name stream

/-- The names `write_small_file` tries. -/
def smallCandidate (platform : Platform) (destDir : Location) (fileName : String) (i : Nat) :
    Location :=
  if i = 0 then platform.join destDir fileName else platform.join destDir (countedName fileName i)

/-- `write_small_file`, in a directory that has been made. -/
def writeSmallFile (platform : Platform) (fs : FileSystem) (destDir : Location) (fileName : String)
    (data : List UInt8) (outcome : FileOutcome) : FileSystem × Except EngineError Placed :=
  match firstFree (fun i => fs.present (smallCandidate platform destDir fileName i)) counterRange 0 with
  | none => (fs, .error (.io "counter"))
  | some i => fs.writeNew (smallCandidate platform destDir fileName i) data outcome

/-- How receiving one small file goes on the disk. -/
structure SmallOutcome where
  dirMade : Bool
  write : FileOutcome
  indexSaved : Bool
deriving DecidableEq

/-- One iteration of `recv_small_files_batched` after the data of the file: the file is written,
and recorded in the index under the hash of its content. -/
def recvSmallFile (hash : List UInt8 → String) (format : IndexFormat)
    (platform : Platform) (fs : FileSystem) (root : Location) (entry : SmallEntry)
    (outcome : SmallOutcome) : FileSystem × Except EngineError Placed :=
  if !outcome.dirMade then (fs, .error (.io "create_dir_all"))
  else
    let destDir := platform.joinAll root (sanitizeRelDir entry.rel)
    let fs := fs.createDirAll destDir
    match writeSmallFile platform fs destDir entry.name entry.data outcome.write with
    | (fs, .error error) => (fs, .error error)
    | (fs, .ok placed) =>
      let index := (loadIndex format fs root).insert (hash entry.data) placed.place
        entry.data.length
      (saveIndex format fs root index outcome.indexSaved, .ok placed)

/-- The stream of small files: the bytes that are read, and whether the stream ends cleanly after
them. -/
structure BatchStream where
  bytes : List UInt8
  clean : Bool
deriving DecidableEq

section Chunked

/-- `MetaResp`, the answer to a metadata request. -/
structure MetaResp where
  jobId : Nat
  fileName : String
  totalSize : Nat
  chunkHashes : List String
  fileHash : Option String
deriving DecidableEq

/-- What happens while a window of chunks is awaited: a chunk arrives and is written, or the
transfer breaks off. -/
inductive Arrival where
  | chunk (i : Nat) (data : List UInt8) (outcome : PartWriter.WriteOutcome)
  | failed (error : EngineError)
deriving DecidableEq

variable (hash : List UInt8 → String)

/-- `run_receiver`: as many chunk streams are taken as chunks were asked for, each of one of
these chunks. What arrives after that is left. -/
def runReceiver (batch : List Nat) : Nat → Disk → PartWriter → List Arrival →
    Disk × PartWriter × Except EngineError (List Arrival)
  | 0, disk, writer, arrivals => (disk, writer, .ok arrivals)
  | _ + 1, disk, writer, [] => (disk, writer, .error .timeout)
  | _ + 1, disk, writer, .failed error :: _ => (disk, writer, .error error)
  | awaited + 1, disk, writer, .chunk i data outcome :: arrivals =>
    if i ∉ batch then (disk, writer, .error (.protocol "块流不匹配"))
    else
      match writer.writeChunk hash disk i data outcome with
      | (disk, writer, .error error) => (disk, writer, .error error)
      | (disk, writer, .ok _) => runReceiver batch awaited disk writer arrivals

/-- The loop over windows of missing chunks; the size of each window is at least one. -/
def fetchMissing (window : Nat → Nat) : Nat → Disk → PartWriter → List Nat → List Arrival →
    Disk × PartWriter × Except EngineError Unit
  | 0, disk, writer, _, _ => (disk, writer, .ok ())
  | _ + 1, disk, writer, [], _ => (disk, writer, .ok ())
  | fuel + 1, disk, writer, missing, arrivals =>
    let size := max 1 (window missing.length)
    let batch := missing.take size
    match runReceiver hash batch batch.length disk writer arrivals with
    | (disk, writer, .error error) => (disk, writer, .error error)
    | (disk, writer, .ok rest) => fetchMissing window fuel disk writer (missing.drop size) rest

/-- What the file system does in a chunked transfer: the two saves of opening, the outcome of
`finalize`, and the save on dropping the writer when the transfer breaks off. -/
structure PartOutcome where
  first : SaveOutcome
  second : SaveOutcome
  finish : PartWriter.FinalizeOutcome
  dropped : SaveOutcome
deriving DecidableEq

/-- The directory of a job under `.localtrans-parts`. -/
def partsDir (root : Location) (job : Nat) : Location :=
  root.below [".localtrans-parts", hexEncode (BitVec.ofNat 64 job)]

/-- The places a part writer makes: its directory with those on the way to it, and two files. -/
def partPlaces (fs : FileSystem) (root : Location) (job : Nat) : List Location :=
  ((FileSystem.wayTo (partsDir root job)).filter fun place => !fs.present place) ++
    [(partsDir root job).child "part.bin", (partsDir root job).child "manifest.json"]

/-- `PartWriter::finalize` into a directory: it is made, a free name is chosen, and `part.bin` is
renamed to it. -/
def finalizeInto (platform : Platform) (fs : FileSystem) (destDir : Location)
    (writer : PartWriter) (outcome : PartWriter.FinalizeOutcome) :
    FileSystem × Except EngineError Placed :=
  match writer.finalize fs.disk outcome with
  | (disk, .error error) =>
    -- The last thing that can fail is the renaming, and then the directory has been made.
    let fs := if error = .io "rename" then fs.createDirAll destDir else fs
    ({ fs with disk }, .error error)
  | (disk, .ok (file, content)) =>
    let fs := fs.createDirAll destDir
    let name := PartWriter.resolveNameConflict platform.style
      (fun name => fs.present (platform.join destDir name)) writer.manifest.fileName
    let place := platform.join destDir name
    ({ fs with disk }.link place (.file file), .ok { place, content })

/-- The chunked part of a transfer in the given job directory: open or take up, fetch what is
missing, finalize. A cancelled transfer removes its job directory. -/
def receiveChunked (platform : Platform) (fs : FileSystem) (partsRoot destDir : Location)
    (job : Nat) (m : Manifest) (window : Nat → Nat) (arrivals : List Arrival)
    (outcome : PartOutcome) : FileSystem × Except EngineError Placed :=
  let fs := { fs with created := fs.created ++ partPlaces fs partsRoot job }
  match PartWriter.loadOrOpen fs.disk job m outcome.first outcome.second with
  | (disk, .error error) => ({ fs with disk }, .error error)
  | (disk, .ok writer) =>
    let missing := writer.manifest.missingChunks
    match fetchMissing hash window (missing.length + 1) disk writer missing arrivals with
    | (disk, writer, .error error) =>
      let disk := if error = .cancelled then disk.removeDir job true true else disk
      ({ fs with disk := writer.drop disk outcome.dropped }, .error error)
    | (disk, writer, .ok _) =>
      finalizeInto platform { fs with disk } destDir writer outcome.finish

/-- `start_pull_parts` from the answer to the metadata request on: `jobs` are the job directories
in the order they are listed. A file without chunks is opened anew and finalized at once. -/
def startPullParts (platform : Platform) (fs : FileSystem) (partsRoot destDir : Location)
    (source : Option String × Option String × Option String)
    (answer : Except EngineError MetaResp) (jobs : List Nat) (window : Nat → Nat)
    (arrivals : List Arrival) (outcome : PartOutcome) : FileSystem × Except EngineError Placed :=
  match answer with
  | .error error => (fs, .error error)
  | .ok answer =>
    let m := Manifest.fromMetaWithSource answer.fileName answer.totalSize answer.chunkHashes
      source.1 source.2.1 source.2.2
    let job := chooseJobDir fs.disk jobs m answer.jobId
    if m.chunkCount = 0 then
      let fs := { fs with created := fs.created ++ partPlaces fs partsRoot job }
      match PartWriter.open fs.disk job m outcome.first outcome.second with
      | (disk, .error error) => ({ fs with disk }, .error error)
      | (disk, .ok writer) =>
        finalizeInto platform { fs with disk } destDir writer outcome.finish
    else receiveChunked hash platform fs partsRoot destDir job m window arrivals outcome

/-- How an instant hit of a pushed file goes. -/
structure InstantOutcome where
  place : PlaceOutcome
  indexSaved : Bool
deriving DecidableEq

/-- The directory an offered file goes to. -/
def offeredDir (platform : Platform) (root : Location) (file : OfferFile) : Location :=
  platform.joinAll root (sanitizeRelDir file.relDir)

/-- The hash under which a pushed file is looked up and recorded, if the sender gave one. -/
def MetaResp.namedHash (answer : MetaResp) : Option String :=
  answer.fileHash.filter fun hash => !hash.isEmpty

/-- The file that the index has under the hash of a pushed file, and the hash: an instant hit. -/
def instantHit (format : IndexFormat) (fs : FileSystem) (root : Location) (answer : MetaResp) :
    Option (String × Location) :=
  answer.namedHash.bind fun hash =>
    (((loadIndex format fs root).pruneMissing fs.present).lookup hash answer.totalSize).map fun src =>
      (hash, src)

/-- `recv_push_large_file` from the answer to the metadata request on; its only call gives one
directory for the files and the parts. The name and the size are checked; then a file that the
index has under the hash is copied, or the chunks are fetched. -/
def recvPushLargeFile (format : IndexFormat) (platform : Platform)
    (fs : FileSystem) (root : Location) (file : OfferFile) (answer : Except EngineError MetaResp)
    (arrivals : List Arrival) (outcome : PartOutcome) (instant : InstantOutcome) :
    FileSystem × Except EngineError Placed :=
  match answer with
  | .error error => (fs, .error error)
  | .ok answer =>
    match sanitizeFileName answer.fileName with
    | .error error => (fs, .error error)
    | .ok fileName =>
      if answer.totalSize ≠ file.size then
        (fs, .error (.protocol ("MetaResp total_size (" ++ toString answer.totalSize ++
          ") 与 Offer 声明 (" ++ toString file.size ++ ") 不一致, 拒绝接收")))
      else
        match instantHit format fs root answer with
        | some (hash, src) =>
          -- The index that is saved afterwards is the one that was loaded here.
          let index := (loadIndex format fs root).pruneMissing fs.present
          match placeDedupCopy platform fs src (offeredDir platform root file) fileName
            instant.place with
          | (fs, .error error) => (fs, .error error)
          | (fs, .ok placed) =>
            let index := index.insert hash placed.place answer.totalSize
            (saveIndex format fs root index instant.indexSaved, .ok placed)
        | none =>
          let m := Manifest.fromMeta fileName answer.totalSize answer.chunkHashes
          match receiveChunked hash platform fs root (offeredDir platform root file)
            answer.jobId m
            (fun _ => 4) arrivals outcome with
          | (fs, .error error) => (fs, .error error)
          | (fs, .ok placed) =>
            match answer.namedHash with
            | some hash =>
              let index := (loadIndex format fs root).insert hash placed.place
                answer.totalSize
              (saveIndex format fs root index instant.indexSaved, .ok placed)
            | none => (fs, .ok placed)

/-- One file of a directory pull: its relative path as it was listed, the answer to the metadata
request, and how the transfer goes. -/
structure ListedFile where
  rel : String
  answer : Except EngineError MetaResp
  jobs : List Nat
  window : Nat → Nat
  arrivals : List Arrival
  outcome : PartOutcome

/-- The directory a listed file goes to. -/
def listedDir (platform : Platform) (downloadDir : Location) (dirName : String)
    (parent : List String) : Location :=
  platform.joinAll (platform.join downloadDir (sanitizeComponent dirName)) parent

/-- The loop of `start_pull_dir`: a file that fails is noted, and a path that is refused ends it. -/
def pullListed (platform : Platform) (downloadDir : Location) (dirName peer shareId : String) :
    FileSystem → List ListedFile → Nat → List String →
      FileSystem × Except EngineError (Nat × List String)
  | fs, [], succeeded, failed => (fs, .ok (succeeded, failed))
  | fs, file :: rest, succeeded, failed =>
    match sanitizeRelParent platform.style file.rel with
    | .error error => (fs, .error error)
    | .ok parent =>
      match startPullParts hash platform fs downloadDir
        (listedDir platform downloadDir dirName parent) (some peer, some shareId, some file.rel)
        file.answer file.jobs file.window file.arrivals file.outcome with
      | (fs, .error _) =>
        pullListed platform downloadDir dirName peer shareId fs rest succeeded
          (failed ++ [file.rel])
      | (fs, .ok _) =>
        pullListed platform downloadDir dirName peer shareId fs rest (succeeded + 1) failed

/-- `start_pull_dir`, from the files that were listed on. -/
def startPullDir (platform : Platform) (fs : FileSystem) (downloadDir : Location)
    (dirRel peer shareId : String) (listing : List ListedFile) :
    FileSystem × Except EngineError (Nat × List String) :=
  if listing.isEmpty then (fs, .error (.protocol "目录为空或不存在"))
  else
    let dirName := (platform.style.fileName dirRel).getD "folder"
    pullListed hash platform downloadDir dirName peer shareId fs listing 0 []

end Chunked

end LocalTrans
