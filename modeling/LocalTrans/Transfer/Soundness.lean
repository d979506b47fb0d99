import LocalTrans.Foundation.Json
import LocalTrans.Transfer.Delivery

/-!
# What the inbox index says of a file

An entry of the index maps a hash to a path, and a file that is offered under the hash is copied
from there. `Inbox` is a download directory with its receive tasks, its user and restarts;
`inboxGuard` says what has to hold so that what is copied has the hash it is asked for: hashes that
a peer claims are those of the file, and nothing changes or replaces a file that an entry names.
-/

namespace LocalTrans

open Foundation

section ContentNames

variable (hash : List UInt8 → String)

/-- The chunk hashes of a file. -/
def chunkHashesOf (content : List UInt8) : List String :=
  (List.range (chunksNeeded content.length)).map fun i =>
    hash (slice content (i * chunkSize) chunkSize)

/-- The hash of a large file: that of its chunk hashes, one after the other. -/
def listHash (chunkHashes : List String) : String :=
  hash (Json.plain (String.join chunkHashes))

/-- The hash a sender gives for a file: of its content, or of its chunk hashes if it is large. -/
def contentName (content : List UInt8) : String :=
  if content.length ≤ smallFileLimit then hash content else listHash hash (chunkHashesOf hash content)

variable {hash} {m other : Manifest} {content : List UInt8}

/-- A file of a manifest with as many hashes as it needs has these chunk hashes. -/
theorem Manifest.Intact.chunkHashesOf (h : m.Intact hash content)
    (hcount : m.chunkHashes.length = chunksNeeded m.totalSize) :
    chunkHashesOf hash content = m.chunkHashes := by
  unfold LocalTrans.chunkHashesOf
  rw [h.length, ← hcount]
  refine List.ext_getElem (by simp) ?_
  intro i hfirst hsecond
  have hi : m.chunkHashes[i]? = some m.chunkHashes[i] := List.getElem?_eq_getElem hsecond
  rw [List.getElem_map, List.getElem_range]
  exact h.chunks i _ hi

/-- A manifest with the same chunks describes the same file. -/
theorem Manifest.Intact.congr (h : m.Intact hash content) (hsame : m.SameChunks other) :
    other.Intact hash content where
  length := by rw [h.length, hsame.1]
  chunks i expected hi := h.chunks i expected (by rw [hsame.2]; exact hi)

end ContentNames

section Chunks

variable {hash : List UInt8 → String} {platform : Platform} {fs next : FileSystem}
  {partsRoot destDir : Location} {job : Nat} {m : Manifest} {window : Nat → Nat}
  {arrivals : List Arrival} {outcome : PartOutcome} {placed : Placed} {disk : Disk}
  {writer : PartWriter}

/-- A `part.bin` keeps what it holds when a chunk is written. -/
theorem holds_write_chunk {i : Nat} {data : List UInt8} {written : PartWriter.WriteOutcome}
    {after : Disk} {marked : PartWriter}
    (h : writer.manifest.Holds hash (disk.store writer.file))
    (hwrite : writer.writeChunk hash disk i data written = (after, marked, .ok ())) :
    marked.manifest.Holds hash (after.store marked.file) := by
  have hexpected := write_chunk_hash hwrite
  obtain ⟨hlength, rfl, hstore, -⟩ := write_chunk_ok hwrite
  show (writer.manifest.mark i).Holds hash (after.store writer.file)
  rw [hstore]
  exact h.receive hlength hexpected

/-- If what is taken up has what its bitmap claims, the file that is placed is the one that was
announced. -/
theorem receive_chunked_intact
    (hstart : (takenUp fs.disk job m).Holds hash (fs.disk.partContent job))
    (h : receiveChunked hash platform fs partsRoot destDir job m window arrivals outcome =
      (next, .ok placed)) : m.Intact hash placed.content := by
  unfold receiveChunked at h
  dsimp only at h
  split at h
  · cases h
  · next disk writer hload =>
    have hopened := opened_of_load hload
    split at h
    · cases h
    · next disk' writer' _ hfetch =>
      have hfetched := Fetched.start.all hfetch
      have hholds : writer'.manifest.Holds hash (disk'.store writer'.file) := by
        refine fetch_missing_keeps (P := fun disk writer =>
          writer.manifest.Holds hash (disk.store writer.file)) ?_ ?_ hfetch
        · intro i _ disk writer data written after marked hheld hwrite
          exact holds_write_chunk hheld hwrite
        · rw [hopened.manifest, hopened.content]
          exact hstart
      obtain ⟨file, after, hmissing, hpart, -, -, hcontent, -, -⟩ := finalize_into_ok h
      have hfile : file = writer'.file := by
        have hsame := hfetched.part
        rw [hopened.dir, hopened.part] at hsame
        rw [hfetched.dir, hopened.dir, hsame] at hpart
        rw [hfetched.file]
        exact (Option.some.inj hpart).symm
      rw [hcontent, hfile]
      have hchunks := hfetched.chunks
      rw [hopened.manifest] at hchunks
      exact (hholds.intact hmissing).congr (hchunks.trans taken_up_same_chunks)

end Chunks

section Machine

/-- A download directory, and the receive tasks that work on it. -/
structure Inbox where
  fs : FileSystem
  tasks : List InboundPhase

/-- An offer is accepted, a task takes a step, a file is pulled into the directory, the user changes
the contents of a file, puts one somewhere or removes something, or the program is restarted. -/
inductive InboxInput where
  | accept (files : List OfferFile)
  | task (i : Nat) (input : InboundInput)
  | pull (partsRoot destDir : Location) (source : Option String × Option String × Option String)
      (answer : Except EngineError MetaResp) (jobs : List Nat) (window : Nat → Nat)
      (arrivals : List Arrival) (outcome : PartOutcome)
  | edit (place : Location) (content : List UInt8)
  | put (place : Location) (content : List UInt8)
  | remove (place : Location)
  | restart

/-- A file is recorded under a hash, after it was copied as an instant hit or came from the peer. -/
inductive InboxEvent where
  | filed (instant : Bool) (named : String) (placed : Placed)
deriving DecidableEq

/-- The entries a task holds: of the index it has loaded, and of the files it is to copy. -/
def InboundPhase.mentions : InboundPhase → List (String × Location)
  | .small plan | .entries plan _ =>
    plan.index.map (fun entry => (entry.1, entry.2.path)) ++
      plan.instants.map fun item => (item.hash, item.src)
  | .instants left index _ =>
    index.map (fun entry => (entry.1, entry.2.path)) ++ left.map fun item => (item.hash, item.src)
  | .large _ | .ended => []

/-- The large files a task is still to receive. -/
def InboundPhase.largeFiles : InboundPhase → List OfferFile
  | .small plan | .entries plan _ => plan.large
  | .instants _ _ later => later
  | .large left => left
  | .ended => []

variable (hash : List UInt8 → String) (format : IndexFormat) (platform : Platform) (root : Location)

/-- What the next step of a task records: under which hash, and whether it is an instant hit. -/
def namedBy (task : Inbound) (input : InboundInput) : Option (Bool × String) :=
  match input, task.phase with
  | .entry _, .entries _ stream =>
    match nextEntry stream.bytes stream.clean with
    | .entry entry _ => some (false, hash entry.data)
    | _ => none
  | .instant _, .instants (item :: _) _ _ => some (true, item.hash)
  | .large (.ok answer) _ _ _, .large _ =>
    match instantHit format task.fs root answer with
    | some (found, _) => some (true, found)
    | none => answer.namedHash.map fun found => (false, found)
  | _, _ => none

/-- The files of a step that were recorded. -/
def filings (named : Option (Bool × String)) (emitted : List InboundEvent) : List InboxEvent :=
  match named with
  | none => []
  | some (instant, found) =>
    (receipts emitted).map fun receipt => .filed instant found receipt.placed

namespace Inbox

/-- Every hash and path that the index on the disk or a task holds. -/
def mentions (inbox : Inbox) : List (String × Location) :=
  (loadIndex format inbox.fs root).map (fun entry => (entry.1, entry.2.path)) ++
    inbox.tasks.flatMap InboundPhase.mentions

/-- One step of the inbox. -/
def step : Machine Inbox InboxInput InboxEvent
  | inbox, .accept files =>
    let task := Inbound.accept format inbox.fs root files
    some ({ inbox with tasks := inbox.tasks ++ [task.phase] }, [])
  | inbox, .task i input =>
    match inbox.tasks[i]? with
    | none => none
    | some phase =>
      let task : Inbound := { fs := inbox.fs, phase }
      match Inbound.step hash format platform root task input with
      | none => none
      | some (next, emitted) =>
        some ({ fs := next.fs, tasks := inbox.tasks.set i next.phase },
          filings (namedBy hash format root task input) emitted)
  | inbox, .pull partsRoot destDir source answer jobs window arrivals outcome =>
    let (fs, _) := startPullParts hash platform inbox.fs partsRoot destDir source answer jobs window
      arrivals outcome
    some ({ inbox with fs }, [])
  | inbox, .edit place content =>
    match inbox.fs.tree place with
    | some (.file number) =>
      some ({ inbox with fs := { inbox.fs with disk := inbox.fs.disk.write number content } }, [])
    | _ => none
  | inbox, .put place content => some ({ inbox with fs := inbox.fs.newFile place content }, [])
  | inbox, .remove place =>
    some ({ inbox with fs := { inbox.fs with tree := Function.update inbox.fs.tree place none } }, [])
  | inbox, .restart => some ({ inbox with tasks := [] }, [])

/-- A place that is neither that of the index nor named by an entry. -/
def Fresh (inbox : Inbox) (place : Location) : Prop :=
  place ≠ root.child indexName ∧ ∀ mention ∈ inbox.mentions format root, mention.2 ≠ place
deriving Decidable

end Inbox

instance (m : Manifest) (content : List UInt8) : Decidable (m.Holds hash content) :=
  decidable_of_iff
    (m.received.length = m.chunkCount ∧ m.Fits content.length ∧
      ∀ i ∈ List.range m.received.length, m.received[i]? = some true →
        ∀ expected ∈ m.chunkHashes[i]?,
          (m.chunkLen i ≠ 0 → m.chunkOffset i + m.chunkLen i ≤ content.length) ∧
            hash (m.chunk content i) = expected)
    (by
      refine ⟨fun ⟨hbitmap, hfits, hchunks⟩ => ⟨hbitmap, hfits, fun i expected hbit hexpected => ?_⟩,
        fun h => ⟨h.bitmap, h.fits, fun i _ hbit expected hexpected => h.chunks i expected hbit hexpected⟩⟩
      obtain ⟨hi, -⟩ := List.getElem?_eq_some_iff.mp hbit
      exact hchunks i (List.mem_range.mpr hi) hbit expected hexpected)

/-- A copy is not made of a directory, and goes to the source itself or to a fresh place. -/
def CopyFresh (inbox : Inbox) (src destDir : Location) (fileName : String) : Prop :=
  (inbox.fs.createDirAll destDir).tree src ≠ some .dir ∧
    ∀ target ∈ dedupTarget platform (inbox.fs.createDirAll destDir) src destDir fileName,
      (inbox.fs.createDirAll destDir).sameFile src target = true ∨ inbox.Fresh format root target
deriving Decidable

/-- A claimed hash is that of the chunk hashes, these are as many as the size needs, and what is left
in the job directory is what its bitmap says. -/
def ClaimHolds (fs : FileSystem) (answer : MetaResp) (fileName : String) : Prop :=
  ∀ named ∈ answer.namedHash,
    named = listHash hash answer.chunkHashes ∧ answer.Consistent ∧
      (takenUp fs.disk answer.jobId
        (Manifest.fromMeta fileName answer.totalSize answer.chunkHashes)).Holds hash
          (fs.disk.partContent answer.jobId)
deriving Decidable

/-- The condition on a large file that is received. -/
def LargeFiled (inbox : Inbox) (file : OfferFile) (answer : MetaResp) : Prop :=
  match sanitizeFileName answer.fileName with
  | .error _ => True
  | .ok fileName =>
    answer.totalSize ≠ file.size ∨
      match instantHit format inbox.fs root answer with
      | some (_, src) =>
        CopyFresh format platform root inbox src (offeredDir platform root file) fileName
      | none =>
        inbox.Fresh format root
            (finalPlace platform inbox.fs (offeredDir platform root file) fileName) ∧
          ClaimHolds hash inbox.fs answer fileName

instance (inbox : Inbox) (file : OfferFile) (answer : MetaResp) :
    Decidable (LargeFiled hash format platform root inbox file answer) := by
  unfold LargeFiled
  induction sanitizeFileName answer.fileName using Except.casesOn with
  | error => infer_instance
  | ok =>
    refine @instDecidableOr _ _ _ ?_
    induction instantHit format inbox.fs root answer using Option.casesOn <;> infer_instance

/-- The condition on the step of a task. -/
def taskFiled (inbox : Inbox) (phase : InboundPhase) : InboundInput → Prop
  | .entry _ =>
    match phase with
    | .entries _ stream =>
      match nextEntry stream.bytes stream.clean with
      | .entry entry _ =>
        ∀ place ∈ smallPlace platform inbox.fs root entry, inbox.Fresh format root place
      | _ => True
    | _ => True
  | .instant _ =>
    match phase with
    | .instants (item :: _) _ _ =>
      CopyFresh format platform root inbox item.src (item.destDir platform root) item.name
    | _ => True
  | .large (.ok answer) _ _ _ =>
    match phase with
    | .large (file :: _) => LargeFiled hash format platform root inbox file answer
    | _ => True
  | _ => True

instance (inbox : Inbox) (phase : InboundPhase) (input : InboundInput) :
    Decidable (taskFiled hash format platform root inbox phase input) := by
  unfold taskFiled
  induction input using InboundInput.casesOn with
  | entry =>
    induction phase using InboundPhase.casesOn with
    | entries _ stream =>
      dsimp only
      induction nextEntry stream.bytes stream.clean using BatchFront.casesOn <;> infer_instance
    | _ => infer_instance
  | instant =>
    induction phase using InboundPhase.casesOn with
    | instants items => induction items using List.casesOn <;> infer_instance
    | _ => infer_instance
  | large answer =>
    induction answer using Except.casesOn with
    | error => infer_instance
    | ok =>
      induction phase using InboundPhase.casesOn with
      | large files => induction files using List.casesOn <;> infer_instance
      | _ => infer_instance
  | _ => infer_instance

/-- The condition on one step. -/
def inboxGuard : Guard Inbox InboxInput InboxEvent :=
  fun _ inbox input =>
    match input with
    | .task i input =>
      ∀ phase ∈ inbox.tasks[i]?, taskFiled hash format platform root inbox phase input
    | .pull _ destDir _ (.ok answer) _ _ _ _ =>
      inbox.Fresh format root (finalPlace platform inbox.fs destDir answer.fileName)
    | .edit place _ =>
      match inbox.fs.tree place with
      | some (.file number) =>
        inbox.fs.tree (root.child indexName) ≠ some (.file number) ∧
          ∀ mention ∈ inbox.mentions format root, inbox.fs.tree mention.2 ≠ some (.file number)
      | _ => True
    | .put place _ => inbox.Fresh format root place
    | _ => True

instance (trace : List InboxEvent) (inbox : Inbox) (input : InboxInput) :
    Decidable (inboxGuard hash format platform root trace inbox input) := by
  unfold inboxGuard
  split
  · infer_instance
  · infer_instance
  · split <;> infer_instance
  · infer_instance
  · infer_instance

end Machine

variable {answer : MetaResp} {file : OfferFile}

section Entries

variable {hash : List UInt8 → String} {format : IndexFormat} {platform : Platform} {root : Location}
  {fs next : FileSystem} {index : InboxIndex} {named : String} {size : Nat} {src place : Location}
  {entry : String × IndexEntry} {placed : Placed}

/-- What is found in an index is one of its entries. -/
theorem mem_of_lookup (h : index.lookup named size = some src) :
    ∃ entry ∈ index, entry.1 = named ∧ entry.2.path = src := by
  unfold InboxIndex.lookup at h
  split at h
  · next entry hfind =>
    split at h
    · cases h
      have hname := List.find?_some hfind
      exact ⟨entry, List.mem_of_find?_eq_some hfind, by simpa using hname, rfl⟩
    · cases h
  · cases h

/-- An entry after an insertion is the new one or was there before. -/
theorem mem_of_insert (h : entry ∈ index.insert named place size) :
    entry = (named, { path := place, size }) ∨ entry ∈ index := by
  rcases List.mem_cons.mp h with hnew | hold
  · exact .inl hnew
  · exact .inr (List.mem_filter.mp hold).1

/-- What is loaded after a save is what was saved, if that succeeded. -/
theorem load_save_index (saved : Bool) :
    loadIndex format (saveIndex format fs root index saved) root =
      if saved then index else loadIndex format fs root := by
  cases saved with
  | false => rfl
  | true =>
    unfold loadIndex saveIndex
    simp

variable {small : SmallEntry}

/-- The data of an entry of the stream is within the limit for small files. -/
theorem next_entry_size {stream rest : List UInt8} {clean : Bool}
    (h : nextEntry stream clean = .entry small rest) : small.data.length ≤ smallFileLimit := by
  unfold nextEntry at h
  split at h
  · cases h
  split at h
  · cases h
  split at h
  · cases h
  split at h
  · cases h
  unfold readBody at h
  split at h
  · cases h
  split at h
  · cases h
  dsimp only at h
  split at h
  · cases h
  next hlimit =>
  split at h
  · cases h
  · next data left hdata =>
    cases h
    unfold readBytes at hdata
    split at hdata
    · cases hdata
    · cases hdata
      show (List.take _ _).length ≤ _
      rw [List.length_take]
      omega

/-- Where a small file has been put. -/
theorem recv_small_place {outcome : SmallOutcome}
    (h : recvSmallFile hash format platform fs root small outcome = (next, .ok placed)) :
    smallPlace platform fs root small = some placed.place := by
  unfold recvSmallFile at h
  split at h
  · cases h
  dsimp only at h
  split at h
  · cases h
  · next after placed' hwrite =>
    cases h
    unfold writeSmallFile at hwrite
    split at hwrite
    · cases hwrite
    · next i hfree =>
      unfold smallPlace
      dsimp only
      rw [hfree]
      cases hout : outcome.write with
      | done =>
        rw [hout] at hwrite
        cases hwrite
        rfl
      | broken written =>
        rw [hout] at hwrite
        cases hwrite
      | refused =>
        rw [hout] at hwrite
        cases hwrite

/-- After a small file was received, the index has its entry and what it had before. -/
theorem recv_small_index {outcome : SmallOutcome} (hsound : fs.Sound)
    (h : recvSmallFile hash format platform fs root small outcome = (next, .ok placed))
    (hplace : placed.place ≠ root.child indexName) (hmem : entry ∈ loadIndex format next root) :
    entry ∈ loadIndex format fs root ∨
      entry.1 = hash small.data ∧ entry.2.path = placed.place := by
  obtain ⟨-, -, -, hnext⟩ := recv_small_ok h
  have hmade : FileSystem.Keeps (fun place => place = root.child indexName) fs
      ((fs.createDirAll (platform.joinAll root (sanitizeRelDir small.rel))).newFile placed.place
        small.data) := by
    have hdir : FileSystem.Keeps (fun place => place = root.child indexName) fs
        (fs.createDirAll (platform.joinAll root (sanitizeRelDir small.rel))) :=
      FileSystem.createDirAll_keeps hsound
    exact hdir.trans (FileSystem.newFile_keeps hdir.sound hplace)
  have hload : loadIndex format _ root = loadIndex format fs root := hmade.loadIndex hsound rfl
  rw [hnext, load_save_index, hload] at hmem
  split at hmem
  · rcases mem_of_insert hmem with rfl | hold
    · exact .inr ⟨rfl, rfl⟩
    · exact .inl hold
  · exact .inl hmem

/-- An instant hit is an entry of the index under the hash of the answer. -/
theorem mem_of_instant_hit {found : String}
    (h : instantHit format fs root answer = some (found, src)) :
    answer.namedHash = some found ∧
      ∃ entry ∈ loadIndex format fs root, entry.1 = found ∧ entry.2.path = src := by
  unfold instantHit at h
  obtain ⟨claimed, hclaimed, hhit⟩ := Option.bind_eq_some_iff.mp h
  obtain ⟨hit, hlookup, hsame⟩ := Option.map_eq_some_iff.mp hhit
  cases hsame
  obtain ⟨entry, hmem, hname, hpath⟩ := mem_of_lookup hlookup
  exact ⟨hclaimed, entry, (List.mem_filter.mp hmem).1, hname, hpath⟩

/-- After a large file was received, the index has at most its entry and what it had before. -/
theorem recv_push_index {arrivals : List Arrival} {outcome : PartOutcome} {instant : InstantOutcome}
    (hsound : fs.Sound)
    (h : recvPushLargeFile hash format platform fs root file (.ok answer) arrivals outcome instant =
      (next, .ok placed)) (hplace : placed.place ≠ root.child indexName)
    (hmem : entry ∈ loadIndex format next root) :
    entry ∈ loadIndex format fs root ∨
      answer.namedHash = some entry.1 ∧ entry.2.path = placed.place := by
  unfold recvPushLargeFile at h
  dsimp only at h
  split at h
  · cases h
  split at h
  · cases h
  split at h
  · next found src hhit =>
    split at h
    · cases h
    · next fs' placed' hcopy =>
      cases h
      have hput := (place_dedup_ok hcopy).1
      have hcopied : FileSystem.Keeps (fun place => place = root.child indexName) fs
          (placeDedupCopy platform fs src (offeredDir platform root file) _ instant.place).1 :=
        place_dedup_keeps instant.place hsound fun target htarget _ hindex => by
          rw [hput] at htarget
          cases htarget
          exact hplace hindex
      rw [hcopy] at hcopied
      have hload : loadIndex format fs' root = loadIndex format fs root := hcopied.loadIndex hsound rfl
      rw [load_save_index, hload] at hmem
      split at hmem
      · rcases mem_of_insert hmem with rfl | hold
        · exact .inr ⟨(mem_of_instant_hit hhit).1, rfl⟩
        · exact .inl (List.mem_filter.mp hold).1
      · exact .inl hmem
  · split at h
    · cases h
    · next fs' placed' hreceive =>
      have hput := (receive_chunked_ok hreceive).2.1
      have hsame : placed' = placed := by
        split at h
        · cases h
          rfl
        · cases h
          rfl
      subst hsame
      have hreceived : FileSystem.Keeps (fun place => place = root.child indexName) fs
          (receiveChunked hash platform fs root (offeredDir platform root file) answer.jobId
            _ (fun _ => 4) arrivals outcome).1 :=
        receive_chunked_keeps hsound (by
          intro hindex
          rw [← hput] at hindex
          exact hplace hindex)
      rw [hreceive] at hreceived
      have hload : loadIndex format fs' root = loadIndex format fs root :=
        hreceived.loadIndex hsound rfl
      split at h
      · next named hnamed =>
        cases h
        rw [load_save_index, hload] at hmem
        split at hmem
        · rcases mem_of_insert hmem with rfl | hold
          · exact .inr ⟨hnamed, rfl⟩
          · exact .inl hold
        · exact .inl hmem
      · cases h
        rw [hload] at hmem
        exact .inl hmem

end Entries

variable {mention : String × Location}

section Invariant

/-- The place of an entry. -/
def Inbox.Named (format : IndexFormat) (root : Location) (inbox : Inbox) (place : Location) : Prop :=
  ∃ mention ∈ inbox.mentions format root, mention.2 = place

/-- The place of the index or of an entry. -/
def Inbox.Watched (format : IndexFormat) (root : Location) (inbox : Inbox) (place : Location) : Prop :=
  place = root.child indexName ∨ inbox.Named format root place

/-- No entry names the index, and where a named file is, its contents have the hash it is named
by. -/
structure Inbox.Upright (hash : List UInt8 → String) (format : IndexFormat) (root : Location)
    (inbox : Inbox) : Prop where
  sound : inbox.fs.Sound
  apart : ∀ mention ∈ inbox.mentions format root, mention.2 ≠ root.child indexName
  named : ∀ mention ∈ inbox.mentions format root, ∀ content,
    inbox.fs.contentAt mention.2 = some content → contentName hash content = mention.1
  large : ∀ phase ∈ inbox.tasks, ∀ file ∈ phase.largeFiles, smallFileLimit < file.size

/-- An entry that was there, or one of the new ones. -/
def Known (format : IndexFormat) (root : Location) (inbox : Inbox) (new : List (String × Placed))
    (mention : String × Location) : Prop :=
  mention ∈ inbox.mentions format root ∨ ∃ entry ∈ new, mention = (entry.1, entry.2.place)

/-- What a step has done: only new entries are added, the named files have the contents they had,
and the files of new entries are there. -/
structure Filed (format : IndexFormat) (root : Location) (inbox next : Inbox)
    (new : List (String × Placed)) : Prop where
  sound : next.fs.Sound
  mentions : ∀ mention ∈ next.mentions format root, Known format root inbox new mention
  contents : ∀ mention ∈ inbox.mentions format root, ∀ content,
    next.fs.contentAt mention.2 = some content → inbox.fs.contentAt mention.2 = some content
  there : ∀ entry ∈ new, entry.2.place ≠ root.child indexName ∧
    next.fs.contentAt entry.2.place = some entry.2.content

/-- The inbox after a step, and the hashes of what was recorded. -/
structure Recorded (hash : List UInt8 → String) (format : IndexFormat) (root : Location)
    (next : Inbox) (emitted : List InboxEvent) : Prop where
  upright : next.Upright hash format root
  events : ∀ instant named placed, .filed instant named placed ∈ emitted →
    contentName hash placed.content = named

variable {hash : List UInt8 → String} {format : IndexFormat} {platform : Platform} {root : Location}
  {inbox next : Inbox} {new : List (String × Placed)} {emitted : List InboxEvent}
  {phase after : InboundPhase} {i : Nat} {fs : FileSystem} {place : Location} {named : String}
  {placed : Placed} {instant : Bool}

/-- A fresh place is not watched. -/
theorem Inbox.Fresh.not_watched (h : inbox.Fresh format root place) :
    ¬ inbox.Watched format root place := by
  intro hwatched
  rcases hwatched with hindex | ⟨mention, hmem, hsame⟩
  · exact h.1 hindex
  · exact h.2 mention hmem hsame

/-- No entry names the index. -/
theorem Inbox.Upright.index_not_named (h : inbox.Upright hash format root) :
    ¬ inbox.Named format root (root.child indexName) := by
  intro hnamed
  obtain ⟨mention, hmem, hsame⟩ := hnamed
  exact h.apart mention hmem hsame

/-- What an entry of the index mentions. -/
theorem mention_of_index {entry : String × IndexEntry}
    (h : entry ∈ loadIndex format inbox.fs root) :
    (entry.1, entry.2.path) ∈ inbox.mentions format root :=
  List.mem_append_left _ (List.mem_map.mpr ⟨entry, h, rfl⟩)

/-- What a task mentions. -/
theorem mention_of_task (hphase : inbox.tasks[i]? = some phase) (h : mention ∈ phase.mentions) :
    mention ∈ inbox.mentions format root :=
  List.mem_append_right _ (List.mem_flatMap.mpr ⟨phase, List.mem_of_getElem? hphase, h⟩)

/-- Kept places have the contents they had. -/
theorem contents_of_keeps {P : Location → Prop} (hsound : inbox.fs.Sound)
    (hkeeps : FileSystem.Keeps P inbox.fs fs)
    (hplaces : ∀ mention ∈ inbox.mentions format root, P mention.2) :
    ∀ mention ∈ inbox.mentions format root, ∀ content,
      fs.contentAt mention.2 = some content → inbox.fs.contentAt mention.2 = some content := by
  intro mention hmem content hcontent
  rw [← hkeeps.contentAt hsound (hplaces mention hmem)]
  exact hcontent

/-- The mentions after a task has changed. -/
theorem known_after_task
    (hindex : ∀ entry ∈ loadIndex format fs root, Known format root inbox new (entry.1, entry.2.path))
    (hafter : ∀ mention ∈ after.mentions, Known format root inbox new mention) :
    ∀ mention ∈ (Inbox.mk fs (inbox.tasks.set i after)).mentions format root,
      Known format root inbox new mention := by
  intro mention hmem
  rcases List.mem_append.mp hmem with hload | htask
  · obtain ⟨entry, hentry, rfl⟩ := List.mem_map.mp hload
    exact hindex entry hentry
  · obtain ⟨found, hfound, hmention⟩ := List.mem_flatMap.mp htask
    rcases List.mem_or_eq_of_mem_set hfound with hold | rfl
    · exact .inl (List.mem_append_right _ (List.mem_flatMap.mpr ⟨found, hold, hmention⟩))
    · exact hafter mention hmention

/-- If the new entries have the right hashes, all have. -/
theorem Inbox.Upright.filed (h : inbox.Upright hash format root)
    (hfiled : Filed format root inbox next new)
    (hnames : ∀ entry ∈ new, contentName hash entry.2.content = entry.1)
    (hlarge : ∀ phase ∈ next.tasks, ∀ file ∈ phase.largeFiles, smallFileLimit < file.size) :
    next.Upright hash format root where
  sound := hfiled.sound
  apart mention hmem := by
    rcases hfiled.mentions mention hmem with hold | ⟨entry, hentry, rfl⟩
    · exact h.apart mention hold
    · exact (hfiled.there entry hentry).1
  named mention hmem content hcontent := by
    rcases hfiled.mentions mention hmem with hold | ⟨entry, hentry, rfl⟩
    · exact h.named mention hold content (hfiled.contents mention hold content hcontent)
    · rw [(hfiled.there entry hentry).2] at hcontent
      cases hcontent
      exact hnames entry hentry
  large := hlarge

/-- The large files that are left after a task has changed. -/
theorem large_after_task (h : inbox.Upright hash format root)
    (hphase : inbox.tasks[i]? = some phase)
    (hless : ∀ file ∈ after.largeFiles, file ∈ phase.largeFiles) :
    ∀ found ∈ inbox.tasks.set i after, ∀ file ∈ found.largeFiles, smallFileLimit < file.size := by
  intro found hfound file hfile
  rcases List.mem_or_eq_of_mem_set hfound with hold | rfl
  · exact h.large found hold file hfile
  · exact h.large phase (List.mem_of_getElem? hphase) file (hless file hfile)

/-- A step of a task that records nothing: what it saves was there. -/
theorem Inbox.Upright.silent (h : inbox.Upright hash format root)
    (hphase : inbox.tasks[i]? = some phase)
    (hkeeps : FileSystem.Keeps (inbox.Named format root) inbox.fs fs)
    (hindex : ∀ entry ∈ loadIndex format fs root,
      (entry.1, entry.2.path) ∈ inbox.mentions format root)
    (hafter : ∀ mention ∈ after.mentions, mention ∈ phase.mentions)
    (hless : ∀ file ∈ after.largeFiles, file ∈ phase.largeFiles) :
    Recorded hash format root { fs, tasks := inbox.tasks.set i after } [] where
  upright := by
    have hfiled : Filed format root inbox { fs, tasks := inbox.tasks.set i after } [] := by
      refine ⟨hkeeps.sound, known_after_task ?_ ?_, ?_, by simp⟩
      · intro entry hentry
        exact .inl (hindex entry hentry)
      · intro mention hmention
        exact .inl (mention_of_task hphase (hafter mention hmention))
      · exact contents_of_keeps h.sound hkeeps fun mention hmem => ⟨mention, hmem, rfl⟩
    exact h.filed hfiled (by simp) (large_after_task h hphase hless)
  events := by simp

/-- A step of a task that leaves everything that is watched alone. -/
theorem Inbox.Upright.quiet (h : inbox.Upright hash format root)
    (hphase : inbox.tasks[i]? = some phase)
    (hkeeps : FileSystem.Keeps (inbox.Watched format root) inbox.fs fs)
    (hafter : ∀ mention ∈ after.mentions, mention ∈ phase.mentions)
    (hless : ∀ file ∈ after.largeFiles, file ∈ phase.largeFiles) :
    Recorded hash format root { fs, tasks := inbox.tasks.set i after } [] := by
  have hload : loadIndex format fs root = loadIndex format inbox.fs root :=
    hkeeps.loadIndex h.sound (.inl rfl)
  refine h.silent hphase (hkeeps.mono fun place hnamed => .inr hnamed) ?_ hafter hless
  intro entry hentry
  rw [hload] at hentry
  exact mention_of_index hentry

/-- A step of a task that records a file. -/
theorem Inbox.Upright.record (h : inbox.Upright hash format root)
    (hphase : inbox.tasks[i]? = some phase)
    (hkeeps : FileSystem.Keeps (inbox.Named format root) inbox.fs fs)
    (hindex : ∀ entry ∈ loadIndex format fs root, entry ∈ loadIndex format inbox.fs root ∨
      entry.1 = named ∧ entry.2.path = placed.place)
    (hafter : ∀ mention ∈ after.mentions, mention ∈ phase.mentions ∨ mention = (named, placed.place))
    (hless : ∀ file ∈ after.largeFiles, file ∈ phase.largeFiles)
    (hplace : placed.place ≠ root.child indexName)
    (hstored : fs.contentAt placed.place = some placed.content)
    (hname : contentName hash placed.content = named) :
    Recorded hash format root { fs, tasks := inbox.tasks.set i after }
      [.filed instant named placed] where
  upright := by
    have hnew : Known format root inbox [(named, placed)] (named, placed.place) :=
      .inr ⟨_, List.mem_singleton_self _, rfl⟩
    have hfiled : Filed format root inbox { fs, tasks := inbox.tasks.set i after }
        [(named, placed)] := by
      refine ⟨hkeeps.sound, known_after_task ?_ ?_, ?_, ?_⟩
      · intro entry hentry
        rcases hindex entry hentry with hold | ⟨rfl, hpath⟩
        · exact .inl (mention_of_index hold)
        · rw [hpath]
          exact hnew
      · intro mention hmention
        rcases hafter mention hmention with hold | rfl
        · exact .inl (mention_of_task hphase hold)
        · exact hnew
      · exact contents_of_keeps h.sound hkeeps fun mention hmem => ⟨mention, hmem, rfl⟩
      · intro entry hentry
        rw [List.mem_singleton.mp hentry]
        exact ⟨hplace, hstored⟩
    refine h.filed hfiled ?_ (large_after_task h hphase hless)
    intro entry hentry
    rw [List.mem_singleton.mp hentry]
    exact hname
  events instant' named' placed' hmem := by
    cases List.mem_singleton.mp hmem
    exact hname

end Invariant

section Steps

variable {hash : List UInt8 → String} {format : IndexFormat} {platform : Platform} {root : Location}
  {inbox next : Inbox} {emitted : List InboxEvent} {phase : InboundPhase} {i : Nat}
  {fs : FileSystem} {placed : Placed} {src destDir : Location} {fileName named : String}
  {task after : Inbound} {received : List InboundEvent}

/-- Where the file of a step cannot be told, nothing is recorded. -/
theorem filings_none (h : receipts received = []) (found : Option (Bool × String)) :
    filings found received = [] := by
  unfold filings
  split
  · rfl
  · rw [h]
    rfl

/-- A copy that is not made over anything leaves everything that is watched alone. -/
theorem copy_fresh_keeps {outcome : PlaceOutcome} (hsound : inbox.fs.Sound)
    (hfresh : CopyFresh format platform root inbox src destDir fileName) :
    FileSystem.Keeps (inbox.Watched format root) inbox.fs
      (placeDedupCopy platform inbox.fs src destDir fileName outcome).1 := by
  refine place_dedup_keeps outcome hsound fun target htarget hother => ?_
  rcases hfresh.2 target htarget with hsame | hplace
  · rw [hother] at hsame
    cases hsame
  · exact hplace.not_watched

/-- A copy of a file that an entry names has the hash of the entry. -/
theorem copy_fresh_ok {outcome : PlaceOutcome} (h : inbox.Upright hash format root)
    (hsrc : (named, src) ∈ inbox.mentions format root)
    (hfresh : CopyFresh format platform root inbox src destDir fileName)
    (hcopy : placeDedupCopy platform inbox.fs src destDir fileName outcome = (fs, .ok placed)) :
    placed.place ≠ root.child indexName ∧ fs.contentAt placed.place = some placed.content ∧
      contentName hash placed.content = named := by
  have hcontent := place_dedup_source hcopy hfresh.1
  refine ⟨?_, place_dedup_contentAt hcopy hcontent, h.named _ hsrc _ hcontent⟩
  rcases hfresh.2 _ (place_dedup_ok hcopy).1 with hsame | hplace
  · unfold FileSystem.sameFile at hsame
    simp only [Bool.and_eq_true, beq_iff_eq] at hsame
    rw [← hsame.2]
    exact h.apart _ hsrc
  · exact hplace.1

/-- What is mentioned after the stream of small files was mentioned before. -/
theorem after_small_mentions {plan : OfferPlan} (h : mention ∈ (Inbound.afterSmall plan).mentions) :
    mention ∈ (InboundPhase.small plan).mentions := by
  unfold Inbound.afterSmall at h
  split at h
  · cases h
  · exact h

/-- The large files that are left after the stream of small files. -/
theorem after_small_large {plan : OfferPlan} : (Inbound.afterSmall plan).largeFiles = plan.large := by
  unfold Inbound.afterSmall
  split <;> rfl

/-- What a plan mentions is in the index it was made with. -/
theorem plan_mentions {index : InboxIndex} {files : List OfferFile}
    (h : mention ∈ (InboundPhase.small (planOffer index files)).mentions) :
    ∃ entry ∈ index, mention = (entry.1, entry.2.path) := by
  rcases List.mem_append.mp h with hindex | hitem
  · obtain ⟨entry, hentry, rfl⟩ := List.mem_map.mp hindex
    exact ⟨entry, hentry, rfl⟩
  · obtain ⟨item, hmem, rfl⟩ := List.mem_map.mp hitem
    obtain ⟨file, -, hinstant⟩ := List.mem_filterMap.mp hmem
    unfold instantOf at hinstant
    obtain ⟨found, -, hsrc⟩ := Option.bind_eq_some_iff.mp hinstant
    obtain ⟨src, hlookup, rfl⟩ := Option.map_eq_some_iff.mp hsrc
    obtain ⟨entry, hentry, rfl, rfl⟩ := mem_of_lookup hlookup
    exact ⟨entry, hentry, rfl⟩

/-- An offer is accepted. -/
theorem accept_upright (h : inbox.Upright hash format root) (files : List OfferFile) :
    ({ inbox with tasks := inbox.tasks ++ [(Inbound.accept format inbox.fs root files).phase] } :
      Inbox).Upright hash format root := by
  have hphase : ∀ mention ∈ (Inbound.accept format inbox.fs root files).phase.mentions,
      mention ∈ inbox.mentions format root := by
    intro mention hmem
    have hplan : mention ∈ (InboundPhase.small (planOffer
        ((loadIndex format inbox.fs root).pruneMissing inbox.fs.present) files)).mentions := by
      unfold Inbound.accept at hmem
      dsimp only at hmem
      split at hmem
      · exact after_small_mentions hmem
      · exact hmem
    obtain ⟨entry, hentry, rfl⟩ := plan_mentions hplan
    exact mention_of_index (List.mem_filter.mp hentry).1
  have hlarge : (Inbound.accept format inbox.fs root files).phase.largeFiles =
      files.filter fun file => smallFileLimit < file.size := by
    unfold Inbound.accept
    dsimp only
    split
    · exact after_small_large
    · rfl
  have hfiled : Filed format root inbox
      { inbox with tasks := inbox.tasks ++ [(Inbound.accept format inbox.fs root files).phase] }
      [] := by
    refine ⟨h.sound, ?_, fun _ _ _ hcontent => hcontent, by simp⟩
    intro mention hmem
    rcases List.mem_append.mp hmem with hindex | htask
    · exact .inl (List.mem_append_left _ hindex)
    · rw [List.flatMap_append] at htask
      rcases List.mem_append.mp htask with hold | hnew
      · exact .inl (List.mem_append_right _ hold)
      · refine .inl (hphase mention ?_)
        simpa using hnew
  refine h.filed hfiled (by simp) ?_
  intro phase hmem file hfile
  rcases List.mem_append.mp hmem with hold | hnew
  · exact h.large phase hold file hfile
  · rw [List.mem_singleton.mp hnew, hlarge] at hfile
    simpa using (List.mem_filter.mp hfile).2

/-- An entry of the stream of small files. -/
theorem entry_recorded {outcome : SmallOutcome} (h : inbox.Upright hash format root)
    (hphase : inbox.tasks[i]? = some phase)
    (hguard : taskFiled hash format platform root inbox phase (.entry outcome))
    (hstep : Inbound.step hash format platform root ⟨inbox.fs, phase⟩ (.entry outcome) =
      some (after, received)) :
    Recorded hash format root { fs := after.fs, tasks := inbox.tasks.set i after.phase }
      (filings (namedBy hash format root ⟨inbox.fs, phase⟩ (.entry outcome)) received) := by
  cases phase with
  | entries plan stream =>
    unfold Inbound.step at hstep
    unfold taskFiled at hguard
    unfold namedBy
    dsimp only at hstep hguard ⊢
    cases hentry : nextEntry stream.bytes stream.clean with
    | ended =>
      rw [hentry] at hstep
      cases hstep
      rw [filings_none rfl]
      refine h.quiet hphase (.refl h.sound) (fun mention hmem => after_small_mentions hmem) ?_
      intro file hfile
      rw [after_small_large] at hfile
      exact hfile
    | failed error =>
      rw [hentry] at hstep
      cases hstep
      rw [filings_none rfl]
      exact h.quiet hphase (.refl h.sound) (by simp [InboundPhase.mentions])
        (by simp [InboundPhase.largeFiles])
    | entry entry rest =>
      rw [hentry] at hstep hguard
      dsimp only at hstep hguard ⊢
      split at hstep
      · next fs error hreceive =>
        cases hstep
        rw [filings_none rfl]
        have hkeeps : FileSystem.Keeps (inbox.Watched format root) inbox.fs
            (recvSmallFile hash format platform inbox.fs root entry outcome).1 :=
          recv_small_keeps outcome h.sound
            (fun place hplace => (hguard place hplace).not_watched) (fun placed hok => by
              rw [hreceive] at hok
              cases hok)
        rw [hreceive] at hkeeps
        exact h.quiet hphase hkeeps (by simp [InboundPhase.mentions])
          (by simp [InboundPhase.largeFiles])
      · next fs placed hreceive =>
        cases hstep
        obtain ⟨hcontent, -, -, -⟩ := recv_small_ok hreceive
        have hfresh := hguard _ (recv_small_place hreceive)
        have hname : contentName hash placed.content = hash entry.data := by
          unfold contentName
          rw [hcontent, if_pos (next_entry_size hentry)]
        have hkeeps : FileSystem.Keeps (inbox.Named format root) inbox.fs
            (recvSmallFile hash format platform inbox.fs root entry outcome).1 :=
          recv_small_keeps outcome h.sound
            (fun place hplace hnamed => (hguard place hplace).not_watched (.inr hnamed))
            (fun _ _ => h.index_not_named)
        rw [hreceive] at hkeeps
        refine h.record hphase hkeeps ?_ (fun mention hmem => .inl hmem) (fun file hfile => hfile)
          hfresh.1 (recv_small_contentAt hreceive hfresh.1) hname
        · intro found hfound
          exact recv_small_index h.sound hreceive hfresh.1 hfound
  | small | instants | large | ended => cases hstep

/-- A file that is there already is copied. -/
theorem instant_recorded {outcome : PlaceOutcome} (h : inbox.Upright hash format root)
    (hphase : inbox.tasks[i]? = some phase)
    (hguard : taskFiled hash format platform root inbox phase (.instant outcome))
    (hstep : Inbound.step hash format platform root ⟨inbox.fs, phase⟩ (.instant outcome) =
      some (after, received)) :
    Recorded hash format root { fs := after.fs, tasks := inbox.tasks.set i after.phase }
      (filings (namedBy hash format root ⟨inbox.fs, phase⟩ (.instant outcome)) received) := by
  cases phase with
  | instants left index later =>
    cases left with
    | nil => cases hstep
    | cons item left =>
      have hfresh : CopyFresh format platform root inbox item.src
          (item.destDir platform root) item.name := hguard
      have hkeeps : FileSystem.Keeps (inbox.Watched format root) inbox.fs (placeDedupCopy platform
          inbox.fs item.src (item.destDir platform root) item.name outcome).1 :=
        copy_fresh_keeps h.sound hfresh
      have hleft : ∀ mention ∈ left.map (fun item => (item.hash, item.src)),
          mention ∈ (InboundPhase.instants (item :: left) index later).mentions := by
        intro mention hmem
        exact List.mem_append_right _ (List.mem_cons_of_mem _ hmem)
      unfold Inbound.step at hstep
      dsimp only at hstep
      split at hstep
      · next fs index' hplace =>
        cases hstep
        rw [filings_none rfl]
        unfold placeInstant at hplace
        split at hplace
        · next hcopy =>
          cases hplace
          rw [hcopy] at hkeeps
          refine h.quiet hphase hkeeps ?_ (fun file hfile => hfile)
          intro mention hmem
          rcases List.mem_append.mp hmem with hindex | hitem
          · exact List.mem_append_left _ hindex
          · exact hleft mention hitem
        · cases hplace
      · next fs index' receipt hplace =>
        cases hstep
        obtain ⟨placed, rfl, hcopy, rfl⟩ := place_instant_ok hplace
        have hsrc : (item.hash, item.src) ∈ inbox.mentions format root :=
          mention_of_task hphase (List.mem_append_right _ (List.mem_cons_self ..))
        obtain ⟨hapart, hstored, hname⟩ := copy_fresh_ok h hsrc hfresh hcopy
        rw [hcopy] at hkeeps
        have hload : loadIndex format fs root = loadIndex format inbox.fs root :=
          hkeeps.loadIndex h.sound (.inl rfl)
        refine h.record hphase (hkeeps.mono fun place hnamed => .inr hnamed) ?_ ?_
          (fun file hfile => hfile) hapart hstored hname
        · intro entry hentry
          rw [hload] at hentry
          exact .inl hentry
        · intro mention hmem
          rcases List.mem_append.mp hmem with hindex | hitem
          · obtain ⟨entry, hentry, rfl⟩ := List.mem_map.mp hindex
            rcases mem_of_insert hentry with rfl | hold
            · exact .inr rfl
            · exact .inl (List.mem_append_left _ (List.mem_map.mpr ⟨entry, hold, rfl⟩))
          · exact .inl (hleft mention hitem)
  | small | entries | large | ended => cases hstep

/-- An instant hit of a large file places a copy. -/
theorem recv_push_hit {arrivals : List Arrival} {outcome : PartOutcome} {instant : InstantOutcome}
    {found : String} {after : FileSystem}
    (h : recvPushLargeFile hash format platform fs root file (.ok answer) arrivals outcome instant =
      (after, .ok placed)) (hname : sanitizeFileName answer.fileName = .ok fileName)
    (hhit : instantHit format fs root answer = some (found, src)) :
    ∃ copied, placeDedupCopy platform fs src (offeredDir platform root file) fileName instant.place =
      (copied, .ok placed) := by
  unfold recvPushLargeFile at h
  simp only [hname, hhit] at h
  split at h
  · cases h
  split at h
  · cases h
  · next copied placed' hcopy =>
    cases h
    exact ⟨copied, hcopy⟩

/-- A large file that is no instant hit is fetched in chunks. -/
theorem recv_push_chunked {arrivals : List Arrival} {outcome : PartOutcome}
    {instant : InstantOutcome} {after : FileSystem}
    (h : recvPushLargeFile hash format platform fs root file (.ok answer) arrivals outcome instant =
      (after, .ok placed)) (hname : sanitizeFileName answer.fileName = .ok fileName)
    (hmiss : instantHit format fs root answer = none) :
    ∃ fetched, receiveChunked hash platform fs root (offeredDir platform root file) answer.jobId
      (Manifest.fromMeta fileName answer.totalSize answer.chunkHashes) (fun _ => 4) arrivals outcome =
        (fetched, .ok placed) := by
  unfold recvPushLargeFile at h
  simp only [hname, hmiss] at h
  split at h
  · cases h
  split at h
  · cases h
  · next fetched placed' hreceive =>
    split at h
    · cases h
      exact ⟨_, hreceive⟩
    · cases h
      exact ⟨_, hreceive⟩

/-- A large file whose claimed hash holds has that hash. -/
theorem claim_holds_name {arrivals : List Arrival} {outcome : PartOutcome} {window : Nat → Nat}
    {partsRoot : Location} {after : FileSystem}
    (h : receiveChunked hash platform fs partsRoot destDir answer.jobId
      (Manifest.fromMeta fileName answer.totalSize answer.chunkHashes) window arrivals outcome =
        (after, .ok placed)) (hclaim : ClaimHolds hash fs answer fileName)
    (hnamed : answer.namedHash = some named) (hlarge : smallFileLimit < answer.totalSize) :
    contentName hash placed.content = named := by
  obtain ⟨hsame, hcount, hstart⟩ := hclaim named hnamed
  have hintact := receive_chunked_intact hstart h
  have hlength : placed.content.length = answer.totalSize := hintact.length
  unfold contentName
  rw [if_neg (by omega), hintact.chunkHashesOf hcount, hsame]
  rfl

/-- Receiving a large file leaves alone what is watched if it fails, and what is named in any case. -/
theorem large_filed_keeps {P : Location → Prop} {answer : Except EngineError MetaResp}
    {arrivals : List Arrival} {outcome : PartOutcome} {instant : InstantOutcome}
    (hsound : inbox.fs.Sound)
    (hguard : ∀ found, answer = .ok found → LargeFiled hash format platform root inbox file found)
    (hless : ∀ place, P place → inbox.Watched format root place)
    (hindex : ∀ placed, (recvPushLargeFile hash format platform inbox.fs root file answer arrivals
      outcome instant).2 = .ok placed → ¬ P (root.child indexName)) :
    FileSystem.Keeps P inbox.fs (recvPushLargeFile hash format platform inbox.fs root file answer
      arrivals outcome instant).1 := by
  cases answer with
  | error error => exact .refl hsound
  | ok answer =>
    have hfiled := hguard answer rfl
    unfold LargeFiled at hfiled
    refine recv_push_keeps hsound (fun placed hok _ => hindex placed hok) ?_ ?_
    · intro fileName found src target hname hsize hhit htarget hother hplace
      rw [hname] at hfiled
      dsimp only at hfiled
      rw [hhit] at hfiled
      rcases hfiled with hsizes | hfresh
      · exact hsizes hsize
      · rcases hfresh.2 target htarget with hsame | hfree
        · rw [hother] at hsame
          cases hsame
        · exact hfree.not_watched (hless target hplace)
    · intro fileName hname hsize hmiss hplace
      rw [hname] at hfiled
      dsimp only at hfiled
      rw [hmiss] at hfiled
      rcases hfiled with hsizes | hfresh
      · exact hsizes hsize
      · exact hfresh.1.not_watched (hless _ hplace)

/-- Where a large file was put, its contents, and their hash if one is claimed. -/
theorem large_filed_ok {arrivals : List Arrival} {outcome : PartOutcome} {instant : InstantOutcome}
    (h : inbox.Upright hash format root) (hlarge : smallFileLimit < file.size)
    (hguard : LargeFiled hash format platform root inbox file answer)
    (hpush : recvPushLargeFile hash format platform inbox.fs root file (.ok answer) arrivals outcome
      instant = (fs, .ok placed)) :
    placed.place ≠ root.child indexName ∧ fs.contentAt placed.place = some placed.content ∧
      ∀ named, answer.namedHash = some named → contentName hash placed.content = named := by
  obtain ⟨found, fileName, hanswer, hname, hsize, hplace⟩ := recv_push_accepts hpush
  cases hanswer
  unfold LargeFiled at hguard
  rw [hname] at hguard
  dsimp only at hguard
  rcases hguard with hother | hfiled
  · exact absurd hsize hother
  cases hhit : instantHit format inbox.fs root answer with
  | some hit =>
    obtain ⟨claimed, src⟩ := hit
    rw [hhit] at hfiled
    obtain ⟨copied, hcopy⟩ := recv_push_hit hpush hname hhit
    obtain ⟨hclaimed, entry, hentry, hfirst, hpath⟩ := mem_of_instant_hit hhit
    have hsrc : (claimed, src) ∈ inbox.mentions format root := by
      rw [← hfirst, ← hpath]
      exact mention_of_index hentry
    obtain ⟨hapart, -, hcontent⟩ := copy_fresh_ok h hsrc hfiled hcopy
    refine ⟨hapart, recv_push_stored hpush hapart ?_, fun named hnamed => ?_⟩
    · intro other src' hhit'
      rw [hhit] at hhit'
      cases hhit'
      exact hfiled.1
    · rw [hclaimed] at hnamed
      cases hnamed
      exact hcontent
  | none =>
    rw [hhit] at hfiled
    obtain ⟨fetched, hreceive⟩ := recv_push_chunked hpush hname hhit
    have hapart : placed.place ≠ root.child indexName := by
      rw [(receive_chunked_ok hreceive).2.1]
      exact hfiled.1.1
    refine ⟨hapart, recv_push_stored hpush hapart ?_, fun named hnamed => ?_⟩
    · intro other src' hhit'
      rw [hhit] at hhit'
      cases hhit'
    · exact claim_holds_name hreceive hfiled.2 hnamed (by omega)

/-- What a large file is recorded under is the hash of its answer. -/
theorem named_by_large {left : List OfferFile} {arrivals : List Arrival} {outcome : PartOutcome}
    {instant : InstantOutcome} :
    namedBy hash format root ⟨fs, .large left⟩ (.large (.ok answer) arrivals outcome instant) =
      answer.namedHash.map fun found => ((instantHit format fs root answer).isSome, found) := by
  unfold namedBy
  dsimp only
  cases hhit : instantHit format fs root answer with
  | none => rfl
  | some hit =>
    obtain ⟨found, src⟩ := hit
    rw [(mem_of_instant_hit hhit).1]
    rfl

/-- A large file is received. -/
theorem large_recorded {answer : Except EngineError MetaResp} {arrivals : List Arrival}
    {outcome : PartOutcome} {instant : InstantOutcome} (h : inbox.Upright hash format root)
    (hphase : inbox.tasks[i]? = some phase)
    (hguard : taskFiled hash format platform root inbox phase
      (.large answer arrivals outcome instant))
    (hstep : Inbound.step hash format platform root ⟨inbox.fs, phase⟩
      (.large answer arrivals outcome instant) = some (after, received)) :
    Recorded hash format root { fs := after.fs, tasks := inbox.tasks.set i after.phase }
      (filings (namedBy hash format root ⟨inbox.fs, phase⟩
        (.large answer arrivals outcome instant)) received) := by
  cases phase with
  | large left =>
    cases left with
    | nil => cases hstep
    | cons file left =>
      have hfiled : ∀ found, answer = .ok found →
          LargeFiled hash format platform root inbox file found := by
        intro found hfound
        subst hfound
        exact hguard
      have hless : ∀ other ∈ left, other ∈ (InboundPhase.large (file :: left)).largeFiles :=
        fun other hother => List.mem_cons_of_mem _ hother
      unfold Inbound.step at hstep
      dsimp only at hstep
      split at hstep
      · next fs error hpush =>
        cases hstep
        rw [filings_none rfl]
        have hkeeps : FileSystem.Keeps (inbox.Watched format root) inbox.fs (recvPushLargeFile hash
            format platform inbox.fs root file answer arrivals outcome instant).1 := by
          refine large_filed_keeps h.sound hfiled (fun place hplace => hplace) ?_
          intro placed hok
          rw [hpush] at hok
          cases hok
        rw [hpush] at hkeeps
        exact h.quiet hphase hkeeps (by simp [InboundPhase.mentions])
          (by simp [InboundPhase.largeFiles])
      · next fs placed hpush =>
        cases hstep
        obtain ⟨found, fileName, rfl, -, -, -⟩ := recv_push_accepts hpush
        obtain ⟨hapart, hstored, hname⟩ := large_filed_ok h
          (h.large _ (List.mem_of_getElem? hphase) file (List.mem_cons_self ..))
          (hfiled found rfl) hpush
        have hkeeps : FileSystem.Keeps (inbox.Named format root) inbox.fs (recvPushLargeFile hash
            format platform inbox.fs root file (.ok found) arrivals outcome instant).1 :=
          large_filed_keeps h.sound hfiled (fun place hplace => .inr hplace)
            (fun _ _ => h.index_not_named)
        rw [hpush] at hkeeps
        rw [named_by_large]
        cases hnamed : found.namedHash with
        | none =>
          refine h.silent hphase hkeeps ?_ (by simp [InboundPhase.mentions]) hless
          intro entry hentry
          rcases recv_push_index h.sound hpush hapart hentry with hold | ⟨hclaimed, -⟩
          · exact mention_of_index hold
          · rw [hnamed] at hclaimed
            cases hclaimed
        | some named =>
          refine h.record hphase hkeeps ?_ (by simp [InboundPhase.mentions]) hless hapart
            hstored (hname named hnamed)
          intro entry hentry
          rcases recv_push_index h.sound hpush hapart hentry with hold | ⟨hclaimed, hpath⟩
          · exact .inl hold
          · rw [hnamed] at hclaimed
            cases hclaimed
            exact .inr ⟨rfl, hpath⟩
  | small | entries | instants | ended => cases hstep

/-- One step of a task. -/
theorem task_recorded {input : InboundInput} (h : inbox.Upright hash format root)
    (hphase : inbox.tasks[i]? = some phase)
    (hguard : taskFiled hash format platform root inbox phase input)
    (hstep : Inbound.step hash format platform root ⟨inbox.fs, phase⟩ input =
      some (after, received)) :
    Recorded hash format root { fs := after.fs, tasks := inbox.tasks.set i after.phase }
      (filings (namedBy hash format root ⟨inbox.fs, phase⟩ input) received) := by
  cases input with
  | accept accepted =>
    cases phase with
    | small plan =>
      cases accepted with
      | error error =>
        cases hstep
        exact h.quiet hphase (.refl h.sound) (by simp [InboundPhase.mentions])
          (by simp [InboundPhase.largeFiles])
      | ok stream =>
        cases hstep
        exact h.quiet hphase (.refl h.sound) (fun mention hmem => hmem) (fun file hfile => hfile)
    | entries | instants | large | ended => cases hstep
  | entry outcome => exact entry_recorded h hphase hguard hstep
  | instant outcome => exact instant_recorded h hphase hguard hstep
  | saveIndex saved =>
    cases phase with
    | instants left index later =>
      cases left with
      | nil =>
        cases hstep
        rw [filings_none rfl]
        refine h.silent hphase (save_index_keeps h.sound _ _ h.index_not_named) ?_
          (by simp [InboundPhase.mentions]) (fun file hfile => hfile)
        intro entry hentry
        rw [load_save_index] at hentry
        split at hentry
        · refine mention_of_task hphase (List.mem_append_left _ ?_)
          exact List.mem_map.mpr ⟨entry, hentry, rfl⟩
        · exact mention_of_index hentry
      | cons item left => cases hstep
    | small | entries | large | ended => cases hstep
  | large answer arrivals outcome instant => exact large_recorded h hphase hguard hstep
  | report =>
    cases phase with
    | large left =>
      cases left with
      | nil =>
        cases hstep
        exact h.quiet hphase (.refl h.sound) (by simp [InboundPhase.mentions])
          (by simp [InboundPhase.largeFiles])
      | cons file left => cases hstep
    | small | entries | instants | ended => cases hstep

/-- The file system changes, but neither the files that are named nor the index. -/
theorem Inbox.Upright.change (h : inbox.Upright hash format root) (hsound : fs.Sound)
    (hcontents : ∀ mention ∈ inbox.mentions format root, ∀ content,
      fs.contentAt mention.2 = some content → inbox.fs.contentAt mention.2 = some content)
    (hindex : ∀ entry ∈ loadIndex format fs root, entry ∈ loadIndex format inbox.fs root) :
    ({ inbox with fs } : Inbox).Upright hash format root := by
  have hfiled : Filed format root inbox { inbox with fs } [] := by
    refine ⟨hsound, ?_, hcontents, by simp⟩
    intro mention hmem
    rcases List.mem_append.mp hmem with hload | htask
    · obtain ⟨entry, hentry, rfl⟩ := List.mem_map.mp hload
      exact .inl (mention_of_index (hindex entry hentry))
    · exact .inl (List.mem_append_right _ htask)
  exact h.filed hfiled (by simp) h.large

/-- The file system changes only where nothing is watched. -/
theorem Inbox.Upright.elsewhere (h : inbox.Upright hash format root)
    (hkeeps : FileSystem.Keeps (inbox.Watched format root) inbox.fs fs) :
    ({ inbox with fs } : Inbox).Upright hash format root := by
  have hload : loadIndex format fs root = loadIndex format inbox.fs root :=
    hkeeps.loadIndex h.sound (.inl rfl)
  refine h.change hkeeps.sound ?_ ?_
  · exact contents_of_keeps h.sound hkeeps fun mention hmem => .inr ⟨mention, hmem, rfl⟩
  · intro entry hentry
    rwa [hload] at hentry

/-- The user changes the contents of a file that is neither the index nor named. -/
theorem edit_upright {number : Nat} {content : List UInt8}
    (h : inbox.Upright hash format root)
    (hindex : inbox.fs.tree (root.child indexName) ≠ some (.file number))
    (hother : ∀ mention ∈ inbox.mentions format root,
      inbox.fs.tree mention.2 ≠ some (.file number)) :
    ({ inbox with fs := { inbox.fs with disk := inbox.fs.disk.write number content } } :
      Inbox).Upright hash format root := by
  have hsame : ∀ found, found ≠ number →
      (inbox.fs.disk.write number content).store found = inbox.fs.disk.store found :=
    fun found hne => Function.update_of_ne hne ..
  refine h.change ⟨⟨h.sound.disk.given, h.sound.disk.apart⟩, h.sound.linked⟩ ?_ ?_
  · intro mention hmem found hfound
    rw [← hfound]
    unfold FileSystem.contentAt
    cases hnode : inbox.fs.tree mention.2 with
    | none => simp
    | some node =>
      cases node with
      | dir => simp
      | index entries text => simp
      | file other =>
        have hne : other ≠ number := by
          intro heq
          rw [heq] at hnode
          exact hother mention hmem hnode
        simp [hsame other hne]
  · intro entry hentry
    unfold loadIndex at hentry ⊢
    dsimp only at hentry
    cases hnode : inbox.fs.tree (root.child indexName) with
    | none => simp [hnode] at hentry
    | some node =>
      cases node with
      | dir => simp [hnode] at hentry
      | index entries text => simpa [hnode] using hentry
      | file other =>
        have hne : other ≠ number := by
          intro heq
          rw [heq] at hnode
          exact hindex hnode
        simpa [hnode, hsame other hne] using hentry

/-- The user removes something. -/
theorem remove_upright {place : Location} (h : inbox.Upright hash format root) :
    ({ inbox with fs := { inbox.fs with tree := Function.update inbox.fs.tree place none } } :
      Inbox).Upright hash format root := by
  have htree : ∀ other node, Function.update inbox.fs.tree place none other = some node →
      inbox.fs.tree other = some node := by
    intro other node hnode
    by_cases heq : other = place
    · rw [heq, Function.update_self] at hnode
      cases hnode
    · rwa [Function.update_of_ne heq] at hnode
  refine h.change ⟨h.sound.disk, fun other number hnode =>
    h.sound.linked other number (htree other _ hnode)⟩ ?_ ?_
  · intro mention _ content hcontent
    unfold FileSystem.contentAt at hcontent ⊢
    dsimp only at hcontent
    cases hnode : Function.update inbox.fs.tree place none mention.2 with
    | none => simp [hnode] at hcontent
    | some node =>
      rw [htree _ _ hnode]
      rw [hnode] at hcontent
      exact hcontent
  · intro entry hentry
    unfold loadIndex at hentry ⊢
    dsimp only at hentry
    cases hnode : Function.update inbox.fs.tree place none (root.child indexName) with
    | none => simp [hnode] at hentry
    | some node =>
      rw [htree _ _ hnode]
      rw [hnode] at hentry
      exact hentry

/-- One step of the inbox. -/
theorem step_recorded {trace : List InboxEvent} {input : InboxInput}
    (h : inbox.Upright hash format root)
    (hguard : inboxGuard hash format platform root trace inbox input)
    (hstep : Inbox.step hash format platform root inbox input = some (next, emitted)) :
    Recorded hash format root next emitted := by
  cases input with
  | accept files =>
    cases hstep
    exact ⟨accept_upright h files, by simp⟩
  | task i input =>
    unfold Inbox.step at hstep
    dsimp only at hstep
    split at hstep
    · cases hstep
    · next phase hphase =>
      split at hstep
      · cases hstep
      · next after received htask =>
        cases hstep
        exact task_recorded h hphase (hguard phase hphase) htask
  | pull partsRoot destDir source answer jobs window arrivals outcome =>
    cases hstep
    refine ⟨h.elsewhere (start_pull_keeps h.sound ?_), by simp⟩
    intro found hfound
    subst hfound
    exact Inbox.Fresh.not_watched hguard
  | edit place content =>
    unfold Inbox.step at hstep
    unfold inboxGuard at hguard
    dsimp only at hstep hguard
    split at hstep
    · next number hnode =>
      rw [hnode] at hguard
      cases hstep
      exact ⟨edit_upright h hguard.1 hguard.2, by simp⟩
    · cases hstep
  | put place content =>
    cases hstep
    exact ⟨h.elsewhere (FileSystem.newFile_keeps h.sound (Inbox.Fresh.not_watched hguard)), by simp⟩
  | remove place =>
    cases hstep
    exact ⟨remove_upright h, by simp⟩
  | restart =>
    cases hstep
    have hfiled : Filed format root inbox { inbox with tasks := [] } [] := by
      refine ⟨h.sound, fun mention hmem => .inl ?_, fun _ _ _ hcontent => hcontent, by simp⟩
      have hload : mention ∈ (loadIndex format inbox.fs root).map
          (fun entry => (entry.1, entry.2.path)) := by
        simpa [Inbox.mentions] using hmem
      exact List.mem_append_left _ hload
    exact ⟨h.filed hfiled (by simp) (by simp), by simp⟩

/-- What has been recorded so far, and the inbox. -/
def SoundIndex (hash : List UInt8 → String) (format : IndexFormat) (root : Location)
    (trace : List InboxEvent) (inbox : Inbox) : Prop :=
  inbox.Upright hash format root ∧ ∀ instant named placed, .filed instant named placed ∈ trace →
    contentName hash placed.content = named

end Steps

/-- A download directory without files. -/
def cleanDownloads : FileSystem :=
  { FileSystem.empty with
    tree := fun place =>
      if place = sampleRoot ∨ place = { sampleRoot with names := ["home"] } then some .dir else none }

theorem clean_downloads_sound : cleanDownloads.Sound where
  disk :=
    { given := fun _ _ hpart => by cases hpart
      apart := fun _ _ _ hpart => by cases hpart }
  linked place number hplace := by
    unfold cleanDownloads at hplace
    dsimp only at hplace
    split at hplace
    · cases hplace
    · cases hplace

/-- The file `a` that was received, and is offered again under another name. -/
def offeredTwice : OfferFile :=
  { name := "b.txt", size := 1, relDir := "", hash := some (shortHash [97]) }

/-- A file `a` of one byte is received; then the user may change it, and the same file is offered
again under another name. -/
def receivedTwice (between : List InboxInput) : List InboxInput :=
  [.accept smallOffer, .task 0 (.accept (.ok (sampleBatch 97))), .task 0 (.entry smallSmooth)] ++
    between ++ [.accept [offeredTwice], .task 1 (.instant copySmooth)]

/-- What is copied from `a` to `b.txt`. -/
def copyOf (content : List UInt8) : InboxEvent :=
  .filed true (shortHash [97]) { place := sampleRoot.child "b.txt", content }

end LocalTrans
