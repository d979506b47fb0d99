import LocalTrans.Transfer.Inbound

/-!
# What receiving leaves alone

A file that has been placed is not a part of a transfer any more, and no transfer writes to it.
`Disk.Moves` says this of the job directories, and `FileSystem.Keeps` of everything that has
contents: it keeps them, except at places that are touched on purpose.
-/

namespace LocalTrans

open Foundation

namespace Disk

/-- The parts have numbers that were given out, and no two job directories share one. -/
structure Sound (disk : Disk) : Prop where
  given : ∀ job number, (disk.dirs job).part = some number → number < disk.nextFile
  apart : ∀ job other number, (disk.dirs job).part = some number →
    (disk.dirs other).part = some number → job = other

/-- A number that was given out, and is no part of a transfer. -/
def Free (disk : Disk) (number : Nat) : Prop :=
  number < disk.nextFile ∧ ∀ job, (disk.dirs job).part ≠ some number

/-- The job directories stay sound, and files that are no parts stay as they are. -/
structure Moves (disk next : Disk) : Prop where
  sound : next.Sound
  free : ∀ number, disk.Free number → next.Free number
  store : ∀ number, disk.Free number → next.store number = disk.store number

variable {disk next last : Disk} {job number : Nat} {m : Manifest} {content : List UInt8}

/-- Nothing happens. -/
theorem Moves.refl (h : disk.Sound) : Moves disk disk :=
  ⟨h, fun _ hfree => hfree, fun _ _ => rfl⟩

/-- One thing after the other. -/
theorem Moves.trans (h : Moves disk next) (hnext : Moves next last) : Moves disk last where
  sound := hnext.sound
  free number hfree := hnext.free number (h.free number hfree)
  store number hfree := by rw [hnext.store number (h.free number hfree), h.store number hfree]

/-- A change that leaves the parts and the contents alone, or takes parts away. -/
theorem Moves.of_fewer (h : disk.Sound) (hnext : next.nextFile = disk.nextFile)
    (hstore : next.store = disk.store)
    (hpart : ∀ job number, (next.dirs job).part = some number → (disk.dirs job).part = some number) :
    Moves disk next where
  sound :=
    { given := fun job number hthere => by
        rw [hnext]
        exact h.given job number (hpart job number hthere)
      apart := fun job other number hfirst hsecond =>
        h.apart job other number (hpart job number hfirst) (hpart other number hsecond) }
  free number hfree := by
    refine ⟨by rw [hnext]; exact hfree.1, fun job hthere => ?_⟩
    exact hfree.2 job (hpart job number hthere)
  store number _ := by rw [hstore]

/-- Saving a manifest. -/
theorem save_moves (h : disk.Sound) (job : Nat) (m : Manifest) (outcome : SaveOutcome) :
    Moves disk (disk.save job m outcome) := by
  refine Moves.of_fewer h (save_nextFile outcome) (save_store outcome) ?_
  intro other number hthere
  rwa [save_part] at hthere

/-- Removing a job directory. -/
theorem removeDir_moves (h : disk.Sound) (partGone manifestGone : Bool) :
    Moves disk (disk.removeDir job partGone manifestGone) := by
  refine Moves.of_fewer h rfl rfl ?_
  intro other number hthere
  by_cases hsame : other = job
  · subst hsame
    simp only [removeDir, Function.update_self] at hthere
    split at hthere
    · cases hthere
    · exact hthere
  · simpa [removeDir, Function.update_of_ne hsame] using hthere

/-- Writing to a part. -/
theorem write_moves (h : disk.Sound) (hpart : (disk.dirs job).part = some number)
    (content : List UInt8) : Moves disk (disk.write number content) where
  sound := ⟨h.given, h.apart⟩
  free _ hfree := hfree
  store other hfree := by
    have hne : other ≠ number := by
      intro hsame
      rw [hsame] at hfree
      exact hfree.2 job hpart
    exact Function.update_of_ne hne ..

/-- Making a part where there is none. -/
theorem createPart_moves (h : disk.Sound) (job : Nat) : Moves disk (disk.createPart job).1 := by
  unfold createPart
  split
  · exact .refl h
  · next hnone =>
    refine ⟨⟨?_, ?_⟩, ?_, ?_⟩
    · intro other number hthere
      show number < disk.nextFile + 1
      by_cases hsame : other = job
      · subst hsame
        simp only [Function.update_self, Option.some.injEq] at hthere
        omega
      · simp only [Function.update_of_ne hsame] at hthere
        have hlt := h.given other number hthere
        omega
    · intro first second number hfirst hsecond
      by_cases hone : first = job
      · by_cases htwo : second = job
        · rw [hone, htwo]
        · subst hone
          simp only [Function.update_self, Option.some.injEq, Function.update_of_ne htwo]
            at hfirst hsecond
          have hlt := h.given second number hsecond
          omega
      · by_cases htwo : second = job
        · subst htwo
          simp only [Function.update_self, Option.some.injEq, Function.update_of_ne hone]
            at hfirst hsecond
          have hlt := h.given first number hfirst
          omega
        · simp only [Function.update_of_ne hone, Function.update_of_ne htwo] at hfirst hsecond
          exact h.apart first second number hfirst hsecond
    · intro number hfree
      refine ⟨Nat.lt_succ_of_lt hfree.1, fun other hthere => ?_⟩
      by_cases hsame : other = job
      · subst hsame
        simp only [Function.update_self, Option.some.injEq] at hthere
        have hlt := hfree.1
        omega
      · simp only [Function.update_of_ne hsame] at hthere
        exact hfree.2 other hthere
    · intro number hfree
      exact Function.update_of_ne (by have hlt := hfree.1; omega) ..

end Disk

namespace PartWriter

/-- The open file of a writer is the `part.bin` of its job directory. -/
def Attached (disk : Disk) (writer : PartWriter) : Prop :=
  (disk.dirs writer.dir).part = some writer.file

variable {hash : List UInt8 → String} {disk next : Disk} {writer : PartWriter} {job : Nat}
  {m : Manifest} {first second : SaveOutcome}

/-- A writer that is dropped. -/
theorem drop_moves (h : disk.Sound) (outcome : SaveOutcome) :
    Disk.Moves disk (writer.drop disk outcome) := by
  unfold drop
  split
  · exact Disk.save_moves h _ _ outcome
  · exact .refl h

/-- A job directory that is opened anew. -/
theorem open_moves (h : disk.Sound) (job : Nat) (m : Manifest) (first second : SaveOutcome) :
    Disk.Moves disk (PartWriter.open disk job m first second).1 := by
  have hcreated := Disk.createPart_moves h job
  have hsaved := hcreated.trans (Disk.save_moves hcreated.sound job m first)
  unfold PartWriter.open
  dsimp only
  split
  · exact hsaved
  · exact hsaved.trans (drop_moves hsaved.sound second)

/-- A job directory that is taken up or opened anew. -/
theorem load_moves (h : disk.Sound) (job : Nat) (m : Manifest) (first second : SaveOutcome) :
    Disk.Moves disk (PartWriter.loadOrOpen disk job m first second).1 := by
  unfold PartWriter.loadOrOpen
  split
  · split
    · split
      · exact .refl h
      · exact .refl h
    · exact open_moves h job m first second
  · exact open_moves h job m first second

/-- The writer that is opened is attached. -/
theorem load_attached (h : PartWriter.loadOrOpen disk job m first second = (next, .ok writer)) :
    writer.Attached next := by
  have hopened := opened_of_load h
  unfold Attached
  rw [hopened.dir, hopened.part]

/-- A chunk that is written, or not. -/
theorem write_chunk_moves (hash : List UInt8 → String) (h : disk.Sound) (hattached : writer.Attached disk) (i : Nat)
    (data : List UInt8) (outcome : WriteOutcome) :
    Disk.Moves disk (writer.writeChunk hash disk i data outcome).1 ∧
      (writer.writeChunk hash disk i data outcome).2.1.Attached
        (writer.writeChunk hash disk i data outcome).1 := by
  have hwritten := Disk.write_moves h hattached
  have hsaved := fun content outcome => (hwritten content).trans
    (Disk.save_moves (hwritten content).sound writer.dir (writer.manifest.mark i) outcome)
  unfold PartWriter.writeChunk
  dsimp only
  split
  · exact ⟨.refl h, hattached⟩
  split
  · exact ⟨.refl h, hattached⟩
  split
  · exact ⟨hwritten _, hattached⟩
  · split
    · exact ⟨hwritten _, hattached⟩
    · refine ⟨hsaved _ .done, ?_⟩
      unfold Attached
      rw [Disk.save_part]
      exact hattached
    · next failure _ _ =>
      refine ⟨hsaved _ failure, ?_⟩
      unfold Attached
      rw [Disk.save_part]
      exact hattached

/-- `finalize`: the part that is placed is no part any more. -/
theorem finalize_moves (writer : PartWriter) (h : disk.Sound) (outcome : FinalizeOutcome) :
    Disk.Moves disk (writer.finalize disk outcome).1 ∧
      ∀ file content, (writer.finalize disk outcome).2 = .ok (file, content) →
        (writer.finalize disk outcome).1.Free file := by
  have hsaved := Disk.save_moves h writer.dir writer.manifest outcome.save
  unfold PartWriter.finalize
  dsimp only
  split
  · refine ⟨hsaved.trans (drop_moves hsaved.sound _), ?_⟩
    intro file content hok
    cases hok
  · next found hready =>
    refine ⟨hsaved.trans (Disk.removeDir_moves hsaved.sound _ _), ?_⟩
    intro file content hok
    cases hok
    have hpart := (ready_ok hready).2.1
    refine ⟨hsaved.sound.given _ _ hpart, fun job hthere => ?_⟩
    by_cases hsame : job = writer.dir
    · subst hsame
      simp [Disk.removeDir] at hthere
    · simp only [Disk.removeDir, Function.update_of_ne hsame] at hthere
      exact hsame (hsaved.sound.apart _ _ _ hthere hpart)

end PartWriter

section Fetching

variable {hash : List UInt8 → String} {disk : Disk} {writer : PartWriter}

/-- A window of chunks. -/
theorem run_receiver_moves (hash : List UInt8 → String) (batch : List Nat) (awaited : Nat)
    (arrivals : List Arrival) (h : disk.Sound) (hattached : writer.Attached disk) :
    Disk.Moves disk (runReceiver hash batch awaited disk writer arrivals).1 ∧
      (runReceiver hash batch awaited disk writer arrivals).2.1.Attached
        (runReceiver hash batch awaited disk writer arrivals).1 := by
  induction awaited generalizing disk writer arrivals with
  | zero => exact ⟨.refl h, hattached⟩
  | succ awaited ih =>
    cases arrivals with
    | nil => exact ⟨.refl h, hattached⟩
    | cons arrival arrivals =>
      cases arrival with
      | failed error => exact ⟨.refl h, hattached⟩
      | chunk i data outcome =>
        unfold runReceiver
        split
        · exact ⟨.refl h, hattached⟩
        · obtain ⟨hwritten, hstill⟩ :=
            PartWriter.write_chunk_moves hash h hattached i data outcome
          split
          · next hwrite =>
            rw [hwrite] at hwritten hstill
            exact ⟨hwritten, hstill⟩
          · next hwrite =>
            rw [hwrite] at hwritten hstill
            obtain ⟨hrest, hlast⟩ := ih arrivals hwritten.sound hstill
            exact ⟨hwritten.trans hrest, hlast⟩

/-- All windows. -/
theorem fetch_missing_moves (hash : List UInt8 → String) (window : Nat → Nat) (fuel : Nat)
    (missing : List Nat) (arrivals : List Arrival) (h : disk.Sound)
    (hattached : writer.Attached disk) :
    Disk.Moves disk (fetchMissing hash window fuel disk writer missing arrivals).1 ∧
      (fetchMissing hash window fuel disk writer missing arrivals).2.1.Attached
        (fetchMissing hash window fuel disk writer missing arrivals).1 := by
  induction fuel generalizing disk writer missing arrivals with
  | zero => exact ⟨.refl h, hattached⟩
  | succ fuel ih =>
    cases missing with
    | nil => exact ⟨.refl h, hattached⟩
    | cons i missing =>
      unfold fetchMissing
      dsimp only
      have hwindow := run_receiver_moves hash
        ((i :: missing).take (max 1 (window (i :: missing).length)))
        ((i :: missing).take (max 1 (window (i :: missing).length))).length arrivals h hattached
      split
      · next hreceive =>
        rw [hreceive] at hwindow
        exact hwindow
      · next rest hreceive =>
        rw [hreceive] at hwindow
        obtain ⟨hmoved, hstill⟩ := hwindow
        obtain ⟨hrest, hlast⟩ := ih ((i :: missing).drop
          (max 1 (window (i :: missing).length))) rest hmoved.sound hstill
        exact ⟨hmoved.trans hrest, hlast⟩

end Fetching

namespace FileSystem

/-- The job directories are sound, and no file of the tree is a part of a transfer. -/
structure Sound (fs : FileSystem) : Prop where
  disk : fs.disk.Sound
  linked : ∀ place number, fs.tree place = some (.file number) → fs.disk.Free number

/-- The file system stays sound, files that are no parts stay as they are, and so do the chosen
places, where at most a directory is made. -/
structure Keeps (P : Location → Prop) (fs next : FileSystem) : Prop where
  sound : next.Sound
  node : ∀ place, P place → next.tree place = fs.tree place ∨
    fs.tree place = none ∧ next.tree place = some .dir
  free : ∀ number, fs.disk.Free number → next.disk.Free number
  store : ∀ number, fs.disk.Free number → next.disk.store number = fs.disk.store number

variable {P : Location → Prop} {fs next last : FileSystem} {place dir : Location} {node : Node}
  {content : List UInt8} {disk : Disk}

/-- Nothing happens. -/
theorem Keeps.refl (h : fs.Sound) : Keeps P fs fs :=
  ⟨h, fun _ _ => .inl rfl, fun _ hfree => hfree, fun _ _ => rfl⟩

/-- One thing after the other. -/
theorem Keeps.trans (h : Keeps P fs next) (hnext : Keeps P next last) : Keeps P fs last where
  sound := hnext.sound
  node place hplace := by
    rcases h.node place hplace with hsame | ⟨hnone, hdir⟩
    · rw [← hsame]
      exact hnext.node place hplace
    · rcases hnext.node place hplace with hsame | ⟨hnone', -⟩
      · exact .inr ⟨hnone, hsame.trans hdir⟩
      · rw [hdir] at hnone'
        cases hnone'
  free number hfree := hnext.free number (h.free number hfree)
  store number hfree := by rw [hnext.store number (h.free number hfree), h.store number hfree]

/-- Fewer places are kept as well. -/
theorem Keeps.mono {Q : Location → Prop} (h : Keeps P fs next) (hless : ∀ place, Q place → P place) :
    Keeps Q fs next :=
  ⟨h.sound, fun place hplace => h.node place (hless place hplace), h.free, h.store⟩

/-- A place that is kept has the same contents. -/
theorem Keeps.contentAt (h : Keeps P fs next) (hsound : fs.Sound) (hplace : P place) :
    next.contentAt place = fs.contentAt place := by
  unfold FileSystem.contentAt
  rcases h.node place hplace with hsame | ⟨hnone, hdir⟩
  · rw [hsame]
    cases hnode : fs.tree place with
    | none => rfl
    | some node =>
      cases node with
      | dir => rfl
      | index entries text => rfl
      | file number =>
        show some (next.disk.store number) = some (fs.disk.store number)
        rw [h.store number (hsound.linked place number hnode)]
  · rw [hnone, hdir]

/-- If the place of the index is kept, the index is. -/
theorem Keeps.loadIndex {format : IndexFormat} {root : Location} (h : Keeps P fs next)
    (hsound : fs.Sound) (hplace : P (root.child indexName)) :
    loadIndex format next root = loadIndex format fs root := by
  unfold LocalTrans.loadIndex
  rcases h.node _ hplace with hsame | ⟨hnone, hdir⟩
  · rw [hsame]
    cases hnode : fs.tree (root.child indexName) with
    | none => rfl
    | some node =>
      cases node with
      | dir => rfl
      | index entries text => rfl
      | file number =>
        show (format.parse (next.disk.store number)).getD [] =
          (format.parse (fs.disk.store number)).getD []
        rw [h.store number (hsound.linked _ number hnode)]
  · rw [hnone, hdir]

/-- Something has contents only where something is. -/
theorem present_of_content (h : fs.contentAt place = some content) : fs.present place = true := by
  unfold FileSystem.contentAt at h
  unfold present
  cases htree : fs.tree place with
  | none => simp [htree] at h
  | some node => rfl

/-- The job directories change. -/
theorem move_keeps (h : fs.Sound) (hmoves : Disk.Moves fs.disk disk)
    (htree : next.tree = fs.tree) (hdisk : next.disk = disk) : Keeps P fs next where
  sound :=
    { disk := by
        rw [hdisk]
        exact hmoves.sound
      linked := fun place number hplace => by
        rw [htree] at hplace
        rw [hdisk]
        exact hmoves.free number (h.linked place number hplace) }
  node place _ := .inl (by rw [htree])
  free number hfree := by
    rw [hdisk]
    exact hmoves.free number hfree
  store number hfree := by
    rw [hdisk]
    exact hmoves.store number hfree

/-- Directories are made. -/
theorem createDirAll_keeps (h : fs.Sound) : Keeps P fs (fs.createDirAll dir) where
  sound :=
    { disk := h.disk
      linked := fun place number hplace => by
        rcases createDirAll_onlyDirs fs dir place with hsame | ⟨-, hdir⟩
        · rw [hsame] at hplace
          exact h.linked place number hplace
        · rw [hdir] at hplace
          cases hplace }
  node place _ := createDirAll_onlyDirs fs dir place
  free _ hfree := hfree
  store _ _ := rfl

/-- A place that is not kept is linked to something that is no part. -/
theorem link_keeps (h : fs.Sound) (hplace : ¬ P place)
    (hnode : ∀ number, node = .file number → fs.disk.Free number) :
    Keeps P fs (fs.link place node) where
  sound :=
    { disk := h.disk
      linked := fun other number hother => by
        by_cases hsame : other = place
        · subst hsame
          rw [link_tree_self] at hother
          exact hnode number (Option.some.inj hother)
        · rw [link_tree_other hsame] at hother
          exact h.linked other number hother }
  node other hother := by
    have hne : other ≠ place := by
      rintro rfl
      exact hplace hother
    exact .inl (link_tree_other hne)
  free _ hfree := hfree
  store _ _ := rfl

/-- A file is written to a place that is not kept. -/
theorem newFile_keeps (h : fs.Sound) (hplace : ¬ P place) :
    Keeps P fs (fs.newFile place content) := by
  have hmoves : Disk.Moves fs.disk { fs.disk with
      store := Function.update fs.disk.store fs.disk.nextFile content
      nextFile := fs.disk.nextFile + 1 } := by
    refine ⟨⟨fun job number hpart => ?_, h.disk.apart⟩, fun number hfree => ?_, fun number hfree => ?_⟩
    · exact Nat.lt_succ_of_lt (h.disk.given job number hpart)
    · exact ⟨Nat.lt_succ_of_lt hfree.1, hfree.2⟩
    · exact Function.update_of_ne (by have hlt := hfree.1; omega) ..
  have hmoved : Keeps P fs { fs with disk := { fs.disk with
      store := Function.update fs.disk.store fs.disk.nextFile content
      nextFile := fs.disk.nextFile + 1 } } := move_keeps h hmoves rfl rfl
  refine hmoved.trans (link_keeps hmoved.sound hplace ?_)
  intro number hnumber
  cases hnumber
  -- The number is new, so no job directory has it.
  refine ⟨Nat.lt_succ_self _, fun job hpart => ?_⟩
  have hlt := h.disk.given job _ hpart
  omega

/-- Writing a file, or a part of it, to a place that is not kept. -/
theorem writeNew_keeps (outcome : FileOutcome) (h : fs.Sound) (hplace : ¬ P place) :
    Keeps P fs (fs.writeNew place content outcome).1 := by
  cases outcome with
  | done => exact newFile_keeps h hplace
  | broken written => exact newFile_keeps h hplace
  | refused => exact .refl h

/-- A new file has its contents. -/
theorem newFile_contentAt : (fs.newFile place content).contentAt place = some content := by
  simp [newFile, FileSystem.contentAt]

end FileSystem

section Operations

open FileSystem (Keeps)

variable {hash : List UInt8 → String} {format : IndexFormat} {platform : Platform}
  {P : Location → Prop} {fs next : FileSystem} {root partsRoot destDir : Location}
  {placed : Placed} {error : EngineError}

/-- The index is saved. -/
theorem save_index_keeps (h : fs.Sound) (index : InboxIndex) (saved : Bool)
    (hindex : ¬ P (root.child indexName)) :
    Keeps P fs (saveIndex format fs root index saved) := by
  unfold saveIndex
  split
  · exact FileSystem.link_keeps h hindex (fun number hnode => by cases hnode)
  · exact .refl h

/-- A copy is placed, unless the source is there already. -/
theorem place_dedup_keeps {src : Location} {fileName : String} (outcome : PlaceOutcome)
    (h : fs.Sound)
    (hplace : ∀ target, dedupTarget platform (fs.createDirAll destDir) src destDir fileName =
      some target → (fs.createDirAll destDir).sameFile src target = false → ¬ P target) :
    Keeps P fs (placeDedupCopy platform fs src destDir fileName outcome).1 := by
  have hmade : Keeps P fs (fs.createDirAll destDir) := FileSystem.createDirAll_keeps h
  unfold placeDedupCopy
  split
  · exact .refl h
  · dsimp only
    split
    · exact hmade
    · next candidate htarget =>
      split
      · exact hmade
      · next hother =>
        have hnot := hplace candidate htarget (by simpa using hother)
        split
        · next node content hnode _ =>
          split
          · refine hmade.trans (FileSystem.link_keeps hmade.sound hnot ?_)
            intro number hnumber
            exact hmade.sound.linked src number (by rw [hnode, hnumber])
          · exact hmade.trans (FileSystem.writeNew_keeps outcome.copy hmade.sound hnot)
        · exact hmade

/-- A copy that is not the source itself is put at a place that was free. -/
theorem dedup_target_free {src target : Location} {fileName : String}
    (htarget : dedupTarget platform (fs.createDirAll destDir) src destDir fileName = some target)
    (hother : (fs.createDirAll destDir).sameFile src target = false) :
    fs.present target = false := by
  obtain ⟨i, hi, rfl⟩ := Option.map_eq_some_iff.mp htarget
  have hstop := first_free_spec hi
  dsimp only at hstop
  rw [hother] at hstop
  exact FileSystem.absent_before (by simpa using hstop)

/-- `finalize` into a directory, to a place that is not kept. -/
theorem finalize_into_keeps {writer : PartWriter} {outcome : PartWriter.FinalizeOutcome}
    (h : fs.Sound) (hplace : ¬ P (finalPlace platform fs destDir writer.manifest.fileName)) :
    Keeps P fs (finalizeInto platform fs destDir writer outcome).1 := by
  obtain ⟨hmoves, hfree⟩ := writer.finalize_moves h.disk outcome
  have hmade : Keeps P fs (fs.createDirAll destDir) := FileSystem.createDirAll_keeps h
  unfold finalizeInto
  split
  · next disk error hresult =>
    rw [hresult] at hmoves
    dsimp only
    split
    · exact hmade.trans (FileSystem.move_keeps hmade.sound hmoves rfl rfl)
    · exact FileSystem.move_keeps h hmoves rfl rfl
  · next disk file content hresult =>
    rw [hresult] at hmoves hfree
    dsimp only
    have hmoved : Keeps P fs { fs.createDirAll destDir with disk } :=
      hmade.trans (FileSystem.move_keeps hmade.sound hmoves rfl rfl)
    refine hmoved.trans (FileSystem.link_keeps hmoved.sound hplace ?_)
    intro number hnumber
    cases hnumber
    exact hfree file content rfl

/-- Where `write_small_file` puts a small file. -/
def smallPlace (platform : Platform) (fs : FileSystem) (root : Location) (entry : SmallEntry) :
    Option Location :=
  let destDir := platform.joinAll root (sanitizeRelDir entry.rel)
  (firstFree (fun i =>
    (fs.createDirAll destDir).present (smallCandidate platform destDir entry.name i)) counterRange
      0).map (smallCandidate platform destDir entry.name)

/-- A small file is put at a place that was free. -/
theorem small_place_free {entry : SmallEntry} {place : Location}
    (h : smallPlace platform fs root entry = some place) : fs.present place = false := by
  obtain ⟨i, hi, rfl⟩ := Option.map_eq_some_iff.mp h
  exact FileSystem.absent_before (first_free_spec hi)

/-- One small file of the stream is written, and the index saved. -/
theorem recv_small_keeps {entry : SmallEntry} (outcome : SmallOutcome) (h : fs.Sound)
    (hplace : ∀ place, smallPlace platform fs root entry = some place → ¬ P place)
    (hindex : ∀ placed, (recvSmallFile hash format platform fs root entry outcome).2 = .ok placed →
      ¬ P (root.child indexName)) :
    Keeps P fs (recvSmallFile hash format platform fs root entry outcome).1 := by
  unfold recvSmallFile at hindex ⊢
  split
  · exact .refl h
  · next hmakes =>
    rw [if_neg hmakes] at hindex
    dsimp only at hindex ⊢
    have hmade : Keeps P fs
        (fs.createDirAll (platform.joinAll root (sanitizeRelDir entry.rel))) :=
      FileSystem.createDirAll_keeps h
    have hwritten : Keeps P fs (writeSmallFile platform
        (fs.createDirAll (platform.joinAll root (sanitizeRelDir entry.rel)))
        (platform.joinAll root (sanitizeRelDir entry.rel)) entry.name entry.data outcome.write).1 := by
      unfold writeSmallFile
      split
      · exact hmade
      · next i hi =>
        refine hmade.trans (FileSystem.writeNew_keeps outcome.write hmade.sound (hplace _ ?_))
        unfold smallPlace
        dsimp only
        rw [hi]
        rfl
    split
    · next hwrite =>
      rw [hwrite] at hwritten
      exact hwritten
    · next placed hwrite =>
      rw [hwrite] at hwritten hindex
      exact hwritten.trans (save_index_keeps hwritten.sound _ _ (hindex placed rfl))

/-- A chunked transfer: the place where the file is put is not kept. -/
theorem receive_chunked_keeps {job : Nat} {m : Manifest} {window : Nat → Nat}
    {arrivals : List Arrival} {outcome : PartOutcome} (h : fs.Sound)
    (hplace : ¬ P (finalPlace platform fs destDir m.fileName)) :
    Keeps P fs
      (receiveChunked hash platform fs partsRoot destDir job m window arrivals outcome).1 := by
  have hloaded := PartWriter.load_moves h.disk job m outcome.first outcome.second
  unfold receiveChunked
  dsimp only
  split
  · next hload =>
    rw [hload] at hloaded
    exact FileSystem.move_keeps h hloaded rfl rfl
  · next disk writer hload =>
    rw [hload] at hloaded
    have hattached := PartWriter.load_attached hload
    obtain ⟨hfetched, -⟩ := fetch_missing_moves hash window
      (writer.manifest.missingChunks.length + 1) writer.manifest.missingChunks arrivals
      hloaded.sound hattached
    split
    · next disk' writer' error hfetch =>
      rw [hfetch] at hfetched
      have hmoved := hloaded.trans hfetched
      have hremoved : Disk.Moves fs.disk
          (if error = .cancelled then disk'.removeDir job true true else disk') := by
        split
        · exact hmoved.trans (Disk.removeDir_moves hmoved.sound true true)
        · exact hmoved
      exact FileSystem.move_keeps h
        (hremoved.trans (PartWriter.drop_moves hremoved.sound outcome.dropped)) rfl rfl
    · next disk' writer' _ hfetch =>
      rw [hfetch] at hfetched
      have hname : writer'.manifest.fileName = m.fileName := by
        have hstart := Fetched.start.all hfetch
        rw [hstart.name, (opened_of_load hload).manifest, taken_up_name]
      have hmoved : Keeps P fs ⟨disk', fs.tree, fs.created ++ partPlaces fs partsRoot job⟩ :=
        FileSystem.move_keeps h (hloaded.trans hfetched) rfl rfl
      refine hmoved.trans (finalize_into_keeps hmoved.sound ?_)
      rw [hname]
      exact hplace

/-- A pull: the place where the file is put is not kept. -/
theorem start_pull_keeps {source : Option String × Option String × Option String}
    {answer : Except EngineError MetaResp} {jobs : List Nat} {window : Nat → Nat}
    {arrivals : List Arrival} {outcome : PartOutcome} (h : fs.Sound)
    (hplace : ∀ found, answer = .ok found → ¬ P (finalPlace platform fs destDir found.fileName)) :
    Keeps P fs (startPullParts hash platform fs partsRoot destDir source answer jobs window arrivals
      outcome).1 := by
  cases answer with
  | error error => exact .refl h
  | ok answer =>
    have hfree := hplace answer rfl
    unfold startPullParts
    dsimp only
    split
    · have hopened := PartWriter.open_moves h.disk
        (chooseJobDir fs.disk jobs (Manifest.fromMetaWithSource answer.fileName answer.totalSize
          answer.chunkHashes source.1 source.2.1 source.2.2) answer.jobId)
        (Manifest.fromMetaWithSource answer.fileName answer.totalSize answer.chunkHashes source.1
          source.2.1 source.2.2) outcome.first outcome.second
      split
      · next hopen =>
        rw [hopen] at hopened
        exact FileSystem.move_keeps h hopened rfl rfl
      · next disk writer hopen =>
        rw [hopen] at hopened
        have hmoved : Keeps P fs ⟨disk, fs.tree, fs.created ++ partPlaces fs partsRoot
            (chooseJobDir fs.disk jobs (Manifest.fromMetaWithSource answer.fileName
              answer.totalSize answer.chunkHashes source.1 source.2.1 source.2.2)
              answer.jobId)⟩ :=
          FileSystem.move_keeps h hopened rfl rfl
        refine hmoved.trans (finalize_into_keeps hmoved.sound ?_)
        rw [(opened_of_open hopen).manifest]
        exact hfree
    · exact receive_chunked_keeps h hfree

/-- A pushed large file: the place where it is put is not kept, nor is the index when it is saved. -/
theorem recv_push_keeps {file : OfferFile} {answer : MetaResp}
    {arrivals : List Arrival} {outcome : PartOutcome} {instant : InstantOutcome} (h : fs.Sound)
    (hindex : ∀ placed, (recvPushLargeFile hash format platform fs root file (.ok answer) arrivals
      outcome instant).2 = .ok placed → answer.namedHash ≠ none → ¬ P (root.child indexName))
    (hcopy : ∀ fileName found src target, sanitizeFileName answer.fileName = .ok fileName →
      answer.totalSize = file.size → instantHit format fs root answer = some (found, src) →
      dedupTarget platform (fs.createDirAll (offeredDir platform root file)) src
        (offeredDir platform root file) fileName = some target →
      (fs.createDirAll (offeredDir platform root file)).sameFile src target = false → ¬ P target)
    (hplace : ∀ fileName, sanitizeFileName answer.fileName = .ok fileName →
      answer.totalSize = file.size → instantHit format fs root answer = none →
      ¬ P (finalPlace platform fs (offeredDir platform root file) fileName)) :
    Keeps P fs (recvPushLargeFile hash format platform fs root file (.ok answer) arrivals outcome
      instant).1 := by
  unfold recvPushLargeFile at hindex ⊢
  dsimp only at hindex ⊢
  cases hname : sanitizeFileName answer.fileName with
  | error error => exact .refl h
  | ok fileName =>
    rw [hname] at hindex
    dsimp only at hindex ⊢
    by_cases hsize : answer.totalSize = file.size
    · rw [if_neg (not_not.mpr hsize)] at hindex ⊢
      cases hhit : instantHit format fs root answer with
      | some hit =>
        obtain ⟨found, src⟩ := hit
        rw [hhit] at hindex
        dsimp only at hindex ⊢
        have hnamed : answer.namedHash ≠ none := by
          intro hnone
          simp [instantHit, hnone] at hhit
        have hcopied : Keeps P fs (placeDedupCopy platform fs src
            (offeredDir platform root file) fileName instant.place).1 :=
          place_dedup_keeps instant.place h fun target htarget hother =>
            hcopy fileName found src target hname hsize hhit htarget hother
        split
        · next hresult =>
          rw [hresult] at hcopied
          exact hcopied
        · next placed hresult =>
          rw [hresult] at hcopied hindex
          exact hcopied.trans (save_index_keeps hcopied.sound _ _ (hindex placed rfl hnamed))
      | none =>
        rw [hhit] at hindex
        dsimp only at hindex ⊢
        have hreceived : Keeps P fs (receiveChunked hash platform fs root
            (offeredDir platform root file) answer.jobId
            (Manifest.fromMeta fileName answer.totalSize answer.chunkHashes) (fun _ => 4)
            arrivals outcome).1 :=
          receive_chunked_keeps h (hplace fileName hname hsize hhit)
        split
        · next hresult =>
          rw [hresult] at hreceived
          exact hreceived
        · next placed hresult =>
          rw [hresult] at hreceived hindex
          cases hnamed : answer.namedHash with
          | some found =>
            rw [hnamed] at hindex
            exact hreceived.trans (save_index_keeps hreceived.sound _ _
              (hindex placed rfl (by simp)))
          | none => exact hreceived
    · rw [if_pos hsize]
      exact .refl h

end Operations

end LocalTrans
