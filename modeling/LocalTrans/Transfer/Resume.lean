import LocalTrans.Foundation.Execution
import LocalTrans.Transfer.PartWriter

/-!
# Transfers into one parts root

Any number of transfers write into the job directories of one parts root: they start, resume,
write chunks, finish, fail or are cancelled in any order, and the process may be killed at any
point. `PartsInv` says that a job directory that can be resumed, and every living writer, has the
chunks its bitmap claims; `placed_files_intact` concludes that a placed file is the one its
manifest describes, and says on which condition.
-/

namespace LocalTrans

open Foundation

/-- The answer to a metadata request, as far as a transfer uses it. -/
structure FileMeta where
  fileName : String
  totalSize : Nat
  chunkHashes : List String
  peer : Option String
  shareId : Option String
  rel : Option String
deriving DecidableEq

/-- The manifest a transfer starts with. -/
def FileMeta.manifest (file : FileMeta) : Manifest :=
  .fromMetaWithSource file.fileName file.totalSize file.chunkHashes file.peer file.shareId file.rel

/-- Where `finalize` puts the file: in a directory of its own, or in a job directory, where a
listed path may lead too. -/
inductive Place where
  | outside
  | jobDir (job : Nat)
deriving DecidableEq

/-- What can happen in the parts root. A file without chunks is opened anew at once. -/
inductive PartsInput where
  | openNew (job : Nat) (file : FileMeta) (first second : SaveOutcome)
  | loadOrOpen (job : Nat) (file : FileMeta) (first second : SaveOutcome)
  | writeChunk (writer i : Nat) (data : List UInt8) (outcome : PartWriter.WriteOutcome)
  | finalize (writer : Nat) (place : Place) (outcome : PartWriter.FinalizeOutcome)
  | drop (writer : Nat) (outcome : SaveOutcome)
  | removeDir (job : Nat) (partGone manifestGone : Bool)
  | crash
deriving DecidableEq

/-- `finalize` has returned `Ok`. -/
inductive PartsEvent where
  | placed (m : Manifest) (content : List UInt8)
deriving DecidableEq

/-- The disk, and the writers that are alive. -/
structure PartsRoot where
  disk : Disk
  writers : Nat → Option PartWriter
  nextWriter : Nat

namespace PartsRoot

/-- An empty parts root. -/
def start : PartsRoot :=
  { disk := .empty, writers := fun _ => none, nextWriter := 0 }

/-- A writer that was opened stays alive until it is dropped. -/
def spawn (root : PartsRoot) (result : Disk × Except EngineError PartWriter) : PartsRoot :=
  match result with
  | (disk, .ok writer) =>
    { disk, writers := Function.update root.writers root.nextWriter (some writer)
      nextWriter := root.nextWriter + 1 }
  | (disk, .error _) => { root with disk }

/-- A file that lands in another job directory becomes its `part.bin` or its `manifest.json` if it
has that name and the name is free. -/
def landIn (parse : List UInt8 → Option Manifest) (disk : Disk) (job : Nat) (name : String)
    (file : Nat) : Disk :=
  let dir := disk.dirs job
  if name = "part.bin" ∧ dir.part = none then
    { disk with dirs := Function.update disk.dirs job { dir with part := some file } }
  else if name = "manifest.json" ∧ dir.manifest = .absent then
    let manifest := ((parse (disk.store file)).map ManifestFile.saved).getD .unreadable
    { disk with dirs := Function.update disk.dirs job { dir with manifest } }
  else disk

/-- Put a finished file into place. -/
def land (parse : List UInt8 → Option Manifest) (disk : Disk) (writer : PartWriter) (place : Place)
    (file : Nat) : Disk :=
  match place with
  | .outside => disk
  | .jobDir job =>
    if job = writer.dir then disk else landIn parse disk job writer.manifest.fileName file

variable (hash : List UInt8 → String) (parse : List UInt8 → Option Manifest)

/-- One step. -/
def step (root : PartsRoot) : PartsInput → Option (PartsRoot × List PartsEvent)
  | .openNew job file first second =>
    some (root.spawn (PartWriter.open root.disk job file.manifest first second), [])
  | .loadOrOpen job file first second =>
    some (root.spawn (PartWriter.loadOrOpen root.disk job file.manifest first second), [])
  | .writeChunk handle i data outcome =>
    (root.writers handle).map fun writer =>
      let (disk, writer, _) := writer.writeChunk hash root.disk i data outcome
      ({ root with disk, writers := Function.update root.writers handle (some writer) }, [])
  | .finalize handle place outcome =>
    (root.writers handle).map fun writer =>
      let rest := Function.update root.writers handle none
      match writer.finalize root.disk outcome with
      | (disk, .ok (file, content)) =>
        ({ root with disk := land parse disk writer place file, writers := rest },
          [.placed writer.manifest content])
      | (disk, .error _) => ({ root with disk, writers := rest }, [])
  | .drop handle outcome =>
    (root.writers handle).map fun writer =>
      ({ root with
        disk := writer.drop root.disk outcome
        writers := Function.update root.writers handle none }, [])
  | .removeDir job partGone manifestGone =>
    some ({ root with disk := root.disk.removeDir job partGone manifestGone }, [])
  | .crash => some ({ root with writers := fun _ => none }, [])

end PartsRoot

section Guard

/-- Whether a left-over manifest can do with an empty `part.bin`. -/
def Manifest.restartable (m : Manifest) : Bool :=
  m.received.all (!·) && m.covered == m.totalSize

/-- A job directory can be started anew: what is left of `part.bin` is not too long for the new
file and the hashes speak of all of the rest; and if the new manifest cannot be saved, a left-over
manifest does not get an empty `part.bin` it takes for its own. -/
def startable (disk : Disk) (job : Nat) (m : Manifest) (first second : SaveOutcome) : Bool :=
  m.Fits (disk.partContent job).length &&
    (first != .failed || second != .failed || (disk.dirs job).part.isSome ||
      (disk.load job).all Manifest.restartable)

/-- Whether `load_or_open` takes the job directory up. -/
def takesUp (disk : Disk) (job : Nat) (m : Manifest) : Bool :=
  (disk.load job).any fun existing => PartWriter.resumes existing m

/-- Every writer that is alive in the job directory receives the same chunks into the `part.bin`
that is there. -/
def sharable (root : PartsRoot) (job : Nat) (m : Manifest) : Bool :=
  (List.range root.nextWriter).all fun handle =>
    (root.writers handle).all fun writer =>
      writer.dir != job ||
        (writer.manifest.SameChunks m && (root.disk.dirs job).part == some writer.file)

/-- The file does not become a part of another job directory. -/
def landsApart (disk : Disk) (writer : PartWriter) : Place → Bool
  | .outside => true
  | .jobDir job =>
    job == writer.dir ||
      !(writer.manifest.fileName == "part.bin" && (disk.dirs job).part.isNone ||
        writer.manifest.fileName == "manifest.json" && (disk.dirs job).manifest == .absent)

variable (hash : List UInt8 → String)

/-- The condition on one step. -/
def partsGuard : Guard PartsRoot PartsInput PartsEvent :=
  fun _ root input =>
    match input with
    | .openNew job file first second =>
      (startable root.disk job file.manifest first second &&
        sharable root job file.manifest) = true
    | .loadOrOpen job file first second =>
      ((takesUp root.disk job file.manifest ||
          startable root.disk job file.manifest first second) &&
        sharable root job file.manifest) = true
    | .writeChunk handle i data (.failed _) => ((root.writers handle).all fun writer =>
      -- Where two byte strings with one hash meet, half of one may end up in the other.
      let there := writer.manifest.chunk (root.disk.store writer.file) i
      hash there != hash data || there == data) = true
    | .finalize handle place _ =>
      ((root.writers handle).all fun writer => landsApart root.disk writer place) = true
    | _ => True

instance (trace : List PartsEvent) (root : PartsRoot) (input : PartsInput) :
    Decidable (partsGuard hash trace root input) :=
  match input with
  | .openNew .. | .loadOrOpen .. | .writeChunk _ _ _ (.failed _) | .finalize .. =>
    inferInstanceAs (Decidable (_ = true))
  | .writeChunk _ _ _ (.written _) | .drop .. | .removeDir .. | .crash =>
    inferInstanceAs (Decidable True)

end Guard

section Invariant

variable {hash : List UInt8 → String} {disk : Disk} {writers : Nat → Option PartWriter}
  {job handle file : Nat} {m : Manifest} {writer : PartWriter}

/-- The disk and the living writers have what they claim: a job directory that can be taken up
holds its manifest, and so does every writer; a writer and its directory agree on the file and on
the chunks, and no file is in two directories. -/
structure PartsInv (hash : List UInt8 → String) (disk : Disk)
    (writers : Nat → Option PartWriter) : Prop where
  sound : ∀ job m file, disk.load job = some m → (disk.dirs job).part = some file →
    m.Holds hash (disk.store file)
  holds : ∀ handle writer, writers handle = some writer →
    writer.manifest.Holds hash (disk.store writer.file)
  attached : ∀ handle writer file, writers handle = some writer →
    (disk.dirs writer.dir).part = some file → file = writer.file
  home : ∀ handle writer job, writers handle = some writer →
    (disk.dirs job).part = some writer.file → job = writer.dir
  shared : ∀ handle other writer found, writers handle = some writer → writers other = some found →
    writer.file = found.file → writer.manifest.SameChunks found.manifest
  onDisk : ∀ handle writer m, writers handle = some writer → disk.load writer.dir = some m →
    (disk.dirs writer.dir).part.isSome → m.SameChunks writer.manifest
  apart : ∀ job other file, (disk.dirs job).part = some file → (disk.dirs other).part = some file →
    job = other
  fresh : (∀ job file, (disk.dirs job).part = some file → file < disk.nextFile) ∧
    ∀ handle writer, writers handle = some writer → writer.file < disk.nextFile

/-- The same chunks, the other way round. -/
theorem Manifest.SameChunks.symm {other : Manifest} (h : m.SameChunks other) :
    other.SameChunks m :=
  ⟨h.1.symm, h.2.symm⟩

/-- The same chunks, in two steps. -/
theorem Manifest.SameChunks.trans {other third : Manifest} (h : m.SameChunks other)
    (hother : other.SameChunks third) : m.SameChunks third :=
  ⟨h.1.trans hother.1, h.2.trans hother.2⟩

namespace Disk

@[simp] theorem save_store (outcome : SaveOutcome) : (disk.save job m outcome).store = disk.store := by
  cases outcome <;> rfl

@[simp] theorem save_nextFile (outcome : SaveOutcome) :
    (disk.save job m outcome).nextFile = disk.nextFile := by
  cases outcome <;> rfl

@[simp] theorem save_part (outcome : SaveOutcome) (other : Nat) :
    ((disk.save job m outcome).dirs other).part = (disk.dirs other).part := by
  cases outcome with
  | failed => rfl
  | done | torn =>
    by_cases h : other = job
    · subst h
      simp [save]
    · simp [save, h]

theorem save_dirs_other {other : Nat} (outcome : SaveOutcome) (h : other ≠ job) :
    (disk.save job m outcome).dirs other = disk.dirs other := by
  cases outcome <;> simp [save, h]

/-- What is loaded after a save: what was there before, or what was saved. -/
theorem load_save {other : Nat} {found : Manifest} (outcome : SaveOutcome)
    (h : (disk.save job m outcome).load other = some found) :
    disk.load other = some found ∨ other = job ∧ found = m := by
  by_cases hjob : other = job
  · subst hjob
    cases outcome with
    | done =>
      simp only [save, load, Function.update_self] at h
      split at h
      · exact .inr ⟨rfl, (Option.some.inj h).symm⟩
      · cases h
    | torn => simp [save, load] at h
    | failed => exact .inl h
  · left
    cases outcome with
    | done | torn => simpa [save, load, hjob] using h
    | failed => exact h

/-- A part that is left after a removal was there before, and so was a manifest. -/
theorem removeDir_part {partGone manifestGone : Bool} {other : Nat}
    (h : ((disk.removeDir job partGone manifestGone).dirs other).part = some file) :
    (disk.dirs other).part = some file := by
  by_cases hjob : other = job
  · subst hjob
    simp only [removeDir, Function.update_self] at h
    split at h
    · cases h
    · exact h
  · simpa [removeDir, hjob] using h

theorem load_removeDir {partGone manifestGone : Bool} {other : Nat}
    (h : (disk.removeDir job partGone manifestGone).load other = some m) :
    disk.load other = some m := by
  by_cases hjob : other = job
  · subst hjob
    simp only [removeDir, load, Function.update_self] at h
    unfold load
    split at h
    · next found hfound =>
      split at hfound
      · cases hfound
      · rw [hfound]
        exact h
    · cases h
  · simpa [removeDir, load, hjob] using h

end Disk

namespace PartsInv

variable (h : PartsInv hash disk writers)

include h

/-- Fewer writers. -/
theorem fewer {left : Nat → Option PartWriter}
    (hleft : ∀ handle writer, left handle = some writer → writers handle = some writer) :
    PartsInv hash disk left where
  __ := h
  holds handle writer hw := h.holds handle writer (hleft _ _ hw)
  attached handle writer file hw := h.attached handle writer file (hleft _ _ hw)
  home handle writer job hw := h.home handle writer job (hleft _ _ hw)
  shared handle other writer found hw hf :=
    h.shared handle other writer found (hleft _ _ hw) (hleft _ _ hf)
  onDisk handle writer m hw := h.onDisk handle writer m (hleft _ _ hw)
  fresh := ⟨h.fresh.1, fun handle writer hw => h.fresh.2 handle writer (hleft _ _ hw)⟩

/-- A save of a manifest that the `part.bin` holds. -/
theorem save (outcome : SaveOutcome)
    (hholds : ∀ file, (disk.dirs job).part = some file → m.Holds hash (disk.store file))
    (hsame : ∀ handle writer, writers handle = some writer → writer.dir = job →
      (disk.dirs job).part.isSome → m.SameChunks writer.manifest) :
    PartsInv hash (disk.save job m outcome) writers where
  sound other found file hload hpart := by
    rw [Disk.save_part] at hpart
    rw [Disk.save_store]
    rcases Disk.load_save outcome hload with hold | ⟨rfl, rfl⟩
    · exact h.sound other found file hold hpart
    · exact hholds file hpart
  holds handle writer hw := by
    rw [Disk.save_store]
    exact h.holds handle writer hw
  attached handle writer file hw hpart := by
    rw [Disk.save_part] at hpart
    exact h.attached handle writer file hw hpart
  home handle writer other hw hpart := by
    rw [Disk.save_part] at hpart
    exact h.home handle writer other hw hpart
  shared := h.shared
  onDisk handle writer found hw hload hpart := by
    rw [Disk.save_part] at hpart
    rcases Disk.load_save outcome hload with hold | ⟨hdir, rfl⟩
    · exact h.onDisk handle writer found hw hold hpart
    · exact hsame handle writer hw hdir (hdir ▸ hpart)
  apart other third file hpart hother := by
    rw [Disk.save_part] at hpart hother
    exact h.apart other third file hpart hother
  fresh := by
    refine ⟨fun other file hpart => ?_, fun handle writer hw => ?_⟩
    · rw [Disk.save_part] at hpart
      rw [Disk.save_nextFile]
      exact h.fresh.1 other file hpart
    · rw [Disk.save_nextFile]
      exact h.fresh.2 handle writer hw

/-- A job directory that is removed, or what is left of it. -/
theorem removeDir (job : Nat) (partGone manifestGone : Bool) :
    PartsInv hash (disk.removeDir job partGone manifestGone) writers where
  __ := h
  sound other found file hload hpart :=
    h.sound other found file (Disk.load_removeDir hload) (Disk.removeDir_part hpart)
  attached handle writer file hw hpart := h.attached handle writer file hw (Disk.removeDir_part hpart)
  home handle writer other hw hpart := h.home handle writer other hw (Disk.removeDir_part hpart)
  onDisk handle writer found hw hload hpart := by
    obtain ⟨file, hfile⟩ := Option.isSome_iff_exists.mp hpart
    refine h.onDisk handle writer found hw (Disk.load_removeDir hload) ?_
    rw [Disk.removeDir_part hfile]
    rfl
  apart other third file hpart hother :=
    h.apart other third file (Disk.removeDir_part hpart) (Disk.removeDir_part hother)
  fresh := ⟨fun other file hpart => h.fresh.1 other file (Disk.removeDir_part hpart), h.fresh.2⟩

/-- A write that keeps what every manifest of the same chunks claims. -/
theorem write {content : List UInt8} (hw : writers handle = some writer)
    (hkeeps : ∀ m : Manifest, m.SameChunks writer.manifest → m.Holds hash (disk.store writer.file) →
      m.Holds hash content) :
    PartsInv hash (disk.write writer.file content) writers where
  __ := h
  sound job m file hload hpart := by
    have hload : disk.load job = some m := hload
    have hpart : (disk.dirs job).part = some file := hpart
    have hbefore := h.sound job m file hload hpart
    unfold Disk.write
    by_cases hfile : file = writer.file
    · subst hfile
      have hjob := h.home handle writer job hw hpart
      subst hjob
      have hsame := h.onDisk handle writer m hw hload (by rw [hpart]; rfl)
      simpa using hkeeps m hsame hbefore
    · simpa [hfile] using hbefore
  holds other found hfound := by
    have hbefore := h.holds other found hfound
    unfold Disk.write
    by_cases hfile : found.file = writer.file
    · have hsame := h.shared other handle found writer hfound hw hfile
      rw [hfile] at hbefore
      simpa [hfile] using hkeeps found.manifest hsame hbefore
    · simpa [hfile] using hbefore

/-- A writer that marks what it has. -/
theorem update (next : PartWriter) (hw : writers handle = some writer)
    (hdir : next.dir = writer.dir) (hfile : next.file = writer.file)
    (hsame : next.manifest.SameChunks writer.manifest)
    (hholds : next.manifest.Holds hash (disk.store writer.file)) :
    PartsInv hash disk (Function.update writers handle (some next)) := by
  have hcases : ∀ other found, Function.update writers handle (some next) other = some found →
      (other = handle ∧ found = next) ∨ writers other = some found := by
    intro other found hfound
    by_cases hother : other = handle
    · subst hother
      exact .inl ⟨rfl, by simpa using hfound.symm⟩
    · exact .inr (by simpa [hother] using hfound)
  refine ⟨h.sound, ?_, ?_, ?_, ?_, ?_, h.apart, h.fresh.1, ?_⟩
  · intro other found hfound
    rcases hcases other found hfound with ⟨rfl, rfl⟩ | hold
    · rw [hfile]
      exact hholds
    · exact h.holds other found hold
  · intro other found file hfound hpart
    rcases hcases other found hfound with ⟨rfl, rfl⟩ | hold
    · rw [hdir] at hpart
      rw [hfile]
      exact h.attached _ writer file hw hpart
    · exact h.attached other found file hold hpart
  · intro other found job hfound hpart
    rcases hcases other found hfound with ⟨rfl, rfl⟩ | hold
    · rw [hfile] at hpart
      rw [hdir]
      exact h.home _ writer job hw hpart
    · exact h.home other found job hold hpart
  · intro other third found last hfound hlast hsamefile
    rcases hcases other found hfound with ⟨rfl, rfl⟩ | hold
    · rcases hcases third last hlast with ⟨rfl, rfl⟩ | hthird
      · exact ⟨rfl, rfl⟩
      · rw [hfile] at hsamefile
        exact hsame.trans (h.shared _ _ _ _ hw hthird hsamefile)
    · rcases hcases third last hlast with ⟨rfl, rfl⟩ | hthird
      · rw [hfile] at hsamefile
        exact (h.shared _ _ _ _ hold hw hsamefile).trans hsame.symm
      · exact h.shared _ _ _ _ hold hthird hsamefile
  · intro other found m hfound hload hpart
    rcases hcases other found hfound with ⟨rfl, rfl⟩ | hold
    · rw [hdir] at hload hpart
      exact (h.onDisk _ writer m hw hload hpart).trans hsame.symm
    · exact h.onDisk other found m hold hload hpart
  · intro other found hfound
    rcases hcases other found hfound with ⟨rfl, rfl⟩ | hold
    · rw [hfile]
      exact h.fresh.2 _ writer hw
    · exact h.fresh.2 other found hold

/-- A new writer on the `part.bin` of a job directory. -/
theorem add (hpart : (disk.dirs writer.dir).part = some writer.file)
    (hholds : writer.manifest.Holds hash (disk.store writer.file))
    (hothers : ∀ other found, writers other = some found → found.dir = writer.dir →
      found.manifest.SameChunks writer.manifest)
    (hdisk : ∀ m, disk.load writer.dir = some m → m.SameChunks writer.manifest) :
    PartsInv hash disk (Function.update writers handle (some writer)) := by
  have hcases : ∀ other found, Function.update writers handle (some writer) other = some found →
      found = writer ∨ writers other = some found := by
    intro other found hfound
    by_cases hother : other = handle
    · subst hother
      exact .inl (by simpa using hfound.symm)
    · exact .inr (by simpa [hother] using hfound)
  refine ⟨h.sound, ?_, ?_, ?_, ?_, ?_, h.apart, h.fresh.1, ?_⟩
  · intro other found hfound
    rcases hcases other found hfound with rfl | hold
    · exact hholds
    · exact h.holds other found hold
  · intro other found file hfound hfile
    rcases hcases other found hfound with rfl | hold
    · rw [hpart] at hfile
      exact (Option.some.inj hfile).symm
    · exact h.attached other found file hold hfile
  · intro other found job hfound hjob
    rcases hcases other found hfound with rfl | hold
    · exact h.apart _ _ _ hjob hpart
    · exact h.home other found job hold hjob
  · intro other third found last hfound hlast hfile
    rcases hcases other found hfound with rfl | hold
    · rcases hcases third last hlast with rfl | hthird
      · exact ⟨rfl, rfl⟩
      · rw [hfile] at hpart
        exact (hothers third last hthird (h.home third last _ hthird hpart).symm).symm
    · rcases hcases third last hlast with rfl | hthird
      · rw [← hfile] at hpart
        exact hothers other found hold (h.home other found _ hold hpart).symm
      · exact h.shared _ _ _ _ hold hthird hfile
  · intro other found m hfound hload hsome
    rcases hcases other found hfound with rfl | hold
    · exact hdisk m hload
    · exact h.onDisk other found m hold hload hsome
  · intro other found hfound
    rcases hcases other found hfound with rfl | hold
    · exact h.fresh.1 _ _ hpart
    · exact h.fresh.2 other found hold

/-- A new, empty `part.bin`, where no writer is alive and a left-over manifest can do with it. -/
theorem create (hnone : (disk.dirs job).part = none)
    (hempty : ∀ m, disk.load job = some m → m.Holds hash [])
    (halone : ∀ handle writer, writers handle = some writer → writer.dir ≠ job) :
    PartsInv hash (disk.createPart job).1 writers := by
  have hdisk : (disk.createPart job).1 =
      { dirs := Function.update disk.dirs job { disk.dirs job with part := some disk.nextFile }
        store := Function.update disk.store disk.nextFile []
        nextFile := disk.nextFile + 1 } := by
    unfold Disk.createPart
    rw [hnone]
  have hpart : ∀ other file, ((disk.createPart job).1.dirs other).part = some file →
      (other = job ∧ file = disk.nextFile) ∨
        (other ≠ job ∧ (disk.dirs other).part = some file ∧ file < disk.nextFile) := by
    intro other file hfile
    rw [hdisk] at hfile
    by_cases hjob : other = job
    · subst hjob
      exact .inl ⟨rfl, by simpa using hfile.symm⟩
    · have hold : (disk.dirs other).part = some file := by simpa [hjob] using hfile
      exact .inr ⟨hjob, hold, h.fresh.1 other file hold⟩
  have hload : (disk.createPart job).1.load = disk.load := by
    funext other
    rw [hdisk]
    by_cases hjob : other = job
    · subst hjob
      simp [Disk.load]
    · simp [Disk.load, hjob]
  have hstore : ∀ file, file < disk.nextFile →
      (disk.createPart job).1.store file = disk.store file := by
    intro file hlt
    rw [hdisk]
    simp [Nat.ne_of_lt hlt]
  have hnew : (disk.createPart job).1.store disk.nextFile = [] := by
    rw [hdisk]
    simp
  refine ⟨?_, ?_, ?_, ?_, h.shared, ?_, ?_, ?_, ?_⟩
  · intro other m file hm hfile
    rw [hload] at hm
    rcases hpart other file hfile with ⟨rfl, rfl⟩ | ⟨-, hold, hlt⟩
    · rw [hnew]
      exact hempty m hm
    · rw [hstore file hlt]
      exact h.sound other m file hm hold
  · intro handle writer hw
    rw [hstore _ (h.fresh.2 handle writer hw)]
    exact h.holds handle writer hw
  · intro handle writer file hw hfile
    rcases hpart _ file hfile with ⟨hdir, -⟩ | ⟨-, hold, -⟩
    · exact absurd hdir (halone handle writer hw)
    · exact h.attached handle writer file hw hold
  · intro handle writer other hw hfile
    rcases hpart other _ hfile with ⟨-, hlast⟩ | ⟨-, hold, -⟩
    · have hlt := h.fresh.2 handle writer hw
      omega
    · exact h.home handle writer other hw hold
  · intro handle writer m hw hm hsome
    rw [hload] at hm
    obtain ⟨file, hfile⟩ := Option.isSome_iff_exists.mp hsome
    rcases hpart _ file hfile with ⟨hdir, -⟩ | ⟨-, hold, -⟩
    · exact absurd hdir (halone handle writer hw)
    · exact h.onDisk handle writer m hw hm (by rw [hold]; rfl)
  · intro other third file hfile hthird
    rcases hpart other file hfile with ⟨rfl, rfl⟩ | ⟨-, hold, hlt⟩
    · rcases hpart third _ hthird with ⟨rfl, -⟩ | ⟨-, -, hlt⟩
      · rfl
      · omega
    · rcases hpart third file hthird with ⟨rfl, rfl⟩ | ⟨-, hold', -⟩
      · omega
      · exact h.apart other third file hold hold'
  · intro other file hfile
    have hnext : (disk.createPart job).1.nextFile = disk.nextFile + 1 := by rw [hdisk]
    rcases hpart other file hfile with ⟨-, rfl⟩ | ⟨-, -, hlt⟩ <;> omega
  · intro handle writer hw
    have hnext : (disk.createPart job).1.nextFile = disk.nextFile + 1 := by rw [hdisk]
    have hlt := h.fresh.2 handle writer hw
    omega

end PartsInv

namespace Disk

/-- The `part.bin` that is opened. -/
theorem createPart_part : ((disk.createPart job).1.dirs job).part = some (disk.createPart job).2 := by
  unfold createPart
  split
  · assumption
  · simp

/-- Its contents are what was there. -/
theorem createPart_content :
    (disk.createPart job).1.store (disk.createPart job).2 = disk.partContent job := by
  unfold createPart partContent
  split
  · next file hfile => simp [hfile]
  · next hnone => simp [hnone]

/-- Opening `part.bin` and saving the manifest do not get in each other's way. -/
theorem createPart_save (disk : Disk) (job : Nat) (m : Manifest) (outcome : SaveOutcome) :
    ((disk.createPart job).1.save job m outcome) = ((disk.save job m outcome).createPart job).1 ∧
      (disk.createPart job).2 = ((disk.save job m outcome).createPart job).2 := by
  cases hfile : (disk.dirs job).part with
  | some file => simp [createPart, hfile]
  | none => cases outcome <;> simp [createPart, save, hfile]

/-- What is loaded from the directory that was saved to. -/
theorem load_save_self {found : Manifest} {outcome : SaveOutcome}
    (h : (disk.save job m outcome).load job = some found) :
    outcome = .failed ∧ disk.load job = some found ∨ found = m := by
  cases outcome with
  | failed => exact .inl ⟨rfl, h⟩
  | done =>
    rcases load_save .done h with hold | ⟨-, rfl⟩
    · simp only [save, load, Function.update_self] at h
      split at h
      · exact .inr (Option.some.inj h).symm
      · cases h
    · exact .inr rfl
  | torn => simp [save, load] at h

/-- A manifest that is loaded has a bit for each chunk. -/
theorem bitmap_of_load (h : disk.load job = some m) : m.received.length = m.chunkCount := by
  unfold load at h
  split at h
  · split at h
    · next hlength =>
      cases h
      exact hlength
    · cases h
  · cases h

end Disk

/-- A left-over manifest that claims nothing holds an empty file. -/
theorem Manifest.Holds.restart (hbitmap : m.received.length = m.chunkCount)
    (h : m.restartable = true) : m.Holds hash [] := by
  unfold Manifest.restartable at h
  simp only [Bool.and_eq_true, List.all_eq_true, beq_iff_eq] at h
  refine ⟨hbitmap, ?_, ?_⟩
  · unfold Manifest.Fits
    simpa using h.2
  · intro i expected hbit
    have hfalse := h.1 true (List.mem_of_getElem? hbit)
    simp at hfalse

/-- The writers in the directory of a new one. -/
def Sharable (disk : Disk) (writers : Nat → Option PartWriter) (job : Nat) (m : Manifest) : Prop :=
  ∀ handle writer, writers handle = some writer → writer.dir = job →
    writer.manifest.SameChunks m ∧ (disk.dirs job).part = some writer.file

namespace PartsInv

variable {file : FileMeta} {first second : SaveOutcome}

/-- The saves that are made when a job directory is opened anew: a second when the first fails. -/
def openSaves (disk : Disk) (job : Nat) (m : Manifest) (first second : SaveOutcome) : Disk :=
  if first = .done then disk.save job m first else (disk.save job m first).save job m second

/-- What opening anew leaves on the disk: the saves, and a `part.bin`. -/
theorem open_disk (m : Manifest) : (PartWriter.open disk job m first second).1 =
    ((openSaves disk job m first second).createPart job).1 := by
  have hfirst := (Disk.createPart_save disk job m first).1
  unfold PartWriter.open openSaves
  dsimp only
  split
  · exact hfirst
  · have hpart : (((disk.createPart job).1.save job m first).dirs job).part.isSome = true := by
      rw [Disk.save_part, Disk.createPart_part]
      rfl
    have hsecond := (Disk.createPart_save (disk.save job m first) job m second).1
    simp only [PartWriter.drop, hpart, if_true]
    rw [hfirst, hsecond]

/-- Opening anew keeps the disk in order. -/
theorem openDisk (h : PartsInv hash disk writers)
    (hstart : startable disk job file.manifest first second = true)
    (hshare : Sharable disk writers job file.manifest) :
    PartsInv hash (PartWriter.open disk job file.manifest first second).1 writers := by
  unfold startable at hstart
  rw [Bool.and_eq_true, decide_eq_true_eq] at hstart
  obtain ⟨hfits, hleft⟩ := hstart
  have hholds : ∀ found, (disk.dirs job).part = some found →
      file.manifest.Holds hash (disk.store found) := by
    intro found hfound
    rw [Disk.partContent, hfound] at hfits
    exact Manifest.Holds.fresh hfits
  have hsame : ∀ handle writer, writers handle = some writer → writer.dir = job →
      (disk.dirs job).part.isSome → file.manifest.SameChunks writer.manifest :=
    fun handle writer hw hdir _ => (hshare handle writer hw hdir).1.symm
  have hsaved : PartsInv hash (openSaves disk job file.manifest first second) writers := by
    have hone := h.save first hholds hsame
    unfold openSaves
    split
    · exact hone
    · refine hone.save second ?_ ?_
      · intro found hfound
        rw [Disk.save_part] at hfound
        rw [Disk.save_store]
        exact hholds found hfound
      · intro handle writer hw hdir hsome
        rw [Disk.save_part] at hsome
        exact hsame handle writer hw hdir hsome
  have hpart : ((openSaves disk job file.manifest first second).dirs job).part =
      (disk.dirs job).part := by
    unfold openSaves
    split <;> simp
  rw [open_disk]
  cases hnone : (disk.dirs job).part with
  | some found =>
    rw [hnone] at hpart
    unfold Disk.createPart
    rw [hpart]
    exact hsaved
  | none =>
    rw [hnone] at hpart
    have hzero : file.manifest.Holds hash [] := by
      rw [Disk.partContent, hnone] at hfits
      exact Manifest.Holds.fresh hfits
    refine hsaved.create hpart ?_ ?_
    · -- A left-over manifest survives only if both saves fail, and then it claims nothing.
      intro found hload
      have hold : first = .failed → second = .failed → disk.load job = some found →
          found.Holds hash [] := by
        intro hone htwo hbefore
        refine .restart (Disk.bitmap_of_load hbefore) ?_
        simpa [hone, htwo, hnone, hbefore] using hleft
      unfold openSaves at hload
      split at hload
      · next hdone =>
        rcases Disk.load_save_self hload with ⟨hfailed, -⟩ | rfl
        · rw [hdone] at hfailed
          cases hfailed
        · exact hzero
      · rcases Disk.load_save_self hload with ⟨htwo, hone⟩ | rfl
        · rcases Disk.load_save_self hone with ⟨hfailed, hbefore⟩ | rfl
          · exact hold hfailed htwo hbefore
          · exact hzero
        · exact hzero
    · intro handle writer hw hdir
      have hthere := (hshare handle writer hw hdir).2
      rw [hnone] at hthere
      cases hthere

/-- A writer that is opened anew is in order. -/
theorem openNew (h : PartsInv hash disk writers)
    (hstart : startable disk job file.manifest first second = true)
    (hshare : Sharable disk writers job file.manifest)
    (hopen : (PartWriter.open disk job file.manifest first second).2 = .ok writer) :
    PartsInv hash (PartWriter.open disk job file.manifest first second).1
      (Function.update writers handle (some writer)) := by
  have hdisk := h.openDisk hstart hshare
  have hfits : file.manifest.Fits (disk.partContent job).length := by
    unfold startable at hstart
    rw [Bool.and_eq_true, decide_eq_true_eq] at hstart
    exact hstart.1
  unfold PartWriter.open at hdisk hopen ⊢
  dsimp only at hdisk hopen ⊢
  split at hopen
  · next hdone =>
    cases hopen
    rw [if_pos hdone] at hdisk ⊢
    refine hdisk.add ?_ ?_ ?_ ?_
    · rw [Disk.save_part, Disk.createPart_part]
    · rw [Disk.save_store, Disk.createPart_content]
      exact .fresh hfits
    · intro other found hfound hdir
      exact (hshare other found hfound hdir).1
    · intro m hload
      rcases Disk.load_save_self hload with ⟨hfailed, -⟩ | rfl
      · rw [hdone] at hfailed
        cases hfailed
      · exact ⟨rfl, rfl⟩
  · cases hopen

/-- A writer that takes up a job directory is in order. -/
theorem takeUp {existing : Manifest} {part : Nat} (h : PartsInv hash disk writers)
    (hload : disk.load job = some existing) (hpart : (disk.dirs job).part = some part)
    (hshare : Sharable disk writers job existing) :
    PartsInv hash disk
      (Function.update writers handle (some { dir := job, file := part, manifest := existing })) := by
  refine h.add hpart (h.sound job existing part hload hpart) ?_ ?_
  · intro other found hfound hdir
    exact (hshare other found hfound hdir).1
  · intro m hm
    rw [hload] at hm
    cases hm
    exact ⟨rfl, rfl⟩

/-- A living writer can save its manifest. -/
theorem saveOwn (h : PartsInv hash disk writers) (hw : writers handle = some writer)
    (outcome : SaveOutcome) :
    PartsInv hash (disk.save writer.dir writer.manifest outcome) writers := by
  refine h.save outcome ?_ ?_
  · intro file hfile
    rw [h.attached handle writer file hw hfile]
    exact h.holds handle writer hw
  · intro other found hfound hdir hsome
    obtain ⟨file, hfile⟩ := Option.isSome_iff_exists.mp hsome
    have hown := h.attached handle writer file hw hfile
    have hother := h.attached other found file hfound (by rw [hdir, hfile])
    exact h.shared _ _ _ _ hw hfound (hown.symm.trans hother)

/-- A write of chunk data that was checked, whole or broken off. -/
theorem writeData {i : Nat} {data : List UInt8} (count : Nat) (h : PartsInv hash disk writers)
    (hw : writers handle = some writer)
    (hexpected : writer.manifest.chunkHashes[i]? = some (hash data))
    (hlength : data.length = writer.manifest.chunkLen i)
    (hwhole : data.take count = data ∨
      (hash (writer.manifest.chunk (disk.store writer.file) i) = hash data →
        writer.manifest.chunk (disk.store writer.file) i = data)) :
    PartsInv hash (disk.write writer.file (writeAt 0 (disk.store writer.file)
      (writer.manifest.chunkOffset i) (data.take count))) writers := by
  refine h.write hw fun m hsame hm => ?_
  obtain ⟨hi, -⟩ := List.getElem?_eq_some_iff.mp hexpected
  have hlen : m.chunkLen i = writer.manifest.chunkLen i := by
    simp [Manifest.chunkLen, Manifest.chunkOffset, hsame.1]
  have hhash : m.chunkHashes[i]? = some (hash data) := by rw [hsame.2, hexpected]
  refine hm.write (i := i) ?_ ?_ ?_
  · show i < m.chunkHashes.length
    rw [hsame.2]
    exact hi
  · rw [List.length_take]
    omega
  · intro hbit expected hfound
    rw [hhash] at hfound
    cases hfound
    rcases hwhole with hwhole | hunique
    · rw [hwhole, Manifest.chunk_write_self (hlength.trans hlen.symm)]
    · -- The chunk is there already, so that writing a part of it again changes nothing.
      obtain ⟨hthere, hold⟩ := hm.chunks i _ hbit hhash
      have hchunk : m.chunk (disk.store writer.file) i = data := by
        have hsamechunk : m.chunk (disk.store writer.file) i =
            writer.manifest.chunk (disk.store writer.file) i := by
          unfold Manifest.chunk
          rw [hlen]
          rfl
        rw [hsamechunk] at hold ⊢
        exact hunique hold
      have hsame : writeAt 0 (disk.store writer.file) (writer.manifest.chunkOffset i)
          (data.take count) = disk.store writer.file := by
        by_cases hzero : m.chunkLen i = 0
        · have hnil : data = [] := List.length_eq_zero_iff.mp (by omega)
          simp [hnil, writeAt]
        · rw [← hchunk]
          exact writeAt_slice (hthere hzero)
      show hash (m.chunk (writeAt 0 (disk.store writer.file) (writer.manifest.chunkOffset i)
        (data.take count)) i) = hash data
      rw [hsame, hchunk]

/-- A chunk that is written keeps the writers and the disk in order. -/
theorem writeChunk {i : Nat} {data : List UInt8} {outcome : PartWriter.WriteOutcome}
    (h : PartsInv hash disk writers) (hw : writers handle = some writer)
    (hcollide : ∀ written, outcome = .failed written →
      hash (writer.manifest.chunk (disk.store writer.file) i) = hash data →
      writer.manifest.chunk (disk.store writer.file) i = data) :
    PartsInv hash (writer.writeChunk hash disk i data outcome).1
      (Function.update writers handle (some (writer.writeChunk hash disk i data outcome).2.1)) := by
  have hsame : Function.update writers handle (some writer) = writers := by
    rw [← hw]
    exact Function.update_eq_self handle writers
  unfold PartWriter.writeChunk
  dsimp only
  split
  · rw [hsame]
    exact h
  · next hhash =>
    have hexpected : writer.manifest.chunkHashes[i]? = some (hash data) := not_not.mp hhash
    split
    · rw [hsame]
      exact h
    · next hlen =>
      have hlength : data.length = writer.manifest.chunkLen i := not_not.mp hlen
      split
      · next written =>
        rw [hsame]
        exact h.writeData written hw hexpected hlength (.inr (hcollide written rfl))
      · next outcome _ =>
        have hdata := h.writeData data.length hw hexpected hlength (.inl List.take_length)
        rw [List.take_length] at hdata
        have hreceived := (h.holds handle writer hw).receive hlength hexpected
        have hmarked := hdata.update { writer with manifest := writer.manifest.mark i } hw
          rfl rfl Manifest.mark_same_chunks (by simpa [Disk.write] using hreceived)
        have hself : Function.update writers handle
            (some { writer with manifest := writer.manifest.mark i }) handle =
              some { writer with manifest := writer.manifest.mark i } := Function.update_self ..
        split
        · exact hmarked
        · exact hmarked.saveOwn hself .done
        · exact hmarked.saveOwn hself _

/-- A writer that is dropped. -/
theorem drop (h : PartsInv hash disk writers) (hw : writers handle = some writer)
    (outcome : SaveOutcome) :
    PartsInv hash (writer.drop disk outcome) (Function.update writers handle none) := by
  have hleft : ∀ other found, Function.update writers handle none other = some found →
      writers other = some found := by
    intro other found hfound
    by_cases hother : other = handle
    · subst hother
      simp at hfound
    · simpa [hother] using hfound
  unfold PartWriter.drop
  split
  · exact (h.saveOwn hw outcome).fewer hleft
  · exact h.fewer hleft

/-- What `finalize` places is what the manifest describes. -/
theorem ready {outcome : PartWriter.FinalizeOutcome} {part : Nat} (h : PartsInv hash disk writers)
    (hw : writers handle = some writer) (hok : PartWriter.readyToPlace disk writer outcome = .ok part) :
    writer.manifest.Intact hash (disk.store part) := by
  unfold PartWriter.readyToPlace at hok
  split at hok
  · cases hok
  split at hok
  · cases hok
  split at hok
  · cases hok
  next hmissing =>
  split at hok
  · cases hok
  split at hok
  · next found hfound =>
    split at hok
    · cases hok
      rw [h.attached handle writer part hw hfound]
      exact (h.holds handle writer hw).intact (not_not.mp hmissing)
    · cases hok
  · cases hok

/-- A writer that is finished, with or without success. -/
theorem finalize (h : PartsInv hash disk writers) (hw : writers handle = some writer)
    (outcome : PartWriter.FinalizeOutcome) :
    PartsInv hash (writer.finalize disk outcome).1 (Function.update writers handle none) ∧
      ∀ file content, (writer.finalize disk outcome).2 = .ok (file, content) →
        writer.manifest.Intact hash content := by
  have hsaved := h.saveOwn hw outcome.save
  unfold PartWriter.finalize
  dsimp only
  split
  · refine ⟨hsaved.drop hw outcome.dropped, ?_⟩
    intro file content hok
    cases hok
  · next file hready =>
    refine ⟨?_, ?_⟩
    · have hdropped := (hsaved.removeDir writer.dir true outcome.manifestGone).drop hw .done
      have hgone : ((((disk.save writer.dir writer.manifest outcome.save).removeDir writer.dir true
          outcome.manifestGone).dirs writer.dir).part).isSome = false := by
        simp [Disk.removeDir]
      rw [PartWriter.drop, hgone] at hdropped
      exact hdropped
    · intro found content hok
      obtain ⟨-, rfl⟩ : file = found ∧ _ = content := by simpa using hok
      simpa using hsaved.ready hw hready

end PartsInv

namespace PartsRoot

variable {root next : PartsRoot} {parse : List UInt8 → Option Manifest} {input : PartsInput}
  {trace emitted : List PartsEvent}

/-- The parts root is in order, and writers have numbers. -/
structure Ordered (hash : List UInt8 → String) (root : PartsRoot) : Prop where
  parts : PartsInv hash root.disk root.writers
  handles : ∀ handle, root.nextWriter ≤ handle → root.writers handle = none

/-- The empty parts root is in order. -/
theorem start_ordered : start.Ordered hash where
  parts := by
    refine ⟨?_, ?_, ?_, ?_, ?_, ?_, ?_, ?_, ?_⟩ <;> simp [start, Disk.empty, Disk.load]
  handles _ _ := rfl

/-- `sharable` looks at every writer. -/
theorem Ordered.sharable (h : root.Ordered hash) (hshare : sharable root job m = true) :
    Sharable root.disk root.writers job m := by
  intro handle writer hw hdir
  have hlt : handle < root.nextWriter := by
    by_contra hge
    rw [h.handles handle (by omega)] at hw
    cases hw
  unfold LocalTrans.sharable at hshare
  rw [List.all_eq_true] at hshare
  have hone := hshare handle (List.mem_range.mpr hlt)
  rw [hw] at hone
  simpa [hdir] using hone

/-- A writer is added, if it was opened. -/
theorem Ordered.spawn {result : Disk × Except EngineError PartWriter} (h : root.Ordered hash)
    (hdisk : PartsInv hash result.1 root.writers)
    (hopen : ∀ writer, result.2 = .ok writer →
      PartsInv hash result.1 (Function.update root.writers root.nextWriter (some writer))) :
    (root.spawn result).Ordered hash := by
  obtain ⟨disk, outcome⟩ := result
  cases outcome with
  | error error => exact ⟨hdisk, h.handles⟩
  | ok writer =>
    refine ⟨hopen writer rfl, fun handle hle => ?_⟩
    have hle : root.nextWriter + 1 ≤ handle := hle
    show Function.update root.writers root.nextWriter (some writer) handle = none
    rw [Function.update_of_ne (by omega)]
    exact h.handles handle (by omega)

/-- A writer changes or goes. -/
theorem Ordered.change {changed : Option PartWriter} (h : root.Ordered hash)
    (hw : root.writers handle = some writer)
    (hparts : PartsInv hash disk (Function.update root.writers handle changed)) :
    ({ root with disk, writers := Function.update root.writers handle changed } :
      PartsRoot).Ordered hash := by
  refine ⟨hparts, fun other hle => ?_⟩
  have hother : other ≠ handle := by
    rintro rfl
    rw [h.handles other hle] at hw
    cases hw
  show Function.update root.writers handle changed other = none
  rw [Function.update_of_ne hother]
  exact h.handles other hle

/-- A job directory that is taken up, or opened anew. -/
theorem Ordered.loadOrOpen {file : FileMeta} {first second : SaveOutcome} (h : root.Ordered hash)
    (hstart : takesUp root.disk job file.manifest = true ∨
      startable root.disk job file.manifest first second = true)
    (hshare : Sharable root.disk root.writers job file.manifest) :
    (root.spawn (PartWriter.loadOrOpen root.disk job file.manifest first second)).Ordered hash := by
  have hanew : takesUp root.disk job file.manifest = false →
      (root.spawn (PartWriter.open root.disk job file.manifest first second)).Ordered hash := by
    intro hnot
    have hstart : startable root.disk job file.manifest first second = true := by
      simpa [hnot] using hstart
    exact h.spawn (h.parts.openDisk hstart hshare)
      fun writer hopen => h.parts.openNew hstart hshare hopen
  unfold PartWriter.loadOrOpen
  split
  · next existing hload =>
    split
    · next hresumes =>
      have hsame : existing.SameChunks file.manifest := by
        unfold PartWriter.resumes at hresumes
        simp only [Bool.and_eq_true, beq_iff_eq] at hresumes
        exact ⟨hresumes.1.2, hresumes.2⟩
      split
      · next part hpart =>
        refine h.spawn h.parts fun writer hopen => ?_
        cases hopen
        refine h.parts.takeUp hload hpart fun handle found hfound hdir => ?_
        obtain ⟨hchunks, hfile⟩ := hshare handle found hfound hdir
        exact ⟨hchunks.trans hsame.symm, hfile⟩
      · exact h.spawn h.parts fun writer hopen => by cases hopen
    · next hnot => exact hanew (by simpa [takesUp, hload] using hnot)
  · next hload => exact hanew (by simp [takesUp, hload])

/-- A file that does not become a part of a job directory changes none. -/
theorem land_apart {place : Place} (outcome : PartWriter.FinalizeOutcome) (file : Nat)
    (h : landsApart disk writer place = true) :
    land parse (writer.finalize disk outcome).1 writer place file =
      (writer.finalize disk outcome).1 := by
  cases place with
  | outside => rfl
  | jobDir job =>
    unfold land
    dsimp only
    split
    · rfl
    · next hjob =>
      have hdir : (writer.finalize disk outcome).1.dirs job = disk.dirs job := by
        unfold PartWriter.finalize PartWriter.drop
        dsimp only
        split
        · dsimp only
          split
          · rw [Disk.save_dirs_other _ hjob, Disk.save_dirs_other _ hjob]
          · rw [Disk.save_dirs_other _ hjob]
        · simp [Disk.removeDir, hjob, Disk.save_dirs_other _ hjob]
      unfold landIn
      dsimp only
      rw [hdir]
      simp only [landsApart, hjob, Bool.or_eq_true, beq_iff_eq, false_or, Bool.not_eq_true',
        Bool.or_eq_false_iff, Bool.and_eq_false_imp] at h
      obtain ⟨hpart, hmanifest⟩ := h
      rw [if_neg, if_neg]
      · rintro ⟨hname, hdir⟩
        have hthere := hmanifest hname
        simp [hdir] at hthere
      · rintro ⟨hname, hdir⟩
        have hthere := hpart hname
        simp [hdir] at hthere

/-- The parts root is in order, and what has been placed is intact. -/
def Keeps (hash : List UInt8 → String) (trace : List PartsEvent) (root : PartsRoot) : Prop :=
  root.Ordered hash ∧ ∀ m content, .placed m content ∈ trace → m.Intact hash content

/-- One step keeps the parts root in order, and what it places is intact. -/
theorem Ordered.step (h : root.Ordered hash) (hguard : partsGuard hash trace root input)
    (hstep : step hash parse root input = some (next, emitted)) :
    next.Ordered hash ∧
      ∀ m content, .placed m content ∈ emitted → m.Intact hash content := by
  cases input with
  | openNew job file first second =>
    simp only [partsGuard, Bool.and_eq_true] at hguard
    cases hstep
    have hshare := h.sharable hguard.2
    refine ⟨h.spawn (h.parts.openDisk hguard.1 hshare) ?_, by simp⟩
    exact fun writer hopen => h.parts.openNew hguard.1 hshare hopen
  | loadOrOpen job file first second =>
    simp only [partsGuard, Bool.and_eq_true, Bool.or_eq_true] at hguard
    cases hstep
    exact ⟨h.loadOrOpen hguard.1 (h.sharable hguard.2), by simp⟩
  | writeChunk handle i data outcome =>
    obtain ⟨writer, hw, hnext⟩ := Option.map_eq_some_iff.mp hstep
    cases hnext
    refine ⟨h.change hw (h.parts.writeChunk hw ?_), by simp⟩
    rintro written rfl hsame
    simp only [partsGuard, hw, Option.all_some, Bool.or_eq_true, bne_iff_ne, beq_iff_eq] at hguard
    exact hguard.resolve_left (not_not.mpr hsame)
  | finalize handle place outcome =>
    obtain ⟨writer, hw, hnext⟩ := Option.map_eq_some_iff.mp hstep
    simp only [partsGuard, hw, Option.all_some] at hguard
    obtain ⟨hparts, hintact⟩ := h.parts.finalize hw outcome
    dsimp only at hnext
    split at hnext
    · next disk part content hok =>
      have hland : land parse disk writer place part = disk := by
        have hapart : land parse (writer.finalize root.disk outcome).1 writer place part =
            (writer.finalize root.disk outcome).1 := land_apart outcome part hguard
        rwa [hok] at hapart
      rw [hok] at hparts hintact
      rw [hland] at hnext
      cases hnext
      refine ⟨h.change hw hparts, ?_⟩
      intro m found hplaced
      obtain ⟨rfl, rfl⟩ : m = writer.manifest ∧ found = content := by simpa using hplaced
      exact hintact part found rfl
    · next disk error hfailed =>
      rw [hfailed] at hparts
      cases hnext
      exact ⟨h.change hw hparts, by simp⟩
  | drop handle outcome =>
    obtain ⟨writer, hw, hnext⟩ := Option.map_eq_some_iff.mp hstep
    cases hnext
    exact ⟨h.change hw (h.parts.drop hw outcome), by simp⟩
  | removeDir job partGone manifestGone =>
    cases hstep
    exact ⟨⟨h.parts.removeDir job partGone manifestGone, h.handles⟩, by simp⟩
  | crash =>
    cases hstep
    refine ⟨⟨h.parts.fewer ?_, fun _ _ => rfl⟩, by simp⟩
    intro handle writer hw
    cases hw

end PartsRoot

end Invariant

/-- In a run whose steps all meet the condition, every file that is placed is the one its manifest
describes. -/
theorem placed_files_intact (hash : List UInt8 → String) (parse : List UInt8 → Option Manifest)
    {inputs : List PartsInput} {trace : List PartsEvent} {root : PartsRoot}
    (h : Exec (PartsRoot.step hash parse) (partsGuard hash) PartsRoot.start inputs trace root) :
    ∀ m content, .placed m content ∈ trace → m.Intact hash content := by
  suffices hinv : PartsRoot.Keeps hash trace root from hinv.2
  refine h.invariant ?_ ?_
  · exact ⟨PartsRoot.start_ordered, by simp⟩
  · intro trace root input next emitted hinv hguard hstep
    obtain ⟨hordered, hbefore⟩ := hinv
    obtain ⟨hnext, hemitted⟩ := hordered.step hguard hstep
    refine ⟨hnext, fun m content hmem => ?_⟩
    rcases List.mem_append.mp hmem with hold | hnew
    · exact hbefore m content hold
    · exact hemitted m content hnew

/-- SHA-256 of two short texts. -/
def shortHash (data : List UInt8) : String :=
  if data = [97, 98, 99] then "ba7816bf8f01cfea414140de5dae2223b00361a396177a9cb410ff61f20015ad"
  else if data = [97] then "ca978112ca1bbdcafac231b39a23dc4da786eff8147c4e72b9807785afee48bb"
  else ""

/-- A file of three bytes, and one of a single byte. -/
def shortMeta (data : List UInt8) : FileMeta :=
  { fileName := "a.txt", totalSize := data.length, chunkHashes := [shortHash data]
    peer := none, shareId := none, rel := none }

/-- How `finalize` goes when nothing fails. -/
def finalizeDone : PartWriter.FinalizeOutcome :=
  { save := .done, created := true, renamed := true, manifestGone := true, dropped := .done }

/-- A transfer under job id 1 that is killed after its chunk. -/
def killedTransfer : List PartsInput :=
  [.loadOrOpen 1 (shortMeta [97, 98, 99]) .done .done,
    .writeChunk 0 0 [97, 98, 99] (.written none), .crash]

/-- A transfer that is killed and then taken up places the file it was for. -/
theorem placed_after_resume :
    ∃ inputs trace root,
      Exec (PartsRoot.step shortHash fun _ => none) (partsGuard shortHash) PartsRoot.start inputs
        trace root ∧
      ∃ m, .placed m [97, 98, 99] ∈ trace ∧ m.Intact shortHash [97, 98, 99] := by
  obtain ⟨root, hexec⟩ := exec_of_run (PartsRoot.step shortHash fun _ => none)
    (partsGuard shortHash) PartsRoot.start
    (killedTransfer ++ [.loadOrOpen 1 (shortMeta [97, 98, 99]) .done .done,
      .writeChunk 1 0 [97, 98, 99] (.written none), .finalize 1 .outside finalizeDone]) (by decide)
  have hplaced : .placed ((shortMeta [97, 98, 99]).manifest.mark 0) [97, 98, 99] ∈
      Machine.history (PartsRoot.step shortHash fun _ => none) (partsGuard shortHash)
        PartsRoot.start (killedTransfer ++ [.loadOrOpen 1 (shortMeta [97, 98, 99]) .done .done,
          .writeChunk 1 0 [97, 98, 99] (.written none), .finalize 1 .outside finalizeDone]) := by
    decide
  exact ⟨_, _, root, hexec, _, hplaced, placed_files_intact shortHash _ hexec _ _ hplaced⟩

/-- A shorter file that is received under the job id of a transfer that was killed keeps the end
of the other file. -/
theorem not_intact_after_longer :
    ¬ ∀ (hash : List UInt8 → String) (parse : List UInt8 → Option Manifest)
        (inputs : List PartsInput) (trace : List PartsEvent) (root : PartsRoot),
      Exec (PartsRoot.step hash parse) Guard.free PartsRoot.start inputs trace root →
        ∀ m content, .placed m content ∈ trace → m.Intact hash content := by
  intro hall
  obtain ⟨root, hexec⟩ := exec_of_run (PartsRoot.step shortHash fun _ => none)
    Guard.free PartsRoot.start
    (killedTransfer ++ [.loadOrOpen 1 (shortMeta [97]) .done .done,
      .writeChunk 1 0 [97] (.written none), .finalize 1 .outside finalizeDone]) (by decide)
  have hplaced : .placed ((shortMeta [97]).manifest.mark 0) [97, 98, 99] ∈
      Machine.history (PartsRoot.step shortHash fun _ => none) Guard.free
        PartsRoot.start (killedTransfer ++ [.loadOrOpen 1 (shortMeta [97]) .done .done,
          .writeChunk 1 0 [97] (.written none), .finalize 1 .outside finalizeDone]) := by
    decide
  have hlength := (hall _ _ _ _ _ hexec _ _ hplaced).length
  simp [shortMeta, FileMeta.manifest, Manifest.fromMetaWithSource, Manifest.mark] at hlength

end LocalTrans
