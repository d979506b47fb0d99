import LocalTrans.Transfer.PartWriter

/-!
# The download directory and the inbox index

`FileSystem` is what a receiver sees of the disk: the job directories, the tree of files and
directories, and a record of every place where it made one. `InboxIndex` of `dedup.rs` maps the
hash of a received file to its path. `placeDedupCopy` puts a copy of a file that is there already
under a new name. An index file is a node of its own; whatever else lies in its place is parsed.
-/

namespace LocalTrans

open Foundation

/-- `IndexEntry`. -/
structure IndexEntry where
  path : Location
  size : Nat
deriving DecidableEq

/-- `InboxIndex`: the entries by their hash, at most one for each. -/
abbrev InboxIndex := List (String × IndexEntry)

namespace InboxIndex

/-- `InboxIndex::lookup`: the entry of the hash, if it has the size. -/
def lookup (index : InboxIndex) (hash : String) (size : Nat) : Option Location :=
  match index.find? fun entry => entry.1 == hash with
  | some entry => if entry.2.size = size then some entry.2.path else none
  | none => none

/-- `InboxIndex::insert` replaces the entry of the hash. -/
def insert (index : InboxIndex) (hash : String) (path : Location) (size : Nat) : InboxIndex :=
  (hash, { path, size }) :: index.filter fun entry => entry.1 != hash

/-- `InboxIndex::prune_missing`. -/
def pruneMissing (index : InboxIndex) (present : Location → Bool) : InboxIndex :=
  index.filter fun entry => present entry.2.path

end InboxIndex

/-- What a path leads to: an index file is known by its entries and its text. -/
inductive Node where
  | dir
  | file (number : Nat)
  | index (entries : InboxIndex) (text : List UInt8)
deriving DecidableEq

/-- The job directories with the contents of all files, the tree of files and directories, and
the places where something was made. -/
structure FileSystem where
  disk : Disk
  tree : Location → Option Node
  created : List Location

/-- The path syntax of the system, and the current directories of its drives. -/
structure Platform where
  style : PathStyle
  current : Char → Location

/-- `Path::join`. -/
def Platform.join (platform : Platform) (base : Location) (path : String) : Location :=
  platform.style.join platform.current base path

/-- `PathBuf::push` of one name after the other. -/
def Platform.joinAll (platform : Platform) (base : Location) (names : List String) : Location :=
  names.foldl platform.join base

/-- How writing a whole file goes: it succeeds, breaks off, or does not begin. -/
inductive FileOutcome where
  | done
  | broken (written : Nat)
  | refused
deriving DecidableEq

/-- The first number from `start` on that is free; the counter ends after `fuel` numbers. -/
def firstFree (taken : Nat → Bool) : Nat → Nat → Option Nat
  | 0, _ => none
  | fuel + 1, start => if taken start then firstFree taken fuel (start + 1) else some start

/-- The number that is found is free. -/
theorem first_free_spec {taken : Nat → Bool} {fuel start i : Nat}
    (h : firstFree taken fuel start = some i) : taken i = false := by
  induction fuel generalizing start with
  | zero => cases h
  | succ fuel ih =>
    unfold firstFree at h
    split at h
    · exact ih h
    · next hfree =>
      cases h
      simpa using hfree

/-- The numbers a 32-bit counter can have. -/
def counterRange : Nat := 2 ^ 32

/-- A file that was put somewhere, and its contents then. -/
structure Placed where
  place : Location
  content : List UInt8
deriving DecidableEq

namespace FileSystem

/-- Nothing is there. -/
def empty : FileSystem :=
  { disk := Disk.empty, tree := fun _ => none, created := [] }

/-- `Path::exists`. -/
def present (fs : FileSystem) (place : Location) : Bool :=
  (fs.tree place).isSome

/-- The contents of the file at a place. -/
def contentAt (fs : FileSystem) (place : Location) : Option (List UInt8) :=
  match fs.tree place with
  | some (.file number) => some (fs.disk.store number)
  | some (.index _ text) => some text
  | _ => none

/-- The directories on the way to a place, and the place itself. -/
def wayTo (place : Location) : List Location :=
  (List.range place.names.length).map fun i => { place with names := place.names.take (i + 1) }

/-- `create_dir_all`. -/
def createDirAll (fs : FileSystem) (dir : Location) : FileSystem :=
  let missing := (wayTo dir).filter fun place => !fs.present place
  { fs with
    tree := fun place => if place ∈ missing then some .dir else fs.tree place
    created := fs.created ++ missing }

/-- Let a place lead to a node that is there already. -/
def link (fs : FileSystem) (place : Location) (node : Node) : FileSystem :=
  { fs with tree := Function.update fs.tree place (some node), created := fs.created ++ [place] }

/-- Make a new file. -/
def newFile (fs : FileSystem) (place : Location) (content : List UInt8) : FileSystem :=
  let number := fs.disk.nextFile
  { disk := { fs.disk with store := Function.update fs.disk.store number content, nextFile := number + 1 }
    tree := Function.update fs.tree place (some (.file number))
    created := fs.created ++ [place] }

/-- Write a new file, or a part of it. -/
def writeNew (fs : FileSystem) (place : Location) (content : List UInt8) :
    FileOutcome → FileSystem × Except EngineError Placed
  | .done => (fs.newFile place content, .ok { place, content })
  | .broken written => (fs.newFile place (content.take written), .error (.io "write"))
  | .refused => (fs, .error (.io "open"))

/-- `same_file`: both exist, and their canonical paths are equal. -/
def sameFile (fs : FileSystem) (first second : Location) : Bool :=
  fs.present first && fs.present second && first == second

/-- Nothing but directories is new, and those are new places. -/
def OnlyDirs (fs next : FileSystem) : Prop :=
  ∀ place, next.tree place = fs.tree place ∨
    fs.tree place = none ∧ next.tree place = some .dir

variable {fs : FileSystem} {dir place : Location} {node : Node}

@[simp] theorem link_disk : (fs.link place node).disk = fs.disk := rfl

@[simp] theorem link_tree_self : (fs.link place node).tree place = some node :=
  Function.update_self ..

/-- A place that was free is the only one that a new link changes. -/
theorem link_tree_other {other : Location} (h : other ≠ place) :
    (fs.link place node).tree other = fs.tree other :=
  Function.update_of_ne h ..

/-- Making directories makes directories. -/
theorem createDirAll_onlyDirs (fs : FileSystem) (dir : Location) : fs.OnlyDirs (fs.createDirAll dir) := by
  intro place
  unfold createDirAll
  dsimp only
  split
  · next hmem =>
    have hfree := (List.mem_filter.mp hmem).2
    refine .inr ⟨?_, rfl⟩
    simpa [present] using hfree
  · exact .inl rfl

/-- What is there stays when directories are made. -/
theorem createDirAll_tree (h : fs.present place = true) :
    (fs.createDirAll dir).tree place = fs.tree place := by
  rcases createDirAll_onlyDirs fs dir place with hsame | ⟨hfree, -⟩
  · exact hsame
  · simp [present, hfree] at h

/-- What is not there after directories were made was not there before. -/
theorem absent_before (h : (fs.createDirAll dir).present place = false) : fs.present place = false := by
  by_contra hthere
  have hthere : fs.present place = true := by simpa using hthere
  unfold present at h
  rw [createDirAll_tree hthere] at h
  unfold present at hthere
  rw [h] at hthere
  cases hthere

/-- Making directories changes no file. -/
theorem createDirAll_contentAt :
    (fs.createDirAll dir).contentAt place = fs.contentAt place := by
  unfold contentAt
  rcases createDirAll_onlyDirs fs dir place with hsame | ⟨hfree, hdir⟩
  · rw [hsame]
    rfl
  · rw [hfree, hdir]

end FileSystem

/-- How placing a copy goes: whether the directory can be made, whether a hard link can, and how
copying goes otherwise. -/
structure PlaceOutcome where
  dirMade : Bool
  linked : Bool
  copy : FileOutcome
deriving DecidableEq

/-- The names `place_dedup_copy` tries: the name itself, and then numbered ones. -/
def dedupCandidate (platform : Platform) (destDir : Location) (fileName : String) (i : Nat) :
    Location :=
  if i = 0 then platform.join destDir fileName
  else platform.join destDir (numberedName platform.style fileName i)

/-- Where `place_dedup_copy` stops searching: at a free place, or at the source itself. -/
def dedupTarget (platform : Platform) (fs : FileSystem) (src destDir : Location)
    (fileName : String) : Option Location :=
  (firstFree (fun i =>
    let candidate := dedupCandidate platform destDir fileName i
    fs.present candidate && !fs.sameFile src candidate) counterRange 0).map
      (dedupCandidate platform destDir fileName)

/-- `place_dedup_copy`: nothing is done where the source is there already; else a hard link is
made, or a copy. -/
def placeDedupCopy (platform : Platform) (fs : FileSystem) (src destDir : Location)
    (fileName : String) (outcome : PlaceOutcome) : FileSystem × Except EngineError Placed :=
  if !outcome.dirMade then (fs, .error (.io "create_dir_all"))
  else
    let fs := fs.createDirAll destDir
    match dedupTarget platform fs src destDir fileName with
    | none => (fs, .error (.io "counter"))
    | some candidate =>
      if fs.sameFile src candidate then
        (fs, .ok { place := candidate, content := (fs.contentAt src).getD [] })
      else
        match fs.tree src, fs.contentAt src with
        | some node, some content =>
          if outcome.linked then (fs.link candidate node, .ok { place := candidate, content })
          else fs.writeNew candidate content outcome.copy
        | _, _ => (fs, .error (.io "copy"))

section DedupCopy

variable {platform : Platform} {fs next : FileSystem} {src destDir : Location}
  {fileName : String} {outcome : PlaceOutcome} {placed : Placed}

/-- A copy is put where the search stopped, and has the contents of its source: the source itself
is there, or a link to it, or a file that was written. -/
theorem place_dedup_ok
    (h : placeDedupCopy platform fs src destDir fileName outcome = (next, .ok placed)) :
    dedupTarget platform (fs.createDirAll destDir) src destDir fileName =
        some placed.place ∧
      placed.content = (fs.contentAt src).getD [] ∧
      ((fs.createDirAll destDir).sameFile src placed.place = true ∧
          next = fs.createDirAll destDir ∨
        (∃ node, (fs.createDirAll destDir).tree src = some node ∧
          fs.contentAt src = some placed.content ∧
          next = (fs.createDirAll destDir).link placed.place node) ∨
        fs.contentAt src = some placed.content ∧
          next = (fs.createDirAll destDir).newFile placed.place placed.content) := by
  unfold placeDedupCopy at h
  split at h
  · cases h
  · dsimp only at h
    split at h
    · cases h
    · next candidate htarget =>
      split at h
      · next hsame =>
        cases h
        exact ⟨htarget, by rw [FileSystem.createDirAll_contentAt], .inl ⟨hsame, rfl⟩⟩
      · split at h
        · next node content hnode hcontent =>
          rw [FileSystem.createDirAll_contentAt] at hcontent
          split at h
          · cases h
            exact ⟨htarget, by rw [hcontent]; rfl, .inr (.inl ⟨node, hnode, hcontent, rfl⟩)⟩
          · cases hcopy : outcome.copy with
            | done =>
              rw [hcopy] at h
              cases h
              exact ⟨htarget, by rw [hcontent]; rfl, .inr (.inr ⟨hcontent, rfl⟩)⟩
            | broken written =>
              rw [hcopy] at h
              cases h
            | refused =>
              rw [hcopy] at h
              cases h
        · cases h

/-- When placing a copy fails, a file has been placed only if copying broke off. -/
theorem place_dedup_error {error : EngineError}
    (h : placeDedupCopy platform fs src destDir fileName outcome = (next, .error error)) :
    fs.OnlyDirs next ∨ ∃ written, outcome.copy = .broken written := by
  unfold placeDedupCopy at h
  split at h
  · cases h
    exact .inl fun place => .inl rfl
  · dsimp only at h
    split at h
    · cases h
      exact .inl (FileSystem.createDirAll_onlyDirs fs destDir)
    · split at h
      · cases h
      · split at h
        · split at h
          · cases h
          · cases hcopy : outcome.copy with
            | done =>
              rw [hcopy] at h
              cases h
            | broken written => exact .inr ⟨written, rfl⟩
            | refused =>
              rw [hcopy] at h
              cases h
              exact .inl (FileSystem.createDirAll_onlyDirs fs destDir)
        · cases h
          exact .inl (FileSystem.createDirAll_onlyDirs fs destDir)

end DedupCopy

/-- The name of the index file in the download directory. -/
def indexName : String := ".localtrans-inbox-index.json"

/-- How an index is written to a file and read from one. -/
structure IndexFormat where
  render : InboxIndex → List UInt8
  parse : List UInt8 → Option InboxIndex

/-- `InboxIndex::load`; a file that is missing or cannot be parsed is an empty index. -/
def loadIndex (format : IndexFormat) (fs : FileSystem) (root : Location) : InboxIndex :=
  match fs.tree (root.child indexName) with
  | some (.index entries _) => entries
  | some (.file number) => (format.parse (fs.disk.store number)).getD []
  | _ => []

/-- `InboxIndex::save`: written under another name and renamed; a failure is only logged. -/
def saveIndex (format : IndexFormat) (fs : FileSystem) (root : Location) (index : InboxIndex)
    (saved : Bool) : FileSystem :=
  if saved then fs.link (root.child indexName) (.index index (format.render index)) else fs

end LocalTrans
