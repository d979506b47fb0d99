import LocalTrans.Foundation.Paging
import LocalTrans.Foundation.Sorting
import LocalTrans.Protocol
import LocalTrans.Share.Operations
import Mathlib.Data.List.ReduceOption
import Mathlib.Data.String.Basic

/-!
# Listing a shared directory

`list_dir` of `share.rs`: the entries of a directory are read, hidden ones are skipped, and a page is
cut from the rest, sorted by name. Every page reads the whole directory, and one entry that was
modified before 1970 makes them all fail, as does an entry too many; `list_paged_iff` says that a
client that follows the cursors reads the directory otherwise. What the file system says of an entry
is a parameter; a directory that does not change is read in the same order each time.
-/

namespace LocalTrans.Share

open Foundation

/-- `Metadata` of an entry: the time is in nanoseconds since 1970, where the system knows one. The
attributes are those of Windows that hide a file. -/
structure EntryMetadata where
  isDir : Bool
  size : Nat
  hidden : Bool
  modified : Option Int

/-- `DirEntry`, with its name as `to_string_lossy` gives it. The metadata may be unreadable. -/
structure DirEntry where
  name : String
  metadata : Option EntryMetadata

/-- `MAX_LIMIT`. -/
def maxLimit : Nat := 500

/-- `MAX_ENTRIES`. -/
def maxEntries : Nat := 50000

namespace DirEntry

/-- The name begins with a dot. -/
def dotted (entry : DirEntry) : Bool := entry.name.toList.head? = some '.'

/-- Windows hides the entry. -/
def veiled (style : PathStyle) (metadata : EntryMetadata) : Bool :=
  style = .windows && metadata.hidden

/-- The entry that is listed, once its time is known. -/
def listed (entry : DirEntry) (metadata : EntryMetadata) (time : Int) : FileEntry :=
  { name := entry.name, isDir := metadata.isDir, size := metadata.size,
    mtime := (time / 1000000000).toNat }

end DirEntry

/-- The loop over what `next_entry` returns, with the entries counted and listed so far. A read that
fails is `none`. -/
def readEntries (style : PathStyle) : List (Option DirEntry) → Nat → List FileEntry →
    Except ShareError (List FileEntry)
  | [], _, found => .ok found
  | none :: _, _, _ => .error .notFound
  | some entry :: rest, count, found =>
    if entry.dotted then readEntries style rest count found
    else if maxEntries < count + 1 then .error .tooManyEntries
    else match entry.metadata with
      | none => .error .notFound
      | some metadata =>
        if DirEntry.veiled style metadata then readEntries style rest (count + 1) found
        else match metadata.modified with
          | none => .error .notFound
          | some time =>
            if time < 0 then .error .notFound
            else readEntries style rest (count + 1) (found ++ [entry.listed metadata time])

/-- `list_dir`. A directory that cannot be opened has no entries to read. -/
def listDir (system : TreeSystem) (readDir : Location → Option (List (Option DirEntry)))
    (tree : LinkedTree) (shares : List ShareDef) (shareId rel : String) (cursor limit : Nat) :
    Except ShareError (List FileEntry × Option Nat) :=
  match resolve system tree shares shareId rel with
  | .error error => .error error
  | .ok dirPath =>
    if system.isDir tree (pathOf dirPath) then
      match readDir dirPath with
      | none => .error .notFound
      | some entries =>
        match readEntries system.style entries 0 [] with
        | .error error => .error error
        | .ok found => .ok (pageOf (sortBy FileEntry.name found) cursor (min limit maxLimit))
    else .error .notFound

section Listing

variable {style : PathStyle} {entries : List (Option DirEntry)} {entry : DirEntry} {count : Nat}
  {found result : List FileEntry}

namespace DirEntry

/-- The entry is to be seen by a peer. -/
def visible (style : PathStyle) (entry : DirEntry) : Bool :=
  !entry.dotted && !(entry.metadata.any (veiled style))

/-- What a peer sees of an entry. -/
def seen (entry : DirEntry) : FileEntry :=
  match entry.metadata with
  | none => { name := entry.name, isDir := false, size := 0, mtime := 0 }
  | some metadata => entry.listed metadata (metadata.modified.getD 0)

/-- The entry does not make the listing fail: it is hidden by its name or by Windows, or was modified
in 1970 or later. -/
def Readable (style : PathStyle) (entry : DirEntry) : Prop :=
  entry.dotted = true ∨ ∃ metadata, entry.metadata = some metadata ∧
    (veiled style metadata = true ∨ ∃ time, metadata.modified = some time ∧ 0 ≤ time)

end DirEntry

/-- The visible entries of a directory, in the order of their names. -/
def visibleEntries (style : PathStyle) (entries : List (Option DirEntry)) : List FileEntry :=
  sortBy FileEntry.name
    (((entries.reduceOption).filter (DirEntry.visible style)).map DirEntry.seen)

/-- A directory that is listed: every entry of it can be read, and those that do not begin with a dot
are not too many. -/
structure Listable (style : PathStyle) (entries : List (Option DirEntry)) : Prop where
  readable : ∀ entry ∈ entries, ∃ found, entry = some found ∧ found.Readable style
  few : (entries.reduceOption).countP (fun entry => !entry.dotted) ≤ maxEntries

/-- The loop lists the visible entries if it gets to the end. -/
theorem read_entries_ok_iff (hcount : count ≤ maxEntries) :
    readEntries style entries count found = .ok result ↔
      (∀ entry ∈ entries, ∃ found, entry = some found ∧ found.Readable style) ∧
      count + (entries.reduceOption).countP (fun entry => !entry.dotted) ≤ maxEntries ∧
      result = found ++
        ((entries.reduceOption).filter (DirEntry.visible style)).map DirEntry.seen := by
  induction entries generalizing count found with
  | nil => simp [readEntries, List.reduceOption_nil, hcount, eq_comm]
  | cons first rest ih =>
    cases first with
    | none =>
      constructor
      · intro h
        cases h
      · rintro ⟨hreadable, -, -⟩
        obtain ⟨_, heq, -⟩ := hreadable none List.mem_cons_self
        cases heq
    | some entry =>
      have hreadable : (∀ e ∈ some entry :: rest, ∃ found, e = some found ∧
          found.Readable style) ↔
          entry.Readable style ∧ ∀ e ∈ rest, ∃ found, e = some found ∧ found.Readable style := by
        simp
      rw [hreadable, List.reduceOption_cons_of_some, List.countP_cons, readEntries]
      by_cases hdotted : entry.dotted = true
      · rw [if_pos hdotted, ih hcount]
        simp [DirEntry.Readable, DirEntry.visible, hdotted]
      · rw [if_neg hdotted]
        by_cases hfull : maxEntries < count + 1
        · rw [if_pos hfull]
          constructor
          · intro h
            cases h
          · rintro ⟨-, hfew, -⟩
            simp only [hdotted, Bool.not_false, if_true] at hfew
            omega
        · rw [if_neg hfull]
          cases hmetadata : entry.metadata with
          | none => simp [DirEntry.Readable, hdotted, hmetadata]
          | some metadata =>
            dsimp only
            by_cases hveiled : DirEntry.veiled style metadata = true
            · rw [if_pos hveiled, ih (by omega)]
              simp [DirEntry.Readable, DirEntry.visible, hdotted, hmetadata, hveiled,
                Nat.add_comm 1, Nat.add_assoc]
            · rw [if_neg hveiled]
              cases htime : metadata.modified with
              | none => simp [DirEntry.Readable, hdotted, hmetadata, hveiled, htime]
              | some time =>
                dsimp only
                by_cases hearly : time < 0
                · rw [if_pos hearly]
                  have hlate : ¬ 0 ≤ time := by omega
                  simp [DirEntry.Readable, hdotted, hmetadata, hveiled, htime, hlate]
                · rw [if_neg hearly, ih (by omega)]
                  have hlate : 0 ≤ time := by omega
                  simp [DirEntry.Readable, DirEntry.visible, DirEntry.seen, hdotted,
                    hmetadata, hveiled, htime, hlate, Nat.add_comm 1, Nat.add_assoc]

variable {system : TreeSystem} {readDir : Location → Option (List (Option DirEntry))}
  {tree : LinkedTree} {shares : List ShareDef} {shareId rel : String} {dirPath : Location}
  {limit : Nat}

/-- What `list_dir` answers for a directory of the share, with any cursor. -/
theorem list_dir_eq (hresolve : resolve system tree shares shareId rel = .ok dirPath)
    (hdir : system.isDir tree (pathOf dirPath) = true) (hread : readDir dirPath = some entries)
    (cursor : Nat) :
    listDir system readDir tree shares shareId rel cursor limit =
      (readEntries system.style entries 0 []).map fun found =>
        pageOf (sortBy FileEntry.name found) cursor (min limit maxLimit) := by
  unfold listDir
  rw [hresolve]
  dsimp only
  rw [if_pos hdir, hread]
  dsimp only
  cases readEntries system.style entries 0 [] with
  | error error => rfl
  | ok found => rfl

/-- A client that follows the cursors from 0, with any limit, reads the visible entries of a directory
in the order of their names, if and only if the directory can be listed. -/
theorem list_paged_iff (hresolve : resolve system tree shares shareId rel = .ok dirPath)
    (hdir : system.isDir tree (pathOf dirPath) = true) (hread : readDir dirPath = some entries)
    (hlimit : 1 ≤ limit) :
    Paged (fun cursor => listDir system readDir tree shares shareId rel cursor limit) 0
        (visibleEntries system.style entries) ↔
      Listable system.style entries := by
  have hcapped : 1 ≤ min limit maxLimit := by
    unfold maxLimit
    omega
  constructor
  · intro h
    obtain ⟨page, hpage⟩ := h.answered
    rw [list_dir_eq hresolve hdir hread] at hpage
    cases hfound : readEntries system.style entries 0 [] with
    | error error =>
      rw [hfound] at hpage
      cases hpage
    | ok found =>
      obtain ⟨hreadable, hfew, -⟩ := (read_entries_ok_iff (Nat.zero_le _)).mp hfound
      exact ⟨hreadable, by rwa [Nat.zero_add] at hfew⟩
  · intro h
    have hfound : readEntries system.style entries 0 [] =
        .ok (((entries.reduceOption).filter (DirEntry.visible system.style)).map
          DirEntry.seen) :=
      (read_entries_ok_iff (Nat.zero_le _)).mpr
        ⟨h.readable, by rw [Nat.zero_add]; exact h.few, rfl⟩
    refine paged_pages (fun cursor => ?_) hcapped 0
    rw [list_dir_eq hresolve hdir hread, hfound]
    rfl

end Listing

/-- A file with the time it was modified at. -/
def sampleFile (name : String) (time : Int) : Option DirEntry :=
  let metadata := { isDir := false, size := 1, hidden := false, modified := some time }
  some { name := name, metadata := some metadata }

/-- Two files in the shared directory, one of them with an early time. -/
def sampleDirectory (time : Int) : Location → Option (List (Option DirEntry)) :=
  fun _ => some [sampleFile "b" 1000000000, sampleFile "a" time]

theorem list_paged_sample :
    Paged (fun cursor => listDir permissive (sampleDirectory 0) sharedTree.start [sharedDir] "s1" ""
        cursor 1) 0
        (visibleEntries permissive.style [sampleFile "b" 1000000000, sampleFile "a" 0]) ↔
      Listable permissive.style [sampleFile "b" 1000000000, sampleFile "a" 0] :=
  have hresolve : resolve permissive sharedTree.start [sharedDir] "s1" "" =
      .ok { volume := "", names := ["s"] } := by
    decide +kernel
  list_paged_iff hresolve (by decide +kernel) rfl (by decide)

/-- A file that was modified a second before 1970 is enough for nothing to be listed. -/
theorem early_file_hides_all :
    ¬ ∀ system readDir tree shares shareId rel dirPath entries limit,
      resolve system tree shares shareId rel = .ok dirPath →
      system.isDir tree (pathOf dirPath) = true → readDir dirPath = some entries →
      (∀ entry ∈ entries, entry ≠ none) →
      (entries.reduceOption).countP (DirEntry.visible system.style) ≤ maxEntries → 1 ≤ limit →
      Paged (fun cursor => listDir system readDir tree shares shareId rel cursor limit) 0
        (visibleEntries system.style entries) := by
  intro hall
  have hresolve : resolve permissive sharedTree.start [sharedDir] "s1" "" =
      .ok { volume := "", names := ["s"] } := by decide +kernel
  have hdir : permissive.isDir sharedTree.start (pathOf { volume := "", names := ["s"] }) = true := by
    decide +kernel
  have h := hall permissive (sampleDirectory (-1000000000)) sharedTree.start [sharedDir] "s1" ""
    { volume := "", names := ["s"] } _ 200 hresolve hdir rfl (by simp [sampleFile]) (by decide)
    (by decide)
  obtain ⟨page, hpage⟩ := h.answered
  rw [list_dir_eq hresolve hdir rfl] at hpage
  have hread : readEntries permissive.style
      [sampleFile "b" 1000000000, sampleFile "a" (-1000000000)] 0 [] = .error .notFound := by
    decide +kernel
  rw [hread] at hpage
  cases hpage

end LocalTrans.Share
