import LocalTrans.Transfer.Push
import LocalTrans.Transfer.SmallFiles

/-!
# Finding a pushed file by its request path

The receiver of a push asks for a large file by its directory and name, and the sender looks the
path up among the large files of the offer: first as a directory and a name, then as a name alone,
for offers without directories and for receivers that leave the directory out.
-/

namespace LocalTrans

/-- `req_path` of `recv_push_large_file`. -/
def requestPath (file : OfferFile) : String :=
  if file.relDir = "" then file.name else trimSlashes file.relDir ++ "/" ++ file.name

/-- The first lookup: the path of a file in a directory. -/
def matchesRel (req : String) (file : LocalFile) : Bool :=
  if file.relDir = "" then false else trimSlashes file.relDir ++ "/" ++ file.name == req

/-- `resolve_push_file` among the registered files. -/
def resolveEntries (entries : List LocalFile) (req : String) : Option String :=
  match entries.find? (matchesRel req) with
  | some file => some file.path
  | none => (entries.find? fun file => file.name == req).map LocalFile.path

/-- `resolve_push_file`: only a registered push has files. -/
def PushTable.resolvePushFile (table : PushTable) (offerId : Nat) (req : String) : Option String :=
  (table.pushes offerId).bind fun push =>
    if push.registered then resolveEntries (largeFiles push.files) req else none

section Lookup

variable {entries : List LocalFile} {file other : LocalFile} {req : String}

/-- What the first lookup finds is asked for under that path. -/
theorem request_of_matches (h : matchesRel req file = true) :
    requestPath file.offer = req ∧ file.relDir ≠ "" := by
  unfold matchesRel at h
  split at h
  · cases h
  · next hrel =>
    refine ⟨?_, hrel⟩
    rw [requestPath, if_neg (show ¬ file.offer.relDir = "" from hrel)]
    exact beq_iff_eq.mp h

/-- A file in a directory matches its own request path. -/
theorem matches_request (h : file.relDir ≠ "") : matchesRel (requestPath file.offer) file = true := by
  have hrequest : requestPath file.offer = trimSlashes file.relDir ++ "/" ++ file.name :=
    if_neg h
  rw [matchesRel, if_neg h, hrequest]
  exact beq_self_eq_true _

/-- A file without a directory is asked for by its name. -/
theorem request_of_flat (h : file.relDir = "") : requestPath file.offer = file.name :=
  if_pos h

/-- A path by which no file is asked for, and which is no file's name, leads nowhere. -/
theorem resolve_none (h : ∀ file ∈ entries, requestPath file.offer ≠ req ∧ file.name ≠ req) :
    resolveEntries entries req = none := by
  have hrel : entries.find? (matchesRel req) = none :=
    List.find?_eq_none.mpr fun file hmem hmatch =>
      (h file hmem).1 (request_of_matches hmatch).1
  have hname : entries.find? (fun file => file.name == req) = none :=
    List.find?_eq_none.mpr fun file hmem hmatch => (h file hmem).2 (beq_iff_eq.mp hmatch)
  unfold resolveEntries
  rw [hrel, hname]
  rfl

/-- A name that is no file's path leads to the first file with that name. -/
theorem resolve_name (hfree : ∀ other ∈ entries, matchesRel file.name other = false)
    (hmem : file ∈ entries) :
    ∃ first, entries.find? (fun other => other.name == file.name) = some first ∧
      resolveEntries entries file.name = some first.path := by
  have hrel : entries.find? (matchesRel file.name) = none :=
    List.find?_eq_none.mpr fun other hother => by simp [hfree other hother]
  cases hname : entries.find? fun other => other.name == file.name with
  | none => exact absurd (List.find?_eq_none.mp hname file hmem) (by simp)
  | some first =>
    refine ⟨first, rfl, ?_⟩
    unfold resolveEntries
    rw [hrel, hname]
    rfl

/-- A file that shares its path, or without a directory its name, with no other leads to itself. -/
theorem resolve_own (hmem : file ∈ entries)
    (hown : ∀ other ∈ entries, requestPath other.offer = requestPath file.offer ∨
      file.relDir = "" ∧ other.name = file.name → other.path = file.path) :
    resolveEntries entries (requestPath file.offer) = some file.path := by
  unfold resolveEntries
  cases hrel : entries.find? (matchesRel (requestPath file.offer)) with
  | some found =>
    have hrequest := (request_of_matches (List.find?_some hrel)).1
    exact congrArg some (hown found (List.mem_of_find?_eq_some hrel) (.inl hrequest))
  | none =>
    -- a file in a directory would have matched
    have hflat : file.relDir = "" := by
      by_contra hdir
      exact List.find?_eq_none.mp hrel file hmem (matches_request hdir)
    rw [request_of_flat hflat]
    cases hname : entries.find? fun other => other.name == file.name with
    | none => exact absurd (List.find?_eq_none.mp hname file hmem) (by simp)
    | some first =>
      have hsame : first.name = file.name := by simpa using List.find?_some hname
      exact congrArg some (hown first (List.mem_of_find?_eq_some hname) (.inr ⟨hflat, hsame⟩))

end Lookup

variable {table : PushTable} {job : Nat} {push : Push}

/-- A large file `x` in a directory. -/
def largeIn (path relDir : String) : LocalFile :=
  { path, name := "x", relDir, size := 2 ^ 21, digest := "" }

/-- A table with one push, which is registered. -/
def pushTableOf (files : List LocalFile) : PushTable :=
  (PushTable.start 60 1800).put 1 {
    peer := 7, files, cancelled := false, registered := true, offeredAt := 0, answer := none,
    phase := .offered }

end LocalTrans
