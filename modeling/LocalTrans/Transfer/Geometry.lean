import LocalTrans.Foundation.Checked
import LocalTrans.Session.Limits
import LocalTrans.Transfer.ResumeProgress

/-!
# The geometry of chunks

`Manifest::build` of `manifest.rs`, and the functions that count and place chunks, in the integers
that the processor has: offsets and sizes have 64 bits, as `usize` has, and the index of a chunk has
32. `chunks_tile` says that the chunks of a file tile it.
-/

namespace LocalTrans

open Foundation

/-- `ManifestError`, as far as `build` returns it. -/
inductive ManifestError where
  | io (text : String)
  | fileReadError (text : String)
deriving DecidableEq

/-- A file as `build` finds it: its name, if it is a text, the length in its metadata, and what is
read from it. -/
structure SourceFile where
  fileName : Option String
  metadata : Except String Nat
  content : Except String (List UInt8)

namespace Manifest

/-- The number of chunks in `build`. -/
def countChecked (totalSize : Nat) : Option Nat :=
  if totalSize = 0 then some 0
  else (checkedSub totalSize 1).map fun last => castTo 64 (last / chunkSize + 1)

/-- A part of the file is read as a whole and hashed. -/
def readChunk (hash : List UInt8 → String) (content : List UInt8) (offset size : Nat) :
    Except ManifestError String :=
  if (slice content offset size).length < size then .error (.io "failed to fill whole buffer")
  else .ok (hash (slice content offset size))

/-- One round of the loop of `build`. -/
def buildChunk (hash : List UInt8 → String) (totalSize : Nat) (content : List UInt8) (i : Nat) :
    Option (Except ManifestError String) := do
  let offset ← checkedMul 64 i chunkSize
  let remaining ← checkedSub totalSize offset
  some (readChunk hash content offset (castTo 64 (min chunkSize remaining)))

/-- The loop of `build`. -/
def buildChunks (hash : List UInt8 → String) (totalSize : Nat) (content : List UInt8) :
    List Nat → Option (Except ManifestError (List String))
  | [] => some (.ok [])
  | i :: rest => do
      match ← buildChunk hash totalSize content i with
      | .error error => some (.error error)
      | .ok chunkHash =>
        let hashes ← buildChunks hash totalSize content rest
        some (hashes.map (chunkHash :: ·))

/-- `Manifest::build` under overflow checks; there is no result if one of them fails. -/
def buildChecked (hash : List UInt8 → String) (file : SourceFile) :
    Option (Except ManifestError Manifest) :=
  match file.fileName with
  | none => some (.error (.fileReadError "无法获取文件名"))
  | some fileName =>
    match file.metadata with
    | .error error => some (.error (.io error))
    | .ok totalSize => do
        let chunkCount ← countChecked totalSize
        let hashes ← if 0 < chunkCount then
            match file.content with
            | .error error => some (.error (.io error))
            | .ok content => buildChunks hash totalSize content (List.range chunkCount)
          else some (.ok [])
        some (hashes.map fun chunkHashes =>
          { fileName, totalSize, chunkHashes, received := List.replicate chunkCount false
            peer := none, shareId := none, rel := none })

/-- `chunk_count`, an index of 32 bits. -/
def chunkCountU32 (m : Manifest) : Nat := castTo 32 m.chunkHashes.length

/-- `missing_chunks`, indices of 32 bits. -/
def missingChunksU32 (m : Manifest) : List Nat :=
  m.received.zipIdx.filterMap fun (received, i) => if received then none else some (castTo 32 i)

/-- `chunk_offset` under overflow checks. -/
def chunkOffsetChecked (i : Nat) : Option Nat := checkedMul 64 i chunkSize

/-- `chunk_len` under overflow checks; the subtraction saturates. -/
def chunkLenChecked (m : Manifest) (i : Nat) : Option Nat :=
  (chunkOffsetChecked i).map fun offset => min chunkSize (m.totalSize - offset)

/-- The chunks tile the file: the first begins at its start, each begins where the one before it ends,
the last ends where the file does, and none is empty or larger than it may be. -/
structure Tiles (m : Manifest) : Prop where
  first : m.chunkOffset 0 = 0
  adjacent : ∀ i, i + 1 < m.chunkCount → m.chunkOffset i + m.chunkLen i = m.chunkOffset (i + 1)
  last : ∀ i, i + 1 = m.chunkCount → m.chunkOffset i + m.chunkLen i = m.totalSize
  empty : m.chunkCount = 0 → m.totalSize = 0
  sized : ∀ i < m.chunkCount, 1 ≤ m.chunkLen i ∧ m.chunkLen i ≤ chunkSize

/-- The integers of the processor are the numbers that they stand for, whatever was received. -/
structure NoOverflow (m : Manifest) : Prop where
  count : m.chunkCountU32 = m.chunkHashes.length
  index : ∀ received, received.length = m.chunkHashes.length →
    Manifest.missingChunksU32 { m with received } = Manifest.missingChunks { m with received }
  offset : ∀ i ≤ m.chunkCount, chunkOffsetChecked i = some (m.chunkOffset i)
  length : ∀ i < m.chunkCount, m.chunkLenChecked i = some (m.chunkLen i)

section Geometry

variable {m : Manifest} {hash : List UInt8 → String} {content : List UInt8} {totalSize i : Nat}

/-- A file of less than `2 ^ 53` bytes has at most `2 ^ 31` chunks. -/
theorem chunks_needed_le (h : totalSize < 2 ^ 53) : chunksNeeded totalSize ≤ 2 ^ 31 := by
  unfold chunksNeeded chunkSize
  split <;> omega

/-- The chunks of a file begin within it. -/
theorem offset_lt_of_needed (h : i < chunksNeeded totalSize) : i * chunkSize < totalSize := by
  unfold chunksNeeded chunkSize at *
  split at h <;> omega

/-- The number of chunks does not overflow. -/
theorem count_checked (h : totalSize < 2 ^ 53) :
    countChecked totalSize = some (chunksNeeded totalSize) := by
  unfold countChecked
  by_cases hzero : totalSize = 0
  · rw [if_pos hzero, chunksNeeded, if_pos hzero]
  · have hcount : chunksNeeded totalSize = (totalSize - 1) / chunkSize + 1 := if_neg hzero
    have hle := chunks_needed_le h
    rw [if_neg hzero, checked_sub_of_le (by omega), Option.map_some, ← hcount,
      cast_of_lt (by omega)]

/-- As many hashes as chunks are needed: the chunks tile the file. -/
theorem tiles (hhashes : m.chunkHashes.length = chunksNeeded m.totalSize) : m.Tiles := by
  have hcount : m.chunkCount = chunksNeeded m.totalSize := hhashes
  constructor
  · exact Nat.zero_mul _
  · intro i hi
    rw [hcount] at hi
    have hnext := offset_lt_of_needed hi
    simp only [chunkOffset, chunkLen, chunkSize] at *
    omega
  · intro i hi
    rw [hcount] at hi
    have hstart : i * chunkSize < m.totalSize := offset_lt_of_needed (by omega)
    simp only [chunkOffset, chunkLen, chunksNeeded, chunkSize] at *
    split at hi <;> omega
  · intro hzero
    rw [hcount] at hzero
    unfold chunksNeeded at hzero
    split at hzero
    · assumption
    · cases hzero
  · intro i hi
    rw [hcount] at hi
    have hstart := offset_lt_of_needed hi
    simp only [chunkOffset, chunkLen, chunkSize] at *
    omega

/-- As many hashes as a file of less than `2 ^ 53` bytes needs: no integer overflows. -/
theorem no_overflow (hhashes : m.chunkHashes.length = chunksNeeded m.totalSize)
    (hsize : m.totalSize < 2 ^ 53) : m.NoOverflow := by
  have hle : m.chunkHashes.length ≤ 2 ^ 31 := hhashes ▸ chunks_needed_le hsize
  have hoffset : ∀ i ≤ m.chunkCount, chunkOffsetChecked i = some (m.chunkOffset i) := by
    intro i hi
    have hbound : i ≤ 2 ^ 31 := Nat.le_trans hi hle
    refine checked_mul_of_lt ?_
    unfold chunkSize
    omega
  constructor
  · exact cast_of_lt (by omega)
  · intro received hreceived
    refine List.filterMap_congr fun ⟨bit, index⟩ hmem => ?_
    obtain ⟨hlt, -⟩ := List.getElem?_eq_some_iff.mp (List.mem_zipIdx_iff_getElem?.mp hmem)
    have hlt : index < received.length := hlt
    have hindex : castTo 32 index = index := cast_of_lt (by omega)
    simp only [hindex]
  · exact hoffset
  · intro i hi
    rw [chunkLenChecked, hoffset i (Nat.le_of_lt hi)]
    rfl

/-- Chunks that differ are together not larger than the file. -/
theorem bytes_of_le {chunks : List Nat} (hdistinct : chunks.Nodup)
    (hchunks : ∀ i ∈ chunks, i < m.chunkCount) : m.bytesOf chunks ≤ m.totalSize := by
  have hsub : chunks.Subperm (List.range m.chunkCount) :=
    List.subperm_of_subset hdistinct fun i hi => List.mem_range.mpr (hchunks i hi)
  refine Nat.le_trans (bytes_of_subperm hsub) ?_
  rw [bytes_of_range]
  exact Nat.min_le_left _ _

/-- A part that is cut at the end of the contents is the same part. -/
theorem slice_min (content : List UInt8) (start size : Nat) :
    slice content start (min size (content.length - start)) = slice content start size := by
  unfold slice
  rw [← List.length_drop]
  exact List.take_eq_take_min.symm

/-- A round of the loop for a chunk that begins within the file. -/
theorem build_chunk (hi : i * chunkSize < totalSize) (hsize : totalSize < 2 ^ 53) :
    buildChunk hash totalSize content i =
      some (readChunk hash content (i * chunkSize)
        (min chunkSize (totalSize - i * chunkSize))) := by
  have hcast : castTo 64 (min chunkSize (totalSize - i * chunkSize)) =
      min chunkSize (totalSize - i * chunkSize) := cast_of_lt (by omega)
  rw [buildChunk, checked_mul_of_lt (show i * chunkSize < 2 ^ 64 by omega),
    Option.bind_eq_bind, Option.bind_some, checked_sub_of_le (Nat.le_of_lt hi), Option.bind_some,
    hcast]

/-- The loop reads the parts of the file in order, or fails. -/
theorem build_chunks (hash : List UInt8 → String) (content : List UInt8) (indices : List Nat)
    (hsize : totalSize < 2 ^ 53) (hindices : ∀ i ∈ indices, i * chunkSize < totalSize) :
    ∃ result, buildChunks hash totalSize content indices = some result ∧
      (∀ hashes, result = .ok hashes → hashes = indices.map fun i =>
        hash (slice content (i * chunkSize) (min chunkSize (totalSize - i * chunkSize)))) ∧
      (totalSize ≤ content.length → ∃ hashes, result = .ok hashes) := by
  induction indices with
  | nil =>
    refine ⟨.ok [], rfl, ?_, fun _ => ⟨[], rfl⟩⟩
    rintro hashes ⟨⟩
    rfl
  | cons i rest ih =>
    have hi := hindices i List.mem_cons_self
    obtain ⟨result, hresult, hashesOf, hok⟩ := ih fun j hj =>
      hindices j (List.mem_cons_of_mem _ hj)
    rw [buildChunks, build_chunk hi hsize, Option.bind_eq_bind, Option.bind_some]
    by_cases hshort : (slice content (i * chunkSize)
        (min chunkSize (totalSize - i * chunkSize))).length <
          min chunkSize (totalSize - i * chunkSize)
    · rw [readChunk, if_pos hshort]
      refine ⟨.error (.io "failed to fill whole buffer"), rfl, nofun, fun hlong => ?_⟩
      rw [length_slice (by omega)] at hshort
      exact absurd hshort (Nat.lt_irrefl _)
    · rw [readChunk, if_neg hshort]
      simp only [Option.bind_eq_bind, Option.bind_some, hresult]
      refine ⟨_, rfl, ?_, ?_⟩
      · intro hashes hhashes
        cases result with
        | error error => cases hhashes
        | ok others =>
          obtain rfl := Except.ok.inj hhashes
          rw [hashesOf others rfl, List.map_cons]
      · intro hlong
        obtain ⟨others, rfl⟩ := hok hlong
        exact ⟨_, rfl⟩

/-- For a file of less than `2 ^ 53` bytes `build` does not overflow; its manifest has the size of the
file and as many hashes as the file needs chunks, these are the hashes of its parts, and there is one
if the file can be read. -/
theorem build_spec (hash : List UInt8 → String) {file : SourceFile}
    (hmetadata : file.metadata = .ok totalSize) (hsize : totalSize < 2 ^ 53) :
    ∃ result, buildChecked hash file = some result ∧
      (∀ m, result = .ok m → ∃ fileName chunkHashes, file.fileName = some fileName ∧
        m = fromMeta fileName totalSize chunkHashes ∧
        chunkHashes.length = chunksNeeded totalSize ∧
        ∀ content, file.content = .ok content → chunkHashes =
          (List.range (chunksNeeded totalSize)).map fun i =>
            hash (slice content (i * chunkSize) (min chunkSize (totalSize - i * chunkSize)))) ∧
      (∀ fileName content, file.fileName = some fileName → file.content = .ok content →
        totalSize ≤ content.length → ∃ m, result = .ok m) := by
  unfold buildChecked
  cases hname : file.fileName with
  | none => exact ⟨_, rfl, nofun, nofun⟩
  | some fileName =>
    simp only [hmetadata, count_checked hsize, Option.bind_eq_bind, Option.bind_some]
    by_cases hpos : 0 < chunksNeeded totalSize
    · rw [if_pos hpos]
      cases hcontent : file.content with
      | error error =>
        refine ⟨.error (.io error), rfl, nofun, ?_⟩
        intro _ content _ hok
        cases hok
      | ok content =>
        obtain ⟨result, hresult, hashesOf, hok⟩ := build_chunks hash content
          (List.range (chunksNeeded totalSize)) hsize
          fun i hi => offset_lt_of_needed (List.mem_range.mp hi)
        simp only [hresult, Option.bind_some]
        refine ⟨_, rfl, ?_, ?_⟩
        · intro m hm
          cases result with
          | error error => cases hm
          | ok hashes =>
            obtain rfl := Except.ok.inj hm
            have hlength : hashes.length = chunksNeeded totalSize := by
              rw [hashesOf hashes rfl, List.length_map, List.length_range]
            refine ⟨fileName, hashes, rfl, ?_, hlength, fun content' hsame => ?_⟩
            · rw [fromMeta, fromMetaWithSource, hlength]
            · obtain rfl := Except.ok.inj hsame
              exact hashesOf hashes rfl
        · intro _ content' _ hsame hlong
          obtain rfl := Except.ok.inj hsame
          obtain ⟨hashes, rfl⟩ := hok hlong
          exact ⟨_, rfl⟩
    · rw [if_neg hpos]
      have hzero : chunksNeeded totalSize = 0 := by omega
      refine ⟨_, rfl, ?_, fun _ _ _ _ _ => ⟨_, rfl⟩⟩
      rintro m ⟨⟩
      rw [hzero]
      exact ⟨fileName, [], rfl, rfl, rfl, fun _ _ => rfl⟩

/-- A manifest that is built for a file describes it. -/
theorem intact_of_build {file : SourceFile} (hmetadata : file.metadata = .ok content.length)
    (hcontent : file.content = .ok content) (hsize : content.length < 2 ^ 53)
    (hbuild : buildChecked hash file = some (.ok m)) : m.Intact hash content := by
  obtain ⟨result, hresult, hmanifest, -⟩ := build_spec hash hmetadata hsize
  obtain rfl := Option.some.inj (hbuild.symm.trans hresult)
  obtain ⟨fileName, chunkHashes, -, rfl, -, hashesOf⟩ := hmanifest m rfl
  refine ⟨rfl, fun i expected hexpected => ?_⟩
  have hexpected : chunkHashes[i]? = some expected := hexpected
  rw [hashesOf content hcontent, List.getElem?_map] at hexpected
  obtain ⟨index, hindex, rfl⟩ := Option.map_eq_some_iff.mp hexpected
  obtain ⟨hlt, rfl⟩ := List.getElem?_eq_some_iff.mp hindex
  rw [List.getElem_range, slice_min]

/-- For every file of less than `2 ^ 53` bytes, the chunks of the manifest that is built for it tile
the file, there are as many hashes as chunks, no integer overflows, and the chunks that were received
are together not larger than the file, whichever they are. -/
theorem chunks_tile (hash : List UInt8 → String) (file : SourceFile) (totalSize : Nat)
    (hmetadata : file.metadata = .ok totalSize) (hsize : totalSize < 2 ^ 53) :
    ∃ result, buildChecked hash file = some result ∧
      (∀ m, result = .ok m → m.totalSize = totalSize ∧ m.Tiles ∧ m.NoOverflow ∧
        m.chunkHashes.length = chunksNeeded totalSize ∧ m.received.length = m.chunkCount ∧
        ∀ chunks : List Nat, chunks.Nodup → (∀ i ∈ chunks, i < m.chunkCount) →
          m.bytesOf chunks ≤ totalSize) ∧
      (∀ fileName content, file.fileName = some fileName → file.content = .ok content →
        totalSize ≤ content.length → ∃ m, result = .ok m) := by
  obtain ⟨result, hbuild, hmanifest, hreadable⟩ := build_spec hash hmetadata hsize
  refine ⟨result, hbuild, fun m hm => ?_, hreadable⟩
  obtain ⟨fileName, chunkHashes, -, rfl, hhashes, -⟩ := hmanifest m hm
  refine ⟨rfl, tiles hhashes, no_overflow hhashes hsize, hhashes, List.length_replicate, ?_⟩
  intro chunks hdistinct hchunks
  exact bytes_of_le hdistinct hchunks

/-- A file of two whole chunks. -/
theorem two_chunks_tile :
    ∃ m, buildChecked (fun _ => "hash") ⟨some "a", .ok (2 * chunkSize),
        .ok (List.replicate (2 * chunkSize) 0)⟩ = some (.ok m) ∧
      m.Tiles ∧ m.NoOverflow ∧ m.chunkHashes.length = 2 ∧ m.bytesOf [1] ≤ 2 * chunkSize := by
  obtain ⟨result, hbuild, hmanifest, hreadable⟩ := chunks_tile (fun _ => "hash")
    ⟨some "a", .ok (2 * chunkSize), .ok (List.replicate (2 * chunkSize) 0)⟩ (2 * chunkSize) rfl
    (by decide)
  obtain ⟨m, rfl⟩ := hreadable "a" _ rfl rfl (Nat.le_of_eq List.length_replicate.symm)
  obtain ⟨-, htiles, hsmall, hhashes, -, hsum⟩ := hmanifest m rfl
  have hlength : m.chunkHashes.length = 2 := hhashes.trans (by decide)
  refine ⟨m, hbuild, htiles, hsmall, hlength, hsum [1] (List.nodup_singleton 1) ?_⟩
  intro i hi
  obtain rfl := List.mem_singleton.mp hi
  exact Nat.lt_of_lt_of_eq Nat.one_lt_two hlength.symm

end Geometry

end Manifest

end LocalTrans
