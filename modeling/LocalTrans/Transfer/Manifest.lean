import LocalTrans.Foundation.FileBytes
import LocalTrans.Protocol

/-!
# The manifest of a transfer

`manifest.rs`: the name, the size and the chunk hashes of a file that is being received, and the
bitmap of the chunks that have been. `Manifest.Holds` says that a `part.bin` has what the bitmap
claims, and `Manifest.Intact` that a file is the one the manifest describes. A `part.bin` that
holds a full bitmap is intact.
-/

namespace LocalTrans

open Foundation

/-- `Manifest`, without the metadata of the transfer card. -/
structure Manifest where
  fileName : String
  totalSize : Nat
  chunkHashes : List String
  received : List Bool
  peer : Option String
  shareId : Option String
  rel : Option String
deriving DecidableEq, Repr

/-- The number of chunks of a file, as `Manifest::build` computes it. -/
def chunksNeeded (totalSize : Nat) : Nat :=
  if totalSize = 0 then 0 else (totalSize - 1) / chunkSize + 1

namespace Manifest

/-- `Manifest::from_meta_with_source`. -/
def fromMetaWithSource (fileName : String) (totalSize : Nat) (chunkHashes : List String)
    (peer shareId rel : Option String) : Manifest :=
  { fileName, totalSize, chunkHashes, received := List.replicate chunkHashes.length false,
    peer, shareId, rel }

/-- `Manifest::from_meta`. -/
def fromMeta (fileName : String) (totalSize : Nat) (chunkHashes : List String) : Manifest :=
  fromMetaWithSource fileName totalSize chunkHashes none none none

/-- `Manifest::chunk_count`. -/
def chunkCount (m : Manifest) : Nat :=
  m.chunkHashes.length

/-- `Manifest::missing_chunks`. -/
def missingChunks (m : Manifest) : List Nat :=
  m.received.zipIdx.filterMap fun (received, i) => if received then none else some i

/-- `Manifest::chunk_offset`. -/
def chunkOffset (_ : Manifest) (i : Nat) : Nat :=
  i * chunkSize

/-- `Manifest::chunk_len`; past the end of the file a chunk is empty. -/
def chunkLen (m : Manifest) (i : Nat) : Nat :=
  min chunkSize (m.totalSize - m.chunkOffset i)

/-- Whether two manifests describe the same chunks: what `load_or_open` and `start_pull_parts`
compare, apart from the name. -/
def SameChunks (m other : Manifest) : Prop :=
  m.totalSize = other.totalSize ∧ m.chunkHashes = other.chunkHashes
deriving Decidable

/-- How much of the file the chunk hashes speak of. -/
def covered (m : Manifest) : Nat :=
  min m.totalSize (m.chunkCount * chunkSize)

/-- A chunk of a file. -/
def chunk (m : Manifest) (content : List UInt8) (i : Nat) : List UInt8 :=
  slice content (m.chunkOffset i) (m.chunkLen i)

/-- Once all chunks are written, a file of this length will be as long as announced. -/
def Fits (m : Manifest) (length : Nat) : Prop :=
  max length m.covered = m.totalSize
deriving Decidable

variable (hash : List UInt8 → String)

/-- A `part.bin` has the chunks that are marked as received. -/
structure Holds (m : Manifest) (content : List UInt8) : Prop where
  bitmap : m.received.length = m.chunkCount
  fits : m.Fits content.length
  chunks : ∀ i expected, m.received[i]? = some true → m.chunkHashes[i]? = some expected →
    (m.chunkLen i ≠ 0 → m.chunkOffset i + m.chunkLen i ≤ content.length) ∧
      hash (m.chunk content i) = expected

/-- A file is the one the manifest describes: it has the size, and each part of it of the size of
a chunk has the hash. -/
structure Intact (m : Manifest) (content : List UInt8) : Prop where
  length : content.length = m.totalSize
  chunks : ∀ i expected, m.chunkHashes[i]? = some expected →
    hash (slice content (i * chunkSize) chunkSize) = expected

variable {hash} {m other : Manifest} {content data : List UInt8} {i j count : Nat}

/-- Where a chunk ends that is not empty. -/
theorem chunk_end (h : m.chunkLen i ≠ 0) :
    m.chunkOffset i + m.chunkLen i = min ((i + 1) * chunkSize) m.totalSize := by
  simp only [chunkLen, chunkOffset, chunkSize] at *
  omega

/-- A chunk lies within the covered part. -/
theorem chunk_end_le (h : m.chunkLen i ≠ 0) (hi : i < m.chunkCount) :
    m.chunkOffset i + m.chunkLen i ≤ m.covered := by
  rw [chunk_end h]
  simp only [covered, chunkSize]
  omega

/-- The last chunk that is not empty ends where the covered part does. -/
theorem exists_last_chunk (h : m.covered ≠ 0) :
    ∃ i < m.chunkCount, m.chunkLen i ≠ 0 ∧ m.chunkOffset i + m.chunkLen i = m.covered := by
  refine ⟨(m.covered - 1) / chunkSize, ?_, ?_, ?_⟩
  · simp only [covered, chunkSize] at *
    omega
  · simp only [covered, chunkLen, chunkOffset, chunkSize] at *
    omega
  · simp only [covered, chunkLen, chunkOffset, chunkSize] at *
    omega

/-- Two chunks do not overlap. -/
theorem chunk_apart (h : i ≠ j) :
    m.chunkOffset j + m.chunkLen j ≤ m.chunkOffset i ∨
      m.chunkOffset i + m.chunkLen i ≤ m.chunkOffset j := by
  simp only [chunkLen, chunkOffset, chunkSize]
  omega

/-- Nothing is missing if every bit is set. -/
theorem missing_chunks_eq_nil_iff : m.missingChunks = [] ↔ ∀ bit ∈ m.received, bit = true := by
  unfold missingChunks
  rw [List.filterMap_eq_nil_iff]
  refine ⟨fun h bit hmem => ?_, fun h entry hmem => ?_⟩
  · obtain ⟨i, hi⟩ := List.mem_iff_getElem?.mp hmem
    have hentry := h (bit, i) (List.mem_zipIdx_iff_getElem?.mpr hi)
    cases bit
    · simp at hentry
    · rfl
  · have hbit := h entry.1 (List.mem_of_getElem? (List.mem_zipIdx_iff_getElem?.mp hmem))
    simp [hbit]

/-- A chunk index is missing if its bit is there and not set. -/
theorem mem_missing_chunks_iff : i ∈ m.missingChunks ↔ m.received[i]? = some false := by
  unfold missingChunks
  rw [List.mem_filterMap]
  constructor
  · rintro ⟨⟨bit, index⟩, hmem, hentry⟩
    rw [List.mem_zipIdx_iff_getElem?] at hmem
    cases bit
    · obtain rfl : index = i := by simpa using hentry
      exact hmem
    · simp at hentry
  · intro h
    exact ⟨(false, i), List.mem_zipIdx_iff_getElem?.mpr h, by simp⟩

/-- A new manifest claims nothing. -/
theorem Holds.fresh {fileName : String} {totalSize : Nat} {chunkHashes : List String}
    {peer shareId rel : Option String}
    (h : (fromMetaWithSource fileName totalSize chunkHashes peer shareId rel).Fits content.length) :
    (fromMetaWithSource fileName totalSize chunkHashes peer shareId rel).Holds hash content where
  bitmap := by simp [fromMetaWithSource, chunkCount]
  fits := h
  chunks i expected hbit _ := by
    simp [fromMetaWithSource, List.getElem?_replicate] at hbit

/-- A `part.bin` in which every chunk is received is the file the manifest describes. -/
theorem Holds.intact (h : m.Holds hash content) (hall : m.missingChunks = []) :
    m.Intact hash content := by
  have hbit : ∀ i < m.chunkCount, m.received[i]? = some true := by
    intro i hi
    have hlt : i < m.received.length := by
      rw [h.bitmap]
      exact hi
    rw [List.getElem?_eq_getElem hlt]
    exact congrArg some (missing_chunks_eq_nil_iff.mp hall _ (List.getElem_mem hlt))
  have hreach : m.covered ≤ content.length := by
    by_cases hzero : m.covered = 0
    · omega
    · obtain ⟨i, hi, hlen, hend⟩ := exists_last_chunk hzero
      have hhash : m.chunkHashes[i]? = some m.chunkHashes[i] := List.getElem?_eq_getElem hi
      have hchunk := (h.chunks i _ (hbit i hi) hhash).1 hlen
      omega
  have hlength : content.length = m.totalSize := by
    have hfits := h.fits
    unfold Fits at hfits
    omega
  refine ⟨hlength, fun i expected hexpected => ?_⟩
  obtain ⟨hi, -⟩ := List.getElem?_eq_some_iff.mp hexpected
  have hhash := (h.chunks i expected (hbit i hi) hexpected).2
  have hsame : slice content (i * chunkSize) chunkSize = m.chunk content i := by
    apply List.ext_getElem?
    intro index
    have hlen : m.chunkLen i = min chunkSize (m.totalSize - i * chunkSize) := rfl
    show (slice content (i * chunkSize) chunkSize)[index]? =
      (slice content (i * chunkSize) (m.chunkLen i))[index]?
    rw [getElem?_slice, getElem?_slice]
    by_cases hindex : index < m.chunkLen i
    · rw [if_pos (by omega), if_pos hindex]
    · rw [if_neg hindex]
      split
      · exact List.getElem?_eq_none (by omega)
      · rfl
  rw [hsame, hhash]

section Writing

variable {expected : String}

/-- A file keeps fitting when a part of a chunk is written. -/
theorem Fits.write (h : m.Fits content.length) (hi : i < m.chunkCount)
    (hlength : data.length ≤ m.chunkLen i) :
    m.Fits (writeAt 0 content (m.chunkOffset i) data).length := by
  by_cases hdata : data = []
  · simpa [writeAt, hdata] using h
  · have hpos : data.length ≠ 0 := by simpa using hdata
    have hend := chunk_end_le (m := m) (i := i) (by omega) hi
    rw [length_writeAt hdata]
    unfold Fits at h ⊢
    omega

/-- A write into one chunk leaves the others alone. -/
theorem chunk_write_other (h : i ≠ j) (hlength : data.length ≤ m.chunkLen i)
    (hthere : m.chunkLen j ≠ 0 → m.chunkOffset j + m.chunkLen j ≤ content.length) :
    m.chunk (writeAt 0 content (m.chunkOffset i) data) j = m.chunk content j := by
  unfold chunk
  by_cases hempty : m.chunkLen j = 0
  · simp [hempty, slice]
  · refine slice_writeAt_other ?_ (hthere hempty)
    rcases chunk_apart (m := m) h with hbefore | hafter
    · exact .inl hbefore
    · exact .inr (by omega)

/-- A `part.bin` keeps what it holds when a part of a chunk is written that is not marked, or a
chunk that has the expected hash. -/
theorem Holds.write (h : m.Holds hash content) (hi : i < m.chunkCount)
    (hlength : data.length ≤ m.chunkLen i)
    (hchunk : m.received[i]? = some true → ∀ expected, m.chunkHashes[i]? = some expected →
      hash (m.chunk (writeAt 0 content (m.chunkOffset i) data) i) = expected) :
    m.Holds hash (writeAt 0 content (m.chunkOffset i) data) where
  bitmap := h.bitmap
  fits := h.fits.write hi hlength
  chunks j expected hbit hexpected := by
    obtain ⟨hthere, hhash⟩ := h.chunks j expected hbit hexpected
    refine ⟨fun hlen => Nat.le_trans (hthere hlen) le_length_writeAt, ?_⟩
    by_cases hij : i = j
    · subst hij
      exact hchunk hbit expected hexpected
    · rw [chunk_write_other hij hlength hthere, hhash]

/-- The chunk that was written. -/
theorem chunk_write_self (hlength : data.length = m.chunkLen i) :
    m.chunk (writeAt 0 content (m.chunkOffset i) data) i = data := by
  unfold chunk
  rw [← hlength, slice_writeAt_self]

/-- Mark a chunk as received. -/
def mark (m : Manifest) (i : Nat) : Manifest :=
  { m with received := m.received.set i true }

@[simp] theorem mark_same_chunks : (m.mark i).SameChunks m := ⟨rfl, rfl⟩

/-- A whole chunk that has the expected hash can be written and marked. -/
theorem Holds.receive (h : m.Holds hash content) (hlength : data.length = m.chunkLen i)
    (hexpected : m.chunkHashes[i]? = some (hash data)) :
    (m.mark i).Holds hash (writeAt 0 content (m.chunkOffset i) data) := by
  obtain ⟨hi, -⟩ := List.getElem?_eq_some_iff.mp hexpected
  have hself : m.chunk (writeAt 0 content (m.chunkOffset i) data) i = data :=
    chunk_write_self hlength
  have hwritten := h.write hi (Nat.le_of_eq hlength) (fun _ expected hother => by
    rw [hself]
    exact Option.some.inj (hexpected.symm.trans hother))
  refine ⟨?_, hwritten.fits, fun j expected hbit hhash => ?_⟩
  · show (m.received.set i true).length = m.chunkCount
    rw [List.length_set, h.bitmap]
  · by_cases hij : i = j
    · subst hij
      refine ⟨fun hlen => ?_, ?_⟩
      · show m.chunkOffset i + m.chunkLen i ≤ _
        have hlen : m.chunkLen i ≠ 0 := hlen
        have hdata : data ≠ [] := by
          rintro rfl
          exact hlen hlength.symm
        rw [length_writeAt hdata]
        omega
      · show hash (m.chunk _ i) = expected
        rw [hself]
        exact Option.some.inj (hexpected.symm.trans hhash)
    · have hold : m.received[j]? = some true := by
        have hset : (m.received.set i true)[j]? = some true := hbit
        rwa [List.getElem?_set_ne hij] at hset
      exact hwritten.chunks j expected hold hhash

end Writing

end Manifest

end LocalTrans
