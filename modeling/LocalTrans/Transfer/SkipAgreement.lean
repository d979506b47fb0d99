import LocalTrans.Transfer.Containment
import LocalTrans.Transfer.Push
import Mathlib.Data.List.Nodup
import Mathlib.Data.List.Perm.Subperm

/-!
# Small files that are not sent

The receiver of an offer computes one bit for each position: whether its index has the file. It
places the files with a set bit itself. The sender looks for the bit of a small file at the first
position with the same path, and leaves the file out of the stream if it is set.
`skip_agreement_iff` says when both mean the same files, and each is delivered once.
-/

namespace Foundation

section Positions

variable {α : Type*} {p : α → Bool} {l : List α} {i : Nat}

/-- The positions of the elements with a property. -/
def positions (p : α → Bool) (l : List α) : List Nat :=
  (l.zipIdx.filter fun entry => p entry.1).map Prod.snd

theorem mem_positions : i ∈ positions p l ↔ ∃ x, l[i]? = some x ∧ p x = true := by
  unfold positions
  constructor
  · intro h
    obtain ⟨⟨x, j⟩, hmem, rfl⟩ := List.mem_map.mp h
    obtain ⟨hmem, hp⟩ := List.mem_filter.mp hmem
    exact ⟨x, List.mk_mem_zipIdx_iff_getElem?.mp hmem, hp⟩
  · rintro ⟨x, hx, hp⟩
    exact List.mem_map.mpr ⟨(x, i), List.mem_filter.mpr
      ⟨List.mk_mem_zipIdx_iff_getElem?.mpr hx, hp⟩, rfl⟩

theorem positions_nodup (p : α → Bool) (l : List α) : (positions p l).Nodup := by
  have hall : (l.zipIdx.map Prod.snd).Nodup := by
    rw [List.zipIdx_map_snd]
    exact List.nodup_range'
  exact hall.sublist (List.filter_sublist.map _)

/-- The elements at these positions are those with the property, in order. -/
theorem filter_zipIdx_fst (p : α → Bool) (l : List α) :
    (l.zipIdx.filter fun entry => p entry.1).map Prod.fst = l.filter p := by
  conv_rhs => rw [← List.zipIdx_map_fst 0 l, List.filter_map]
  rfl

/-- A list without repetitions that has all elements of a longer one is the longer one. -/
theorem sublist_eq_of_subset {long : List α} (h : l.Sublist long) (hnodup : long.Nodup)
    (hall : long ⊆ l) : l = long :=
  h.eq_of_length_le (hnodup.subperm hall).length_le

end Positions

end Foundation

namespace LocalTrans

open Foundation

/-- `skip_bitmap` of an accepted offer. -/
def skipBitmap (index : InboxIndex) (files : List OfferFile) : List Bool :=
  files.map (skipBit index)

section Sender

variable {files : List LocalFile} {index : InboxIndex} {file first : LocalFile}

/-- The files of an offer. -/
def offerFiles (files : List LocalFile) : List OfferFile :=
  files.map LocalFile.offer

/-- Whether a file is small, and the sender finds its bit set. -/
def skipsSmall (index : InboxIndex) (files : List LocalFile) (file : LocalFile) : Bool :=
  file.size ≤ smallFileLimit && skips files (skipBitmap index (offerFiles files)) file

/-- Whether a file is small, and the sender finds its bit not set. -/
def keepsSmall (index : InboxIndex) (files : List LocalFile) (file : LocalFile) : Bool :=
  file.size ≤ smallFileLimit && !skips files (skipBitmap index (offerFiles files)) file

/-- The positions that the sender leaves out of the stream. -/
def leftOut (index : InboxIndex) (files : List LocalFile) : List Nat :=
  positions (skipsSmall index files) files

/-- The positions that the sender puts into the stream. -/
def batched (index : InboxIndex) (files : List LocalFile) : List Nat :=
  positions (keepsSmall index files) files

/-- The sender takes the bit of the first file with the same path. -/
theorem skips_first (index : InboxIndex) (hmem : file ∈ files) :
    ∃ first, files.find? (fun other => other.path == file.path) = some first ∧
      skips files (skipBitmap index (offerFiles files)) file = skipBit index first.offer := by
  cases hfind : files.find? fun other => other.path == file.path with
  | none =>
    have hnot := List.find?_eq_none.mp hfind file hmem
    simp at hnot
  | some first =>
    refine ⟨first, rfl, ?_⟩
    obtain ⟨i, hi⟩ : ∃ i, files.findIdx? (fun other => other.path == file.path) = some i ∧
        files[i]? = some first := by
      rw [List.find?_eq_bind_findIdx?_getElem?] at hfind
      exact Option.bind_eq_some_iff.mp hfind
    unfold skips skipBitmap offerFiles
    rw [hi.1, Option.bind_some, List.getElem?_map, List.getElem?_map, hi.2]
    rfl

/-- Each small file has the same bit as the first file with its path. -/
def BitsAgree (index : InboxIndex) (files : List LocalFile) : Prop :=
  ∀ file ∈ files, file.size ≤ smallFileLimit →
    ∀ first ∈ files.find? (fun other => other.path == file.path),
      skipBit index first.offer = skipBit index file.offer

/-- They do if a file does not change while the offer is built. -/
theorem bits_agree_of_unchanged
    (h : ∀ file ∈ files, ∀ other ∈ files, other.path = file.path →
      other.size = file.size ∧ other.digest = file.digest) : BitsAgree index files := by
  intro file hmem _ first hfirst
  have hpath : first.path = file.path := by simpa using List.find?_some hfirst
  obtain ⟨hsize, hdigest⟩ := h file hmem first (List.mem_of_find?_eq_some hfirst) hpath
  have hhash : first.offer.hash = file.offer.hash := by
    unfold LocalFile.offer
    dsimp only
    rw [hsize, hdigest]
  unfold skipBit
  rw [hhash, show first.offer.size = file.offer.size from hsize]

/-- The bits agree exactly if the sender finds each small file's own bit. -/
theorem bits_agree_iff : BitsAgree index files ↔ ∀ file ∈ files, file.size ≤ smallFileLimit →
    skips files (skipBitmap index (offerFiles files)) file = skipBit index file.offer := by
  constructor
  · intro h file hmem hsmall
    obtain ⟨first, hfirst, hskips⟩ := skips_first index hmem
    rw [hskips]
    exact h file hmem hsmall first hfirst
  · intro h file hmem hsmall first hfirst
    obtain ⟨found, hfound, hskips⟩ := skips_first index hmem
    rw [Option.mem_def] at hfirst
    rw [hfirst] at hfound
    cases hfound
    rw [← hskips]
    exact h file hmem hsmall

end Sender

section Receiver

variable {index : InboxIndex} {files : List OfferFile}

/-- The positions that the receiver places itself. -/
def fromIndex (index : InboxIndex) (files : List OfferFile) : List Nat :=
  positions (skipBit index) files

/-- The files that are there already, with their positions. -/
def numberedInstants (index : InboxIndex) (files : List OfferFile) : List (Nat × InstantFile) :=
  (files.zipIdx.filter fun entry => skipBit index entry.1).filterMap fun entry =>
    (instantOf index entry.1).map fun item => (entry.2, item)

/-- A file whose bit is set is among those that are there. -/
theorem instant_of_bit {file : OfferFile} (h : skipBit index file = true) :
    ∃ item, instantOf index file = some item := by
  simp only [skipBit, Bool.and_eq_true, Option.isSome_iff_exists, Option.bind_eq_some_iff] at h
  obtain ⟨-, src, hash, hhash, hsrc⟩ := h
  exact ⟨{ hash, src, size := file.size, relDir := file.relDir, name := file.name }, by
    simp [instantOf, hhash, hsrc]⟩

theorem numbered_instants_fst :
    (numberedInstants index files).map Prod.fst = fromIndex index files := by
  unfold numberedInstants fromIndex positions
  generalize files.zipIdx = entries
  induction entries with
  | nil => rfl
  | cons entry entries ih =>
    by_cases hbit : skipBit index entry.1 = true
    · obtain ⟨item, hitem⟩ := instant_of_bit hbit
      simp [hbit, hitem, ih]
    · simp [hbit, ih]

theorem numbered_instants_snd :
    (numberedInstants index files).map Prod.snd = (planOffer index files).instants := by
  have hfst := filter_zipIdx_fst (skipBit index) files
  unfold numberedInstants planOffer
  dsimp only
  rw [← hfst, List.filterMap_map, List.map_filterMap]
  refine List.filterMap_congr fun entry _ => ?_
  simp [Function.comp_def]

variable (hash : List UInt8 → String) (format : IndexFormat) (platform : Platform) (root : Location)

/-- The loop over `small_instant`, with the position of each file and of each receipt. -/
def placeAll (outcomes : Nat → PlaceOutcome) : FileSystem → InboxIndex → List (Nat × InstantFile) →
    FileSystem × InboxIndex × List (Nat × Receipt)
  | fs, index, [] => (fs, index, [])
  | fs, index, (i, item) :: left =>
    match placeInstant platform fs root index item (outcomes i) with
    | (fs, index, none) => placeAll outcomes fs index left
    | (fs, index, some receipt) =>
      let (fs, index, receipts) := placeAll outcomes fs index left
      (fs, index, (i, receipt) :: receipts)

/-- One iteration of the loop in the receive task. -/
theorem step_instant {fs : FileSystem} {index : InboxIndex} {item : InstantFile}
    {left : List InstantFile} {large : List OfferFile} {outcome : PlaceOutcome} :
    Inbound.step hash format platform root { fs, phase := .instants (item :: left) index large }
        (.instant outcome) =
      match placeInstant platform fs root index item outcome with
      | (fs, index, none) => some ({ fs, phase := .instants left index large }, [])
      | (fs, index, some receipt) =>
        some ({ fs, phase := .instants left index large }, [.received receipt]) := rfl

/-- The receive task goes through the loop. -/
theorem place_all_exec (outcomes : Nat → PlaceOutcome) (fs : FileSystem)
    (index : InboxIndex) (items : List (Nat × InstantFile)) (large : List OfferFile) :
    Exec (Inbound.step hash format platform root) Guard.free
      { fs, phase := .instants (items.map Prod.snd) index large }
      (items.map fun item => .instant (outcomes item.1))
      ((placeAll platform root outcomes fs index items).2.2.map fun entry => .received entry.2)
      { fs := (placeAll platform root outcomes fs index items).1
        phase := .instants [] (placeAll platform root outcomes fs index items).2.1 large } := by
  have hrun : ∀ trace fs index,
      Machine.run (Inbound.step hash format platform root) Guard.free trace
        { fs, phase := .instants (items.map Prod.snd) index large }
        (items.map fun item => .instant (outcomes item.1)) =
      some ({ fs := (placeAll platform root outcomes fs index items).1
              phase := .instants [] (placeAll platform root outcomes fs index items).2.1 large },
        trace ++ (placeAll platform root outcomes fs index items).2.2.map
          fun entry => .received entry.2) := by
    induction items with
    | nil =>
      intro trace fs index
      simp [Machine.run, placeAll]
    | cons item items ih =>
      intro trace fs index
      obtain ⟨i, item⟩ := item
      show Machine.run (Inbound.step hash format platform root) Guard.free trace
        { fs, phase := .instants (item :: items.map Prod.snd) index large }
        (.instant (outcomes i) :: items.map fun item => .instant (outcomes item.1)) = _
      rw [Machine.run, if_pos (show Guard.free _ _ _ from trivial)]
      rw [step_instant]
      unfold placeAll
      obtain ⟨next, after, receipt⟩ := placeInstant platform fs root index item (outcomes i)
      cases receipt with
      | none =>
        dsimp only
        rw [ih]
        simp
      | some receipt =>
        dsimp only
        rw [ih]
        simp
  have hexec := Exec.start.append_run (hrun [] fs index)
  simpa using hexec

variable {platform root}

/-- What placing a copy needs: the directory is made, a name is found, and the copy is there
already or can be made. -/
def Placeable (platform : Platform) (fs : FileSystem) (src destDir : Location) (name : String)
    (outcome : PlaceOutcome) : Prop :=
  outcome.dirMade = true ∧
    ∃ target, dedupTarget platform (fs.createDirAll destDir) src destDir name = some target ∧
      ((fs.createDirAll destDir).sameFile src target = true ∨
        fs.contentAt src ≠ none ∧ (outcome.linked = true ∨ outcome.copy = .done))

/-- A copy is placed exactly if it can be. -/
theorem place_dedup_ok_iff {fs : FileSystem} {src destDir : Location} {name : String}
    {outcome : PlaceOutcome} :
    (∃ next placed, placeDedupCopy platform fs src destDir name outcome = (next, .ok placed)) ↔
      Placeable platform fs src destDir name outcome := by
  unfold placeDedupCopy Placeable
  have hcontent : (fs.createDirAll destDir).contentAt src = fs.contentAt src :=
    FileSystem.createDirAll_contentAt
  rw [← hcontent]
  cases hmade : outcome.dirMade with
  | false => simp
  | true =>
    cases htarget : dedupTarget platform (fs.createDirAll destDir) src destDir name with
    | none => simp [htarget]
    | some target =>
      cases hsame : (fs.createDirAll destDir).sameFile src target with
      | true => simp [htarget, hsame]
      | false =>
        cases hnode : (fs.createDirAll destDir).tree src with
        | none => simp [htarget, hsame, hnode, FileSystem.contentAt]
        | some node =>
          cases hcontent : (fs.createDirAll destDir).contentAt src with
          | none => simp [htarget, hsame, hnode, hcontent]
          | some content =>
            cases outcome.linked with
            | true => simp [htarget, hsame, hnode, hcontent]
            | false =>
              cases outcome.copy with
              | done => simp [htarget, hsame, hnode, hcontent, FileSystem.writeNew]
              | broken written =>
                simp [htarget, hsame, hnode, hcontent, FileSystem.writeNew]
              | refused => simp [htarget, hsame, hnode, hcontent, FileSystem.writeNew]

/-- Every file of the loop can be placed when it is its turn. -/
def AllPlaceable (platform : Platform) (root : Location) (outcomes : Nat → PlaceOutcome) :
    FileSystem → List (Nat × InstantFile) → Prop
  | _, [] => True
  | fs, (i, item) :: left =>
    Placeable platform fs item.src (item.destDir platform root) item.name (outcomes i) ∧
      AllPlaceable platform root outcomes
        (placeDedupCopy platform fs item.src (item.destDir platform root) item.name
          (outcomes i)).1 left

variable {outcomes : Nat → PlaceOutcome} {fs : FileSystem} {items : List (Nat × InstantFile)}

/-- What the loop places is among what it goes through. -/
theorem place_all_sublist :
    ((placeAll platform root outcomes fs index items).2.2.map Prod.fst).Sublist
      (items.map Prod.fst) := by
  induction items generalizing fs index with
  | nil => exact List.Sublist.refl _
  | cons item items ih =>
    obtain ⟨i, item⟩ := item
    unfold placeAll
    split
    · exact ih.cons _
    · exact ih.cons_cons _

/-- The loop places all files exactly if each can be placed. -/
theorem place_all_iff :
    (placeAll platform root outcomes fs index items).2.2.map Prod.fst = items.map Prod.fst ↔
      AllPlaceable platform root outcomes fs items := by
  induction items generalizing fs index with
  | nil => simp [placeAll, AllPlaceable]
  | cons item items ih =>
    obtain ⟨i, item⟩ := item
    unfold placeAll AllPlaceable placeInstant
    rw [← place_dedup_ok_iff]
    cases hcopy : placeDedupCopy platform fs item.src (item.destDir platform root) item.name
        (outcomes i) with
    | mk next result =>
      cases result with
      | error error =>
        dsimp only
        constructor
        · intro hsame
          -- one receipt is missing
          have hless : ((placeAll platform root outcomes next index items).2.2.map
              Prod.fst).Sublist (items.map Prod.fst) := place_all_sublist
          have hle := hless.length_le
          rw [hsame, List.length_map, List.length_map, List.length_cons] at hle
          omega
        · rintro ⟨⟨after, placed, hok⟩, -⟩
          cases hok
      | ok placed =>
        dsimp only
        rw [List.map_cons, List.map_cons, List.cons_inj_right]
        constructor
        · intro hrest
          exact ⟨⟨next, placed, rfl⟩, ih.mp hrest⟩
        · rintro ⟨-, hrest⟩
          exact ih.mpr hrest

end Receiver

section Agreement

variable {platform : Platform} {root : Location} {fs : FileSystem} {index : InboxIndex}
  {files : List LocalFile} {outcomes : Nat → PlaceOutcome} {i : Nat} {file : LocalFile}

/-- The positions from the index at which a copy is placed. -/
def placedPositions (platform : Platform) (root : Location) (fs : FileSystem) (index : InboxIndex)
    (files : List LocalFile) (outcomes : Nat → PlaceOutcome) : List Nat :=
  (placeAll platform root outcomes fs index
    (numberedInstants index (offerFiles files))).2.2.map Prod.fst

/-- How often the file at a position is delivered: in the stream, if the receiver takes one, and
from the index. -/
def deliveries (platform : Platform) (root : Location) (fs : FileSystem) (index : InboxIndex)
    (files : List LocalFile) (outcomes : Nat → PlaceOutcome) (i : Nat) : Nat :=
  (if (planOffer index (offerFiles files)).small.isEmpty then 0
    else (batched index files).count i) +
    (placedPositions platform root fs index files outcomes).count i

/-- Both sides mean the same files, and each small file is delivered once. -/
structure SkipAgreement (platform : Platform) (root : Location) (fs : FileSystem)
    (index : InboxIndex) (files : List LocalFile) (outcomes : Nat → PlaceOutcome) : Prop where
  same : ∀ i, i ∈ leftOut index files ↔ i ∈ fromIndex index (offerFiles files)
  once : ∀ i file, files[i]? = some file → file.size ≤ smallFileLimit →
    deliveries platform root fs index files outcomes i = 1

theorem mem_from_index : i ∈ fromIndex index (offerFiles files) ↔
    ∃ file, files[i]? = some file ∧ skipBit index file.offer = true := by
  unfold fromIndex offerFiles
  rw [mem_positions]
  constructor
  · rintro ⟨offer, hoffer, hbit⟩
    rw [List.getElem?_map] at hoffer
    obtain ⟨file, hfile, rfl⟩ := Option.map_eq_some_iff.mp hoffer
    exact ⟨file, hfile, hbit⟩
  · rintro ⟨file, hfile, hbit⟩
    exact ⟨file.offer, by rw [List.getElem?_map, hfile]; rfl, hbit⟩

/-- A bit is only set for a small file. -/
theorem small_of_bit (h : skipBit index file.offer = true) : file.size ≤ smallFileLimit := by
  unfold skipBit at h
  rw [Bool.and_eq_true, decide_eq_true_eq] at h
  exact h.1

/-- Both sides mean the same files exactly if the bits agree. -/
theorem left_out_iff :
    (∀ i, i ∈ leftOut index files ↔ i ∈ fromIndex index (offerFiles files)) ↔
      BitsAgree index files := by
  rw [bits_agree_iff]
  have hleft : ∀ i file, files[i]? = some file → (i ∈ leftOut index files ↔
      file.size ≤ smallFileLimit ∧
        skips files (skipBitmap index (offerFiles files)) file = true) := by
    intro i file hfile
    unfold leftOut
    rw [mem_positions]
    simp [hfile, skipsSmall]
  have hindex : ∀ i file, files[i]? = some file →
      (i ∈ fromIndex index (offerFiles files) ↔ skipBit index file.offer = true) := by
    intro i file hfile
    rw [mem_from_index]
    simp [hfile]
  constructor
  · intro h file hmem hsmall
    obtain ⟨i, hi⟩ := List.getElem?_of_mem hmem
    have hboth := (hleft i file hi).symm.trans ((h i).trans (hindex i file hi))
    rw [Bool.eq_iff_iff]
    exact ⟨fun hskips => hboth.mp ⟨hsmall, hskips⟩, fun hbit => (hboth.mpr hbit).2⟩
  · intro h i
    cases hfile : files[i]? with
    | none =>
      have hnotleft : i ∉ leftOut index files := fun hmem => by
        obtain ⟨file, hsome, -⟩ := mem_positions.mp hmem
        rw [hfile] at hsome
        cases hsome
      have hnotindex : i ∉ fromIndex index (offerFiles files) := fun hmem => by
        obtain ⟨file, hsome, -⟩ := mem_from_index.mp hmem
        rw [hfile] at hsome
        cases hsome
      exact ⟨fun hmem => absurd hmem hnotleft, fun hmem => absurd hmem hnotindex⟩
    | some file =>
      rw [hleft i file hfile, hindex i file hfile]
      have hmem := List.mem_of_getElem? hfile
      constructor
      · rintro ⟨hsmall, hskips⟩
        rwa [h file hmem hsmall] at hskips
      · intro hbit
        have hsmall := small_of_bit hbit
        exact ⟨hsmall, by rwa [h file hmem hsmall]⟩

/-- A small file is batched exactly if its own bit is not set, when the bits agree. -/
theorem batched_iff (h : BitsAgree index files) (hfile : files[i]? = some file)
    (hsmall : file.size ≤ smallFileLimit) :
    i ∈ batched index files ↔ skipBit index file.offer = false := by
  have hskips := bits_agree_iff.mp h file (List.mem_of_getElem? hfile) hsmall
  unfold batched
  rw [mem_positions]
  simp [hfile, keepsSmall, hsmall, hskips]

/-- The receiver takes a stream if the bit of a small file is not set. -/
theorem takes_stream (hfile : files[i]? = some file) (hsmall : file.size ≤ smallFileLimit)
    (hbit : skipBit index file.offer = false) :
    (planOffer index (offerFiles files)).small.isEmpty = false := by
  rw [List.isEmpty_eq_false_iff]
  refine List.ne_nil_of_mem (a := file.offer) (List.mem_filter.mpr ⟨?_, ?_⟩)
  · exact List.mem_map_of_mem (List.mem_of_getElem? hfile)
  · rw [hbit, show file.offer.size = file.size from rfl]
    simp [hsmall]

theorem placed_positions_nodup :
    (placedPositions platform root fs index files outcomes).Nodup := by
  have hall : ((numberedInstants index (offerFiles files)).map Prod.fst).Nodup := by
    rw [numbered_instants_fst]
    exact positions_nodup _ _
  exact hall.sublist place_all_sublist

theorem placed_subset (h : i ∈ placedPositions platform root fs index files outcomes) :
    i ∈ fromIndex index (offerFiles files) := by
  rw [← numbered_instants_fst]
  exact place_all_sublist.subset h

/-- The receive task places the files with a set bit. It means the files that the sender leaves out
of the stream, and each small file is delivered once, if and only if each small file has the bit of
the first file with its path, and each file with a set bit can be placed. -/
theorem skip_agreement_iff (hash : List UInt8 → String) (format : IndexFormat) (platform : Platform)
    (root : Location) (fs : FileSystem) (index : InboxIndex) (files : List LocalFile)
    (large : List OfferFile) (outcomes : Nat → PlaceOutcome) :
    Exec (Inbound.step hash format platform root) Guard.free
        { fs, phase := .instants (planOffer index (offerFiles files)).instants index large }
        ((fromIndex index (offerFiles files)).map fun i => .instant (outcomes i))
        ((placeAll platform root outcomes fs index
          (numberedInstants index (offerFiles files))).2.2.map fun entry => .received entry.2)
        { fs := (placeAll platform root outcomes fs index
            (numberedInstants index (offerFiles files))).1
          phase := .instants [] (placeAll platform root outcomes fs index
            (numberedInstants index (offerFiles files))).2.1 large } ∧
      (SkipAgreement platform root fs index files outcomes ↔
        BitsAgree index files ∧ AllPlaceable platform root outcomes fs
          (numberedInstants index (offerFiles files))) := by
  constructor
  · have hexec := place_all_exec hash format platform root outcomes fs index
      (numberedInstants index (offerFiles files)) large
    rw [numbered_instants_snd] at hexec
    rw [← numbered_instants_fst, List.map_map]
    exact hexec
  have hplaced : (placeAll platform root outcomes fs index
      (numberedInstants index (offerFiles files))).2.2.map Prod.fst =
        (numberedInstants index (offerFiles files)).map Prod.fst ↔ _ := place_all_iff
  rw [← hplaced, ← left_out_iff]
  constructor
  · intro h
    refine ⟨h.same, sublist_eq_of_subset place_all_sublist ?_ fun i hi => ?_⟩
    · rw [numbered_instants_fst]
      exact positions_nodup _ _
    · -- a file with a set bit is not in the stream, so it is delivered by being placed
      rw [numbered_instants_fst] at hi
      obtain ⟨file, hfile, hbit⟩ := mem_from_index.mp hi
      have hsmall := small_of_bit hbit
      have hbits := left_out_iff.mp h.same
      have hnot : i ∉ batched index files := by
        rw [batched_iff hbits hfile hsmall, hbit]
        simp
      have honce := h.once i file hfile hsmall
      unfold deliveries at honce
      rw [List.count_eq_zero_of_not_mem hnot, ite_self, Nat.zero_add] at honce
      exact List.count_pos_iff.mp (honce ▸ Nat.one_pos)
  · rintro ⟨hsame, hplaced⟩
    refine ⟨hsame, fun i file hfile hsmall => ?_⟩
    have hbits := left_out_iff.mp hsame
    unfold deliveries
    cases hbit : skipBit index file.offer with
    | true =>
      have hnot : i ∉ batched index files := by
        rw [batched_iff hbits hfile hsmall, hbit]
        simp
      have hmem : i ∈ placedPositions platform root fs index files outcomes := by
        unfold placedPositions
        rw [hplaced, numbered_instants_fst]
        exact mem_from_index.mpr ⟨file, hfile, hbit⟩
      rw [List.count_eq_zero_of_not_mem hnot, ite_self,
        List.count_eq_one_of_mem placed_positions_nodup hmem]
    | false =>
      have hmem : i ∈ batched index files := (batched_iff hbits hfile hsmall).mpr hbit
      have hnot : i ∉ placedPositions platform root fs index files outcomes := by
        intro hin
        obtain ⟨other, hother, hset⟩ := mem_from_index.mp (placed_subset hin)
        rw [hfile] at hother
        cases hother
        rw [hbit] at hset
        cases hset
      rw [takes_stream hfile hsmall hbit, List.count_eq_zero_of_not_mem hnot]
      exact List.count_eq_one_of_mem (positions_nodup _ _) hmem

/-- A file of the local disk with a digest. -/
def pushedAs (relDir digest : String) : LocalFile :=
  { path := "/home/a.txt", name := "a.txt", relDir, size := 3, digest }

/-- An index that has the file with the digest `x`. -/
def knowsX : InboxIndex := [("x", { path := sampleRoot.child "a.txt", size := 3 })]

/-- The same file is offered twice and changes in between: the receiver knows what it was first, and
the sender leaves out both. And a file that is left out is lost when its copy cannot be placed. -/
theorem skipped_file_lost :
    (¬ ∀ index files i, i ∈ leftOut index files ↔ i ∈ fromIndex index (offerFiles files)) ∧
    ¬ ∀ platform root fs index files outcomes, BitsAgree index files →
      SkipAgreement platform root fs index files outcomes := by
  refine ⟨fun hall => ?_, fun hall => ?_⟩
  · have hsame := hall knowsX [pushedAs "old" "x", pushedAs "new" "y"] 1
    exact absurd (hsame.mp (by decide)) (by decide)
  · have honce := (hall unixPlatform sampleRoot sampleDownloads knowsX [pushedAs "old" "x"]
      (fun _ => { dirMade := false, linked := false, copy := .refused })
      (bits_agree_of_unchanged (by simp))).once 0 _ rfl (by decide)
    exact absurd honce (by decide)

end Agreement

end LocalTrans
