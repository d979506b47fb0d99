import LocalTrans.Transfer.Containment
import LocalTrans.Transfer.Frame

/-!
# Placing a file beside those that are there

Three searches look for a free name. That of `write_small_file` and that of `place_dedup_copy` count
on until one is free; `resolve_name_conflict` gives up after a hundred numbers. A copy is not made
where the search meets its own source.
-/

namespace LocalTrans

open Foundation

/-- Whatever is there stays there, with its contents. -/
def FileSystem.Undisturbed (fs next : FileSystem) : Prop :=
  ∀ place, fs.present place = true →
    next.tree place = fs.tree place ∧ next.contentAt place = fs.contentAt place

/-- What placing a file without overwriting does: everything that was there is undisturbed, and the
file is at a place where nothing was, with its contents. -/
structure PlacesNew (fs : FileSystem) (result : FileSystem × Except EngineError Placed) : Prop where
  undisturbed : fs.Undisturbed result.1
  fresh : ∀ placed, result.2 = .ok placed → fs.present placed.place = false
  there : ∀ placed, result.2 = .ok placed →
    result.1.contentAt placed.place = some placed.content

/-- An operation that fails has placed nothing. -/
theorem PlacesNew.of_error {fs next : FileSystem} {error : EngineError}
    (h : fs.Undisturbed next) : PlacesNew fs (next, .error error) where
  undisturbed := h
  fresh placed hplaced := by cases hplaced
  there placed hplaced := by cases hplaced

/-- The names `resolve_name_conflict` tries. -/
def conflictNames (style : PathStyle) (name : String) : List String :=
  name :: (List.range 100).map fun i => numberedName style name (i + 1)

section Searches

variable {platform : Platform} {fs next : FileSystem} {src destDir : Location} {name : String}

/-- Keeping what is there leaves it undisturbed. -/
theorem undisturbed_of_keeps (hsound : fs.Sound)
    (h : FileSystem.Keeps (fun place => fs.present place = true) fs next) :
    fs.Undisturbed next := by
  intro place hthere
  refine ⟨?_, h.contentAt hsound hthere⟩
  rcases h.node place hthere with hsame | ⟨hnone, -⟩
  · exact hsame
  · simp [FileSystem.present, hnone] at hthere

/-- A search that stops has come to a number below its end. -/
theorem first_free_lt {taken : Nat → Bool} {fuel start i : Nat}
    (h : firstFree taken fuel start = some i) : i < start + fuel := by
  induction fuel generalizing start with
  | zero => cases h
  | succ fuel ih =>
    unfold firstFree at h
    split at h
    · have hlater := ih h
      omega
    · cases h
      omega

/-- A search among names that are all taken finds none. -/
theorem first_free_none {taken : Nat → Bool} {fuel : Nat}
    (h : ∀ i < fuel, taken i = true) : firstFree taken fuel 0 = none := by
  cases hfound : firstFree taken fuel 0 with
  | none => rfl
  | some i =>
    have hlt := first_free_lt hfound
    have hfree := first_free_spec hfound
    rw [h i (by omega)] at hfree
    cases hfree

/-- `resolve_name_conflict` finds a free name if there is one among those it tries. -/
theorem resolve_free {style : PathStyle} {taken : String → Bool}
    (h : ∃ candidate ∈ conflictNames style name, taken candidate = false) :
    taken (PartWriter.resolveNameConflict style taken name) = false := by
  unfold PartWriter.resolveNameConflict
  split
  · next hfree => simpa using hfree
  · next htaken =>
    split
    · next found hfound => simpa using List.find?_some hfound
    · next hnone =>
      obtain ⟨candidate, hmem, hfree⟩ := h
      rcases List.mem_cons.mp hmem with rfl | hmem
      · simp [hfree] at htaken
      · have htaken := List.find?_eq_none.mp hnone candidate hmem
        simp [hfree] at htaken

/-- If all are taken, it chooses the hundredth numbered name. -/
theorem resolve_full {style : PathStyle} {taken : String → Bool}
    (h : ∀ candidate ∈ conflictNames style name, taken candidate = true) :
    PartWriter.resolveNameConflict style taken name = numberedName style name 100 := by
  unfold PartWriter.resolveNameConflict
  rw [if_neg (by simp [h name List.mem_cons_self])]
  split
  · next found hfound =>
    have htaken := h found (List.mem_cons_of_mem _ (List.mem_of_find?_eq_some hfound))
    simpa [htaken] using List.find?_some hfound
  · rfl

end Searches

section Placing

variable {platform : Platform} {fs next : FileSystem} {src destDir : Location} {name : String}

/-- `write_small_file` places a file at a free place. -/
theorem write_small_new (h : fs.Sound) (data : List UInt8) (outcome : FileOutcome) :
    PlacesNew fs (writeSmallFile platform fs destDir name data outcome) := by
  unfold writeSmallFile
  split
  · exact .of_error (undisturbed_of_keeps h (.refl h))
  · next i hfound =>
    have hfree := first_free_spec hfound
    have hkeeps : FileSystem.Keeps (fun place => fs.present place = true) fs
        (fs.writeNew (smallCandidate platform destDir name i) data outcome).1 := by
      refine FileSystem.writeNew_keeps outcome h ?_
      simp [hfree]
    refine ⟨undisturbed_of_keeps h hkeeps, fun placed hplaced => ?_, fun placed hplaced => ?_⟩
    · cases outcome with
      | done =>
        cases hplaced
        exact hfree
      | broken written => cases hplaced
      | refused => cases hplaced
    · cases outcome with
      | done =>
        cases hplaced
        exact FileSystem.newFile_contentAt
      | broken written => cases hplaced
      | refused => cases hplaced

/-- It places nothing when all its names are taken. -/
theorem write_small_full {data : List UInt8} {outcome : FileOutcome} {placed : Placed}
    (h : ∀ i < counterRange, fs.present (smallCandidate platform destDir name i) = true) :
    (writeSmallFile platform fs destDir name data outcome).2 ≠ .ok placed := by
  unfold writeSmallFile
  rw [first_free_none h]
  intro hplaced
  cases hplaced

/-- `place_dedup_copy` leaves everything as it is where it meets the source, and else places a copy
at a free place. -/
theorem place_dedup_new (h : fs.Sound) (outcome : PlaceOutcome) :
    PlacesNew fs (placeDedupCopy platform fs src destDir name outcome) ∨
      ∃ placed, placeDedupCopy platform fs src destDir name outcome =
          (fs.createDirAll destDir, .ok placed) ∧
        placed.place = src ∧ fs.Undisturbed (fs.createDirAll destDir) := by
  have hkeeps : FileSystem.Keeps (fun place => fs.present place = true) fs
      (placeDedupCopy platform fs src destDir name outcome).1 := by
    refine place_dedup_keeps outcome h fun target htarget hother => ?_
    simp [dedup_target_free htarget hother]
  have hundisturbed := undisturbed_of_keeps h hkeeps
  cases hresult : placeDedupCopy platform fs src destDir name outcome with
  | mk next result =>
    rw [hresult] at hundisturbed
    cases result with
    | error error =>
      exact .inl (.of_error hundisturbed)
    | ok placed =>
      obtain ⟨htarget, -, hhow⟩ := place_dedup_ok hresult
      by_cases hsame : (fs.createDirAll destDir).sameFile src placed.place = true
      · -- the source is met, and nothing is done
        have hsrc : src = placed.place := by
          simp only [FileSystem.sameFile, Bool.and_eq_true, beq_iff_eq] at hsame
          exact hsame.2
        have hnext : next = fs.createDirAll destDir := by
          unfold placeDedupCopy at hresult
          split at hresult
          · cases hresult
          · dsimp only at hresult
            rw [htarget] at hresult
            dsimp only at hresult
            rw [if_pos hsame] at hresult
            exact (congrArg Prod.fst hresult).symm
        subst hnext
        exact .inr ⟨placed, rfl, hsrc.symm, hundisturbed⟩
      · have hother : (fs.createDirAll destDir).sameFile src placed.place = false := by
          simpa using hsame
        refine .inl ⟨hundisturbed, fun other hplaced => ?_, fun other hplaced => ?_⟩
        · cases hplaced
          exact dedup_target_free htarget hother
        · cases hplaced
          rcases hhow with ⟨hmet, -⟩ | ⟨node, hnode, hcontent, rfl⟩ | ⟨-, rfl⟩
          · exact absurd hmet hsame
          · have hmade : (fs.createDirAll destDir).contentAt src = fs.contentAt src :=
              FileSystem.createDirAll_contentAt
            rw [← hmade] at hcontent
            unfold FileSystem.contentAt at hcontent ⊢
            rw [FileSystem.link_tree_self, FileSystem.link_disk]
            rwa [hnode] at hcontent
          · exact FileSystem.newFile_contentAt

/-- It places nothing when all its names are taken by other files. -/
theorem place_dedup_full {outcome : PlaceOutcome} {placed : Placed}
    (h : ∀ i < counterRange,
      (fs.createDirAll destDir).present (dedupCandidate platform destDir name i) = true ∧
        (fs.createDirAll destDir).sameFile src (dedupCandidate platform destDir name i) = false) :
    (placeDedupCopy platform fs src destDir name outcome).2 ≠ .ok placed := by
  intro hplaced
  obtain ⟨htarget, -⟩ := place_dedup_ok (Prod.ext rfl hplaced)
  unfold dedupTarget at htarget
  rw [first_free_none (fun i hi => by simp [h i hi])] at htarget
  cases htarget

/-- `finalize` places a file at a free place, if one of the names it tries is free. -/
theorem finalize_new (h : fs.Sound) (writer : PartWriter) (outcome : PartWriter.FinalizeOutcome)
    (hname : ∃ candidate ∈ conflictNames platform.style writer.manifest.fileName,
      (fs.createDirAll destDir).present (platform.join destDir candidate) = false) :
    PlacesNew fs (finalizeInto platform fs destDir writer outcome) := by
  have hfree : fs.present (finalPlace platform fs destDir writer.manifest.fileName) = false :=
    FileSystem.absent_before (resolve_free hname)
  have hkeeps : FileSystem.Keeps (fun place => fs.present place = true) fs
      (finalizeInto platform fs destDir writer outcome).1 := by
    refine finalize_into_keeps h ?_
    simp [hfree]
  refine ⟨undisturbed_of_keeps h hkeeps, fun placed hplaced => ?_, fun placed hplaced => ?_⟩
  · obtain ⟨-, -, -, -, -, hplace, -⟩ := finalize_into_ok (Prod.ext rfl hplaced)
    rw [hplace]
    exact hfree
  · have hresult : finalizeInto platform fs destDir writer outcome =
        ((finalizeInto platform fs destDir writer outcome).1, .ok placed) := Prod.ext rfl hplaced
    obtain ⟨file, after, -, -, -, hplace, hcontent, hstore, hnext⟩ := finalize_into_ok hresult
    rw [hnext, hcontent, ← hstore]
    unfold FileSystem.contentAt
    rw [FileSystem.link_tree_self]
    rfl

end Placing

/-- Nothing that is there is overwritten: `write_small_file` and `place_dedup_copy` place a file at a
free place or none at all, but that a copy that is asked for where its source is, is the source;
`finalize` places a file at a free place if one of the names it tries is free. -/
theorem placing_overwrites_nothing (platform : Platform) (fs : FileSystem) (h : fs.Sound)
    (destDir : Location) (name : String) :
    (∀ data outcome, PlacesNew fs (writeSmallFile platform fs destDir name data outcome) ∧
      ((∀ i < counterRange, fs.present (smallCandidate platform destDir name i) = true) →
        ∀ placed, (writeSmallFile platform fs destDir name data outcome).2 ≠ .ok placed)) ∧
    (∀ src outcome, (PlacesNew fs (placeDedupCopy platform fs src destDir name outcome) ∨
        ∃ placed, placeDedupCopy platform fs src destDir name outcome =
            (fs.createDirAll destDir, .ok placed) ∧
          placed.place = src ∧ fs.Undisturbed (fs.createDirAll destDir)) ∧
      ((∀ i < counterRange,
          (fs.createDirAll destDir).present (dedupCandidate platform destDir name i) = true ∧
          (fs.createDirAll destDir).sameFile src (dedupCandidate platform destDir name i) = false) →
        ∀ placed, (placeDedupCopy platform fs src destDir name outcome).2 ≠ .ok placed)) ∧
    ∀ writer outcome, writer.manifest.fileName = name →
      (∃ candidate ∈ conflictNames platform.style name,
        (fs.createDirAll destDir).present (platform.join destDir candidate) = false) →
      PlacesNew fs (finalizeInto platform fs destDir writer outcome) := by
  refine ⟨fun data outcome => ⟨write_small_new h data outcome, fun hfull placed => ?_⟩,
    fun src outcome => ⟨place_dedup_new h outcome, fun hfull placed => ?_⟩, ?_⟩
  · exact write_small_full hfull
  · exact place_dedup_full hfull
  · rintro writer outcome rfl hfree
    exact finalize_new h writer outcome hfree

/-- The files of `sampleDownloads` were given out. -/
theorem sample_downloads_given : sampleDownloads.Sound := by
  refine ⟨⟨fun job number hpart => ?_, fun job other number hpart => ?_⟩,
    fun place number hnode => ?_⟩
  · cases hpart
  · cases hpart
  have hnumber : number = 0 := by
    unfold sampleDownloads at hnode
    dsimp only at hnode
    split at hnode
    · cases hnode
      rfl
    split at hnode
    · cases hnode
    split at hnode
    · cases hnode
    · cases hnode
  subst hnumber
  refine ⟨Nat.zero_lt_one, fun job hpart => ?_⟩
  cases hpart

/-- A directory where all names are taken that `finalize` tries for `a.txt`, and a finished part. -/
def fullDownloads : FileSystem :=
  { disk :=
      { dirs := fun job => { manifest := .absent, part := if job = 5 then some 1 else none }
        store := fun number => if number = 0 then [97, 98, 99] else []
        nextFile := 2 }
    tree := fun place =>
      if place ∈ (conflictNames .unix "a.txt").map (unixPlatform.join sampleRoot) then some (.file 0)
      else if place ∈ FileSystem.wayTo sampleRoot then some .dir
      else none
    created := [] }

/-- The writer of an empty file `a.txt`. -/
def emptyWriter : PartWriter :=
  { dir := 5, file := 1, manifest := Manifest.fromMeta "a.txt" 0 [] }

theorem full_downloads_sound : fullDownloads.Sound := by
  have hpart : ∀ job number, (fullDownloads.disk.dirs job).part = some number →
      job = 5 ∧ number = 1 := by
    intro job number hpart
    unfold fullDownloads at hpart
    dsimp only at hpart
    split at hpart
    · next hjob =>
      cases hpart
      exact ⟨hjob, rfl⟩
    · cases hpart
  refine ⟨⟨fun job number h => ?_, fun job other number h hother => ?_⟩, fun place number hnode => ?_⟩
  · rw [(hpart job number h).2]
    exact Nat.one_lt_two
  · rw [(hpart job number h).1, (hpart other number hother).1]
  · have hnumber : number = 0 := by
      unfold fullDownloads at hnode
      dsimp only at hnode
      split at hnode
      · cases hnode
        rfl
      split at hnode
      · cases hnode
      · cases hnode
    subst hnumber
    refine ⟨Nat.zero_lt_two, fun job h => ?_⟩
    have hone := (hpart job 0 h).2
    omega

/-- A received file is placed beside `a.txt`. -/
theorem small_file_beside :
    sampleDownloads.Sound ∧
      PlacesNew sampleDownloads
        (writeSmallFile unixPlatform sampleDownloads sampleRoot "a.txt" [98] .done) ∧
      (writeSmallFile unixPlatform sampleDownloads sampleRoot "a.txt" [98] .done).2 =
        .ok { place := sampleRoot.child "a.txt (1)", content := [98] } :=
  ⟨sample_downloads_given,
    ((placing_overwrites_nothing unixPlatform sampleDownloads sample_downloads_given sampleRoot
      "a.txt").1 [98] .done).1, by decide⟩

/-- A copy of `a.txt` under its own name is `a.txt` itself; and where all names are taken, the file
under the hundredth is lost. -/
theorem placed_where_a_file_is :
    (¬ ∀ platform fs src destDir name outcome, fs.Sound →
      PlacesNew fs (placeDedupCopy platform fs src destDir name outcome)) ∧
    ¬ ∀ platform fs destDir writer outcome, fs.Sound →
      PlacesNew fs (finalizeInto platform fs destDir writer outcome) := by
  refine ⟨fun hall => ?_, fun hall => ?_⟩
  · have hnew := (hall unixPlatform sampleDownloads (sampleRoot.child "a.txt") sampleRoot "a.txt"
      copySmooth sample_downloads_given).fresh
      { place := sampleRoot.child "a.txt", content := [97, 98, 99] } (by decide)
    exact absurd hnew (by decide)
  · have hfull : ∀ candidate ∈ conflictNames .unix "a.txt",
        fullDownloads.present (unixPlatform.join sampleRoot candidate) = true := by
      intro candidate hmem
      unfold FileSystem.present fullDownloads
      dsimp only
      rw [if_pos (List.mem_map_of_mem hmem)]
      rfl
    have hplace : finalPlace unixPlatform fullDownloads sampleRoot "a.txt" =
        unixPlatform.join sampleRoot (numberedName .unix "a.txt" 100) := by
      unfold finalPlace finalName
      rw [resolve_full]
      · rfl
      · intro candidate hmem
        have hthere := hfull candidate hmem
        unfold FileSystem.present at hthere ⊢
        rwa [FileSystem.createDirAll_tree (by rwa [FileSystem.present])]
    have hnew := (hall unixPlatform fullDownloads sampleRoot emptyWriter finalizeDone
      full_downloads_sound).fresh
      { place := finalPlace unixPlatform fullDownloads sampleRoot "a.txt", content := [] } rfl
    rw [hplace, hfull _ (List.mem_cons_of_mem _ (List.mem_map.mpr ⟨99, by decide, rfl⟩))] at hnew
    cases hnew

end LocalTrans
