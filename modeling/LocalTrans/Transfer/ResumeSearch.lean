import LocalTrans.Transfer.Completion
import Mathlib.Data.Fintype.EquivFin

/-!
# Resuming from what a job directory has become

A crash, a cancelled transfer or the user can leave any combination of `manifest.json` and
`part.bin`, and each attempt for a file searches the job directories again. `resumes_well_iff` says
of every state of the directories what `load_or_open` makes of it: a bitmap that is backed by
`part.bin`, or an error that a later attempt can get past.
-/

namespace LocalTrans

open Foundation

/-- The chunks that are marked are in the file, with the hashes of the manifest. -/
def Manifest.Backed (hash : List UInt8 → String) (m : Manifest) (content : List UInt8) : Prop :=
  ∀ i expected, m.received[i]? = some true → m.chunkHashes[i]? = some expected →
    (m.chunkLen i ≠ 0 → m.chunkOffset i + m.chunkLen i ≤ content.length) ∧
      hash (m.chunk content i) = expected

/-- An attempt of `start_pull_parts` to get a part writer: an unfinished job directory for the same
file is searched, and taken up or opened. -/
def attempt (disk : Disk) (jobs : List Nat) (m : Manifest) (jobId : Nat)
    (first second : SaveOutcome) : Disk × Except EngineError PartWriter :=
  PartWriter.loadOrOpen disk (chooseJobDir disk jobs m jobId) m first second

/-- An attempt resumes well: a writer it gets has a bitmap that is backed by its file; and when it
fails, then whatever of the directories is listed later, there is an attempt under some job id
that does not. -/
structure ResumesWell (hash : List UInt8 → String) (disk : Disk) (jobs : List Nat) (m : Manifest)
    (jobId : Nat) : Prop where
  backed : ∀ first second next writer,
    attempt disk jobs m jobId first second = (next, .ok writer) →
    writer.manifest.Backed hash (next.store writer.file)
  later : ∀ first second next error,
    attempt disk jobs m jobId first second = (next, .error error) →
    ∀ listed, (∀ job ∈ listed, job ∈ jobs ∨ job = chooseJobDir disk jobs m jobId) →
      ∃ id last writer, attempt next listed m id .done .done = (last, .ok writer)

/-- What `load_or_open` needs of a job directory: if its manifest is taken up, `part.bin` has the
chunks that are marked, or is gone together with everything that was missing. -/
def Takeable (hash : List UInt8 → String) (disk : Disk) (job : Nat) (m : Manifest) : Prop :=
  ∀ existing, disk.load job = some existing → PartWriter.resumes existing m = true →
    match (disk.dirs job).part with
    | some file => existing.Backed hash (disk.store file)
    | none => existing.missingChunks = []

section Choice

variable {disk next : Disk} {jobs : List Nat} {m existing : Manifest} {job jobId : Nat}

/-- What the search is for: an unfinished job directory for the same file. -/
def Pending (disk : Disk) (m : Manifest) (job : Nat) : Prop :=
  ∃ existing, disk.load job = some existing ∧ existing.missingChunks ≠ [] ∧
    PartWriter.resumes existing m = true

/-- The test of the search. -/
def isPending (disk : Disk) (m : Manifest) (job : Nat) : Bool :=
  match disk.load job with
  | some existing => existing.missingChunks ≠ [] && PartWriter.resumes existing m
  | none => false

theorem is_pending_iff : isPending disk m job = true ↔ Pending disk m job := by
  unfold isPending Pending
  cases disk.load job with
  | none => simp
  | some existing => simp

/-- The search ends with the first such directory, whatever the new job id is, or with none. -/
theorem choose_cases (disk : Disk) (jobs : List Nat) (m : Manifest) :
    (∃ job, job ∈ jobs ∧ Pending disk m job ∧ ∀ jobId, chooseJobDir disk jobs m jobId = job) ∨
      (∀ job ∈ jobs, ¬ Pending disk m job) ∧ ∀ jobId, chooseJobDir disk jobs m jobId = jobId := by
  show (∃ job, job ∈ jobs ∧ Pending disk m job ∧
    ∀ jobId, (jobs.find? (isPending disk m)).getD jobId = job) ∨
    (∀ job ∈ jobs, ¬ Pending disk m job) ∧ ∀ jobId, (jobs.find? (isPending disk m)).getD jobId = jobId
  cases hfind : jobs.find? (isPending disk m) with
  | some job =>
    refine .inl ⟨job, List.mem_of_find?_eq_some hfind, ?_, fun jobId => rfl⟩
    exact is_pending_iff.mp (List.find?_some hfind)
  | none =>
    refine .inr ⟨fun job hmem hpending => ?_, fun jobId => rfl⟩
    exact List.find?_eq_none.mp hfind job hmem (is_pending_iff.mpr hpending)

/-- The chosen directory is pending, or it is that of the new job and nothing is pending. -/
theorem choose_spec (disk : Disk) (jobs : List Nat) (m : Manifest) (jobId : Nat) :
    Pending disk m (chooseJobDir disk jobs m jobId) ∨
      (∀ job ∈ jobs, ¬ Pending disk m job) ∧ chooseJobDir disk jobs m jobId = jobId := by
  rcases choose_cases disk jobs m with ⟨job, -, hpending, hchoose⟩ | ⟨hnone, hchoose⟩
  · rw [hchoose]
    exact .inl hpending
  · exact .inr ⟨hnone, hchoose jobId⟩

/-- A list leaves out some job id. -/
theorem exists_unlisted (jobs : List Nat) : ∃ id, id ∉ jobs := by
  obtain ⟨id, hid⟩ := Infinite.exists_notMem_finset jobs.toFinset
  exact ⟨id, fun hmem => hid (List.mem_toFinset.mpr hmem)⟩

end Choice

section Opening

variable {hash : List UInt8 → String} {disk next : Disk} {jobs listed : List Nat}
  {m existing : Manifest} {job jobId : Nat} {first second : SaveOutcome} {writer : PartWriter}
  {error : EngineError}

/-- A job directory that is opened anew without a failure gives a writer. -/
theorem open_smooth (disk : Disk) (job : Nat) (m : Manifest) (second : SaveOutcome) :
    ∃ last writer, PartWriter.open disk job m .done second = (last, .ok writer) := by
  unfold PartWriter.open
  dsimp only
  rw [if_pos rfl]
  exact ⟨_, _, rfl⟩

/-- Without a failure, only a `part.bin` that is gone stops `load_or_open`. -/
theorem load_smooth
    (h : ∀ existing, disk.load job = some existing → PartWriter.resumes existing m = true →
      (disk.dirs job).part ≠ none) :
    ∃ last writer, PartWriter.loadOrOpen disk job m .done .done = (last, .ok writer) := by
  unfold PartWriter.loadOrOpen
  cases hload : disk.load job with
  | none => exact open_smooth disk job m .done
  | some existing =>
    dsimp only
    split
    · next hresumes =>
      split
      · exact ⟨_, _, rfl⟩
      · next hgone => exact absurd hgone (h existing hload hresumes)
    · exact open_smooth disk job m .done

/-- A `part.bin` that is gone stops it, and everything stays as it is. -/
theorem load_stuck (hload : disk.load job = some existing)
    (hresumes : PartWriter.resumes existing m = true) (hgone : (disk.dirs job).part = none) :
    PartWriter.loadOrOpen disk job m first second = (disk, .error (.io "part.bin")) := by
  unfold PartWriter.loadOrOpen
  rw [hload]
  dsimp only
  rw [if_pos hresumes, hgone]

/-- Why `load_or_open` fails: `part.bin` is gone, or opening the directory anew failed. -/
theorem load_error (h : PartWriter.loadOrOpen disk job m first second = (next, .error error)) :
    (∃ existing, disk.load job = some existing ∧ PartWriter.resumes existing m = true ∧
        (disk.dirs job).part = none ∧ next = disk) ∨
      (∀ existing, disk.load job = some existing → ¬ PartWriter.resumes existing m = true) ∧
        PartWriter.open disk job m first second = (next, .error error) := by
  unfold PartWriter.loadOrOpen at h
  split at h
  · next existing hload =>
    split at h
    · next hresumes =>
      split at h
      · cases h
      · next hgone =>
        cases h
        exact .inl ⟨existing, hload, hresumes, hgone, rfl⟩
    · next hother =>
      refine .inr ⟨fun found hfound => ?_, h⟩
      rw [hload] at hfound
      cases hfound
      exact hother
  · next hload =>
    refine .inr ⟨fun found hfound => ?_, h⟩
    rw [hload] at hfound
    cases hfound

/-- Opening a directory anew leaves a `part.bin` there, and the other directories alone. -/
theorem open_leaves (h : PartWriter.open disk job m first second = (next, .error error)) :
    (next.dirs job).part ≠ none ∧ ∀ other, other ≠ job → next.load other = disk.load other := by
  have hnext : next = ((PartsInv.openSaves disk job m first second).createPart job).1 := by
    rw [← PartsInv.open_disk, h]
  subst hnext
  refine ⟨?_, fun other hother => ?_⟩
  · rw [Disk.createPart_part]
    simp
  · have hsaves : (PartsInv.openSaves disk job m first second).dirs other = disk.dirs other := by
      unfold PartsInv.openSaves
      split
      · exact Disk.save_dirs_other _ hother
      · rw [Disk.save_dirs_other _ hother, Disk.save_dirs_other _ hother]
    have hcreated : ∀ before : Disk,
        ((before.createPart job).1.dirs other) = before.dirs other := by
      intro before
      unfold Disk.createPart
      split
      · rfl
      · exact Function.update_of_ne hother ..
    unfold Disk.load
    rw [hcreated, hsaves]

/-- Whether a directory is pending depends on its manifest. -/
theorem pending_congr (h : next.load job = disk.load job) :
    Pending next m job ↔ Pending disk m job := by
  unfold Pending
  rw [h]

/-- A bitmap that claims nothing is backed. -/
theorem backed_of_fresh {content : List UInt8} (h : ∀ bit ∈ m.received, bit = false) :
    m.Backed hash content := by
  intro i expected hbit _
  have hfalse := h true (List.mem_of_getElem? hbit)
  cases hfalse

/-- What a writer works with is backed, exactly if what is taken up is. -/
theorem attempt_backed (h : ∀ bit ∈ m.received, bit = false) (htake : Takeable hash disk job m)
    (hopen : PartWriter.loadOrOpen disk job m first second = (next, .ok writer)) :
    writer.manifest.Backed hash (next.store writer.file) := by
  have hopened := opened_of_load hopen
  rw [hopened.manifest, hopened.content]
  cases hload : disk.load job with
  | none =>
    rw [taken_up_none hload]
    exact backed_of_fresh h
  | some existing =>
    by_cases hresumes : PartWriter.resumes existing m = true
    · rw [taken_up_existing hload hresumes]
      have htaken := htake existing hload hresumes
      cases hpart : (disk.dirs job).part with
      | some file =>
        rw [hpart] at htaken
        simpa [Disk.partContent, hpart] using htaken
      | none =>
        rw [load_stuck hload hresumes hpart] at hopen
        cases hopen
    · rw [taken_up_other hload hresumes]
      exact backed_of_fresh h

/-- After an attempt that failed, another gets through. -/
theorem attempt_later (hlisting : ∀ job, (disk.dirs job).manifest ≠ .absent → job ∈ jobs)
    (htake : Takeable hash disk (chooseJobDir disk jobs m jobId) m)
    (hfail : attempt disk jobs m jobId first second = (next, .error error))
    (hlisted : ∀ job ∈ listed, job ∈ jobs ∨ job = chooseJobDir disk jobs m jobId) :
    ∃ id last writer, attempt next listed m id .done .done = (last, .ok writer) := by
  rcases load_error hfail with ⟨existing, hload, hresumes, hgone, rfl⟩ | ⟨hother, hopen⟩
  · -- the directory of the new job is complete but for the file: another job id will do
    have hcomplete : existing.missingChunks = [] := by
      have htaken := htake existing hload hresumes
      rwa [hgone] at htaken
    have hnotpending : ¬ Pending next m (chooseJobDir next jobs m jobId) := by
      rintro ⟨found, hfound, hmissing, -⟩
      rw [hload] at hfound
      cases hfound
      exact hmissing hcomplete
    obtain ⟨hnone, -⟩ := (choose_spec next jobs m jobId).resolve_left hnotpending
    obtain ⟨id, hid⟩ := exists_unlisted jobs
    have habsent : next.load id = none := by
      have hmanifest : (next.dirs id).manifest = .absent := by
        by_contra hthere
        exact hid (hlisting id hthere)
      unfold Disk.load
      rw [hmanifest]
    refine ⟨id, ?_⟩
    have hchoose : chooseJobDir next listed m id = id := by
      rcases choose_cases next listed m with ⟨job, hmem, hpending, -⟩ | ⟨-, hchoose⟩
      · rcases hlisted job hmem with hjob | rfl
        · exact absurd hpending (hnone job hjob)
        · exact absurd hpending hnotpending
      · exact hchoose id
    unfold attempt
    rw [hchoose]
    refine load_smooth fun found hfound => ?_
    rw [habsent] at hfound
    cases hfound
  · -- the directory was opened anew, so there is a file in it now
    obtain ⟨hpart, hothers⟩ := open_leaves hopen
    refine ⟨chooseJobDir disk jobs m jobId, ?_⟩
    have hchoose : chooseJobDir next listed m (chooseJobDir disk jobs m jobId) =
        chooseJobDir disk jobs m jobId := by
      rcases choose_cases next listed m with ⟨job, hmem, hpending, hchoose⟩ | ⟨-, hchoose⟩
      · by_cases hsame : job = chooseJobDir disk jobs m jobId
        · rw [hchoose, hsame]
        · -- another pending directory would have been chosen before
          have hbefore : Pending disk m job := (pending_congr (hothers job hsame)).mp hpending
          rcases choose_spec disk jobs m jobId with ⟨found, hfound, -, hresumes⟩ | ⟨hnone, -⟩
          · exact absurd hresumes (hother found hfound)
          · exact absurd hbefore (hnone job ((hlisted job hmem).resolve_right hsame))
      · exact hchoose _
    unfold attempt
    rw [hchoose]
    exact load_smooth fun _ _ _ => hpart

/-- A pending directory without its `part.bin` is chosen under every job id, and stops every
attempt. -/
theorem attempt_stuck (hmem : job ∈ jobs) (hpending : Pending disk m job)
    (hchoose : chooseJobDir disk jobs m jobId = job) (hgone : (disk.dirs job).part = none) (id : Nat)
    (first second : SaveOutcome) :
    attempt disk jobs m id first second = (disk, .error (.io "part.bin")) := by
  have hsame : chooseJobDir disk jobs m id = job := by
    rcases choose_cases disk jobs m with ⟨found, -, -, hall⟩ | ⟨hnone, -⟩
    · rw [hall, ← hchoose, hall]
    · exact absurd hpending (hnone job hmem)
  obtain ⟨existing, hload, -, hresumes⟩ := hpending
  unfold attempt
  rw [hsame]
  exact load_stuck hload hresumes hgone

end Opening

/-- For every state of the job directories and every new file: `load_or_open` resumes well if and
only if the directory that the search chooses has no manifest that is taken up, or has a `part.bin`
with all chunks that are marked, or lost its `part.bin` when nothing was missing. -/
theorem resumes_well_iff (hash : List UInt8 → String) (disk : Disk) (jobs : List Nat)
    (hlisting : ∀ job, (disk.dirs job).manifest ≠ .absent → job ∈ jobs) (fileName : String)
    (totalSize : Nat) (chunkHashes : List String) (peer shareId rel : Option String) (jobId : Nat) :
    ResumesWell hash disk jobs
        (Manifest.fromMetaWithSource fileName totalSize chunkHashes peer shareId rel) jobId ↔
      Takeable hash disk
        (chooseJobDir disk jobs
          (Manifest.fromMetaWithSource fileName totalSize chunkHashes peer shareId rel) jobId)
        (Manifest.fromMetaWithSource fileName totalSize chunkHashes peer shareId rel) := by
  have hfresh : ∀ bit ∈ (Manifest.fromMetaWithSource fileName totalSize chunkHashes peer shareId
      rel).received, bit = false := fun bit hmem => List.eq_of_mem_replicate hmem
  generalize Manifest.fromMetaWithSource fileName totalSize chunkHashes peer shareId rel = m at *
  constructor
  · intro h existing hload hresumes
    cases hpart : (disk.dirs (chooseJobDir disk jobs m jobId)).part with
    | some file =>
      have hopen : attempt disk jobs m jobId .done .done =
          (disk, .ok ⟨chooseJobDir disk jobs m jobId, file, existing⟩) := by
        unfold attempt PartWriter.loadOrOpen
        rw [hload]
        dsimp only
        rw [if_pos hresumes, hpart]
      exact h.backed _ _ _ _ hopen
    | none =>
      dsimp only
      by_contra hmissing
      have hmem : chooseJobDir disk jobs m jobId ∈ jobs := by
        refine hlisting _ fun habsent => ?_
        unfold Disk.load at hload
        rw [habsent] at hload
        cases hload
      have hpending : Pending disk m (chooseJobDir disk jobs m jobId) :=
        ⟨existing, hload, hmissing, hresumes⟩
      have hstuck := attempt_stuck hmem hpending rfl hpart
      obtain ⟨id, last, writer, hok⟩ :=
        h.later .done .done disk _ (hstuck jobId .done .done) jobs fun job hjob => .inl hjob
      rw [hstuck] at hok
      cases hok
  · intro h
    refine ⟨fun first second next writer hopen => ?_, fun first second next error hfail listed => ?_⟩
    · exact attempt_backed hfresh h hopen
    · exact attempt_later hlisting h hfail

/-- Job directory 5 with the manifest of a file of three bytes, and no `part.bin`. -/
def partGone (received : List Bool) : Disk :=
  { Disk.empty with
    dirs := fun job =>
      if job = 5 then
        { manifest := .saved { Manifest.fromMeta "a" 3 ["abc"] with received }, part := none }
      else { manifest := .absent, part := none } }

theorem part_gone_listed (received : List Bool) (job : Nat)
    (h : ((partGone received).dirs job).manifest ≠ .absent) : job ∈ [5] := by
  by_contra hother
  refine h ?_
  unfold partGone
  dsimp only
  rw [if_neg (fun hjob => hother (List.mem_singleton.mpr hjob))]

/-- Where the manifest says that everything was received, a new attempt is made elsewhere. -/
theorem complete_part_gone :
    ResumesWell shortHash (partGone [true]) [5] (Manifest.fromMeta "a" 3 ["abc"]) 6 := by
  refine (resumes_well_iff shortHash (partGone [true]) [5] (part_gone_listed [true]) "a" 3 ["abc"]
    none none none 6).mpr ?_
  intro existing hload
  have hchoose : chooseJobDir (partGone [true]) [5] (Manifest.fromMetaWithSource "a" 3 ["abc"]
      none none none) 6 = 6 := by decide
  have hnone : (partGone [true]).load 6 = none := by decide
  rw [hchoose, hnone] at hload
  cases hload

/-- A directory whose `part.bin` was removed is chosen again and again, and every attempt fails. -/
theorem part_gone_blocks :
    (∀ id first second, attempt (partGone [false]) [5] (Manifest.fromMeta "a" 3 ["abc"]) id first
      second = (partGone [false], .error (.io "part.bin"))) ∧
    ¬ ∀ (hash : List UInt8 → String) (disk : Disk) (jobs : List Nat) (fileName : String)
      (totalSize : Nat) (chunkHashes : List String) (jobId : Nat),
      (∀ job, (disk.dirs job).manifest ≠ .absent → job ∈ jobs) →
      ResumesWell hash disk jobs (Manifest.fromMeta fileName totalSize chunkHashes) jobId := by
  have hpending : Pending (partGone [false]) (Manifest.fromMeta "a" 3 ["abc"]) 5 :=
    is_pending_iff.mp (by decide)
  have hstuck : ∀ id first second, attempt (partGone [false]) [5]
      (Manifest.fromMeta "a" 3 ["abc"]) id first second =
        (partGone [false], .error (.io "part.bin")) :=
    attempt_stuck (List.mem_singleton_self 5) hpending
      (show chooseJobDir (partGone [false]) [5] (Manifest.fromMeta "a" 3 ["abc"]) 6 = 5 by decide)
      (by decide)
  refine ⟨hstuck, fun hall => ?_⟩
  obtain ⟨id, last, writer, hok⟩ := (hall shortHash (partGone [false]) [5] "a" 3 ["abc"] 6
    (part_gone_listed [false])).later .done .done _ _ (hstuck 6 .done .done) [5]
    fun job hjob => .inl hjob
  rw [hstuck] at hok
  cases hok

end LocalTrans
