import LocalTrans.Transfer.Soundness

/-!
# Receive tasks that share the inbox index

Every receive task loads the index, records files in its copy and saves the copy. `IndexTasks` lets
any number of tasks take these steps in any order, while files come and go. Nothing keeps a task
from saving a copy that has become old; `indexGuard` says when it does not. `Section` ties the
operations of the engine to such steps.
-/

namespace LocalTrans

open Foundation

/-- A copy of the index between loading and saving, and what its task has recorded in it. -/
structure IndexCopy where
  index : InboxIndex
  records : List (String × IndexEntry)

/-- The file system, and the copies that the tasks hold. -/
structure IndexTasks where
  fs : FileSystem
  copies : Nat → Option IndexCopy

/-- A task loads the index, with or without dropping the entries of missing files, records a file,
saves its copy or gives it up; or anything else happens to the file system. -/
inductive IndexInput where
  | load (task : Nat) (prune : Bool)
  | record (task : Nat) (hash : String) (place : Location) (size : Nat)
  | save (task : Nat) (saved : Bool)
  | abandon (task : Nat)
  | change (next : FileSystem)

/-- What has happened: a record counts if its file is there. -/
inductive IndexEvent where
  | loaded (task : Nat)
  | recorded (hash : String) (entry : IndexEntry)
  | saved (task : Nat)
  | changed (next : FileSystem)

section Machine

variable (format : IndexFormat) (root : Location)

namespace IndexTasks

/-- Before the first task. -/
def start (fs : FileSystem) : IndexTasks :=
  { fs, copies := fun _ => none }

/-- One step of a task or of the file system. -/
def step : Machine IndexTasks IndexInput IndexEvent
  | state, .load task prune =>
    match state.copies task with
    | some _ => none
    | none =>
      let loaded := loadIndex format state.fs root
      let index := if prune then loaded.pruneMissing state.fs.present else loaded
      some ({ state with copies := Function.update state.copies task (some { index, records := [] }) },
        [.loaded task])
  | state, .record task hash place size =>
    match state.copies task with
    | none => none
    | some copy =>
      let entry : IndexEntry := { path := place, size }
      let copy : IndexCopy :=
        { index := copy.index.insert hash place size, records := (hash, entry) :: copy.records }
      some ({ state with copies := Function.update state.copies task (some copy) },
        if state.fs.present place then [.recorded hash entry] else [])
  | state, .save task saved =>
    match state.copies task with
    | none => none
    | some copy =>
      some ({ fs := saveIndex format state.fs root copy.index saved,
              copies := Function.update state.copies task none }, [.saved task])
  | state, .abandon task =>
    -- A task that fails before it saves has recorded nothing.
    match state.copies task with
    | some { index := _, records := [] } =>
      some ({ state with copies := Function.update state.copies task none }, [])
    | _ => none
  | state, .change next => some ({ state with fs := next }, [.changed next])

end IndexTasks

/-- What becomes of the recorded files that still exist. -/
def existingAfter (existing : List (String × IndexEntry)) : IndexEvent → List (String × IndexEntry)
  | .recorded hash entry => (hash, entry) :: existing
  | .changed next => existing.filter fun found => next.present found.2.path
  | _ => existing

/-- The recorded files that still exist after a history, with those there were before it. -/
def existing (before : List (String × IndexEntry)) (trace : List IndexEvent) :
    List (String × IndexEntry) :=
  trace.foldl existingAfter before

/-- The entries of the index whose files exist. -/
def existingEntries (fs : FileSystem) : List (String × IndexEntry) :=
  (loadIndex format fs root).pruneMissing fs.present

/-- Whether a task may take its copy for the latest, after one more event. -/
def upToDateAfter (task : Nat) (current : Bool) : IndexEvent → Bool
  | .loaded other => current || other == task
  | .saved _ => false
  | _ => current

/-- A task has loaded the index since it was last saved. -/
def upToDate (task : Nat) (trace : List IndexEvent) : Bool :=
  trace.foldl (upToDateAfter task) false

/-- The condition on one step: what is saved was loaded after the last save of any task, and saving
succeeds; a hash is not recorded again while the file recorded under it exists; and nothing but
saving changes the index. -/
def indexGuard (before : List (String × IndexEntry)) : Guard IndexTasks IndexInput IndexEvent :=
  fun trace state input =>
    match input with
    | .save task saved => saved = true ∧ upToDate task trace = true
    | .record _ hash place size =>
      ∀ found ∈ existing before trace, found.1 = hash → found.2 = { path := place, size }
    | .change next => loadIndex format next root = loadIndex format state.fs root
    | _ => True

instance (before : List (String × IndexEntry)) (trace : List IndexEvent) (state : IndexTasks)
    (input : IndexInput) : Decidable (indexGuard format root before trace state input) := by
  unfold indexGuard
  split <;> infer_instance

end Machine

variable {index : InboxIndex} {place : Location} {size : Nat} {saved : Bool}

section Invariant

variable {format : IndexFormat} {root : Location} {before : List (String × IndexEntry)}
  {trace emitted : List IndexEvent} {state next : IndexTasks} {task : Nat} {copy : IndexCopy}
  {found : String × IndexEntry}

/-- A recorded file is in the copy of the task that has recorded it. -/
def IndexTasks.Pending (state : IndexTasks) (found : String × IndexEntry) : Prop :=
  ∃ task copy, state.copies task = some copy ∧ found ∈ copy.records ∧ found ∈ copy.index

/-- Every recorded file that exists is in the index or will be: an up-to-date copy has what no
other task is still to save. -/
structure IndexTasks.Kept (format : IndexFormat) (root : Location)
    (before : List (String × IndexEntry)) (trace : List IndexEvent) (state : IndexTasks) : Prop where
  present : ∀ found ∈ existing before trace, state.fs.present found.2.path = true
  safe : ∀ found ∈ existing before trace,
    found ∈ loadIndex format state.fs root ∨ state.Pending found
  fresh : ∀ task copy, state.copies task = some copy → upToDate task trace = true →
    ∀ found ∈ existing before trace, found ∈ copy.index ∨ state.Pending found

@[simp] theorem existing_append :
    existing before (trace ++ emitted) = existing (existing before trace) emitted := by
  simp [existing]

@[simp] theorem up_to_date_append (task : Nat) :
    upToDate task (trace ++ emitted) = emitted.foldl (upToDateAfter task) (upToDate task trace) := by
  simp [upToDate]

/-- What is recorded under another hash, or is recorded again, stays in the copy. -/
theorem mem_insert_of_mem {hash : String} (h : found ∈ index)
    (hsame : found.1 = hash → found.2 = { path := place, size }) :
    found ∈ index.insert hash place size := by
  obtain ⟨name, entry⟩ := found
  by_cases hname : name = hash
  · have hentry : entry = { path := place, size } := hsame hname
    rw [hentry, hname]
    exact List.mem_cons_self ..
  · refine List.mem_cons_of_mem _ (List.mem_filter.mpr ⟨h, ?_⟩)
    simpa using hname

/-- A task loads the index. -/
theorem kept_load {prune : Bool} (h : state.Kept format root before trace)
    (hstep : IndexTasks.step format root state (.load task prune) = some (next, emitted)) :
    next.Kept format root before (trace ++ emitted) := by
  unfold IndexTasks.step at hstep
  dsimp only at hstep
  split at hstep
  · cases hstep
  · next hnone =>
    cases hstep
    -- The copies of the other tasks, and so what they are still to save, are the same.
    have hpending : ∀ found, state.Pending found → IndexTasks.Pending { state with
        copies := Function.update state.copies task (some ⟨if prune = true then
          (loadIndex format state.fs root).pruneMissing state.fs.present else
          loadIndex format state.fs root, []⟩) } found := by
      intro found hpending
      obtain ⟨other, copy, hcopy, hmem⟩ := hpending
      refine ⟨other, copy, ?_, hmem⟩
      have hne : other ≠ task := by
        intro hsame
        rw [hsame, hnone] at hcopy
        cases hcopy
      show Function.update state.copies task _ other = some copy
      rw [Function.update_of_ne hne, hcopy]
    refine ⟨?_, ?_, ?_⟩
    · intro found hfound
      rw [existing_append] at hfound
      exact h.present found hfound
    · intro found hfound
      rw [existing_append] at hfound
      rcases h.safe found hfound with hindex | hwait
      · exact .inl hindex
      · exact .inr (hpending found hwait)
    · intro other copy hcopy hcurrent found hfound
      rw [existing_append] at hfound
      have hfound : found ∈ existing before trace := hfound
      have hcopy : Function.update state.copies task _ other = some copy := hcopy
      by_cases hsame : other = task
      · subst hsame
        rw [Function.update_self] at hcopy
        cases hcopy
        rcases h.safe found hfound with hindex | hwait
        · refine .inl ?_
          dsimp only
          split
          · exact List.mem_filter.mpr ⟨hindex, h.present found hfound⟩
          · exact hindex
        · exact .inr (hpending found hwait)
      · rw [Function.update_of_ne hsame] at hcopy
        have hbefore : upToDate other trace = true := by
          rw [up_to_date_append] at hcurrent
          have hcurrent : (upToDate other trace || task == other) = true := hcurrent
          rw [Bool.or_eq_true] at hcurrent
          rcases hcurrent with hbefore | hloaded
          · exact hbefore
          · exact absurd (beq_iff_eq.mp hloaded).symm hsame
        rcases h.fresh other copy hcopy hbefore found hfound with hmem | hwait
        · exact .inl hmem
        · exact .inr (hpending found hwait)

/-- A task records a file. -/
theorem kept_record {hash : String} (h : state.Kept format root before trace)
    (hguard : indexGuard format root before trace state (.record task hash place size))
    (hstep : IndexTasks.step format root state (.record task hash place size) =
      some (next, emitted)) : next.Kept format root before (trace ++ emitted) := by
  unfold IndexTasks.step at hstep
  dsimp only at hstep
  split at hstep
  · cases hstep
  · next copy hcopy =>
    cases hstep
    have hcurrent : ∀ other, upToDate other (trace ++ if state.fs.present place then
        [IndexEvent.recorded hash { path := place, size }] else []) = upToDate other trace := by
      intro other
      rw [up_to_date_append]
      split <;> rfl
    -- What exists now existed before, or is the file that is recorded, which is there.
    have hexisting : ∀ found ∈ existing before (trace ++ if state.fs.present place then
        [IndexEvent.recorded hash { path := place, size }] else []),
        found = (hash, { path := place, size }) ∧ state.fs.present place = true ∨
          found ∈ existing before trace := by
      intro found hfound
      rw [existing_append] at hfound
      split at hfound
      · next hpresent =>
        rcases List.mem_cons.mp hfound with hnew | hold
        · exact .inl ⟨hnew, hpresent⟩
        · exact .inr hold
      · exact .inr hfound
    have hself : ∀ fs, IndexTasks.Pending { fs, copies := Function.update state.copies task (some
        ⟨copy.index.insert hash place size, (hash, { path := place, size }) :: copy.records⟩) }
        (hash, { path := place, size }) := fun fs =>
      ⟨task, _, Function.update_self .., List.mem_cons_self .., List.mem_cons_self ..⟩
    have hpending : ∀ found ∈ existing before trace, state.Pending found →
        IndexTasks.Pending { state with copies := Function.update state.copies task (some
          ⟨copy.index.insert hash place size, (hash, { path := place, size }) :: copy.records⟩) }
          found := by
      intro found hfound hwait
      obtain ⟨other, waiting, hwaiting, hrecords, hindex⟩ := hwait
      by_cases hsame : other = task
      · subst hsame
        rw [hcopy] at hwaiting
        cases hwaiting
        exact ⟨other, _, Function.update_self .., List.mem_cons_of_mem _ hrecords,
          mem_insert_of_mem hindex (hguard found hfound)⟩
      · refine ⟨other, waiting, ?_, hrecords, hindex⟩
        show Function.update state.copies task _ other = some waiting
        rw [Function.update_of_ne hsame, hwaiting]
    refine ⟨?_, ?_, ?_⟩
    · intro found hfound
      rcases hexisting found hfound with ⟨rfl, hpresent⟩ | hold
      · exact hpresent
      · exact h.present found hold
    · intro found hfound
      rcases hexisting found hfound with ⟨rfl, -⟩ | hold
      · exact .inr (hself _)
      · rcases h.safe found hold with hindex | hwait
        · exact .inl hindex
        · exact .inr (hpending found hold hwait)
    · intro other changed hchanged hupToDate found hfound
      rw [hcurrent] at hupToDate
      rcases hexisting found hfound with ⟨rfl, -⟩ | hold
      · exact .inr (hself _)
      have hchanged : Function.update state.copies task _ other = some changed := hchanged
      by_cases hsame : other = task
      · subst hsame
        rw [Function.update_self] at hchanged
        cases hchanged
        rcases h.fresh other copy hcopy hupToDate found hold with hmem | hwait
        · exact .inl (mem_insert_of_mem hmem (hguard found hold))
        · exact .inr (hpending found hold hwait)
      · rw [Function.update_of_ne hsame] at hchanged
        rcases h.fresh other changed hchanged hupToDate found hold with hmem | hwait
        · exact .inl hmem
        · exact .inr (hpending found hold hwait)

/-- A task saves an up-to-date copy: it has everything but what other tasks are still to save. -/
theorem kept_save (h : state.Kept format root before trace)
    (hguard : indexGuard format root before trace state (.save task saved))
    (hstep : IndexTasks.step format root state (.save task saved) = some (next, emitted)) :
    next.Kept format root before (trace ++ emitted) := by
  unfold IndexTasks.step at hstep
  dsimp only at hstep
  split at hstep
  · cases hstep
  · next copy hcopy =>
    cases hstep
    obtain ⟨rfl, hcurrent⟩ := hguard
    refine ⟨?_, ?_, ?_⟩
    · intro found hfound
      rw [existing_append] at hfound
      have hpresent := h.present found hfound
      unfold FileSystem.present at hpresent ⊢
      show (Function.update state.fs.tree _ _ _).isSome = true
      by_cases hplace : found.2.path = root.child indexName
      · rw [hplace, Function.update_self]
        rfl
      · rw [Function.update_of_ne hplace]
        exact hpresent
    · intro found hfound
      rw [existing_append] at hfound
      have hload : loadIndex format (saveIndex format state.fs root copy.index true) root =
          copy.index := load_save_index true
      rcases h.fresh task copy hcopy hcurrent found hfound with hmem | hwait
      · refine .inl ?_
        show found ∈ loadIndex format (saveIndex format state.fs root copy.index true) root
        rw [hload]
        exact hmem
      · obtain ⟨other, waiting, hwaiting, hrecords, hindex⟩ := hwait
        by_cases hsame : other = task
        · subst hsame
          rw [hcopy] at hwaiting
          cases hwaiting
          refine .inl ?_
          show found ∈ loadIndex format (saveIndex format state.fs root copy.index true) root
          rw [hload]
          exact hindex
        · refine .inr ⟨other, waiting, ?_, hrecords, hindex⟩
          show Function.update state.copies task none other = some waiting
          rw [Function.update_of_ne hsame, hwaiting]
    · intro other changed _ hupToDate
      -- After a save no copy is up to date.
      rw [up_to_date_append] at hupToDate
      cases hupToDate

/-- A task gives up a copy in which it has recorded nothing. -/
theorem kept_abandon (h : state.Kept format root before trace)
    (hstep : IndexTasks.step format root state (.abandon task) = some (next, emitted)) :
    next.Kept format root before (trace ++ emitted) := by
  unfold IndexTasks.step at hstep
  dsimp only at hstep
  split at hstep
  · next index hcopy =>
    cases hstep
    rw [List.append_nil]
    have hpending : ∀ found, state.Pending found → IndexTasks.Pending { state with
        copies := Function.update state.copies task none } found := by
      intro found hwait
      obtain ⟨other, waiting, hwaiting, hrecords, hindex⟩ := hwait
      have hne : other ≠ task := by
        intro hsame
        rw [hsame, hcopy] at hwaiting
        cases hwaiting
        cases hrecords
      refine ⟨other, waiting, ?_, hrecords, hindex⟩
      show Function.update state.copies task none other = some waiting
      rw [Function.update_of_ne hne, hwaiting]
    refine ⟨h.present, ?_, ?_⟩
    · intro found hfound
      rcases h.safe found hfound with hindex | hwait
      · exact .inl hindex
      · exact .inr (hpending found hwait)
    · intro other changed hchanged hupToDate found hfound
      have hchanged : Function.update state.copies task none other = some changed := hchanged
      have hne : other ≠ task := by
        intro hsame
        rw [hsame, Function.update_self] at hchanged
        cases hchanged
      rw [Function.update_of_ne hne] at hchanged
      rcases h.fresh other changed hchanged hupToDate found hfound with hmem | hwait
      · exact .inl hmem
      · exact .inr (hpending found hwait)
  · cases hstep

/-- Files come and go, and the index stays. -/
theorem kept_change {after : FileSystem} (h : state.Kept format root before trace)
    (hguard : indexGuard format root before trace state (.change after)) :
    IndexTasks.Kept format root before (trace ++ [.changed after]) { state with fs := after } := by
  have hexisting : ∀ found ∈ existing before (trace ++ [.changed after]),
      found ∈ existing before trace ∧ after.present found.2.path = true := by
    intro found hfound
    rw [existing_append] at hfound
    exact List.mem_filter.mp hfound
  refine ⟨?_, ?_, ?_⟩
  · intro found hfound
    exact (hexisting found hfound).2
  · intro found hfound
    rcases h.safe found (hexisting found hfound).1 with hindex | hwait
    · refine .inl ?_
      show found ∈ loadIndex format after root
      rw [show loadIndex format after root = loadIndex format state.fs root from hguard]
      exact hindex
    · exact .inr hwait
  · intro other changed hchanged hupToDate found hfound
    rw [up_to_date_append] at hupToDate
    exact h.fresh other changed hchanged hupToDate found (hexisting found hfound).1

/-- One step. -/
theorem step_kept {input : IndexInput} (h : state.Kept format root before trace)
    (hguard : indexGuard format root before trace state input)
    (hstep : IndexTasks.step format root state input = some (next, emitted)) :
    next.Kept format root before (trace ++ emitted) := by
  cases input with
  | load task prune => exact kept_load h hstep
  | record task hash place size => exact kept_record h hguard hstep
  | save task saved => exact kept_save h hguard hstep
  | abandon task => exact kept_abandon h hstep
  | change after =>
    cases hstep
    exact kept_change h hguard

end Invariant

variable {copies : Nat → Option IndexCopy}

section Sections

variable {hash : List UInt8 → String} {format : IndexFormat} {platform : Platform} {root : Location}
  {fs next : FileSystem} {placed : Placed}

/-- What a task does to the index for one file: the file system changes, the index is loaded, the
file system may change again, the file is recorded, and the copy is saved. -/
def indexSection (task : Nat) (first second : FileSystem) (prune : Bool) (hash : String)
    (place : Location) (size : Nat) (saved : Bool) : List IndexInput :=
  [.change first, .load task prune, .change second, .record task hash place size, .save task saved]

/-- A section that no other task comes between. -/
theorem index_section_exec {first second : FileSystem} {found : String} (task : Nat) (prune : Bool)
    (h : next = saveIndex format second root
      ((if prune then (loadIndex format first root).pruneMissing first.present
        else loadIndex format first root).insert found place size) saved) :
    ∃ trace, Exec (IndexTasks.step format root) Guard.free (IndexTasks.start fs)
      (indexSection task first second prune found place size saved) trace (IndexTasks.start next) := by
  have hrun : ∃ trace, Machine.run (IndexTasks.step format root) Guard.free []
      (IndexTasks.start fs) (indexSection task first second prune found place size saved) =
        some (IndexTasks.start next, trace) := by
    rw [h]
    simp [indexSection, Machine.run, IndexTasks.step, IndexTasks.start, Guard.free]
  obtain ⟨trace, hrun⟩ := hrun
  exact ⟨trace, Exec.start.append_run hrun⟩

/-- `recv_small_files_batched` records each file in a section of its own. -/
theorem recv_small_section {small : SmallEntry} {outcome : SmallOutcome}
    (h : recvSmallFile hash format platform fs root small outcome = (next, .ok placed)) :
    ∃ written trace, Exec (IndexTasks.step format root) Guard.free (IndexTasks.start fs)
      (indexSection 0 written written false (hash small.data) placed.place small.data.length
        outcome.indexSaved) trace (IndexTasks.start next) := by
  obtain ⟨-, -, -, hnext⟩ := recv_small_ok h
  obtain ⟨trace, hexec⟩ := index_section_exec 0 false hnext
  exact ⟨_, trace, hexec⟩

/-- `recv_push_large_file` records a file with a hash in a section: before the copy is made the
index is loaded for an instant hit, and after the chunks have come otherwise. -/
theorem recv_push_section {file : OfferFile} {answer : MetaResp} {arrivals : List Arrival}
    {outcome : PartOutcome} {instant : InstantOutcome} {named : String}
    (h : recvPushLargeFile hash format platform fs root file (.ok answer) arrivals outcome instant =
      (next, .ok placed)) (hnamed : answer.namedHash = some named) :
    ∃ first second prune trace,
      Exec (IndexTasks.step format root) Guard.free (IndexTasks.start fs)
        (indexSection 0 first second prune named placed.place answer.totalSize instant.indexSaved)
        trace (IndexTasks.start next) := by
  unfold recvPushLargeFile at h
  dsimp only at h
  split at h
  · cases h
  split at h
  · cases h
  split at h
  · next found src hhit =>
    rw [(mem_of_instant_hit hhit).1] at hnamed
    cases hnamed
    split at h
    · cases h
    · next copied placed' hcopy =>
      cases h
      obtain ⟨trace, hexec⟩ : ∃ trace, Exec (IndexTasks.step format root) Guard.free
          (IndexTasks.start fs) (indexSection 0 fs copied true named placed.place answer.totalSize
            instant.indexSaved) trace (IndexTasks.start _) := index_section_exec 0 true rfl
      exact ⟨fs, copied, true, trace, hexec⟩
  · split at h
    · cases h
    · next fetched placed' hreceive =>
      rw [hnamed] at h
      cases h
      obtain ⟨trace, hexec⟩ := index_section_exec 0 false rfl
      exact ⟨fetched, fetched, false, trace, hexec⟩

/-- The copy of the index that a receive task holds from accepting the offer on: none if no small
file of the offer is there already. -/
def InboundPhase.snapshot : InboundPhase → Option InboxIndex
  | .small plan | .entries plan _ => if plan.instants.isEmpty then none else some plan.index
  | .instants _ index _ => some index
  | .large _ | .ended => none

/-- `handle_offer_decision` loads the index when the offer is accepted. -/
theorem accept_loads {files : List OfferFile}
    (h : (Inbound.accept format fs root files).phase.snapshot = some index) :
    IndexTasks.step format root (IndexTasks.start fs) (.load 0 true) =
      some (⟨fs, Function.update (fun _ => none) 0 (some ⟨index, []⟩)⟩, [.loaded 0]) := by
  have hindex : index = (loadIndex format fs root).pruneMissing fs.present := by
    unfold Inbound.accept at h
    dsimp only at h
    split at h
    · unfold Inbound.afterSmall at h
      split at h
      · cases h
      · cases h
        rfl
    · unfold InboundPhase.snapshot at h
      dsimp only at h
      obtain ⟨-, h⟩ := of_unless h
      cases h
      rfl
  rw [hindex]
  rfl

/-- Each instant file that is placed is recorded in this copy, and nothing else changes it. -/
theorem place_instant_records {after : InboxIndex} {item : InstantFile} {outcome : PlaceOutcome}
    {receipt : Option Receipt} {records : List (String × IndexEntry)}
    (hcopy : copies 0 = some ⟨index, records⟩)
    (h : placeInstant platform fs root index item outcome = (next, after, receipt)) :
    ∃ inputs trace records, Exec (IndexTasks.step format root) Guard.free ⟨fs, copies⟩ inputs trace
      ⟨next, Function.update copies 0 (some ⟨after, records⟩)⟩ := by
  have hchange : Exec (IndexTasks.step format root) Guard.free ⟨fs, copies⟩ [.change next]
      [.changed next] ⟨next, copies⟩ := Exec.start.step trivial rfl
  cases receipt with
  | none =>
    have hafter : after = index := by
      unfold placeInstant at h
      split at h
      · cases h
        rfl
      · cases h
    refine ⟨[.change next], [.changed next], records, ?_⟩
    rw [hafter, ← hcopy, Function.update_eq_self]
    exact hchange
  | some receipt =>
    obtain ⟨placed, -, -, hafter⟩ := place_instant_ok h
    have hrecord : IndexTasks.step format root ⟨next, copies⟩
        (.record 0 item.hash placed.place item.size) =
          some (⟨next, Function.update copies 0 (some ⟨after,
            (item.hash, { path := placed.place, size := item.size }) :: records⟩)⟩,
            if next.present placed.place then
              [.recorded item.hash { path := placed.place, size := item.size }] else []) := by
      unfold IndexTasks.step
      dsimp only
      rw [hcopy, hafter]
    exact ⟨_, _, _, hchange.step trivial hrecord⟩

/-- The copy is saved after the last instant file. -/
theorem save_index_saves {records : List (String × IndexEntry)} {later : List OfferFile}
    {task : Inbound} {emitted : List InboundEvent} (hcopy : copies 0 = some ⟨index, records⟩)
    (h : Inbound.step hash format platform root ⟨fs, .instants [] index later⟩ (.saveIndex saved) =
      some (task, emitted)) :
    IndexTasks.step format root ⟨fs, copies⟩ (.save 0 saved) =
      some (⟨task.fs, Function.update copies 0 none⟩, [.saved 0]) := by
  cases h
  unfold IndexTasks.step
  dsimp only
  rw [hcopy]

end Sections

/-- In a run whose steps all meet the condition, when no task holds a copy any more, the index has
the entry of every file that was recorded and still exists. -/
theorem recorded_files_indexed (format : IndexFormat) {fs : FileSystem} {root : Location}
    {inputs : List IndexInput} {trace : List IndexEvent} {state : IndexTasks}
    (h : Exec (IndexTasks.step format root)
      (indexGuard format root (existingEntries format root fs)) (IndexTasks.start fs) inputs trace
      state) (hfinished : ∀ task, state.copies task = none) :
    ∀ found ∈ existing (existingEntries format root fs) trace,
      found ∈ loadIndex format state.fs root := by
  have hkept : state.Kept format root (existingEntries format root fs) trace := by
    refine h.invariant ?_ ?_
    · refine ⟨?_, ?_, ?_⟩
      · intro found hfound
        exact (List.mem_filter.mp hfound).2
      · intro found hfound
        exact .inl (List.mem_filter.mp hfound).1
      · intro task copy hcopy
        cases hcopy
    · intro trace state input next emitted hinv hguard hstep
      exact step_kept hinv hguard hstep
  intro found hfound
  rcases hkept.safe found hfound with hindex | hwait
  · exact hindex
  · obtain ⟨task, copy, hcopy, -⟩ := hwait
    rw [hfinished task] at hcopy
    cases hcopy

/-- The file `c` that a second peer sends. -/
def withSecond : FileSystem :=
  sampleDownloads.newFile (sampleRoot.child "c") [97]

/-- After the copy of `a.txt` has been made. -/
def withCopy : FileSystem :=
  withSecond.link (sampleRoot.child "b.txt") (.file 0)

/-- What is recorded of the file `c`. -/
def secondEntry : String × IndexEntry :=
  (shortHash [97], { path := sampleRoot.child "c", size := 1 })

/-- The second peer's file is received in one go. -/
def secondReceived : List IndexInput :=
  indexSection 1 withSecond withSecond false (shortHash [97]) (sampleRoot.child "c") 1 true

/-- An offer with a file that is there is accepted; while its small files are still to come, the
second peer's file is received; then the copy is made and recorded. -/
def offerAcross : List IndexInput :=
  [.load 0 true] ++ secondReceived ++
    [.change withCopy, .record 0 (shortHash [97, 98, 99]) (sampleRoot.child "b.txt") 3, .save 0 true]

/-- The copies at the end of a computed run. -/
theorem copies_of_run {guard : Guard IndexTasks IndexInput IndexEvent}
    [∀ trace state input, Decidable (guard trace state input)] {inputs : List IndexInput}
    {first state : IndexTasks} {trace : List IndexEvent}
    (hrun : Machine.run (IndexTasks.step unreadableIndex sampleRoot) guard [] first inputs =
      some (state, trace))
    (hcopies : (Machine.run (IndexTasks.step unreadableIndex sampleRoot) guard [] first inputs).map
      (fun result => result.1.copies) = some copies) : state.copies = copies := by
  rw [hrun] at hcopies
  exact Option.some.inj hcopies

/-- A file that is received on its own is in the index. -/
theorem second_file_indexed :
    ∃ trace state,
      Exec (IndexTasks.step unreadableIndex sampleRoot)
        (indexGuard unreadableIndex sampleRoot
          (existingEntries unreadableIndex sampleRoot sampleDownloads))
        (IndexTasks.start sampleDownloads) secondReceived trace state ∧
      secondEntry ∈ loadIndex unreadableIndex state.fs sampleRoot := by
  obtain ⟨⟨state, trace⟩, hrun⟩ : ∃ result, Machine.run (IndexTasks.step unreadableIndex sampleRoot)
      (indexGuard unreadableIndex sampleRoot
        (existingEntries unreadableIndex sampleRoot sampleDownloads)) []
      (IndexTasks.start sampleDownloads) secondReceived = some result :=
    Option.isSome_iff_exists.mp (by decide)
  have hexec := Exec.start.append_run hrun
  have hcopies := copies_of_run hrun rfl
  have hexisting : (Machine.run (IndexTasks.step unreadableIndex sampleRoot)
      (indexGuard unreadableIndex sampleRoot
        (existingEntries unreadableIndex sampleRoot sampleDownloads)) []
      (IndexTasks.start sampleDownloads) secondReceived).map (fun result =>
        decide (secondEntry ∈ existing (existingEntries unreadableIndex sampleRoot sampleDownloads)
          result.2)) = some true := by decide
  rw [hrun] at hexisting
  refine ⟨trace, state, hexec, recorded_files_indexed unreadableIndex hexec ?_ secondEntry
    (by simpa using hexisting)⟩
  intro task
  rw [hcopies]
  by_cases hsame : task = 1
  · rw [hsame]
    rfl
  · simp [hsame, IndexTasks.start]

/-- The copy that was loaded when the offer was accepted is saved over the entry of the file `c`. -/
theorem stale_copy_saved :
    ¬ ∀ (format : IndexFormat) (fs : FileSystem) (root : Location) (inputs : List IndexInput)
        (trace : List IndexEvent) (state : IndexTasks),
      Exec (IndexTasks.step format root) Guard.free (IndexTasks.start fs) inputs trace state →
      (∀ task, state.copies task = none) →
      ∀ found ∈ existing (existingEntries format root fs) trace,
        found ∈ loadIndex format state.fs root := by
  intro hall
  obtain ⟨⟨state, trace⟩, hrun⟩ : ∃ result, Machine.run (IndexTasks.step unreadableIndex sampleRoot)
      Guard.free [] (IndexTasks.start sampleDownloads) offerAcross = some result :=
    Option.isSome_iff_exists.mp (by decide)
  have hcopies := copies_of_run hrun rfl
  have hlost : (Machine.run (IndexTasks.step unreadableIndex sampleRoot) Guard.free []
      (IndexTasks.start sampleDownloads) offerAcross).map (fun result =>
        decide (secondEntry ∈ existing (existingEntries unreadableIndex sampleRoot sampleDownloads)
          result.2 ∧ secondEntry ∉ loadIndex unreadableIndex result.1.fs sampleRoot)) =
        some true := by decide
  rw [hrun] at hlost
  obtain ⟨hthere, hgone⟩ : secondEntry ∈ existing
      (existingEntries unreadableIndex sampleRoot sampleDownloads) trace ∧
      secondEntry ∉ loadIndex unreadableIndex state.fs sampleRoot := by simpa using hlost
  refine hgone (hall _ _ _ _ _ _ (Exec.start.append_run hrun) ?_ secondEntry hthere)
  intro task
  rw [hcopies]
  by_cases hzero : task = 0
  · rw [hzero]
    rfl
  · by_cases hone : task = 1
    · rw [hone]
      rfl
    · simp [hzero, hone, IndexTasks.start]

end LocalTrans
