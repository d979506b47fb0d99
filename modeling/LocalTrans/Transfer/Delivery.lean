import LocalTrans.Transfer.Consent
import LocalTrans.Transfer.Frame

/-!
# What is reported as done

`JobDone` is to say that every file of the offer is there, in its directory and with its size. The
code sends it when no step has failed; `deliveryGuard` says what else is needed: all small files
have come before the stream ends, instant copies are made, and nothing is put over a file that was
received.
-/

namespace LocalTrans

open Foundation

/-- A receipt answers an offered file: its directories, its name as it was offered or sanitised,
and its size. -/
def Receipt.Answers (receipt : Receipt) (file : OfferFile) : Prop :=
  receipt.dir = sanitizeRelDir file.relDir ∧
    (receipt.name = file.name ∨ (sanitizeFileName file.name).toOption = some receipt.name) ∧
    receipt.placed.content.length = file.size
deriving Decidable

/-- A received file is there: under its name or a variant in its directory, inside the directory
that was chosen, and with the contents it was received with. -/
structure Receipt.There (platform : Platform) (root : Location) (fs : FileSystem)
    (receipt : Receipt) : Prop where
  placed : receipt.WellPlaced platform root
  inside : root.Inside receipt.placed.place
  apart : receipt.placed.place ≠ root.child indexName
  content : fs.contentAt receipt.placed.place = some receipt.placed.content

/-- An offered file has been delivered. -/
def Delivered (platform : Platform) (root : Location) (trace : List InboundEvent) (fs : FileSystem)
    (file : OfferFile) : Prop :=
  ∃ receipt ∈ receipts trace, receipt.Answers file ∧ receipt.There platform root fs

section Guard

variable (format : IndexFormat) (platform : Platform) (root : Location)

/-- A copy of a file of the given size is made, inside the root, and not over the index file. -/
def CopyArrives (fs : FileSystem) (src destDir : Location) (fileName : String) (size : Nat)
    (outcome : PlaceOutcome) : Prop :=
  outcome.dirMade = true ∧ (fs.contentAt src).map List.length = some size ∧
    match dedupTarget platform (fs.createDirAll destDir) src destDir fileName with
    | none => False
    | some target =>
      root.Inside target ∧ target ≠ root.child indexName ∧
        ((fs.createDirAll destDir).sameFile src target = true ∨ outcome.linked = true ∨
          outcome.copy = .done)

instance (fs : FileSystem) (src destDir : Location) (fileName : String) (size : Nat)
    (outcome : PlaceOutcome) :
    Decidable (CopyArrives platform root fs src destDir fileName size outcome) := by
  unfold CopyArrives
  refine @instDecidableAnd _ _ _ (@instDecidableAnd _ _ _ ?_)
  split
  · infer_instance
  · infer_instance

/-- The file that an accepted answer leads to is the offered one, and is put at a place that is
free and not that of the index file. -/
def LargeArrives (fs : FileSystem) (file : OfferFile) (answer : MetaResp) (fileName : String) :
    Prop :=
  (fileName = file.name ∨ (sanitizeFileName file.name).toOption = some fileName) ∧
    pushPlace format platform fs root file answer fileName ≠ some (root.child indexName) ∧
    match instantHit format fs root answer with
    | some (_, src) => (fs.contentAt src).map List.length = some file.size
    | none =>
      pushedLength format fs root answer = file.size ∧
        (fs.createDirAll (offeredDir platform root file)).present
          (finalPlace platform fs (offeredDir platform root file) fileName) = false

instance (fs : FileSystem) (file : OfferFile) (answer : MetaResp) (fileName : String) :
    Decidable (LargeArrives format platform root fs file answer fileName) := by
  unfold LargeArrives
  refine @instDecidableAnd _ _ _ (@instDecidableAnd _ _ _ ?_)
  split
  · infer_instance
  · infer_instance

/-- The condition on one step. -/
def deliveryGuard : Guard Inbound InboundInput InboundEvent :=
  fun trace task input =>
    match input, task.phase with
    | .entry _, .entries plan stream =>
      match nextEntry stream.bytes stream.clean with
      | .ended => ∀ file ∈ plan.small, ∃ receipt ∈ receipts trace, receipt.Answers file
      | .entry entry _ => ¬ (sanitizeRelDir entry.rel = [] ∧ entry.name = indexName)
      | .failed _ => True
    | .instant outcome, .instants (item :: _) _ _ =>
      CopyArrives platform root task.fs item.src (item.destDir platform root) item.name item.size
        outcome
    | .large (.ok answer) _ _ _, .large (file :: _) =>
      match sanitizeFileName answer.fileName with
      | .ok fileName =>
        answer.totalSize ≠ file.size ∨
          LargeArrives format platform root task.fs file answer fileName
      | .error _ => True
    | _, _ => True

instance (trace : List InboundEvent) (task : Inbound) (input : InboundInput) :
    Decidable (deliveryGuard format platform root trace task input) := by
  unfold deliveryGuard
  induction input using InboundInput.casesOn with
  | entry =>
    induction task.phase using InboundPhase.casesOn with
    | entries _ stream =>
      dsimp only
      induction nextEntry stream.bytes stream.clean using BatchFront.casesOn <;> infer_instance
    | _ => infer_instance
  | instant =>
    induction task.phase using InboundPhase.casesOn with
    | instants items => induction items using List.casesOn <;> infer_instance
    | _ => infer_instance
  | large answer =>
    induction answer using Except.casesOn with
    | error => infer_instance
    | ok answer =>
      induction task.phase using InboundPhase.casesOn with
      | large files =>
        induction files using List.casesOn with
        | nil => infer_instance
        | cons =>
          dsimp only
          induction sanitizeFileName answer.fileName using Except.casesOn <;> infer_instance
      | _ => infer_instance
  | _ => infer_instance

end Guard

variable {outcome : PlaceOutcome} {file : OfferFile} {answer : MetaResp} {arrivals : List Arrival}
  {instant : InstantOutcome}

section Contents

variable {hash : List UInt8 → String} {format : IndexFormat} {platform : Platform}
  {fs next : FileSystem} {root : Location} {placed : Placed} {index : InboxIndex}
  {content : List UInt8}

/-- Saving the index changes only the index file. -/
theorem save_index_contentAt {place : Location} {saved : Bool} (h : place ≠ root.child indexName) :
    (saveIndex format fs root index saved).contentAt place = fs.contentAt place := by
  unfold saveIndex
  split
  · unfold FileSystem.contentAt
    rw [FileSystem.link_tree_other h]
    rfl
  · rfl

/-- A small file has the contents it was received with. -/
theorem recv_small_contentAt {entry : SmallEntry} {outcome : SmallOutcome}
    (h : recvSmallFile hash format platform fs root entry outcome = (next, .ok placed))
    (hplace : placed.place ≠ root.child indexName) :
    next.contentAt placed.place = some placed.content := by
  obtain ⟨hcontent, -, -, hnext⟩ := recv_small_ok h
  rw [hnext, save_index_contentAt hplace, FileSystem.newFile_contentAt, hcontent]

variable {src destDir : Location} {fileName : String}

/-- A copy has the contents of its source. -/
theorem place_dedup_contentAt
    (h : placeDedupCopy platform fs src destDir fileName outcome = (next, .ok placed))
    (hsrc : fs.contentAt src = some content) :
    next.contentAt placed.place = some placed.content := by
  obtain ⟨-, hcontent, hcases⟩ := place_dedup_ok h
  rw [hsrc, Option.getD_some] at hcontent
  rcases hcases with ⟨hsame, rfl⟩ | ⟨node, hnode, -, rfl⟩ | ⟨-, rfl⟩
  · have hplace : src = placed.place := by
      unfold FileSystem.sameFile at hsame
      simp only [Bool.and_eq_true, beq_iff_eq] at hsame
      exact hsame.2
    rw [FileSystem.createDirAll_contentAt, ← hplace, hsrc, hcontent]
  · have hthere : (fs.createDirAll destDir).contentAt src = some content := by
      rw [FileSystem.createDirAll_contentAt]
      exact hsrc
    unfold FileSystem.contentAt at hthere ⊢
    rw [FileSystem.link_tree_self]
    rw [hnode] at hthere
    rw [hcontent]
    exact hthere
  · exact FileSystem.newFile_contentAt

/-- A copy that arrives is placed. -/
theorem copy_arrives {size : Nat}
    (h : CopyArrives platform root fs src destDir fileName size outcome) :
    ∃ next placed, placeDedupCopy platform fs src destDir fileName outcome = (next, .ok placed) ∧
      root.Inside placed.place ∧ placed.place ≠ root.child indexName ∧
      placed.content.length = size ∧ next.contentAt placed.place = some placed.content := by
  obtain ⟨hmade, hsize, htarget⟩ := h
  obtain ⟨content, hcontent, hlength⟩ := Option.map_eq_some_iff.mp hsize
  split at htarget
  · cases htarget
  next target hfound =>
  obtain ⟨hinside, hapart, hway⟩ := htarget
  have hthere : (fs.createDirAll destDir).contentAt src = some content := by
    rw [FileSystem.createDirAll_contentAt]
    exact hcontent
  obtain ⟨node, hnode⟩ : ∃ node, (fs.createDirAll destDir).tree src = some node :=
    Option.isSome_iff_exists.mp (FileSystem.present_of_content hthere)
  have hplaced : ∃ next placed,
      placeDedupCopy platform fs src destDir fileName outcome = (next, .ok placed) := by
    unfold placeDedupCopy
    simp only [hmade, Bool.not_true, Bool.false_eq_true, if_false, hfound, hnode, hthere]
    split
    · exact ⟨_, _, rfl⟩
    · next hother =>
      split
      · exact ⟨_, _, rfl⟩
      · next hunlinked =>
        have hcopy : outcome.copy = .done := by
          rcases hway with hsame | hlinked | hcopy
          · exact absurd hsame hother
          · exact absurd hlinked hunlinked
          · exact hcopy
        rw [hcopy]
        exact ⟨_, _, rfl⟩
  obtain ⟨next, placed, hplace⟩ := hplaced
  obtain ⟨hplaceTarget, hplaceContent, -⟩ := place_dedup_ok hplace
  have hsame : placed.place = target := by
    rw [hfound] at hplaceTarget
    exact (Option.some.inj hplaceTarget).symm
  refine ⟨next, placed, hplace, by rw [hsame]; exact hinside, by rw [hsame]; exact hapart, ?_,
    place_dedup_contentAt hplace hcontent⟩
  rw [hplaceContent, hcontent]
  exact hlength

/-- What was copied from a source that is no directory is in the source. -/
theorem place_dedup_source
    (h : placeDedupCopy platform fs src destDir fileName outcome = (next, .ok placed))
    (hsrc : (fs.createDirAll destDir).tree src ≠ some .dir) :
    fs.contentAt src = some placed.content := by
  obtain ⟨-, hcontent, hcases⟩ := place_dedup_ok h
  rcases hcases with ⟨hsame, -⟩ | ⟨node, -, hthere, -⟩ | ⟨hthere, -⟩
  · have hpresent : ((fs.createDirAll destDir).tree src).isSome = true := by
      unfold FileSystem.sameFile at hsame
      simp only [Bool.and_eq_true] at hsame
      exact hsame.1.1
    have hsome : (fs.contentAt src).isSome = true := by
      have hthere : (fs.createDirAll destDir).contentAt src = fs.contentAt src :=
        FileSystem.createDirAll_contentAt
      rw [← hthere]
      unfold FileSystem.contentAt
      cases hnode : (fs.createDirAll destDir).tree src with
      | none => simp [hnode] at hpresent
      | some node =>
        cases node with
        | dir => exact absurd hnode hsrc
        | file number => rfl
        | index entries text => rfl
    obtain ⟨content, hfound⟩ := Option.isSome_iff_exists.mp hsome
    rw [hfound, Option.getD_some] at hcontent
    rw [hfound, hcontent]
  · exact hthere
  · exact hthere

/-- What has contents is no directory, also after directories were made. -/
theorem not_dir_of_content {place dir : Location} (h : fs.contentAt place = some content) :
    (fs.createDirAll dir).tree place ≠ some .dir := by
  intro hdir
  have hthere : (fs.createDirAll dir).contentAt place = fs.contentAt place :=
    FileSystem.createDirAll_contentAt
  rw [← hthere] at h
  unfold FileSystem.contentAt at h
  rw [hdir] at h
  cases h

/-- A large file has the contents it was received with, unless its place is that of the index or a
directory was copied. -/
theorem recv_push_stored {outcome : PartOutcome}
    (h : recvPushLargeFile hash format platform fs root file (.ok answer) arrivals outcome instant =
      (next, .ok placed)) (hother : placed.place ≠ root.child indexName)
    (hsrc : ∀ found src, instantHit format fs root answer = some (found, src) →
      (fs.createDirAll (offeredDir platform root file)).tree src ≠ some .dir) :
    next.contentAt placed.place = some placed.content := by
  unfold recvPushLargeFile at h
  dsimp only at h
  split at h
  · cases h
  split at h
  · cases h
  split at h
  · next found src hhit =>
    split at h
    · cases h
    · next hcopy =>
      cases h
      rw [save_index_contentAt hother]
      exact place_dedup_contentAt hcopy (place_dedup_source hcopy (hsrc found src hhit))
  · split at h
    · cases h
    · next fs' placed' hreceive =>
      obtain ⟨-, -, number, htree, hstore⟩ := receive_chunked_ok hreceive
      have hcontent : fs'.contentAt placed'.place = some placed'.content := by
        unfold FileSystem.contentAt
        rw [htree, FileSystem.link_tree_self]
        exact congrArg some hstore
      split at h
      · cases h
        rw [save_index_contentAt hother]
        exact hcontent
      · cases h
        exact hcontent

/-- A large file that arrives has its size and its contents when it has been received. -/
theorem recv_push_contentAt {outcome : PartOutcome}
    (h : recvPushLargeFile hash format platform fs root file (.ok answer) arrivals outcome instant =
      (next, .ok placed)) (hname : sanitizeFileName answer.fileName = .ok fileName)
    (harrives : LargeArrives format platform root fs file answer fileName) :
    placed.content.length = file.size ∧ placed.place ≠ root.child indexName ∧
      next.contentAt placed.place = some placed.content := by
  obtain ⟨-, hapart, hfile⟩ := harrives
  obtain ⟨found, name, hanswer, hname', -, hplace⟩ := recv_push_accepts h
  cases hanswer
  rw [hname] at hname'
  cases hname'
  have hother : placed.place ≠ root.child indexName := by
    intro hsame
    rw [hplace, hsame] at hapart
    exact hapart rfl
  have hlength := recv_push_ok h
  cases hhit : instantHit format fs root answer with
  | some hit =>
    obtain ⟨found, src⟩ := hit
    rw [hhit] at hfile
    obtain ⟨content, hcontent, hsize⟩ := Option.map_eq_some_iff.mp hfile
    refine ⟨?_, hother, recv_push_stored h hother ?_⟩
    · rw [hlength, pushed_length_hit hhit, hcontent]
      exact hsize
    · intro found' src' hhit'
      rw [hhit] at hhit'
      cases hhit'
      exact not_dir_of_content hcontent
  | none =>
    rw [hhit] at hfile
    refine ⟨by rw [hlength]; exact hfile.1, hother, recv_push_stored h hother ?_⟩
    intro found src hhit'
    rw [hhit] at hhit'
    cases hhit'

end Contents

section Places

variable {platform : Platform} {format : IndexFormat} {fs : FileSystem} {root place : Location}
  {name : String} {dirs : List String}

/-- A name with a counter at its end is not that of the index file. -/
theorem counted_name_ne_index (i : Nat) : countedName name i ≠ indexName := by
  intro hsame
  have hlist : (countedName name i).toList = (name ++ " (" ++ toString i).toList ++ [')'] := by
    unfold countedName
    rw [String.toList_append]
    rfl
  have hlast := congrArg List.getLast? hlist
  rw [hsame, List.getLast?_concat] at hlast
  exact absurd hlast (by decide)

/-- A small file is put over the index file only under its name, in the chosen directory. -/
theorem small_candidate_ne_index {i : Nat} (hplain : PlainName name)
    (hdirs : ∀ dir ∈ dirs, PlainName dir) (h : ¬ (dirs = [] ∧ name = indexName)) :
    smallCandidate platform (platform.joinAll root dirs) name i ≠ root.child indexName := by
  rw [join_all_plain hdirs]
  have hcandidate : ∃ found, smallCandidate platform (root.below dirs) name i =
      (root.below dirs).child found ∧ (dirs = [] → found ≠ indexName) := by
    unfold smallCandidate
    split
    · exact ⟨name, hplain.join_eq, fun hnone hsame => h ⟨hnone, hsame⟩⟩
    · exact ⟨_, (counted_name_plain hplain i).join_eq, fun _ => counted_name_ne_index i⟩
  obtain ⟨found, hfound, hother⟩ := hcandidate
  rw [hfound]
  intro hsame
  have hnames : root.names ++ dirs ++ [found] = root.names ++ [indexName] :=
    congrArg Location.names hsame
  rw [List.append_assoc, List.append_cancel_left_eq] at hnames
  cases dirs with
  | nil =>
    have hname : found = indexName := by simpa using hnames
    exact hother rfl hname
  | cons dir rest => simp at hnames

/-- A small file is put inside the chosen directory. -/
theorem small_candidate_inside {i : Nat} (hplain : PlainName name)
    (hdirs : ∀ dir ∈ dirs, PlainName dir) :
    root.Inside (smallCandidate platform (platform.joinAll root dirs) name i) := by
  rw [join_all_plain hdirs]
  unfold smallCandidate
  split
  · exact join_inside hplain
  · exact join_inside (counted_name_plain hplain i)

/-- A large file is put inside the chosen directory. -/
theorem push_place_inside (hplain : PlainName name)
    (h : pushPlace format platform fs root file answer name = some place) : root.Inside place := by
  unfold pushPlace offeredDir at h
  rw [join_all_plain sanitize_rel_dir_plain] at h
  dsimp only at h
  split at h
  · exact dedup_target_inside hplain h
  · cases h
    exact join_inside (resolve_conflict_plain hplain)

end Places

section Runs

variable {hash : List UInt8 → String} {format : IndexFormat} {platform : Platform}
  {root : Location} {files : List OfferFile} {task next : Inbound}
  {trace emitted : List InboundEvent} {input : InboundInput}

/-- An instant file is the one that was offered. -/
def InstantFile.For (item : InstantFile) (file : OfferFile) : Prop :=
  item.name = file.name ∧ item.relDir = file.relDir ∧ item.size = file.size

/-- Something that was received answers the offered file. -/
def Answered (trace : List InboundEvent) (file : OfferFile) : Prop :=
  ∃ receipt ∈ receipts trace, receipt.Answers file

/-- Every offered file is answered or still to come. -/
def Covered (files : List OfferFile) (trace : List InboundEvent) : InboundPhase → Prop
  | .small plan | .entries plan _ => ∀ file ∈ files,
      file ∈ plan.small ∨ (∃ item ∈ plan.instants, item.For file) ∨ file ∈ plan.large
  | .instants left _ large => ∀ file ∈ files,
      Answered trace file ∨ (∃ item ∈ left, item.For file) ∨ file ∈ large
  | .large left => ∀ file ∈ files, Answered trace file ∨ file ∈ left
  | .ended => True

/-- The task is on its way: what was received is there, what was not is still to come, and the
report agrees. -/
structure Delivering (platform : Platform) (root : Location) (files : List OfferFile)
    (trace : List InboundEvent) (task : Inbound) : Prop where
  sound : task.fs.Sound
  there : ∀ receipt ∈ receipts trace, receipt.There platform root task.fs
  covered : Covered files trace task.phase
  done : .jobDone ∈ trace → task.phase = .ended ∧ ∀ file ∈ files, Answered trace file
  reported : task.phase = .ended → .jobDone ∈ trace ∨ ∃ error, .jobFailed error ∈ trace

/-- What has been answered stays answered. -/
theorem Answered.mono (h : Answered trace file) : Answered (trace ++ emitted) file := by
  obtain ⟨receipt, hmem, hanswers⟩ := h
  refine ⟨receipt, ?_, hanswers⟩
  rw [receipts_append]
  exact List.mem_append_left _ hmem

variable {receipt : Receipt}

/-- What has just been received answers its file. -/
theorem Answered.last (h : receipt.Answers file) :
    Answered (trace ++ [.received receipt]) file := by
  refine ⟨receipt, ?_, h⟩
  rw [receipts_append]
  exact List.mem_append_right _ (List.mem_singleton_self _)

/-- Each offered file is in a part of the plan. -/
theorem plan_covers (index : InboxIndex) (files : List OfferFile) : ∀ file ∈ files,
    file ∈ (planOffer index files).small ∨
      (∃ item ∈ (planOffer index files).instants, item.For file) ∨
      file ∈ (planOffer index files).large := by
  intro file hmem
  unfold planOffer
  dsimp only
  by_cases hlarge : smallFileLimit < file.size
  · exact .inr (.inr (List.mem_filter.mpr ⟨hmem, by simpa using hlarge⟩))
  · have hsmall : file.size ≤ smallFileLimit := by omega
    by_cases hskip : skipBit index file = true
    · obtain ⟨item, hitem, -⟩ := instant_of_skipped hskip
      refine .inr (.inl ⟨item, List.mem_filterMap.mpr
        ⟨file, List.mem_filter.mpr ⟨hmem, hskip⟩, hitem⟩, ?_⟩)
      unfold instantOf at hitem
      obtain ⟨found, -, hsrc⟩ := Option.bind_eq_some_iff.mp hitem
      obtain ⟨src, -, rfl⟩ := Option.map_eq_some_iff.mp hsrc
      exact ⟨rfl, rfl, rfl⟩
    · exact .inl (List.mem_filter.mpr ⟨hmem, by simp [hsmall, hskip]⟩)

/-- After the stream of small files, if they are all answered. -/
theorem covered_after_small {plan : OfferPlan}
    (hplan : ∀ file ∈ files,
      file ∈ plan.small ∨ (∃ item ∈ plan.instants, item.For file) ∨ file ∈ plan.large)
    (hsmall : ∀ file ∈ plan.small, Answered trace file) :
    Covered files trace (Inbound.afterSmall plan) := by
  have hall : ∀ file ∈ files,
      Answered trace file ∨ (∃ item ∈ plan.instants, item.For file) ∨ file ∈ plan.large := by
    intro file hmem
    rcases hplan file hmem with hcome | hrest
    · exact .inl (hsmall file hcome)
    · exact .inr hrest
  unfold Inbound.afterSmall
  split
  · next hempty =>
    have hnone : plan.instants = [] := List.isEmpty_iff.mp hempty
    intro file hmem
    rcases hall file hmem with hcome | ⟨item, hitem, -⟩ | hlarge
    · exact .inl hcome
    · rw [hnone] at hitem
      cases hitem
    · exact .inr hlarge
  · exact hall

/-- After the stream of small files the task has not ended. -/
theorem after_small_ne_ended {plan : OfferPlan} : Inbound.afterSmall plan ≠ .ended := by
  unfold Inbound.afterSmall
  split <;> simp

/-- A place that holds something, and not the index. -/
def Filled (root : Location) (fs : FileSystem) (place : Location) : Prop :=
  fs.present place = true ∧ place ≠ root.child indexName

/-- A place that is free is not filled. -/
theorem not_filled_of_free {fs : FileSystem} {place : Location} (h : fs.present place = false) :
    ¬ Filled root fs place := by
  intro hfilled
  rw [hfilled.1] at h
  cases h

/-- A file that was received is still there when the places that hold something are kept. -/
theorem Receipt.There.keep {fs after : FileSystem} (h : receipt.There platform root fs)
    (hsound : fs.Sound) (hkeeps : FileSystem.Keeps (Filled root fs) fs after) :
    receipt.There platform root after := by
  have hfilled : Filled root fs receipt.placed.place :=
    ⟨FileSystem.present_of_content h.content, h.apart⟩
  refine ⟨h.placed, h.inside, h.apart, ?_⟩
  rw [hkeeps.contentAt hsound hfilled]
  exact h.content

/-- A step on the way that receives nothing. -/
theorem Delivering.move (h : Delivering platform root files trace task)
    (hopen : task.phase ≠ .ended) (hkeeps : FileSystem.Keeps (Filled root task.fs) task.fs next.fs)
    (hcovered : Covered files trace next.phase) (hnext : next.phase ≠ .ended) :
    Delivering platform root files (trace ++ []) next := by
  rw [List.append_nil]
  exact ⟨hkeeps.sound, fun receipt hmem => (h.there receipt hmem).keep h.sound hkeeps, hcovered,
    fun hdone => absurd (h.done hdone).1 hopen, fun hended => absurd hended hnext⟩

/-- A step that fails. -/
theorem Delivering.fail {fs : FileSystem} {error : EngineError}
    (h : Delivering platform root files trace task) (hopen : task.phase ≠ .ended)
    (hkeeps : FileSystem.Keeps (Filled root task.fs) task.fs fs) :
    Delivering platform root files (trace ++ [.jobFailed error]) { fs, phase := .ended } := by
  refine ⟨hkeeps.sound, fun receipt hmem => ?_, trivial, fun hdone => ?_, fun _ => ?_⟩
  · have hmem : receipt ∈ receipts trace := by simpa [receipts] using hmem
    exact (h.there receipt hmem).keep h.sound hkeeps
  · have hdone : .jobDone ∈ trace := by simpa using hdone
    exact absurd (h.done hdone).1 hopen
  · exact .inr ⟨error, by simp⟩

/-- A step that receives a file. -/
theorem Delivering.receive {fs : FileSystem} {phase : InboundPhase}
    (h : Delivering platform root files trace task) (hopen : task.phase ≠ .ended)
    (hkeeps : FileSystem.Keeps (Filled root task.fs) task.fs fs)
    (hthere : receipt.There platform root fs)
    (hcovered : Covered files (trace ++ [.received receipt]) phase) (hnext : phase ≠ .ended) :
    Delivering platform root files (trace ++ [.received receipt]) { fs, phase } := by
  refine ⟨hkeeps.sound, fun other hmem => ?_, hcovered, fun hdone => ?_, fun hended => ?_⟩
  · rw [receipts_append] at hmem
    rcases List.mem_append.mp hmem with hold | hnew
    · exact (h.there other hold).keep h.sound hkeeps
    · rw [show receipts [.received receipt] = [receipt] from rfl, List.mem_singleton] at hnew
      rw [hnew]
      exact hthere
  · have hdone : .jobDone ∈ trace := by simpa using hdone
    exact absurd (h.done hdone).1 hopen
  · exact absurd hended hnext

/-- An entry of the stream. -/
theorem delivering_entry {outcome : SmallOutcome} (h : Delivering platform root files trace task)
    (hguard : deliveryGuard format platform root trace task (.entry outcome))
    (hstep : Inbound.step hash format platform root task (.entry outcome) = some (next, emitted)) :
    Delivering platform root files (trace ++ emitted) next := by
  obtain ⟨fs, phase⟩ := task
  cases phase with
  | entries plan stream =>
    unfold Inbound.step at hstep
    unfold deliveryGuard at hguard
    dsimp only at hstep hguard
    split at hstep
    · next hended =>
      rw [hended] at hguard
      cases hstep
      exact h.move (by simp) (.refl h.sound) (covered_after_small h.covered hguard)
        after_small_ne_ended
    · cases hstep
      exact h.fail (by simp) (.refl h.sound)
    · next entry rest hentry =>
      rw [hentry] at hguard
      obtain ⟨raw, hraw⟩ := next_entry_name hentry
      have hplain := (sanitize_file_name_ok hraw).2
      have hkeeps : FileSystem.Keeps (Filled root fs) fs
          (recvSmallFile hash format platform fs root entry outcome).1 :=
        recv_small_keeps outcome h.sound
          (fun place hplace => not_filled_of_free (small_place_free hplace))
          (fun _ _ hfilled => hfilled.2 rfl)
      split at hstep
      · next hreceive =>
        rw [hreceive] at hkeeps
        cases hstep
        exact h.fail (by simp) hkeeps
      · next fs' placed hreceive =>
        rw [hreceive] at hkeeps
        cases hstep
        obtain ⟨-, -, ⟨i, hplace⟩, -⟩ := recv_small_ok hreceive
        have hapart : placed.place ≠ root.child indexName := by
          rw [hplace]
          exact small_candidate_ne_index hplain sanitize_rel_dir_plain hguard
        refine h.receive (by simp) hkeeps ⟨small_receipt_placed hreceive, ?_, hapart,
          recv_small_contentAt hreceive hapart⟩ h.covered (by simp)
        show root.Inside placed.place
        rw [hplace]
        exact small_candidate_inside hplain sanitize_rel_dir_plain
  | small | instants | large | ended => cases hstep

/-- An instant file is copied. -/
theorem delivering_instant (h : Delivering platform root files trace task)
    (hguard : deliveryGuard format platform root trace task (.instant outcome))

    (hstep : Inbound.step hash format platform root task (.instant outcome) = some (next, emitted)) :
    Delivering platform root files (trace ++ emitted) next := by
  obtain ⟨fs, phase⟩ := task
  cases phase with
  | instants left index large =>
    cases left with
    | nil => cases hstep
    | cons item left =>
      obtain ⟨fs', placed, hcopy, hinside, hapart, hlength, hcontent⟩ := copy_arrives hguard
      have hkeeps : FileSystem.Keeps (Filled root fs) fs (placeDedupCopy platform fs item.src
          (item.destDir platform root) item.name outcome).1 :=
        place_dedup_keeps outcome h.sound fun target htarget hother =>
          not_filled_of_free (dedup_target_free htarget hother)
      have hplace : placeInstant platform fs root index item outcome = (fs',
          index.insert item.hash placed.place item.size,
          some { name := item.name, dir := sanitizeRelDir item.relDir, placed }) := by
        unfold placeInstant
        rw [hcopy]
      rw [hcopy] at hkeeps
      unfold Inbound.step at hstep
      dsimp only at hstep
      rw [hplace] at hstep
      cases hstep
      refine h.receive (by simp) hkeeps ⟨copy_well_placed (place_dedup_ok hcopy).1, hinside,
        hapart, hcontent⟩ ?_ (by simp)
      intro file hmem
      rcases h.covered file hmem with hcome | ⟨found, hfound, hfor⟩ | hlarge
      · exact .inl hcome.mono
      · rcases List.mem_cons.mp hfound with rfl | hfound
        · refine .inl (Answered.last ⟨?_, .inl hfor.1, ?_⟩)
          · show sanitizeRelDir found.relDir = _
            rw [hfor.2.1]
          · show placed.content.length = _
            rw [hlength, hfor.2.2]
        · exact .inr (.inl ⟨found, hfound, hfor⟩)
      · exact .inr (.inr hlarge)
  | small | entries | large | ended => cases hstep

/-- A large file is received. -/
theorem delivering_large {answer : Except EngineError MetaResp} {outcome : PartOutcome}
    (h : Delivering platform root files trace task)
    (hguard : deliveryGuard format platform root trace task (.large answer arrivals outcome instant))
    (hstep : Inbound.step hash format platform root task
      (.large answer arrivals outcome instant) = some (next, emitted)) :
    Delivering platform root files (trace ++ emitted) next := by
  obtain ⟨fs, phase⟩ := task
  cases phase with
  | large left =>
    cases left with
    | nil => cases hstep
    | cons file left =>
      -- What the condition says of an answer that the code accepts.
      have haccepted : ∀ found fileName, answer = .ok found →
          sanitizeFileName found.fileName = .ok fileName → found.totalSize = file.size →
          LargeArrives format platform root fs file found fileName := by
        rintro found fileName rfl hname hsize
        unfold deliveryGuard at hguard
        dsimp only at hguard
        rw [hname] at hguard
        rcases hguard with hother | harrives
        · exact absurd hsize hother
        · exact harrives
      have hkeeps : FileSystem.Keeps (Filled root fs) fs (recvPushLargeFile hash format
          platform fs root file answer arrivals outcome instant).1 := by
        cases answer with
        | error error => exact .refl h.sound
        | ok found =>
          refine recv_push_keeps h.sound (fun _ _ _ hfilled => hfilled.2 rfl) ?_ ?_
          · intro fileName copied src target _ _ _ htarget hother
            exact not_filled_of_free (dedup_target_free htarget hother)
          · intro fileName hname hsize hmiss
            obtain ⟨-, -, hfree⟩ := haccepted found fileName rfl hname hsize
            rw [hmiss] at hfree
            exact not_filled_of_free (FileSystem.absent_before hfree.2)
      unfold Inbound.step at hstep
      dsimp only at hstep
      split at hstep
      · next hpush =>
        rw [hpush] at hkeeps
        cases hstep
        exact h.fail (by simp) hkeeps
      · next fs' placed hpush =>
        rw [hpush] at hkeeps
        cases hstep
        obtain ⟨found, fileName, rfl, hname, hsize, hplace⟩ := recv_push_accepts hpush
        have harrives := haccepted found fileName rfl hname hsize
        obtain ⟨hlength, hapart, hcontent⟩ := recv_push_contentAt hpush hname harrives
        have hgiven : (largeName (.ok found)).getD "" = fileName := by
          show (sanitizeFileName found.fileName).toOption.getD "" = fileName
          rw [hname]
          rfl
        rw [hgiven]
        refine h.receive (by simp) hkeeps ⟨large_receipt_placed hplace,
          push_place_inside (sanitize_file_name_ok hname).2 hplace, hapart, hcontent⟩ ?_
          (by simp)
        intro other hmem
        rcases h.covered other hmem with hcome | hleft
        · exact .inl hcome.mono
        · rcases List.mem_cons.mp hleft with rfl | hleft
          · exact .inl (Answered.last ⟨rfl, harrives.1, hlength⟩)
          · exact .inr hleft
  | small | entries | instants | ended => cases hstep

/-- One step of the receive task. -/
theorem step_delivering (h : Delivering platform root files trace task)
    (hguard : deliveryGuard format platform root trace task input)
    (hstep : Inbound.step hash format platform root task input = some (next, emitted)) :
    Delivering platform root files (trace ++ emitted) next := by
  cases input with
  | accept accepted =>
    obtain ⟨fs, phase⟩ := task
    cases phase with
    | small plan =>
      cases accepted with
      | error error =>
        cases hstep
        exact h.fail (by simp) (.refl h.sound)
      | ok stream =>
        cases hstep
        exact h.move (by simp) (.refl h.sound) h.covered (by simp)
    | entries | instants | large | ended => cases hstep
  | entry outcome => exact delivering_entry h hguard hstep
  | instant outcome => exact delivering_instant h hguard hstep
  | saveIndex saved =>
    obtain ⟨fs, phase⟩ := task
    cases phase with
    | instants left index large =>
      cases left with
      | nil =>
        cases hstep
        refine h.move (by simp)
          (save_index_keeps h.sound _ _ (fun hfilled => hfilled.2 rfl)) ?_ (by simp)
        intro file hmem
        rcases h.covered file hmem with hcome | ⟨item, hitem, -⟩ | hlarge
        · exact .inl hcome
        · cases hitem
        · exact .inr hlarge
      | cons item left => cases hstep
    | small | entries | large | ended => cases hstep
  | large answer arrivals outcome instant => exact delivering_large h hguard hstep
  | report =>
    obtain ⟨fs, phase⟩ := task
    cases phase with
    | large left =>
      cases left with
      | nil =>
        cases hstep
        have hnone : receipts [.jobDone] = [] := rfl
        refine ⟨h.sound, fun receipt hmem => ?_, trivial, fun _ => ⟨rfl, fun file hmem => ?_⟩,
          fun _ => .inl (by simp)⟩
        · rw [receipts_append, hnone, List.append_nil] at hmem
          exact h.there receipt hmem
        · rcases h.covered file hmem with hcome | hleft
          · exact hcome.mono
          · cases hleft
      | cons file left => cases hstep
    | small | entries | instants | ended => cases hstep

/-- An offer that has just been accepted. -/
theorem delivering_accept {fs : FileSystem} (h : fs.Sound) :
    Delivering platform root files [] (Inbound.accept format fs root files) := by
  have hplan := plan_covers ((loadIndex format fs root).pruneMissing fs.present) files
  have hcovered : Covered files [] (Inbound.accept format fs root files).phase := by
    unfold Inbound.accept
    dsimp only
    split
    · next hempty =>
      refine covered_after_small hplan fun file hmem => ?_
      rw [List.isEmpty_iff.mp hempty] at hmem
      cases hmem
    · exact hplan
  have hopen : (Inbound.accept format fs root files).phase ≠ .ended := by
    unfold Inbound.accept
    dsimp only
    split
    · exact after_small_ne_ended
    · simp
  exact ⟨h, by simp [receipts], hcovered, by simp, fun hended => absurd hended hopen⟩

end Runs

/-- A stream that ends before the first file. -/
def emptyBatch : BatchStream := { bytes := [], clean := true }

theorem sample_downloads_sound : sampleDownloads.Sound where
  disk :=
    { given := fun _ _ hpart => by cases hpart
      apart := fun _ _ _ hpart => by cases hpart }
  linked place number hplace := by
    unfold sampleDownloads at hplace
    dsimp only at hplace
    split at hplace
    · cases hplace
      refine ⟨Nat.zero_lt_one, fun job hpart => ?_⟩
      cases hpart
    · split at hplace
      · cases hplace
      · split at hplace
        · cases hplace
        · cases hplace

end LocalTrans
