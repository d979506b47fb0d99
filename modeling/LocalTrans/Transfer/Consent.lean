import LocalTrans.Transfer.Containment
import Mathlib.Algebra.Order.Group.Multiset

/-!
# What the user agreed to

Each file that is received for an accepted offer is to be one of the offer: with its sanitised
name, its directories and its size, and no file more often than it was offered. What the batch
stream carries and what the answers for large files name comes from the peer, and the code compares
only the size of large files; `consentGuard` says what would have to be compared.
-/

namespace LocalTrans

open Foundation

/-- What the user sees of a file: its sanitised name, its directories and its size. -/
abbrev FileKey := Option String × List String × Nat

/-- The key of an offered file; one without an acceptable name has none that can be received. -/
def OfferFile.key (file : OfferFile) : FileKey :=
  ((sanitizeFileName file.name).toOption, sanitizeRelDir file.relDir, file.size)

/-- The key of a file that was received. -/
def Receipt.key (receipt : Receipt) : FileKey :=
  (some receipt.name, receipt.dir, receipt.placed.content.length)

/-- The key of an entry of the stream of small files. -/
def SmallEntry.key (entry : SmallEntry) : FileKey :=
  (some entry.name, sanitizeRelDir entry.rel, entry.data.length)

/-- The key an instant small file was offered under. -/
def InstantFile.key (item : InstantFile) : FileKey :=
  ((sanitizeFileName item.name).toOption, sanitizeRelDir item.relDir, item.size)

/-- The keys of some offered files, with how often each was offered. -/
def offeredKeys (files : List OfferFile) : Multiset FileKey :=
  (files.map OfferFile.key : List FileKey)

/-- The keys of the instant files. -/
def instantKeys (items : List InstantFile) : Multiset FileKey :=
  (items.map InstantFile.key : List FileKey)

/-- The receipts of a history. -/
def receipts (trace : List InboundEvent) : List Receipt :=
  trace.filterMap fun
    | .received receipt => some receipt
    | _ => none

/-- The keys of all that was received. -/
def receivedKeys (trace : List InboundEvent) : Multiset FileKey :=
  ((receipts trace).map Receipt.key : List FileKey)

/-- A file is put under its name in its directory, or under a numbered variant of the name. -/
def Receipt.WellPlaced (platform : Platform) (root : Location) (receipt : Receipt) : Prop :=
  ∃ name, (name = receipt.name ∨ ∃ i, name = countedName receipt.name i ∨
      name = numberedName platform.style receipt.name i) ∧
    receipt.placed.place = platform.join (platform.joinAll root receipt.dir) name

variable {outcome : SmallOutcome}

section Steps

variable {hash : List UInt8 → String} {format : IndexFormat} {platform : Platform}
  {fs next : FileSystem} {root : Location} {placed : Placed} {trace emitted : List InboundEvent}
  {files : List OfferFile}

@[simp] theorem receipts_append :
    receipts (trace ++ emitted) = receipts trace ++ receipts emitted := by
  simp [receipts]

@[simp] theorem received_keys_append :
    receivedKeys (trace ++ emitted) = receivedKeys trace + receivedKeys emitted := by
  simp [receivedKeys]

/-- What `write_small_file` has written. -/
theorem write_small_ok {destDir : Location} {name : String} {data : List UInt8}
    {outcome : FileOutcome}
    (h : writeSmallFile platform fs destDir name data outcome = (next, .ok placed)) :
    placed.content = data ∧ next = fs.newFile placed.place data ∧ fs.present placed.place = false ∧
      ∃ i, placed.place = smallCandidate platform destDir name i := by
  unfold writeSmallFile at h
  split at h
  · cases h
  · next i hfree =>
    cases outcome with
    | done =>
      cases h
      refine ⟨rfl, rfl, ?_, i, rfl⟩
      exact first_free_spec hfree
    | broken written => cases h
    | refused => cases h

/-- What receiving one small file has done: it is new in its directory, and the index is saved. -/
theorem recv_small_ok {entry : SmallEntry}
    (h : recvSmallFile hash format platform fs root entry outcome = (next, .ok placed)) :
    let destDir := platform.joinAll root (sanitizeRelDir entry.rel)
    placed.content = entry.data ∧ (fs.createDirAll destDir).present placed.place = false ∧
      (∃ i, placed.place = smallCandidate platform destDir entry.name i) ∧
      next = saveIndex format ((fs.createDirAll destDir).newFile placed.place entry.data) root
        ((loadIndex format ((fs.createDirAll destDir).newFile placed.place entry.data) root).insert
          (hash entry.data) placed.place entry.data.length) outcome.indexSaved := by
  intro destDir
  unfold recvSmallFile at h
  split at h
  · cases h
  · dsimp only at h
    split at h
    · cases h
    · next after placed' hwrite =>
      cases h
      obtain ⟨hcontent, rfl, hfree, i, hplace⟩ := write_small_ok hwrite
      exact ⟨hcontent, hfree, ⟨i, hplace⟩, rfl⟩

/-- A small file from the stream is put under its name in its directory. -/
theorem small_receipt_placed {entry : SmallEntry}
    (h : recvSmallFile hash format platform fs root entry outcome = (next, .ok placed)) :
    (entry.receipt placed).WellPlaced platform root := by
  obtain ⟨-, -, ⟨i, hplace⟩, -⟩ := recv_small_ok h
  unfold smallCandidate at hplace
  split at hplace
  · exact ⟨entry.name, .inl rfl, hplace⟩
  · exact ⟨countedName entry.name i, .inr ⟨i, .inl rfl⟩, hplace⟩

variable {src : Location} {fileName : String}

/-- A copy is put under one of the names that are tried. -/
theorem dedup_target_candidate {destDir target : Location}
    (h : dedupTarget platform fs src destDir fileName = some target) :
    ∃ i, target = dedupCandidate platform destDir fileName i := by
  obtain ⟨i, -, rfl⟩ := Option.map_eq_some_iff.mp h
  exact ⟨i, rfl⟩

/-- A copy is put under the name in the directory. -/
theorem copy_well_placed {names : List String}
    (h : dedupTarget platform fs src (platform.joinAll root names) fileName = some placed.place) :
    ({ name := fileName, dir := names, placed } : Receipt).WellPlaced platform root := by
  obtain ⟨i, hplace⟩ := dedup_target_candidate h
  unfold dedupCandidate at hplace
  split at hplace
  · exact ⟨fileName, .inl rfl, hplace⟩
  · exact ⟨numberedName platform.style fileName i, .inr ⟨i, .inr rfl⟩, hplace⟩

/-- An instant file that was placed: the copy, under the name as it was offered. -/
theorem place_instant_ok {index after : InboxIndex} {item : InstantFile} {outcome : PlaceOutcome}
    {receipt : Receipt}
    (h : placeInstant platform fs root index item outcome = (next, after, some receipt)) :
    ∃ placed, receipt = { name := item.name, dir := sanitizeRelDir item.relDir, placed } ∧
      placeDedupCopy platform fs item.src (item.destDir platform root) item.name outcome =
        (next, .ok placed) ∧
      after = index.insert item.hash placed.place item.size := by
  unfold placeInstant at h
  split at h
  · cases h
  · next hcopy =>
    cases h
    exact ⟨_, rfl, hcopy, rfl⟩

/-- Where a pushed large file is put: beside the file that is copied for an instant hit, or under
the name that `finalize` chooses. -/
def pushPlace (format : IndexFormat) (platform : Platform) (fs : FileSystem) (root : Location)
    (file : OfferFile) (answer : MetaResp) (fileName : String) : Option Location :=
  let destDir := offeredDir platform root file
  match instantHit format fs root answer with
  | some (_, src) => dedupTarget platform (fs.createDirAll destDir) src destDir fileName
  | none => some (finalPlace platform fs destDir fileName)

variable {answer : MetaResp}

/-- Where a copy is put. -/
theorem push_place_hit {file : OfferFile} {found : String}
    (h : instantHit format fs root answer = some (found, src)) :
    pushPlace format platform fs root file answer fileName =
      dedupTarget platform (fs.createDirAll (offeredDir platform root file)) src
        (offeredDir platform root file) fileName := by
  unfold pushPlace
  rw [h]

/-- Where a file is put that is fetched in chunks. -/
theorem push_place_chunked {file : OfferFile} (h : instantHit format fs root answer = none) :
    pushPlace format platform fs root file answer fileName =
      some (finalPlace platform fs (offeredDir platform root file) fileName) := by
  unfold pushPlace
  rw [h]

/-- What a push accepts of an answer: an acceptable name and the size of the offer. -/
theorem recv_push_accepts {file : OfferFile} {answer : Except EngineError MetaResp}
    {arrivals : List Arrival} {outcome : PartOutcome} {instant : InstantOutcome}
    (h : recvPushLargeFile hash format platform fs root file answer arrivals outcome instant =
      (next, .ok placed)) :
    ∃ found fileName, answer = .ok found ∧ sanitizeFileName found.fileName = .ok fileName ∧
      found.totalSize = file.size ∧
      pushPlace format platform fs root file found fileName = some placed.place := by
  unfold recvPushLargeFile at h
  split at h
  · cases h
  next answer =>
  split at h
  · cases h
  next fileName hname =>
  split at h
  · cases h
  next hsize =>
  refine ⟨answer, fileName, rfl, hname, not_not.mp hsize, ?_⟩
  split at h
  · next found src hhit =>
    rw [push_place_hit hhit]
    dsimp only at h
    split at h
    · cases h
    · next hcopy =>
      cases h
      exact (place_dedup_ok hcopy).1
  · next hmiss =>
    rw [push_place_chunked hmiss]
    dsimp only at h
    split at h
    · cases h
    · next hreceive =>
      have hplace := (receive_chunked_ok hreceive).2.1
      split at h
      · cases h
        exact congrArg some hplace.symm
      · cases h
        exact congrArg some hplace.symm

/-- A pushed large file is put under the name of the answer. -/
theorem large_receipt_placed {file : OfferFile}
    (h : pushPlace format platform fs root file answer fileName = some placed.place) :
    ({ name := fileName, dir := sanitizeRelDir file.relDir, placed } : Receipt).WellPlaced platform
      root := by
  unfold pushPlace at h
  dsimp only at h
  split at h
  · exact copy_well_placed h
  · have hplace := (Option.some.inj h).symm
    unfold finalPlace finalName at hplace
    rcases PartWriter.resolve_conflict_variant platform.style
      (fun name => (fs.createDirAll (offeredDir platform root file)).present
        (platform.join (offeredDir platform root file) name)) fileName with hname | ⟨i, hname⟩
    · exact ⟨fileName, .inl rfl, by rw [hplace, hname]; rfl⟩
    · exact ⟨_, .inr ⟨i, .inr rfl⟩, by rw [hplace, hname]; rfl⟩

end Steps

section Plan

variable {index : InboxIndex} {file : OfferFile} {files : List OfferFile} {item : InstantFile}

/-- A small file that is skipped has its data in the index. -/
theorem instant_of_skipped (h : skipBit index file = true) :
    ∃ item, instantOf index file = some item ∧ item.key = file.key := by
  unfold skipBit at h
  rw [Bool.and_eq_true] at h
  cases hhash : file.hash with
  | none => simp [hhash] at h
  | some hash =>
    rw [hhash, Option.bind_some] at h
    obtain ⟨src, hsrc⟩ := Option.isSome_iff_exists.mp h.2
    refine ⟨{ hash, src, size := file.size, relDir := file.relDir, name := file.name }, ?_, rfl⟩
    simp [instantOf, hhash, hsrc]

/-- Each offered file is in exactly one part of the plan. -/
theorem plan_keys (index : InboxIndex) (files : List OfferFile) :
    offeredKeys (planOffer index files).small + instantKeys (planOffer index files).instants +
      offeredKeys (planOffer index files).large = offeredKeys files := by
  induction files with
  | nil => rfl
  | cons file rest ih =>
    have hcons : offeredKeys (file :: rest) = file.key ::ₘ offeredKeys rest := rfl
    rw [hcons, ← ih]
    unfold planOffer
    dsimp only
    by_cases hskip : skipBit index file = true
    · obtain ⟨item, hitem, hkey⟩ := instant_of_skipped hskip
      have hsmall : file.size ≤ smallFileLimit := by
        unfold skipBit at hskip
        simp only [Bool.and_eq_true, decide_eq_true_eq] at hskip
        exact hskip.1
      have hlarge : ¬ smallFileLimit < file.size := by omega
      simp only [List.filter_cons, hskip, hlarge, Bool.not_true, Bool.and_false, if_true,
        Bool.false_eq_true, if_false, decide_false, List.filterMap_cons, hitem]
      simp only [instantKeys, List.map_cons, hkey, ← Multiset.cons_coe, Multiset.add_cons,
        Multiset.cons_add]
    · by_cases hsmall : file.size ≤ smallFileLimit
      · have hlarge : ¬ smallFileLimit < file.size := by omega
        simp only [List.filter_cons, hskip, hlarge, hsmall, Bool.not_false, Bool.and_true, if_true,
          Bool.false_eq_true, if_false, decide_false, decide_true]
        simp only [offeredKeys, List.map_cons, ← Multiset.cons_coe, Multiset.cons_add]
      · have hlarge : smallFileLimit < file.size := by omega
        simp only [List.filter_cons, hskip, hlarge, hsmall, Bool.not_false, Bool.and_true, if_true,
          Bool.false_eq_true, if_false, decide_false, decide_true]
        simp only [offeredKeys, List.map_cons, ← Multiset.cons_coe, Multiset.add_cons]

end Plan

/-- The condition on one step: an entry of the stream is one of the small files that are still to
come, an instant file was offered under its sanitised name and its source has the size, and the
answer for a large file that the code accepts has its name and leads to a file of its size. -/
def consentGuard (format : IndexFormat) (root : Location) :
    Guard Inbound InboundInput InboundEvent :=
  fun trace task input =>
    match input, task.phase with
    | .entry _, .entries plan stream =>
      match nextEntry stream.bytes stream.clean with
      | .entry entry _ => entry.key ∈ offeredKeys plan.small - receivedKeys trace
      | _ => True
    | .instant _, .instants (item :: _) _ _ =>
      (sanitizeFileName item.name).toOption = some item.name ∧
        ((task.fs.contentAt item.src).getD []).length = item.size
    | .large (.ok answer) _ _ _, .large (file :: _) =>
      answer.totalSize ≠ file.size ∨ (sanitizeFileName answer.fileName).toOption = none ∨
        (sanitizeFileName answer.fileName).toOption = (sanitizeFileName file.name).toOption ∧
          pushedLength format task.fs root answer = file.size
    | _, _ => True

instance (format : IndexFormat) (root : Location) (trace : List InboundEvent) (task : Inbound)
    (input : InboundInput) : Decidable (consentGuard format root trace task input) := by
  unfold consentGuard
  induction input using InboundInput.casesOn with
  | entry =>
    induction task.phase using InboundPhase.casesOn with
    | entries _ stream =>
      dsimp only
      induction nextEntry stream.bytes stream.clean using BatchFront.casesOn <;> infer_instance
    | _ => infer_instance
  | instant =>
    induction task.phase using InboundPhase.casesOn with
    | instants items => induction items using List.casesOn <;> infer_instance
    | _ => infer_instance
  | large answer =>
    induction answer using Except.casesOn with
    | error => infer_instance
    | ok =>
      induction task.phase using InboundPhase.casesOn with
      | large files => induction files using List.casesOn <;> infer_instance
      | _ => infer_instance
  | _ => infer_instance

section Runs

variable {hash : List UInt8 → String} {format : IndexFormat} {platform : Platform}
  {root : Location} {files : List OfferFile} {task next : Inbound}
  {trace emitted : List InboundEvent} {input : InboundInput}

/-- What has been received and what is still to come is offered. -/
def Open (files : List OfferFile) (done : Multiset FileKey) : InboundPhase → Prop
  | .small plan =>
    done = 0 ∧ offeredKeys plan.small + instantKeys plan.instants + offeredKeys plan.large ≤
      offeredKeys files
  | .entries plan _ =>
    done ≤ offeredKeys plan.small ∧
      offeredKeys plan.small + instantKeys plan.instants + offeredKeys plan.large ≤
        offeredKeys files
  | .instants left _ large => done + instantKeys left + offeredKeys large ≤ offeredKeys files
  | .large left => done + offeredKeys left ≤ offeredKeys files
  | .ended => done ≤ offeredKeys files

/-- When the small files have come, what has been received and the rest is offered. -/
theorem open_after_small {plan : OfferPlan} {done : Multiset FileKey}
    (hdone : done ≤ offeredKeys plan.small)
    (hplan : offeredKeys plan.small + instantKeys plan.instants + offeredKeys plan.large ≤
      offeredKeys files) : Open files done (Inbound.afterSmall plan) := by
  have hall : done + instantKeys plan.instants + offeredKeys plan.large ≤ offeredKeys files :=
    le_trans (add_le_add_left (add_le_add_left hdone _) _) hplan
  unfold Inbound.afterSmall
  split
  · next hempty =>
    have hnone : plan.instants = [] := List.isEmpty_iff.mp hempty
    rw [hnone] at hall
    simpa [Open, instantKeys] using hall
  · exact hall

/-- An offer that has just been accepted. -/
theorem open_accept {fs : FileSystem} :
    Open files 0 (Inbound.accept format fs root files).phase := by
  have hplan := plan_keys ((loadIndex format fs root).pruneMissing fs.present) files
  unfold Inbound.accept
  dsimp only
  split
  · exact open_after_small (Multiset.zero_le _) (le_of_eq hplan)
  · exact ⟨rfl, le_of_eq hplan⟩

/-- Whatever has been received by then, the task can end. -/
theorem Open.done_le {done : Multiset FileKey} {phase : InboundPhase} (h : Open files done phase) :
    done ≤ offeredKeys files := by
  cases phase with
  | small plan =>
    rw [h.1]
    exact Multiset.zero_le _
  | entries plan stream =>
    refine h.1.trans (le_trans ?_ h.2)
    rw [add_assoc]
    exact Multiset.le_add_right _ _
  | instants left index large =>
    refine le_trans ?_ h
    rw [add_assoc]
    exact Multiset.le_add_right _ _
  | large left => exact le_trans (Multiset.le_add_right _ _) h
  | ended => exact h

/-- The event of one received file. -/
theorem received_keys_singleton {receipt : Receipt} :
    receivedKeys [.received receipt] = {receipt.key} := rfl

/-- The file that one step receives, and what becomes of the task. -/
structure Accounted (platform : Platform) (root : Location) (files : List OfferFile)
    (trace emitted : List InboundEvent) (next : Inbound) : Prop where
  still : Open files (receivedKeys trace + receivedKeys emitted) next.phase
  placed : ∀ receipt ∈ receipts emitted, receipt.WellPlaced platform root

/-- A step that receives nothing. -/
theorem Accounted.silent (h : Open files (receivedKeys trace) next.phase)
    (hnone : receipts emitted = []) : Accounted platform root files trace emitted next where
  still := by
    have hzero : receivedKeys emitted = 0 := by simp [receivedKeys, hnone]
    rw [hzero, add_zero]
    exact h
  placed := by simp [hnone]

/-- An entry of the stream is received. -/
theorem accounted_entry (h : Open files (receivedKeys trace) task.phase)
    (hguard : consentGuard format root trace task (.entry outcome))
    (hstep : Inbound.step hash format platform root task (.entry outcome) = some (next, emitted)) :
    Accounted platform root files trace emitted next := by
  obtain ⟨fs, phase⟩ := task
  cases phase with
  | entries plan stream =>
    have hopen : Open files (receivedKeys trace) (.entries plan stream) := h
    obtain ⟨hdone, hplan⟩ := h
    unfold Inbound.step at hstep
    unfold consentGuard at hguard
    dsimp only at hstep hguard
    split at hstep
    · cases hstep
      exact .silent (open_after_small hdone hplan) rfl
    · cases hstep
      exact .silent hopen.done_le rfl
    · next entry rest hentry =>
      rw [hentry] at hguard
      split at hstep
      · cases hstep
        exact .silent hopen.done_le rfl
      · next fs' placed hreceive =>
        cases hstep
        have hkey : (entry.receipt placed).key = entry.key := by
          show (some entry.name, sanitizeRelDir entry.rel, placed.content.length) = _
          rw [(recv_small_ok hreceive).1]
          rfl
        refine ⟨⟨?_, hplan⟩, fun receipt hmem => ?_⟩
        · rw [received_keys_singleton, hkey, add_comm]
          -- The entry is still to come, so there is room for it among the small files.
          rw [← Multiset.sub_add_cancel hdone]
          exact Multiset.add_le_add_iff_right.mpr (Multiset.singleton_le.mpr hguard)
        · rw [show receipts [.received (entry.receipt placed)] = [entry.receipt placed] from rfl,
            List.mem_singleton] at hmem
          rw [hmem]
          exact small_receipt_placed hreceive
  | small | instants | large | ended => cases hstep

/-- An instant file is placed. -/
theorem accounted_instant {outcome : PlaceOutcome}
    (h : Open files (receivedKeys trace) task.phase)
    (hguard : consentGuard format root trace task (.instant outcome))
    (hstep : Inbound.step hash format platform root task (.instant outcome) = some (next, emitted)) :
    Accounted platform root files trace emitted next := by
  obtain ⟨fs, phase⟩ := task
  cases phase with
  | instants left index large =>
    cases left with
    | nil => cases hstep
    | cons item left =>
      obtain ⟨hname, hsize⟩ := hguard
      have hcons : instantKeys (item :: left) = {item.key} + instantKeys left := rfl
      have hopen : receivedKeys trace + {item.key} + instantKeys left + offeredKeys large ≤
          offeredKeys files := by
        have hopen : receivedKeys trace + instantKeys (item :: left) + offeredKeys large ≤
          offeredKeys files := h
        rwa [hcons, ← add_assoc] at hopen
      unfold Inbound.step at hstep
      dsimp only at hstep
      split at hstep
      · cases hstep
        refine .silent (le_trans ?_ hopen) rfl
        exact add_le_add_left (add_le_add_left (Multiset.le_add_right _ _) _) _
      · next fs' after receipt hplace =>
        cases hstep
        obtain ⟨placed, rfl, hcopy, -⟩ := place_instant_ok hplace
        obtain ⟨htarget, hcontent, -⟩ := place_dedup_ok hcopy
        have hkey : Receipt.key { name := item.name, dir := sanitizeRelDir item.relDir, placed } =
            item.key := by
          show (some item.name, sanitizeRelDir item.relDir, placed.content.length) = _
          rw [hcontent, hsize, ← hname]
          rfl
        refine ⟨?_, fun receipt hmem => ?_⟩
        · rw [received_keys_singleton, hkey]
          exact hopen
        · rw [List.mem_singleton.mp hmem]
          exact copy_well_placed htarget
  | small | entries | large | ended => cases hstep

/-- A large file is received. -/
theorem accounted_large {answer : Except EngineError MetaResp} {arrivals : List Arrival}
    {outcome : PartOutcome} {instant : InstantOutcome}
    (h : Open files (receivedKeys trace) task.phase)
    (hguard : consentGuard format root trace task (.large answer arrivals outcome instant))
    (hstep : Inbound.step hash format platform root task
      (.large answer arrivals outcome instant) = some (next, emitted)) :
    Accounted platform root files trace emitted next := by
  obtain ⟨fs, phase⟩ := task
  cases phase with
  | large left =>
    cases left with
    | nil => cases hstep
    | cons file left =>
      unfold Inbound.step at hstep
      dsimp only at hstep
      split at hstep
      · cases hstep
        have hopen : Open files (receivedKeys trace) (.large (file :: left)) := h
        exact .silent hopen.done_le rfl
      · next fs' placed hpush =>
        cases hstep
        obtain ⟨found, fileName, rfl, hname, hsize, hplace⟩ := recv_push_accepts hpush
        have hlength := recv_push_ok hpush
        have hclean : (sanitizeFileName found.fileName).toOption = some fileName := by
          rw [hname]
          rfl
        obtain hrefused | hrefused | ⟨hsame, hpushed⟩ := hguard
        · exact absurd hsize hrefused
        · rw [hclean] at hrefused
          cases hrefused
        have hgiven : (largeName (.ok found)).getD "" = fileName := by
          show (sanitizeFileName found.fileName).toOption.getD "" = fileName
          rw [hclean]
          rfl
        have hkey : (some fileName, sanitizeRelDir file.relDir, placed.content.length) =
            file.key := by
          rw [hlength, hpushed, ← hclean, hsame]
          rfl
        rw [hgiven]
        refine ⟨?_, fun receipt hmem => ?_⟩
        · have hopen : receivedKeys trace + offeredKeys (file :: left) ≤ offeredKeys files := h
          rw [received_keys_singleton]
          unfold Receipt.key
          dsimp only
          rw [hkey]
          show receivedKeys trace + {file.key} + offeredKeys left ≤ offeredKeys files
          rw [add_assoc]
          exact hopen
        · rw [List.mem_singleton.mp hmem]
          exact large_receipt_placed hplace
  | small | entries | instants | ended => cases hstep

/-- One step of the receive task. -/
theorem step_accounted (h : Open files (receivedKeys trace) task.phase)
    (hguard : consentGuard format root trace task input)
    (hstep : Inbound.step hash format platform root task input = some (next, emitted)) :
    Accounted platform root files trace emitted next := by
  cases input with
  | accept accepted =>
    obtain ⟨fs, phase⟩ := task
    cases phase with
    | small plan =>
      have hopen : Open files (receivedKeys trace) (.small plan) := h
      obtain ⟨hdone, hplan⟩ := h
      cases accepted with
      | error error =>
        cases hstep
        exact .silent hopen.done_le rfl
      | ok stream =>
        cases hstep
        refine .silent ⟨?_, hplan⟩ rfl
        rw [hdone]
        exact Multiset.zero_le _
    | entries | instants | large | ended => cases hstep
  | entry outcome => exact accounted_entry h hguard hstep
  | instant outcome => exact accounted_instant h hguard hstep
  | saveIndex saved =>
    obtain ⟨fs, phase⟩ := task
    cases phase with
    | instants left index large =>
      cases left with
      | nil =>
        cases hstep
        refine .silent ?_ rfl
        have hopen : receivedKeys trace + instantKeys [] + offeredKeys large ≤
          offeredKeys files := h
        simpa [Open, instantKeys] using hopen
      | cons item left => cases hstep
    | small | entries | large | ended => cases hstep
  | large answer arrivals outcome instant => exact accounted_large h hguard hstep
  | report =>
    obtain ⟨fs, phase⟩ := task
    cases phase with
    | large left =>
      cases left with
      | nil =>
        cases hstep
        have hopen : Open files (receivedKeys trace) (.large []) := h
        exact .silent hopen.done_le rfl
      | cons file left => cases hstep
    | small | entries | instants | ended => cases hstep

/-- The history so far, and where the task is. -/
def Consented (platform : Platform) (root : Location) (files : List OfferFile)
    (trace : List InboundEvent) (task : Inbound) : Prop :=
  Open files (receivedKeys trace) task.phase ∧
    ∀ receipt ∈ receipts trace, receipt.WellPlaced platform root

end Runs

/-- In a run whose steps all meet the condition, what is received is part of what was offered, each
file at most as often as it was offered, and put under its name in its directory. -/
theorem only_offered_received (hash : List UInt8 → String) (format : IndexFormat)
    (platform : Platform) {fs : FileSystem} {root : Location} {files : List OfferFile}
    {inputs : List InboundInput} {trace : List InboundEvent} {task : Inbound}
    (h : Exec (Inbound.step hash format platform root) (consentGuard format root)
      (Inbound.accept format fs root files) inputs trace task) :
    receivedKeys trace ≤ offeredKeys files ∧
      ∀ receipt ∈ receipts trace, receipt.WellPlaced platform root := by
  suffices hinv : Consented platform root files trace task from ⟨hinv.1.done_le, hinv.2⟩
  refine h.invariant ?_ ?_
  · exact ⟨open_accept, by simp [receipts]⟩
  · intro trace task input next emitted hinv hguard hstep
    obtain ⟨hstill, hplaced⟩ := step_accounted hinv.1 hguard hstep
    refine ⟨by rw [received_keys_append]; exact hstill, fun receipt hmem => ?_⟩
    rw [receipts_append] at hmem
    rcases List.mem_append.mp hmem with hold | hnew
    · exact hinv.2 receipt hold
    · exact hplaced receipt hnew

/-- An offer of one small file, `a`, of one byte. -/
def smallOffer : List OfferFile :=
  [{ name := "a", size := 1, relDir := "", hash := none }]

/-- A stream with one file of one byte, under a name of one letter. -/
def sampleBatch (letter : UInt8) : BatchStream :=
  { bytes := [0, 1, letter, 0, 0, 0, 0, 0, 0, 0, 0, 0, 1, 97], clean := true }

/-- How a small file goes on the disk when nothing fails. -/
def smallSmooth : SmallOutcome :=
  { dirMade := true, write := .done, indexSaved := true }

/-- The stream is accepted and read to its end, and the end of the offer is reported. -/
def smallRun (stream : BatchStream) : List InboundInput :=
  [.accept (.ok stream), .entry smallSmooth, .entry smallSmooth, .report]

/-- The offered file comes, and nothing else. -/
theorem offered_file_received :
    ∃ trace task,
      Exec (Inbound.step shortHash unreadableIndex unixPlatform sampleRoot)
        (consentGuard unreadableIndex sampleRoot)
        (Inbound.accept unreadableIndex sampleDownloads sampleRoot smallOffer)
        (smallRun (sampleBatch 97)) trace task ∧
      (receipts trace).length = 1 ∧ receivedKeys trace ≤ offeredKeys smallOffer := by
  obtain ⟨task, hexec⟩ := exec_of_run
    (Inbound.step shortHash unreadableIndex unixPlatform sampleRoot)
    (consentGuard unreadableIndex sampleRoot)
    (Inbound.accept unreadableIndex sampleDownloads sampleRoot smallOffer)
    (smallRun (sampleBatch 97)) (by decide)
  exact ⟨_, task, hexec, by decide, (only_offered_received _ _ _ hexec).1⟩

/-- A file `b` comes instead of the offered file, and is received. -/
theorem other_file_received :
    ¬ ∀ (hash : List UInt8 → String) (format : IndexFormat) (platform : Platform)
        (fs : FileSystem) (root : Location) (files : List OfferFile) (inputs : List InboundInput)
        (trace : List InboundEvent) (task : Inbound),
      Exec (Inbound.step hash format platform root) Guard.free
        (Inbound.accept format fs root files) inputs trace task →
      receivedKeys trace ≤ offeredKeys files := by
  intro hall
  obtain ⟨task, hexec⟩ := exec_of_run
    (Inbound.step shortHash unreadableIndex unixPlatform sampleRoot) Guard.free
    (Inbound.accept unreadableIndex sampleDownloads sampleRoot smallOffer)
    (smallRun (sampleBatch 98)) (by decide)
  exact absurd (hall _ _ _ _ _ _ _ _ _ hexec) (by decide)

end LocalTrans
