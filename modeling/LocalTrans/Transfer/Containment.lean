import LocalTrans.Transfer.Inbound

/-!
# Where received files go

`Contained` says that what an operation makes lies strictly inside one of the chosen directories.
Names that have been sanitised lead to an entry of the directory they are joined to; the copies of
instant small files go under the name as it was offered, and may lead anywhere.
-/

namespace LocalTrans

open Foundation

namespace FileSystem

/-- A directory is there, with those on the way to it. -/
def HasDir (fs : FileSystem) (dir : Location) : Prop :=
  ∀ place ∈ wayTo dir, fs.present place = true

/-- Everything new is strictly inside one of the roots, and nothing is gone. -/
structure Contained (roots : List Location) (fs next : FileSystem) : Prop where
  made : ∃ new, next.created = fs.created ++ new ∧ ∀ place ∈ new, ∃ root ∈ roots, root.Inside place
  grows : ∀ place, fs.present place = true → next.present place = true

variable {roots : List Location} {fs next last : FileSystem} {root dir place : Location}
  {names : List String} {node : Node} {content : List UInt8}

/-- Where nothing is done, nothing is made. -/
theorem Contained.refl : Contained roots fs fs :=
  ⟨⟨[], by simp, by simp⟩, fun _ hpresent => hpresent⟩

/-- One operation after the other. -/
theorem Contained.trans (h : Contained roots fs next) (hnext : Contained roots next last) :
    Contained roots fs last := by
  obtain ⟨new, hnew, hinside⟩ := h.made
  obtain ⟨more, hmore, hmoreInside⟩ := hnext.made
  refine ⟨⟨new ++ more, by rw [hmore, hnew, List.append_assoc], fun place hmem => ?_⟩,
    fun place hpresent => hnext.grows place (h.grows place hpresent)⟩
  rcases List.mem_append.mp hmem with hold | hlate
  · exact hinside place hold
  · exact hmoreInside place hlate

/-- A directory that is there stays. -/
theorem Contained.hasDir (h : Contained roots fs next) (hdir : fs.HasDir dir) : next.HasDir dir :=
  fun place hmem => h.grows place (hdir place hmem)

/-- What lies on the way to a directory below the root, beyond what is there, is inside. -/
theorem inside_of_way (hdir : fs.HasDir root) (hmem : place ∈ wayTo (root.below names))
    (habsent : fs.present place = false) : root.Inside place := by
  obtain ⟨i, hi, rfl⟩ := List.mem_map.mp hmem
  rw [List.mem_range] at hi
  by_cases hroot : i < root.names.length
  · -- This directory is on the way to the root, and would be there.
    have hthere : { root with names := root.names.take (i + 1) } ∈ wayTo root :=
      List.mem_map.mpr ⟨i, List.mem_range.mpr hroot, rfl⟩
    have hsame : (root.below names).names.take (i + 1) = root.names.take (i + 1) := by
      show (root.names ++ names).take (i + 1) = _
      rw [List.take_append_of_le_length (by omega)]
    have hpresent := hdir _ hthere
    rw [← hsame] at hpresent
    rw [show (root.below names) = { root with names := (root.below names).names } from rfl] at habsent
    rw [habsent] at hpresent
    cases hpresent
  · refine ⟨rfl, ?_, ?_⟩
    · show root.names <+: (root.names ++ names).take (i + 1)
      rw [List.take_append, List.take_of_length_le (by omega)]
      exact List.prefix_append _ _
    · show root.names.length < ((root.below names).names.take (i + 1)).length
      rw [List.length_take]
      omega

/-- Making a directory below the root. -/
theorem createDirAll_contained (names : List String) (hdir : fs.HasDir root)
    (hroot : root ∈ roots) : Contained roots fs (fs.createDirAll (root.below names)) := by
  refine ⟨⟨_, rfl, fun place hmem => ⟨root, hroot, ?_⟩⟩, fun place hpresent => ?_⟩
  · obtain ⟨hway, habsent⟩ := List.mem_filter.mp hmem
    exact inside_of_way hdir hway (by simpa using habsent)
  · unfold present
    rw [createDirAll_tree hpresent]
    exact hpresent

/-- Putting something inside the root. -/
theorem link_contained (hplace : root.Inside place) (hroot : root ∈ roots) :
    Contained roots fs (fs.link place node) := by
  refine ⟨⟨[place], rfl, fun made hmem => ?_⟩, fun other hpresent => ?_⟩
  · rw [List.mem_singleton.mp hmem]
    exact ⟨root, hroot, hplace⟩
  · unfold present
    by_cases hsame : other = place
    · subst hsame
      rw [link_tree_self]
      rfl
    · rw [link_tree_other hsame]
      exact hpresent

/-- Writing a file inside the root. -/
theorem newFile_contained (hplace : root.Inside place) (hroot : root ∈ roots) :
    Contained roots fs (fs.newFile place content) := by
  have hlink : Contained roots fs (fs.link place (.file fs.disk.nextFile)) :=
    link_contained hplace hroot
  exact ⟨hlink.made, hlink.grows⟩

/-- Writing a file or a part of it inside the root. -/
theorem writeNew_contained (outcome : FileOutcome) (hplace : root.Inside place)
    (hroot : root ∈ roots) : Contained roots fs (fs.writeNew place content outcome).1 := by
  cases outcome with
  | done => exact newFile_contained hplace hroot
  | broken written => exact newFile_contained hplace hroot
  | refused => exact .refl

/-- The job directories do not matter. -/
theorem Contained.disk (h : Contained roots fs next) (disk : Disk) :
    Contained roots fs { next with disk } :=
  ⟨h.made, h.grows⟩

end FileSystem

open FileSystem (Contained HasDir)

section Operations

variable {hash : List UInt8 → String} {format : IndexFormat} {platform : Platform}
  {roots : List Location} {fs : FileSystem} {root partsRoot : Location} {names : List String}
  {name : String}

/-- Plain names lead down from a directory one by one. -/
theorem join_all_plain (h : ∀ name ∈ names, PlainName name) :
    platform.joinAll root names = root.below names := by
  unfold Platform.joinAll
  induction names generalizing root with
  | nil => simp [Location.below]
  | cons name rest ih =>
    have hname : platform.join root name = root.child name :=
      (h name (List.mem_cons_self ..)).join_eq
    rw [List.foldl_cons, hname, ih fun other hmem => h other (List.mem_cons_of_mem _ hmem)]
    simp [Location.below, Location.child]

/-- An entry of a directory below the root. -/
theorem join_inside (h : PlainName name) : root.Inside (platform.join (root.below names) name) := by
  have hchild : platform.join (root.below names) name = (root.below names).child name := h.join_eq
  rw [hchild]
  exact Location.inside_child (Location.below_or root names)

/-- The index file is an entry of the root. -/
theorem save_index_contained (index : InboxIndex) (saved : Bool) (hroot : root ∈ roots) :
    Contained roots fs (saveIndex format fs root index saved) := by
  unfold saveIndex
  split
  · exact FileSystem.link_contained (Location.inside_child (.inl rfl)) hroot
  · exact .refl

/-- The names `write_small_file` tries. -/
theorem write_small_contained (platform : Platform) (names : List String) (data : List UInt8)
    (outcome : FileOutcome) (h : PlainName name) (hroot : root ∈ roots) :
    Contained roots fs (writeSmallFile platform fs (root.below names) name data outcome).1 := by
  unfold writeSmallFile
  split
  · exact .refl
  · refine FileSystem.writeNew_contained outcome ?_ hroot
    unfold smallCandidate
    split
    · exact join_inside h
    · exact join_inside (counted_name_plain h _)

/-- An entry of the stream of small files keeps the name it was read with. -/
theorem read_body_name {stream rest : List UInt8} {entry : SmallEntry}
    (h : readBody name stream = .entry entry rest) : entry.name = name := by
  unfold readBody at h
  split at h
  · cases h
  · split at h
    · cases h
    · dsimp only at h
      split at h
      · cases h
      · split at h
        · cases h
        · cases h
          rfl

/-- The name of an entry has been sanitised. -/
theorem next_entry_name {stream rest : List UInt8} {clean : Bool} {entry : SmallEntry}
    (h : nextEntry stream clean = .entry entry rest) :
    ∃ raw, sanitizeFileName raw = .ok entry.name := by
  unfold nextEntry at h
  split at h
  · cases h
  split at h
  · cases h
  split at h
  · cases h
  next raw stream _ =>
  split at h
  · cases h
  next name hname =>
  rw [read_body_name h]
  exact ⟨raw, hname⟩

/-- Receiving one small file. -/
theorem recv_small_contained {entry : SmallEntry} (outcome : SmallOutcome)
    (hname : PlainName entry.name) (hdir : fs.HasDir root) (hroot : root ∈ roots) :
    Contained roots fs (recvSmallFile hash format platform fs root entry outcome).1 := by
  unfold recvSmallFile
  split
  · exact .refl
  · dsimp only
    rw [join_all_plain sanitize_rel_dir_plain]
    have hmade := FileSystem.createDirAll_contained (sanitizeRelDir entry.rel) hdir hroot
    have hwritten := hmade.trans (write_small_contained platform (sanitizeRelDir entry.rel) entry.data
      outcome.write hname hroot)
    split
    · next hwrite =>
      rw [hwrite] at hwritten
      exact hwritten
    · next hwrite =>
      rw [hwrite] at hwritten
      exact hwritten.trans (save_index_contained _ _ hroot)

/-- The name that `resolve_name_conflict` chooses is a plain one. -/
theorem resolve_conflict_plain {style : PathStyle} {taken : String → Bool} (h : PlainName name) :
    PlainName (PartWriter.resolveNameConflict style taken name) := by
  unfold PartWriter.resolveNameConflict
  split
  · exact h
  · split
    · next candidate hfind =>
      obtain ⟨i, -, rfl⟩ := List.mem_map.mp (List.mem_of_find?_eq_some hfind)
      exact numbered_name_plain style h _
    · exact numbered_name_plain style h 100

/-- `finalize` into a directory below the root. -/
theorem finalize_into_contained {writer : PartWriter} (outcome : PartWriter.FinalizeOutcome)
    (hdir : fs.HasDir root) (hroot : root ∈ roots) :
    Contained roots fs (finalizeInto platform fs (root.below names) writer outcome).1 := by
  have hmade := FileSystem.createDirAll_contained names hdir hroot
  cases hresult : finalizeInto platform fs (root.below names) writer outcome with
  | mk next result =>
    cases result with
    | error error =>
      unfold finalizeInto at hresult
      dsimp only at hresult
      split at hresult
      · cases hresult
        split
        · exact hmade.disk _
        · exact Contained.refl.disk _
      · cases hresult
    | ok placed =>
      obtain ⟨file, after, -, -, ⟨name, hname⟩, hplace, -, -, rfl⟩ := finalize_into_ok hresult
      refine (hmade.disk after).trans (FileSystem.link_contained ?_ hroot)
      rw [hplace]
      exact join_inside (resolve_conflict_plain (plain_of_sanitize_ok hname))

/-- The places of a part writer are inside the directory of the parts. -/
theorem part_places_contained (job : Nat) (disk : Disk) (hparts : fs.HasDir partsRoot)
    (hroot : partsRoot ∈ roots) :
    Contained roots fs
      { disk, tree := fs.tree, created := fs.created ++ partPlaces fs partsRoot job } := by
  refine ⟨⟨_, rfl, fun place hmem => ⟨partsRoot, hroot, ?_⟩⟩, fun place hpresent => hpresent⟩
  have hjob : partsRoot.Inside (partsDir partsRoot job) := Location.inside_below (by simp)
  unfold partPlaces at hmem
  rcases List.mem_append.mp hmem with hway | hfile
  · obtain ⟨hway, habsent⟩ := List.mem_filter.mp hway
    exact FileSystem.inside_of_way hparts hway (by simpa using habsent)
  · simp only [List.mem_cons, List.not_mem_nil, or_false] at hfile
    rcases hfile with rfl | rfl
    · exact Location.inside_child (.inr hjob)
    · exact Location.inside_child (.inr hjob)

section Chunked

variable {job : Nat} {m : Manifest} {window : Nat → Nat} {arrivals : List Arrival}
  {outcome : PartOutcome}

/-- A chunked transfer into a directory below the root. -/
theorem receive_chunked_contained (hdir : fs.HasDir root) (hparts : fs.HasDir partsRoot)
    (hroot : root ∈ roots) (hpartsRoot : partsRoot ∈ roots) :
    Contained roots fs (receiveChunked hash platform fs partsRoot (root.below names) job m window
      arrivals outcome).1 := by
  have hplaces := fun disk => part_places_contained job disk hparts hpartsRoot
  unfold receiveChunked
  dsimp only
  split
  · next disk error _ => exact hplaces disk
  · split
    · exact hplaces _
    · next disk writer _ _ =>
      exact (hplaces disk).trans
        (finalize_into_contained outcome.finish ((hplaces disk).hasDir hdir) hroot)

/-- A pull into a directory below the root. -/
theorem start_pull_contained {source : Option String × Option String × Option String}
    {answer : Except EngineError MetaResp} {jobs : List Nat} (hdir : fs.HasDir root)
    (hparts : fs.HasDir partsRoot) (hroot : root ∈ roots) (hpartsRoot : partsRoot ∈ roots) :
    Contained roots fs (startPullParts hash platform fs partsRoot (root.below names) source answer
      jobs window arrivals outcome).1 := by
  unfold startPullParts
  split
  · exact .refl
  · next answer =>
    dsimp only
    split
    · have hplaces := fun job disk => part_places_contained job disk hparts hpartsRoot
      split
      · next disk error _ => exact hplaces _ disk
      · next disk writer _ =>
        have hopened := hplaces (chooseJobDir fs.disk jobs (Manifest.fromMetaWithSource answer.fileName
          answer.totalSize answer.chunkHashes source.1 source.2.1 source.2.2) answer.jobId) disk
        exact hopened.trans (finalize_into_contained outcome.finish (hopened.hasDir hdir) hroot)
    · exact receive_chunked_contained hdir hparts hroot hpartsRoot

end Chunked

section Copies

variable {src target : Location} {fileName : String}

/-- A plain name has its copy put inside. -/
theorem dedup_target_inside (h : PlainName fileName)
    (htarget : dedupTarget platform fs src (root.below names) fileName = some target) :
    root.Inside target := by
  unfold dedupTarget at htarget
  obtain ⟨i, -, rfl⟩ := Option.map_eq_some_iff.mp htarget
  unfold dedupCandidate
  split
  · exact join_inside h
  · exact join_inside (numbered_name_plain platform.style h _)

/-- If a copy is put anywhere, it is inside: the first candidate that is free, or is the source
itself, is inside, unless it is the source or there is nothing to copy. -/
def CopyInside (platform : Platform) (fs : FileSystem) (root src destDir : Location)
    (fileName : String) : Prop :=
  ∀ target, dedupTarget platform (fs.createDirAll destDir) src destDir fileName = some target →
    (fs.createDirAll destDir).sameFile src target = false → (fs.contentAt src).isSome = true →
      root.Inside target

instance : Decidable (CopyInside platform fs root src (root.below names) fileName) :=
  match h : dedupTarget platform (fs.createDirAll (root.below names)) src (root.below names) fileName with
  | none => isTrue (fun target htarget => by
      rw [h] at htarget
      cases htarget)
  | some target => decidable_of_iff
      ((fs.createDirAll (root.below names)).sameFile src target = false →
        (fs.contentAt src).isSome = true → root.Inside target)
      ⟨fun hall found hfound => by
          rw [h] at hfound
          cases hfound
          exact hall,
        fun hall => hall target h⟩

/-- Placing a copy that is put inside. -/
theorem place_dedup_contained (outcome : PlaceOutcome) (hdir : fs.HasDir root) (hroot : root ∈ roots)
    (h : CopyInside platform fs root src (root.below names) fileName) :
    Contained roots fs (placeDedupCopy platform fs src (root.below names) fileName outcome).1 := by
  have hmade := FileSystem.createDirAll_contained names hdir hroot
  unfold placeDedupCopy
  split
  · exact .refl
  · dsimp only
    split
    · exact hmade
    · next candidate htarget =>
      split
      · exact hmade
      · next hother =>
        split
        · next node content _ hcontent =>
          rw [FileSystem.createDirAll_contentAt] at hcontent
          have hinside := h candidate htarget (by simpa using hother) (by rw [hcontent]; rfl)
          split
          · exact hmade.trans (FileSystem.link_contained hinside hroot)
          · exact hmade.trans (FileSystem.writeNew_contained outcome.copy hinside hroot)
        · exact hmade

/-- A copy of a file whose name is plain. -/
theorem copy_inside_of_plain (h : PlainName fileName) :
    CopyInside platform fs root src (root.below names) fileName :=
  fun _ htarget _ _ => dedup_target_inside h htarget

/-- Everything is made inside, however the calls to the file system go, if and only if the copy
is put inside. -/
theorem place_dedup_contained_iff (hdir : fs.HasDir root) :
    (∀ outcome, Contained [root] fs
      (placeDedupCopy platform fs src (root.below names) fileName outcome).1) ↔
    CopyInside platform fs root src (root.below names) fileName := by
  constructor
  · intro h target htarget hother hcontent
    obtain ⟨content, hcontent⟩ := Option.isSome_iff_exists.mp hcontent
    -- The outcome that shows where the copy goes is a hard link that can be made.
    obtain ⟨new, hnew, hinside⟩ := (h { dirMade := true, linked := true, copy := .done }).made
    have hthere : (fs.createDirAll (root.below names)).contentAt src = some content := by
      rw [FileSystem.createDirAll_contentAt]
      exact hcontent
    have hnode : ∃ node, (fs.createDirAll (root.below names)).tree src = some node := by
      refine Option.isSome_iff_exists.mp ?_
      unfold FileSystem.contentAt at hthere
      cases htree : (fs.createDirAll (root.below names)).tree src with
      | none => simp [htree] at hthere
      | some node => rfl
    obtain ⟨node, hnode⟩ := hnode
    have hcreated : (placeDedupCopy platform fs src (root.below names) fileName
        { dirMade := true, linked := true, copy := .done }).1.created =
        (fs.createDirAll (root.below names)).created ++ [target] := by
      simp [placeDedupCopy, htarget, hother, hnode, hthere, FileSystem.link]
    rw [hcreated] at hnew
    have hmem : target ∈ new := by
      have hmade : (fs.createDirAll (root.below names)).created = fs.created ++
          (FileSystem.wayTo (root.below names)).filter fun place => !fs.present place := rfl
      rw [hmade, List.append_assoc] at hnew
      rw [← List.append_cancel_left hnew]
      exact List.mem_append_right _ (List.mem_singleton_self _)
    obtain ⟨found, hfound, hin⟩ := hinside target hmem
    rwa [List.mem_singleton.mp hfound] at hin
  · intro h outcome
    exact place_dedup_contained outcome hdir (List.mem_singleton_self _) h

end Copies

/-- Placing an instant small file. -/
theorem place_instant_fst {index : InboxIndex} {item : InstantFile} (outcome : PlaceOutcome) :
    (placeInstant platform fs root index item outcome).1 =
      (placeDedupCopy platform fs item.src (root.below (sanitizeRelDir item.relDir)) item.name
        outcome).1 := by
  unfold placeInstant InstantFile.destDir
  rw [join_all_plain sanitize_rel_dir_plain]
  split
  · next h => rw [h]
  · next h => rw [h]

/-- `recv_push_large_file`, whatever the answer is. -/
theorem recv_push_contained {file : OfferFile} {answer : Except EngineError MetaResp}
    {arrivals : List Arrival} {outcome : PartOutcome} {instant : InstantOutcome}
    (hdir : fs.HasDir root) (hroot : root ∈ roots) :
    Contained roots fs (recvPushLargeFile hash format platform fs root file answer arrivals outcome
      instant).1 := by
  unfold recvPushLargeFile offeredDir
  rw [join_all_plain sanitize_rel_dir_plain]
  split
  · exact .refl
  next answer =>
  split
  · exact .refl
  next fileName hname =>
  split
  · exact .refl
  split
  · next found src _ =>
    have hinside : CopyInside platform fs root src (root.below (sanitizeRelDir file.relDir)) fileName :=
      copy_inside_of_plain (sanitize_file_name_ok hname).2
    have hplaced := place_dedup_contained instant.place hdir hroot hinside
    dsimp only
    split
    · next hcopy =>
      rw [hcopy] at hplaced
      exact hplaced
    · next hcopy =>
      rw [hcopy] at hplaced
      exact hplaced.trans (save_index_contained _ _ hroot)
  · dsimp only
    have hreceived : Contained roots fs (receiveChunked hash platform fs root
        (root.below (sanitizeRelDir file.relDir)) answer.jobId
        (Manifest.fromMeta fileName answer.totalSize answer.chunkHashes) (fun _ => 4) arrivals
        outcome).1 :=
      receive_chunked_contained hdir hdir hroot hroot
    split
    · next hfailed =>
      rw [hfailed] at hreceived
      exact hreceived
    · next hdone =>
      rw [hdone] at hreceived
      split
      · exact hreceived.trans (save_index_contained _ _ hroot)
      · exact hreceived

/-- The files of a directory pull, whatever their paths are. -/
theorem pull_listed_contained {dirName peer shareId : String} {listing : List ListedFile}
    {succeeded : Nat} {failed : List String} (hdir : fs.HasDir root) :
    Contained [root] fs
      (pullListed hash platform root dirName peer shareId fs listing succeeded failed).1 := by
  induction listing generalizing fs succeeded failed with
  | nil => exact .refl
  | cons file rest ih =>
    unfold pullListed
    split
    · exact .refl
    · next parent hparent =>
      have hplace : listedDir platform root dirName parent =
          root.below (sanitizeComponent dirName :: parent) := by
        show platform.joinAll root (sanitizeComponent dirName :: parent) = _
        refine join_all_plain fun name hmem => ?_
        rcases List.mem_cons.mp hmem with rfl | hmem
        · exact sanitize_component_plain _
        · exact sanitize_rel_parent_plain hparent name hmem
      rw [hplace]
      have hroot : root ∈ [root] := List.mem_singleton_self root
      have hpulled : Contained [root] fs (startPullParts hash platform fs root
          (root.below (sanitizeComponent dirName :: parent))
          (some peer, some shareId, some file.rel) file.answer file.jobs file.window file.arrivals
          file.outcome).1 :=
        start_pull_contained hdir hdir hroot hroot
      split
      · next hfailed =>
        rw [hfailed] at hpulled
        exact hpulled.trans (ih (hpulled.hasDir hdir))
      · next hdone =>
        rw [hdone] at hpulled
        exact hpulled.trans (ih (hpulled.hasDir hdir))

/-- `start_pull_dir`. -/
theorem start_pull_dir_contained {dirRel peer shareId : String} {listing : List ListedFile}
    (hdir : fs.HasDir root) :
    Contained [root] fs (startPullDir hash platform fs root dirRel peer shareId listing).1 := by
  unfold startPullDir
  split
  · exact .refl
  · exact pull_listed_contained hdir

end Operations

section Runs

variable {hash : List UInt8 → String} {format : IndexFormat} {platform : Platform}
  {first : FileSystem} {root : Location} {task next : Inbound} {trace emitted : List InboundEvent}
  {input : InboundInput}

/-- The condition on one step: the copy of an instant small file is put inside. -/
def containedGuard (platform : Platform) (root : Location) :
    Guard Inbound InboundInput InboundEvent :=
  fun _ task input =>
    match input, task.phase with
    | .instant _, .instants (item :: _) _ _ =>
      CopyInside platform task.fs root item.src (root.below (sanitizeRelDir item.relDir)) item.name
    | _, _ => True

instance : Decidable (containedGuard platform root trace task input) := by
  unfold containedGuard
  split
  · infer_instance
  · infer_instance

/-- One step of the receive task. -/
theorem step_contained (hdir : task.fs.HasDir root)
    (hguard : containedGuard platform root trace task input)
    (hstep : Inbound.step hash format platform root task input = some (next, emitted)) :
    Contained [root] task.fs next.fs := by
  have hroot : root ∈ [root] := List.mem_singleton_self root
  obtain ⟨fs, phase⟩ := task
  cases input with
  | accept accepted =>
    cases phase with
    | small plan =>
      cases accepted with
      | error error =>
        cases hstep
        exact .refl
      | ok stream =>
        cases hstep
        exact .refl
    | entries | instants | large | ended => cases hstep
  | entry outcome =>
    cases phase with
    | entries plan stream =>
      unfold Inbound.step at hstep
      dsimp only at hstep
      split at hstep
      · cases hstep
        exact .refl
      · cases hstep
        exact .refl
      · next entry rest hentry =>
        obtain ⟨raw, hraw⟩ := next_entry_name hentry
        have hsmall : Contained [root] fs
            (recvSmallFile hash format platform fs root entry outcome).1 :=
          recv_small_contained outcome (sanitize_file_name_ok hraw).2 hdir hroot
        split at hstep
        · next hresult =>
          cases hstep
          rw [hresult] at hsmall
          exact hsmall
        · next hresult =>
          cases hstep
          rw [hresult] at hsmall
          exact hsmall
    | small | instants | large | ended => cases hstep
  | instant outcome =>
    cases phase with
    | instants left index large =>
      cases left with
      | nil => cases hstep
      | cons item left =>
        have hplaced : Contained [root] fs (placeInstant platform fs root index item outcome).1 := by
          rw [place_instant_fst outcome]
          exact place_dedup_contained outcome hdir hroot hguard
        unfold Inbound.step at hstep
        dsimp only at hstep
        split at hstep
        · next hresult =>
          cases hstep
          rw [hresult] at hplaced
          exact hplaced
        · next hresult =>
          cases hstep
          rw [hresult] at hplaced
          exact hplaced
    | small | entries | large | ended => cases hstep
  | saveIndex saved =>
    cases phase with
    | instants left index large =>
      cases left with
      | nil =>
        cases hstep
        exact save_index_contained index saved hroot
      | cons item left => cases hstep
    | small | entries | large | ended => cases hstep
  | large answer arrivals outcome instant =>
    cases phase with
    | large left =>
      cases left with
      | nil => cases hstep
      | cons file left =>
        have hpushed : Contained [root] fs (recvPushLargeFile hash format platform fs root file
            answer arrivals outcome instant).1 :=
          recv_push_contained hdir hroot
        unfold Inbound.step at hstep
        dsimp only at hstep
        split at hstep
        · next hresult =>
          cases hstep
          rw [hresult] at hpushed
          exact hpushed
        · next hresult =>
          cases hstep
          rw [hresult] at hpushed
          exact hpushed
    | small | entries | instants | ended => cases hstep
  | report =>
    cases phase with
    | large left =>
      cases left with
      | nil =>
        cases hstep
        exact .refl
      | cons file left => cases hstep
    | small | entries | instants | ended => cases hstep

/-- What has been made since the offer was accepted. -/
def ContainedSince (root : Location) (first : FileSystem) (_ : List InboundEvent)
    (task : Inbound) : Prop :=
  Contained [root] first task.fs

/-- Everything that is made while an offer is received. -/
theorem offer_contained {files : List OfferFile} {inputs : List InboundInput}
    (hdir : first.HasDir root)
    (h : Exec (Inbound.step hash format platform root) (containedGuard platform root)
      (Inbound.accept format first root files) inputs trace task) :
    Contained [root] first task.fs := by
  suffices hinv : ContainedSince root first trace task from hinv
  refine h.invariant ?_ ?_
  · exact .refl
  · intro trace task input next emitted hinv hguard hstep
    have hinv : Contained [root] first task.fs := hinv
    exact hinv.trans (step_contained (hinv.hasDir hdir) hguard hstep)

end Runs

/-- Whatever the peer sends, what is made while an offer is received, a file is pulled or a
directory is pulled lies strictly inside the directories that were chosen and are there, as long as
the copy of each instant small file is put inside; and that is just what such a copy needs. -/
theorem receives_contained (hash : List UInt8 → String) (format : IndexFormat)
    (platform : Platform) :
    (∀ fs root files inputs trace task, fs.HasDir root →
      Exec (Inbound.step hash format platform root) (containedGuard platform root)
        (Inbound.accept format fs root files) inputs trace task →
      Contained [root] fs task.fs) ∧
    (∀ fs root index item, fs.HasDir root →
      ((∀ outcome, Contained [root] fs (placeInstant platform fs root index item outcome).1) ↔
        CopyInside platform fs root item.src (root.below (sanitizeRelDir item.relDir)) item.name)) ∧
    (∀ fs partsRoot destDir source answer jobs window arrivals outcome, fs.HasDir destDir →
      fs.HasDir partsRoot →
      Contained [partsRoot, destDir] fs (startPullParts hash platform fs partsRoot destDir source
        answer jobs window arrivals outcome).1) ∧
    (∀ fs downloadDir dirRel peer shareId listing, fs.HasDir downloadDir →
      Contained [downloadDir] fs
        (startPullDir hash platform fs downloadDir dirRel peer shareId listing).1) := by
  refine ⟨?_, ?_, ?_, ?_⟩
  · intro fs root files inputs trace task hdir hexec
    exact offer_contained hdir hexec
  · intro fs root index item hdir
    rw [← place_dedup_contained_iff hdir]
    refine forall_congr' fun outcome => ?_
    rw [place_instant_fst outcome]
  · intro fs partsRoot destDir source answer jobs window arrivals outcome hdir hparts
    have hpulled : Contained [partsRoot, destDir] fs (startPullParts hash platform fs partsRoot
        (destDir.below []) source answer jobs window arrivals outcome).1 :=
      start_pull_contained hdir hparts (by simp) (by simp)
    have hbelow : destDir.below [] = destDir := by simp [Location.below]
    rwa [hbelow] at hpulled
  · intro fs downloadDir dirRel peer shareId listing hdir
    exact start_pull_dir_contained hdir

/-- A download directory with a file of three bytes that the index knows. -/
def sampleDownloads : FileSystem :=
  { disk := { Disk.empty with store := fun _ => [97, 98, 99], nextFile := 1 }
    tree := fun place =>
      if place = sampleRoot.child "a.txt" then some (.file 0)
      else if place = sampleRoot.child indexName then
        some (.index [(shortHash [97, 98, 99], { path := sampleRoot.child "a.txt", size := 3 })] [])
      else if place = sampleRoot ∨ place = { sampleRoot with names := ["home"] } then some .dir
      else none
    created := [] }

/-- The file is offered again under another name. -/
def offeredAgain (name : String) : OfferFile :=
  { name, size := 3, relDir := "", hash := some (shortHash [97, 98, 99]) }

/-- How placing a copy goes when nothing fails. -/
def copySmooth : PlaceOutcome := { dirMade := true, linked := true, copy := .done }

/-- An index that cannot be read back. -/
def unreadableIndex : IndexFormat := { render := fun _ => [], parse := fun _ => none }

theorem sample_downloads_dir : sampleDownloads.HasDir sampleRoot := by
  intro place hmem
  have hway : FileSystem.wayTo sampleRoot =
      [{ sampleRoot with names := ["home"] }, sampleRoot] := by decide
  rw [hway] at hmem
  simp only [List.mem_cons, List.not_mem_nil, or_false] at hmem
  rcases hmem with rfl | rfl
  · decide
  · decide

/-- A file that is there already is offered under another name, and copied to it. -/
theorem contained_under_plain_name :
    ∃ inputs trace task,
      Exec (Inbound.step shortHash unreadableIndex unixPlatform sampleRoot)
        (containedGuard unixPlatform sampleRoot)
        (Inbound.accept unreadableIndex sampleDownloads sampleRoot [offeredAgain "b.txt"]) inputs
        trace task ∧
      task.fs.created = [sampleRoot.child "b.txt"] ∧
      FileSystem.Contained [sampleRoot] sampleDownloads task.fs := by
  obtain ⟨trace, task, hexec, hmade⟩ := exec_reaches
    (Inbound.step shortHash unreadableIndex unixPlatform sampleRoot)
    (containedGuard unixPlatform sampleRoot)
    (Inbound.accept unreadableIndex sampleDownloads sampleRoot [offeredAgain "b.txt"])
    [.instant copySmooth] (fun task => task.fs.created) [sampleRoot.child "b.txt"] (by decide)
  exact ⟨_, trace, task, hexec, hmade, (receives_contained _ _ _).1 _ _ _ _ _ _
    sample_downloads_dir hexec⟩

/-- The same file is offered as `../evil`: its copy is put beside the download directory. -/
theorem copied_beside_directory :
    ¬ ∀ (hash : List UInt8 → String) (format : IndexFormat) (platform : Platform)
        (fs : FileSystem) (root : Location) (files : List OfferFile) (inputs : List InboundInput)
        (trace : List InboundEvent) (task : Inbound), fs.HasDir root →
      Exec (Inbound.step hash format platform root) Guard.free
        (Inbound.accept format fs root files) inputs trace task →
      FileSystem.Contained [root] fs task.fs := by
  intro hall
  obtain ⟨trace, task, hexec, hmade⟩ := exec_reaches
    (Inbound.step shortHash unreadableIndex unixPlatform sampleRoot) Guard.free
    (Inbound.accept unreadableIndex sampleDownloads sampleRoot [offeredAgain "../evil"])
    [.instant copySmooth] (fun task => task.fs.created)
    [{ sampleRoot with names := ["home", "evil"] }] (by decide)
  obtain ⟨new, hnew, hinside⟩ := (hall _ _ _ _ _ _ _ _ _ sample_downloads_dir hexec).made
  rw [hmade, show sampleDownloads.created = [] from rfl, List.nil_append] at hnew
  obtain ⟨root, hroot, hin⟩ := hinside _ (hnew ▸ List.mem_singleton_self _)
  rw [List.mem_singleton.mp hroot] at hin
  exact absurd hin (by decide)

end LocalTrans
