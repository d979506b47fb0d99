import LocalTrans.Foundation.LinkedTree

/-!
# Operations on shared directories

`share.rs`: a peer renames, deletes and makes files and directories in a shared directory. `resolve`
takes a path apart, follows it, and compares where it leads with where the shared directory is;
`op_mkdir` makes the directories first and looks afterwards. `contained_iff` says exactly when an
operation stays strictly inside the shared directory and leaves everything as it was when it fails.
The tree has symbolic links at any place; what the system permits is a parameter.
-/

namespace LocalTrans.Share

open Foundation

/-- `ShareError`. -/
inductive ShareError where
  | unknownShare
  | illegalPath
  | notFound
  | tooManyEntries
deriving DecidableEq, Repr

/-- The texts of the errors. -/
def ShareError.text : ShareError → String
  | .unknownShare => "未知共享区"
  | .illegalPath => "非法路径"
  | .notFound => "文件或目录不存在"
  | .tooManyEntries => "目录条目过多"

/-- `ShareDef`; its path is absolute: a volume, and the pieces between separators. -/
structure ShareDef where
  id : String
  aliasName : String
  volume : String
  pieces : List String
deriving DecidableEq

namespace ShareDef

/-- The path of the shared directory. -/
def path (share : ShareDef) (style : PathStyle) : TreePath :=
  .ofPieces style share.volume share.pieces

/-- `share_def.path.join(rel)`, for a relative path. -/
def join (share : ShareDef) (style : PathStyle) (rel : String) : TreePath :=
  .ofPieces style share.volume (share.pieces ++ style.pieces rel.toList)

end ShareDef

/-- The path has a root, a prefix, a `..` or a colon. -/
def illegal (style : PathStyle) (rel : String) : Bool :=
  (style.start rel.toList).1 ≠ .here || (style.names rel).contains ".." ||
    rel.toList.contains ':'

/-- `valid_name`. -/
def validName (name : String) : Bool :=
  name ≠ "" && name ≠ "." && name ≠ ".." && !name.toList.contains '/' &&
    !name.toList.contains '\\' && !name.toList.contains (Char.ofNat 0)

section Registry

variable (system : TreeSystem) (tree : LinkedTree) (shares : List ShareDef)

/-- The shared directory of an id. -/
def findShare (shareId : String) : Option ShareDef :=
  shares.find? fun share => share.id = shareId

/-- `resolve`. -/
def resolve (shareId rel : String) : Except ShareError Location :=
  match findShare shares shareId with
  | none => .error .unknownShare
  | some share =>
    if illegal system.style rel then .error .illegalPath
    else match system.canonicalize tree (share.join system.style rel) with
      | .error _ => .error .notFound
      | .ok canonicalFull =>
        match system.canonicalize tree (share.path system.style) with
        | .error _ => .error .notFound
        | .ok canonicalRoot =>
          if ¬ canonicalRoot.Covers canonicalFull then .error .illegalPath
          else match system.placeOf tree (share.join system.style rel) with
            | .error _ => .error .notFound
            | .ok place =>
              match tree.node place with
              | some (.link _) => .error .illegalPath
              | _ => .ok canonicalFull

/-- The path of a place that was found. -/
def pathOf (place : Location) : TreePath :=
  { volume := place.volume, comps := place.names, trailing := .name }

/-- Where `op_rename` moves a place. -/
def renameTarget (old : Location) (newName : String) : Location :=
  system.style.join system.current old.up newName

/-- `op_rename`. -/
def opRename (shareId rel newName : String) : LinkedTree × Except ShareError Unit :=
  if validName newName = false then (tree, .error .illegalPath)
  else match resolve system tree shares shareId rel with
    | .error error => (tree, .error error)
    | .ok old =>
      -- the root of a volume has no parent
      if old.names = [] then (tree, .error .illegalPath)
      else if system.pathExists tree (pathOf (renameTarget system old newName)) then
        (tree, .error .illegalPath)
      else match system.move tree old (renameTarget system old newName) with
        | (next, true) => (next, .ok ())
        | (next, false) => (next, .error .notFound)

/-- `op_delete`, for a directory and for a file. -/
def opDelete (shareId rel : String) : LinkedTree × Except ShareError Unit :=
  match resolve system tree shares shareId rel with
  | .error error => (tree, .error error)
  | .ok place =>
    match system.remove tree place with
    | (next, true) => (next, .ok ())
    | (next, false) => (next, .error .notFound)

/-- `op_mkdir`. -/
def opMkdir (shareId rel : String) : LinkedTree × Except ShareError Unit :=
  match findShare shares shareId with
  | none => (tree, .error .unknownShare)
  | some share =>
    if illegal system.style rel then (tree, .error .illegalPath)
    else
      let full := share.join system.style rel
      match system.canonicalize tree (share.path system.style) with
      | .error _ => (tree, .error .notFound)
      | .ok canonicalRoot =>
        if system.pathExists tree full then (tree, .error .illegalPath)
        else match system.createDirAll tree full with
          | (next, .error _) => (next, .error .notFound)
          | (next, .ok ()) =>
            match system.canonicalize next full with
            | .error _ => (next, .error .notFound)
            | .ok canonicalCreated =>
              if ¬ canonicalRoot.Covers canonicalCreated then
                match system.placeOf next full with
                | .ok place => ((system.remove next place).1, .error .illegalPath)
                | .error _ => (next, .error .illegalPath)
              else (next, .ok ())

end Registry

/-- What a peer asks for. -/
inductive ShareOp where
  | rename (rel newName : String)
  | delete (rel : String)
  | mkdir (rel : String)

/-- The operation on a shared directory. -/
def ShareOp.run (system : TreeSystem) (tree : LinkedTree) (shares : List ShareDef)
    (shareId : String) : ShareOp → LinkedTree × Except ShareError Unit
  | .rename rel newName => opRename system tree shares shareId rel newName
  | .delete rel => opDelete system tree shares shareId rel
  | .mkdir rel => opMkdir system tree shares shareId rel

/-- The operation that may fail half-way. -/
def ShareOp.isDelete : ShareOp → Bool
  | .delete _ => true
  | _ => false

/-- What an operation makes, removes and moves is strictly inside the shared directory, and when it
is not a deletion and fails, the tree is as it was. -/
structure Contained (system : TreeSystem) (tree : ClosedTree) (shares : List ShareDef)
    (shareId : String) (op : ShareOp) : Prop where
  within : ∀ change ∈ (op.run system tree.start shares shareId).1.log, ∃ share root,
    findShare shares shareId = some share ∧
      system.canonicalize tree.start (share.path system.style) = .ok root ∧ change.Within root
  undone : op.isDelete = false → ∀ error, (op.run system tree.start shares shareId).2 = .error error →
    (op.run system tree.start shares shareId).1.node = tree.node

/-- What is renamed or deleted is not the shared directory itself, and a new name leads into it. The
directories that a path is missing are missing from a directory that the shared one covers, and all
can be made; or not even the first one is. -/
def Harmless (system : TreeSystem) (tree : ClosedTree) (shares : List ShareDef)
    (shareId : String) (op : ShareOp) : Prop :=
  ∀ share root, findShare shares shareId = some share →
    system.canonicalize tree.start (share.path system.style) = .ok root →
    match op with
    | .rename rel newName =>
      ∀ old, validName newName = true → resolve system tree.start shares shareId rel = .ok old →
        old.names ≠ [] →
        system.pathExists tree.start (pathOf (renameTarget system old newName)) = false →
        system.mayMove old (renameTarget system old newName) = true →
        old ≠ root ∧ root.Inside (renameTarget system old newName)
    | .delete rel =>
      ∀ place, resolve system tree.start shares shareId rel = .ok place →
        (∃ left, system.removal place = .partly left) ∨ place ≠ root
    | .mkdir rel => illegal system.style rel = false → ∀ dir name rest,
        let full := share.join system.style rel
        system.gap tree.node system.maxLinks full.start full.comps = some (dir, name :: rest) →
          (full.trailing = .dot ∧ rest = []) ∨ system.mayMake (dir.child name) = false ∨
            full.trailing ≠ .dot ∧ system.mayMakeAll dir (name :: rest) = true ∧ root.Covers dir

section Proofs

variable {system : TreeSystem} {tree : ClosedTree} {shares : List ShareDef} {share : ShareDef}
  {shareId rel newName name : String} {op : ShareOp} {place dir root : Location}
  {error : ShareError} {rest missing : List String} {links left : Nat}

/-- Where `resolve` leads is covered by the shared directory. -/
theorem resolve_ok {tree : LinkedTree} (h : resolve system tree shares shareId rel = .ok place) :
    ∃ share root, findShare shares shareId = some share ∧
      system.canonicalize tree (share.path system.style) = .ok root ∧ root.Covers place := by
  unfold resolve at h
  split at h
  · cases h
  next share hshare =>
  split at h
  · cases h
  split at h
  · cases h
  next full hfull =>
  split at h
  · cases h
  next root hroot =>
  split at h
  · cases h
  next hcovers =>
  split at h
  · cases h
  split at h
  · cases h
  · obtain rfl := Except.ok.inj h
    exact ⟨share, root, hshare, hroot, by simpa using hcovers⟩

/-- An operation that changes nothing is contained. -/
theorem contained_of_eq (h : ∃ result, op.run system tree.start shares shareId = (tree.start, result)) :
    Contained system tree shares shareId op := by
  obtain ⟨result, hrun⟩ := h
  constructor
  · rw [hrun]
    intro change hmem
    cases hmem
  · intro _ _ _
    rw [hrun]
    rfl

/-- `op_rename` changes nothing and fails, or moves what the path leads to. -/
theorem rename_cases (system : TreeSystem) (tree : LinkedTree) (shares : List ShareDef)
    (shareId rel newName : String) :
    (∃ error, opRename system tree shares shareId rel newName = (tree, .error error) ∧
        ∀ old, validName newName = true → resolve system tree shares shareId rel = .ok old →
          old.names ≠ [] →
          system.pathExists tree (pathOf (renameTarget system old newName)) = false →
          system.mayMove old (renameTarget system old newName) = false) ∨
      ∃ old, validName newName = true ∧ resolve system tree shares shareId rel = .ok old ∧
        old.names ≠ [] ∧
        system.pathExists tree (pathOf (renameTarget system old newName)) = false ∧
        system.mayMove old (renameTarget system old newName) = true ∧
        opRename system tree shares shareId rel newName =
          (tree.perform (.moved old (renameTarget system old newName)), .ok ()) := by
  unfold opRename
  split
  · next hname => exact .inl ⟨_, rfl, fun _ hvalid => by rw [hname] at hvalid; cases hvalid⟩
  next hname =>
  split
  · next error herror =>
    exact .inl ⟨_, rfl, fun _ _ hresolve => by rw [herror] at hresolve; cases hresolve⟩
  next old hold =>
  split
  · next hroot =>
    refine .inl ⟨_, rfl, fun _ _ hresolve hnames => ?_⟩
    rw [hold] at hresolve
    obtain rfl := Except.ok.inj hresolve
    exact absurd hroot hnames
  next hnames =>
  split
  · next hexists =>
    refine .inl ⟨_, rfl, fun _ _ hresolve _ hfree => ?_⟩
    rw [hold] at hresolve
    obtain rfl := Except.ok.inj hresolve
    rw [hexists] at hfree
    cases hfree
  next hfree =>
  unfold TreeSystem.move
  by_cases hmove : system.mayMove old (renameTarget system old newName) = true
  · rw [if_pos hmove]
    exact .inr ⟨old, by simpa using hname, hold, hnames, by simpa using hfree, hmove, rfl⟩
  · rw [if_neg hmove]
    refine .inl ⟨_, rfl, fun _ _ hresolve _ _ => ?_⟩
    rw [hold] at hresolve
    obtain rfl := Except.ok.inj hresolve
    simpa using hmove

theorem rename_contained_iff :
    Contained system tree shares shareId (.rename rel newName) ↔
      Harmless system tree shares shareId (.rename rel newName) := by
  rcases rename_cases system tree.start shares shareId rel newName with
    ⟨error, hrun, hnothing⟩ | ⟨old, hvalid, hold, hnames, hfree, hmove, hrun⟩
  · refine ⟨fun _ share root _ _ old hvalid hold hnames hfree hmove => ?_,
      fun _ => contained_of_eq ⟨_, hrun⟩⟩
    rw [hnothing old hvalid hold hnames hfree] at hmove
    cases hmove
  · constructor
    · intro h share root hshare hroot old' _ hold' _ _ _
      obtain rfl := Except.ok.inj (hold.symm.trans hold')
      have hmoved : TreeChange.moved old (renameTarget system old newName) ∈
          (ShareOp.run system tree.start shares shareId (.rename rel newName)).1.log := by
        show _ ∈ (opRename system tree.start shares shareId rel newName).1.log
        rw [hrun]
        exact List.mem_append_right _ List.mem_cons_self
      obtain ⟨share', root', hshare', hroot', hsource, htarget⟩ := h.within _ hmoved
      obtain rfl := Option.some.inj (hshare.symm.trans hshare')
      obtain rfl := Except.ok.inj (hroot.symm.trans hroot')
      refine ⟨?_, htarget⟩
      rintro rfl
      exact absurd hsource.2.2 (Nat.lt_irrefl _)
    · intro h
      obtain ⟨share, root, hshare, hroot, hcovers⟩ := resolve_ok hold
      obtain ⟨hne, htarget⟩ := h share root hshare hroot old hvalid hold hnames hfree hmove
      have hsource : root.Inside old :=
        (Location.covers_iff.mp hcovers).resolve_left fun heq => hne heq.symm
      constructor
      · intro change hmem
        have hlog : change ∈ (opRename system tree.start shares shareId rel newName).1.log := hmem
        rw [hrun] at hlog
        obtain rfl : change = .moved old (renameTarget system old newName) := by
          simpa [LinkedTree.perform, ClosedTree.start] using hlog
        exact ⟨share, root, hshare, hroot, hsource, htarget⟩
      · intro _ error herror
        have hresult : (opRename system tree.start shares shareId rel newName).2 = .error error :=
          herror
        rw [hrun] at hresult
        cases hresult

theorem delete_contained_iff :
    Contained system tree shares shareId (.delete rel) ↔
      Harmless system tree shares shareId (.delete rel) := by
  cases hresolve : resolve system tree.start shares shareId rel with
  | error error =>
    have hrun : opDelete system tree.start shares shareId rel = (tree.start, .error error) := by
      unfold opDelete
      rw [hresolve]
    refine ⟨fun _ share root _ _ place hplace => ?_, fun _ => contained_of_eq ⟨_, hrun⟩⟩
    rw [hresolve] at hplace
    cases hplace
  | ok place =>
    obtain ⟨share, root, hshare, hroot, hcovers⟩ := resolve_ok hresolve
    have hrun : (opDelete system tree.start shares shareId rel).1 =
        (system.remove tree.start place).1 := by
      unfold opDelete
      rw [hresolve]
      dsimp only
      rcases system.remove tree.start place with ⟨next, all⟩
      cases all <;> rfl
    cases hremoval : system.removal place with
    | whole =>
      have hlog : (opDelete system tree.start shares shareId rel).1.log =
          [.removed place] := by
        rw [hrun]
        unfold TreeSystem.remove
        rw [hremoval]
        rfl
      constructor
      · intro h share' root' hshare' hroot' place' hplace'
        obtain rfl := Option.some.inj (hshare.symm.trans hshare')
        obtain rfl := Except.ok.inj (hroot.symm.trans hroot')
        obtain rfl := Except.ok.inj (hresolve.symm.trans hplace')
        have hremoved : TreeChange.removed place ∈
            (ShareOp.run system tree.start shares shareId (.delete rel)).1.log := by
          show _ ∈ (opDelete system tree.start shares shareId rel).1.log
          rw [hlog]
          exact List.mem_cons_self
        obtain ⟨share', root', hshare', hroot', hinside⟩ := h.within _ hremoved
        obtain rfl := Option.some.inj (hshare.symm.trans hshare')
        obtain rfl := Except.ok.inj (hroot.symm.trans hroot')
        refine .inr ?_
        rintro rfl
        exact absurd hinside.2.2 (Nat.lt_irrefl _)
      · intro h
        refine ⟨fun change hmem => ?_, fun hdelete => by cases hdelete⟩
        have hchange : change ∈ (opDelete system tree.start shares shareId rel).1.log := hmem
        rw [hlog] at hchange
        obtain rfl := List.mem_singleton.mp hchange
        refine ⟨share, root, hshare, hroot, ?_⟩
        rcases h share root hshare hroot place hresolve with ⟨left, hpartly⟩ | hne
        · rw [hremoval] at hpartly
          cases hpartly
        · exact (Location.covers_iff.mp hcovers).resolve_left fun heq => hne heq.symm
    | partly left =>
      refine ⟨fun _ _ _ _ _ place' hplace' => ?_, fun _ => ?_⟩
      · obtain rfl := Except.ok.inj (hresolve.symm.trans hplace')
        exact .inl ⟨left, hremoval⟩
      · refine ⟨fun change hmem => ?_, fun hdelete => by cases hdelete⟩
        have hchange : change ∈ (opDelete system tree.start shares shareId rel).1.log := hmem
        rw [hrun] at hchange
        unfold TreeSystem.remove at hchange
        rw [hremoval] at hchange
        obtain rfl : change = .thinned place left := by
          simpa [LinkedTree.perform, ClosedTree.start] using hchange
        exact ⟨share, root, hshare, hroot, hcovers⟩

/-- The names of a relative path. -/
theorem comps_join : (share.join system.style rel).comps =
    (share.path system.style).comps ++
      (system.style.pieces rel.toList).filter fun piece => piece ≠ "" ∧ piece ≠ "." :=
  List.filter_append _ _

/-- The names of a path that is not illegal are names of entries. -/
theorem entry_names_of_legal (h : illegal system.style rel = false)
    (hmem : name ∈ (system.style.pieces rel.toList).filter fun piece => piece ≠ "" ∧ piece ≠ ".") :
    TreeSystem.EntryName name := by
  unfold illegal at h
  simp only [Bool.or_eq_false_iff, decide_eq_false_iff_not, not_not] at h
  obtain ⟨⟨hstart, hup⟩, -⟩ := h
  have hnames : system.style.names rel =
      (system.style.pieces rel.toList).filter fun piece => piece ≠ "" ∧ piece ≠ "." := by
    unfold PathStyle.names
    rw [PathStyle.start_here hstart]
  rw [hnames] at hup
  obtain ⟨-, hname⟩ := List.mem_filter.mp hmem
  obtain ⟨hnonempty, hhere⟩ := of_decide_eq_true hname
  refine ⟨hnonempty, hhere, ?_⟩
  rintro rfl
  have hfound := List.contains_iff_mem.mpr hmem
  rw [hup] at hfound
  cases hfound

/-- What is missing of a legal path are names of entries. -/
theorem entry_names_of_gap (hlegal : illegal system.style rel = false)
    (hroot : system.canonicalize tree.start (share.path system.style) = .ok root)
    (hgap : system.gap tree.node system.maxLinks (share.join system.style rel).start
      (share.join system.style rel).comps = some (dir, missing)) :
    ∀ name ∈ missing, TreeSystem.EntryName name := by
  have hbase : ∃ left reached, system.follow tree.node system.maxLinks
      (share.join system.style rel).start (share.path system.style).comps =
        .ok (left, reached) := by
    unfold TreeSystem.canonicalize TreePath.pieces at hroot
    rw [TreeSystem.follow_append] at hroot
    split at hroot
    · next left reached hfollow => exact ⟨left, reached, hfollow⟩
    · cases hroot
  obtain ⟨left, reached, hfollow⟩ := hbase
  rw [comps_join, TreeSystem.gap_append_ok hfollow] at hgap
  obtain ⟨before, -, -, -, hcomps, -⟩ := TreeSystem.gap_some hgap
  intro name hmem
  refine entry_names_of_legal hlegal ?_
  rw [hcomps]
  exact List.mem_append_right _ hmem

/-- Removing something adds to the changes. -/
theorem mem_remove_log {tree : LinkedTree} {change : TreeChange} (h : change ∈ tree.log) :
    change ∈ (system.remove tree place).1.log := by
  unfold TreeSystem.remove
  split
  · exact List.mem_append_left _ h
  · exact List.mem_append_left _ h

/-- A path with a gap does not exist. -/
theorem not_exists_of_gap {path : TreePath} {tree : LinkedTree}
    (h : system.gap tree.node system.maxLinks path.start path.comps = some (dir, missing)) :
    system.pathExists tree path = false := by
  unfold TreeSystem.pathExists TreeSystem.canonicalize TreePath.pieces
  rw [TreeSystem.follow_of_gap h]
  rfl

/-- What `op_mkdir` does with a legal path that does not exist, in a shared directory that does. -/
theorem mkdir_run (hshare : findShare shares shareId = some share)
    (hlegal : illegal system.style rel = false)
    (hroot : system.canonicalize tree.start (share.path system.style) = .ok root)
    (hfree : system.pathExists tree.start (share.join system.style rel) = false) :
    opMkdir system tree.start shares shareId rel =
      match system.createDirAll tree.start (share.join system.style rel) with
      | (next, .error _) => (next, .error .notFound)
      | (next, .ok ()) =>
        match system.canonicalize next (share.join system.style rel) with
        | .error _ => (next, .error .notFound)
        | .ok created =>
          if ¬ root.Covers created then
            match system.placeOf next (share.join system.style rel) with
            | .ok place => ((system.remove next place).1, .error .illegalPath)
            | .error _ => (next, .error .illegalPath)
          else (next, .ok ()) := by
  unfold opMkdir
  simp only [hshare, hlegal, hroot, hfree, Bool.false_eq_true, if_false]

/-- The directories that `op_mkdir` makes where some are missing, and whether it succeeds in making
them. -/
theorem create_dir_all_missing {full : TreePath} (htidy : TreeSystem.Tidy full.comps)
    (hnames : ∀ name ∈ missing, TreeSystem.EntryName name)
    (hgap : system.gap tree.node system.maxLinks full.start full.comps = some (dir, missing)) :
    ∃ result, system.createDirAll tree.start full =
        ((system.makeChain tree.start dir
          (if full.trailing = .dot then missing.dropLast else missing)).1, result) ∧
      (result = .ok () ↔ full.trailing ≠ .dot ∧ system.mayMakeAll dir missing = true) := by
  have hreverse : system.gap tree.start.node system.maxLinks { volume := full.volume, names := [] }
      full.comps.reverse.reverse = some (dir, missing) := by
    rw [List.reverse_reverse]
    exact hgap
  have hall : (system.makeChain tree.start dir missing).2 = system.mayMakeAll dir missing :=
    TreeSystem.make_chain_all
  rw [← hall]
  exact TreeSystem.create_dirs_gap tree.closed_start
    (fun name hmem => htidy name (List.mem_reverse.mp hmem)) hnames hreverse

/-- A chain that was made is found. -/
theorem canonicalize_made {full : TreePath}
    (hnames : ∀ name ∈ missing, TreeSystem.EntryName name)
    (hgap : system.gap tree.node system.maxLinks full.start full.comps = some (dir, missing))
    (htrailing : full.trailing ≠ .dot) (hall : system.mayMakeAll dir missing = true) :
    system.canonicalize (system.makeChain tree.start dir missing).1 full =
      .ok (dir.below missing) := by
  obtain ⟨before, left, first, rest, hcomps, hmissing, hfollow, hdir, habsent, -⟩ :=
    TreeSystem.gap_some hgap
  have hbare : ∀ name rest, missing = name :: rest →
      TreeSystem.Bare tree.start (dir.child name) := by
    intro name rest hsame
    obtain ⟨rfl, -⟩ := List.cons.inj (hmissing.symm.trans hsame)
    exact tree.closed_start _ habsent
  have hgrows : TreeSystem.Grows tree.node (system.makeChain tree.start dir missing).1.node :=
    TreeSystem.grows_make_chain hbare
  have hchain : system.makeChain tree.start dir missing =
      ((system.makeChain tree.start dir missing).1, true) :=
    Prod.ext rfl (TreeSystem.make_chain_all.trans hall)
  have hmade : system.follow (system.makeChain tree.start dir missing).1.node left dir missing =
        .ok (left, dir.below missing) ∧
      (system.makeChain tree.start dir missing).1.node (dir.below missing) = some .dir :=
    TreeSystem.follow_make_chain hdir hbare hnames hchain
  have hway : system.follow (system.makeChain tree.start dir missing).1.node system.maxLinks
      full.start full.comps = .ok (left, dir.below missing) := by
    rw [hcomps, TreeSystem.follow_append_ok (TreeSystem.follow_grows hgrows hfollow)]
    exact hmade.1
  unfold TreeSystem.canonicalize TreePath.pieces
  rw [TreeSystem.follow_append_ok hway]
  cases htrail : full.trailing with
  | dot => exact absurd htrail htrailing
  | name => rw [TreeSystem.follow_nil]; rfl
  | slash =>
    rw [TreeSystem.follow_cons, hmade.2]
    simp [Except.map]

/-- The first directory of a chain is inside the shared directory only if that covers the directory
they are made in. -/
theorem covers_of_child_inside (h : root.Inside (dir.child name)) : root.Covers dir := by
  obtain ⟨hvolume, hprefix, hlength⟩ := h
  refine ⟨hvolume, ?_⟩
  have hshort : root.names.length ≤ dir.names.length := by
    simp only [Location.child, List.length_append, List.length_singleton] at hlength
    omega
  exact List.prefix_of_prefix_length_le hprefix (List.prefix_append _ _) hshort

/-- Where directories are missing, `op_mkdir` is contained if it makes none of them, or all, in a
directory that the shared one covers. -/
theorem mkdir_missing_contained_iff (hshare : findShare shares shareId = some share)
    (hlegal : illegal system.style rel = false)
    (hroot : system.canonicalize tree.start (share.path system.style) = .ok root)
    (hgap : system.gap tree.node system.maxLinks (share.join system.style rel).start
      (share.join system.style rel).comps = some (dir, name :: rest)) :
    Contained system tree shares shareId (.mkdir rel) ↔
      ((share.join system.style rel).trailing = .dot ∧ rest = []) ∨
        system.mayMake (dir.child name) = false ∨
        (share.join system.style rel).trailing ≠ .dot ∧
          system.mayMakeAll dir (name :: rest) = true ∧ root.Covers dir := by
  have htidy : TreeSystem.Tidy (share.join system.style rel).comps := by
    intro name hmem
    exact of_decide_eq_true (List.mem_filter.mp hmem).2
  have hnames := entry_names_of_gap hlegal hroot hgap
  obtain ⟨-, -, first, others, -, hsame, -, -, habsent, -⟩ := TreeSystem.gap_some hgap
  obtain ⟨rfl, rfl⟩ := List.cons.inj hsame
  have hbare : TreeSystem.Bare tree.start (dir.child name) := tree.closed_start _ habsent
  have hrun : opMkdir system tree.start shares shareId rel = _ :=
    mkdir_run hshare hlegal hroot (not_exists_of_gap hgap)
  obtain ⟨result, hcreate, hok⟩ := create_dir_all_missing htidy hnames hgap
  rw [hcreate] at hrun
  generalize hwanted : (if (share.join system.style rel).trailing = .dot then
    (name :: rest).dropLast else name :: rest) = wanted at hrun
  by_cases hnothing : ((share.join system.style rel).trailing = .dot ∧ rest = []) ∨
      system.mayMake (dir.child name) = false
  · -- nothing is made
    have hsame : (system.makeChain tree.start dir wanted).1 = tree.start := by
      rcases hnothing with ⟨hdot, rfl⟩ | hmay
      · rw [if_pos hdot] at hwanted
        rw [← hwanted]
        rfl
      · cases wanted with
        | nil => rfl
        | cons other more =>
          obtain rfl : other = name := by
            split at hwanted
            · cases rest with
              | nil => cases hwanted
              | cons second others => exact (List.cons.inj hwanted).1.symm
            · exact (List.cons.inj hwanted).1.symm
          rw [TreeSystem.makeChain, if_neg (by simp [hmay])]
    have hfailed : result ≠ .ok () := by
      intro hsucceeded
      obtain ⟨htrailing, hall⟩ := hok.mp hsucceeded
      rcases hnothing with ⟨hdot, -⟩ | hmay
      · exact htrailing hdot
      · rw [TreeSystem.mayMakeAll, hmay] at hall
        cases hall
    refine ⟨fun _ => hnothing.elim .inl fun hmay => .inr (.inl hmay), fun _ => ?_⟩
    refine contained_of_eq ⟨.error .notFound, ?_⟩
    show opMkdir system tree.start shares shareId rel = _
    rw [hrun, hsame]
    cases result with
    | ok _ => exact absurd rfl hfailed
    | error failed => rfl
  · obtain ⟨hdeep, hmay⟩ := not_or.mp hnothing
    rw [Bool.not_eq_false] at hmay
    have hfirst : ∃ more, wanted = name :: more := by
      split at hwanted
      · next hdot =>
        cases rest with
        | nil => exact absurd ⟨hdot, rfl⟩ hdeep
        | cons second others => exact ⟨_, hwanted.symm⟩
      · exact ⟨_, hwanted.symm⟩
    obtain ⟨more, rfl⟩ := hfirst
    have hchain : system.makeChain tree.start dir (name :: more) =
        ((system.makeChain tree.start dir (name :: more)).1,
          (system.makeChain tree.start dir (name :: more)).2) := rfl
    obtain ⟨new, hlog, hbelow, hfirst⟩ := TreeSystem.make_chain_log hchain
    have hmade := hfirst name more rfl hmay
    cases result with
    | error failed =>
      constructor
      · intro h
        have hresult : (opMkdir system tree.start shares shareId rel).2 = .error .notFound := by
          rw [hrun]
        have hundone := h.undone rfl _ hresult
        have hnode : (opMkdir system tree.start shares shareId rel).1.node (dir.child name) =
            some .dir := by
          rw [hrun]
          exact TreeSystem.make_chain_first hbare hmay
        rw [show (opMkdir system tree.start shares shareId rel).1.node = tree.node from hundone,
          habsent] at hnode
        cases hnode
      · intro hcondition
        rcases hcondition with hdot | hrefused | ⟨htrailing, hall, -⟩
        · exact absurd hdot hdeep
        · rw [hmay] at hrefused
          cases hrefused
        · cases hok.mpr ⟨htrailing, hall⟩
    | ok _ =>
      obtain ⟨htrailing, hall⟩ := hok.mp rfl
      rw [if_neg htrailing] at hwanted
      obtain ⟨-, rfl⟩ := List.cons.inj hwanted
      simp only [canonicalize_made hnames hgap htrailing hall] at hrun
      by_cases hcovers : root.Covers dir
      · refine ⟨fun _ => .inr (.inr ⟨htrailing, hall, hcovers⟩), fun _ => ?_⟩
        have hbelowRoot : root.Covers (dir.below (name :: rest)) :=
          ⟨hcovers.1, hcovers.2.trans (List.prefix_append _ _)⟩
        rw [if_neg (not_not.mpr hbelowRoot)] at hrun
        constructor
        · intro change hmem
          have hchange : change ∈ (opMkdir system tree.start shares shareId rel).1.log := hmem
          rw [hrun, hlog] at hchange
          obtain ⟨behind, hbehind, rfl⟩ := hbelow change (by simpa [ClosedTree.start] using hchange)
          exact ⟨share, root, hshare, hroot, hcovers.inside (Location.inside_below hbehind)⟩
        · intro _ error herror
          have hresult : (opMkdir system tree.start shares shareId rel).2 = .error error := herror
          rw [hrun] at hresult
          cases hresult
      · constructor
        · intro h
          have hmem : TreeChange.made (dir.child name) ∈
              (ShareOp.run system tree.start shares shareId (.mkdir rel)).1.log := by
            show _ ∈ (opMkdir system tree.start shares shareId rel).1.log
            have hthere : TreeChange.made (dir.child name) ∈
                (system.makeChain tree.start dir (name :: rest)).1.log := by
              rw [hlog]
              exact List.mem_append_right _ hmade
            rw [hrun]
            split
            · split
              · exact mem_remove_log hthere
              · exact hthere
            · exact hthere
          obtain ⟨share', root', hshare', hroot', hinside⟩ := h.within _ hmem
          obtain rfl := Option.some.inj (hshare.symm.trans hshare')
          obtain rfl := Except.ok.inj (hroot.symm.trans hroot')
          exact absurd (covers_of_child_inside hinside) hcovers
        · rintro (hdot | hrefused | ⟨-, -, hcovered⟩)
          · exact absurd hdot hdeep
          · rw [hmay] at hrefused
            cases hrefused
          · exact absurd hcovered hcovers

theorem mkdir_contained_iff :
    Contained system tree shares shareId (.mkdir rel) ↔
      Harmless system tree shares shareId (.mkdir rel) := by
  have hquiet : ∀ error, opMkdir system tree.start shares shareId rel = (tree.start, .error error) →
      Contained system tree shares shareId (.mkdir rel) :=
    fun error hrun => contained_of_eq ⟨_, hrun⟩
  cases hshare : findShare shares shareId with
  | none =>
    refine ⟨fun _ share root hfound => ?_, fun _ => hquiet .unknownShare ?_⟩
    · rw [hshare] at hfound
      cases hfound
    · unfold opMkdir
      rw [hshare]
  | some share =>
  cases hlegal : illegal system.style rel with
  | true =>
    refine ⟨fun _ _ _ _ _ hnot => ?_, fun _ => hquiet .illegalPath ?_⟩
    · rw [hlegal] at hnot
      cases hnot
    · unfold opMkdir
      simp only [hshare, hlegal, if_true]
  | false =>
  cases hroot : system.canonicalize tree.start (share.path system.style) with
  | error failed =>
    refine ⟨fun _ found root hfound hcanonical => ?_, fun _ => hquiet .notFound ?_⟩
    · obtain rfl := Option.some.inj (hshare.symm.trans hfound)
      rw [hroot] at hcanonical
      cases hcanonical
    · unfold opMkdir
      simp only [hshare, hlegal, hroot, Bool.false_eq_true, if_false]
  | ok root =>
  have htidy : TreeSystem.Tidy (share.join system.style rel).comps := by
    intro name hmem
    exact of_decide_eq_true (List.mem_filter.mp hmem).2
  have hshared : ∀ found canonical, findShare shares shareId = some found →
      system.canonicalize tree.start (found.path system.style) = .ok canonical →
      found = share ∧ canonical = root := by
    intro found canonical hfound hcanonical
    obtain rfl := Option.some.inj (hshare.symm.trans hfound)
    exact ⟨rfl, Except.ok.inj (hcanonical.symm.trans hroot)⟩
  cases hgap : system.gap tree.node system.maxLinks (share.join system.style rel).start
      (share.join system.style rel).comps with
  | none =>
    refine ⟨fun _ found canonical hfound hcanonical _ dir name rest hmissing => ?_, fun _ => ?_⟩
    · obtain ⟨rfl, rfl⟩ := hshared found canonical hfound hcanonical
      rw [hgap] at hmissing
      cases hmissing
    · cases hexists : system.pathExists tree.start (share.join system.style rel) with
      | true =>
        refine hquiet .illegalPath ?_
        unfold opMkdir
        simp only [hshare, hlegal, hroot, hexists, Bool.false_eq_true, if_false, if_true]
      | false =>
        refine hquiet .notFound ?_
        have hreverse : system.gap tree.start.node system.maxLinks
            { volume := (share.join system.style rel).volume, names := [] }
            (share.join system.style rel).comps.reverse.reverse = none := by
          rw [List.reverse_reverse]
          exact hgap
        have hcreated : ∃ result, system.createDirAll tree.start (share.join system.style rel) =
            (tree.start, result) ∧ (result = .ok () → system.isDir tree.start
              { volume := (share.join system.style rel).volume
                comps := (share.join system.style rel).comps.reverse.reverse
                trailing := (share.join system.style rel).trailing } = true) :=
          TreeSystem.create_dirs_no_gap
            (fun name hmem => htidy name (List.mem_reverse.mp hmem)) hreverse
        obtain ⟨result, hresult, hisDir⟩ := hcreated
        rw [mkdir_run hshare hlegal hroot hexists, hresult]
        cases result with
        | error failed => rfl
        | ok _ =>
          -- it would exist
          have hthere := hisDir rfl
          rw [List.reverse_reverse] at hthere
          unfold TreeSystem.isDir at hthere
          unfold TreeSystem.pathExists at hexists
          split at hthere
          · next place hplace =>
            rw [show system.canonicalize tree.start (share.join system.style rel) =
              .ok place from hplace] at hexists
            cases hexists
          · cases hthere
  | some found =>
    obtain ⟨dir, missing⟩ := found
    obtain ⟨-, -, name, rest, -, rfl, -⟩ := TreeSystem.gap_some hgap
    rw [mkdir_missing_contained_iff hshare hlegal hroot hgap]
    constructor
    · intro h found canonical hfound hcanonical _ dir' name' rest' full hmissing
      obtain ⟨rfl, rfl⟩ := hshared found canonical hfound hcanonical
      obtain ⟨rfl, hmissing'⟩ := Prod.mk.inj (Option.some.inj (hgap.symm.trans hmissing))
      obtain ⟨rfl, rfl⟩ := List.cons.inj hmissing'
      exact h
    · intro h
      exact h share root hshare hroot hlegal dir name rest hgap

/-- What an operation does are changes. -/
theorem from_run : LinkedTree.From tree.node (op.run system tree.start shares shareId).1 := by
  have hstart : LinkedTree.From tree.node tree.start := rfl
  have hremove : ∀ next place, LinkedTree.From tree.node next →
      LinkedTree.From tree.node (system.remove next place).1 := by
    intro next place hnext
    unfold TreeSystem.remove
    split
    · exact hnext.perform
    · exact hnext.perform
  cases op with
  | rename rel newName =>
    rcases rename_cases system tree.start shares shareId rel newName with
      ⟨error, hrun, -⟩ | ⟨old, -, -, -, -, -, hrun⟩
    · show LinkedTree.From tree.node (opRename system tree.start shares shareId rel newName).1
      rw [hrun]
      exact hstart
    · show LinkedTree.From tree.node (opRename system tree.start shares shareId rel newName).1
      rw [hrun]
      exact hstart.perform
  | delete rel =>
    show LinkedTree.From tree.node (opDelete system tree.start shares shareId rel).1
    unfold opDelete
    split
    · exact hstart
    · next place _ =>
      have hnext := hremove tree.start place hstart
      split
      · next hresult =>
        rw [hresult] at hnext
        exact hnext
      · next hresult =>
        rw [hresult] at hnext
        exact hnext
  | mkdir rel =>
    show LinkedTree.From tree.node (opMkdir system tree.start shares shareId rel).1
    unfold opMkdir
    split
    · exact hstart
    next share _ =>
    split
    · exact hstart
    dsimp only
    split
    · exact hstart
    split
    · exact hstart
    have hcreated : LinkedTree.From tree.node
        (system.createDirAll tree.start (share.join system.style rel)).1 :=
      TreeSystem.from_create_dirs hstart
    split
    · next hcreate =>
      rw [hcreate] at hcreated
      exact hcreated
    · next hcreate =>
      rw [hcreate] at hcreated
      split
      · exact hcreated
      split
      · split
        · exact hremove _ _ hcreated
        · exact hcreated
      · exact hcreated

/-- A contained operation leaves the shared directory and everything outside it. -/
theorem contained_outside (h : Contained system tree shares shareId op)
    (hshare : findShare shares shareId = some share)
    (hroot : system.canonicalize tree.start (share.path system.style) = .ok root)
    (hplace : ¬ root.Inside place) :
    (op.run system tree.start shares shareId).1.node place = tree.node place := by
  refine from_run.outside (fun change hmem => ?_) hplace
  obtain ⟨share', root', hshare', hroot', hwithin⟩ := h.within change hmem
  obtain rfl := Option.some.inj (hshare.symm.trans hshare')
  obtain rfl := Except.ok.inj (hroot.symm.trans hroot')
  exact hwithin

/-- A valid name without a drive leads to a place next to the old one. -/
theorem rename_target_inside {old : Location} (hname : validName newName = true)
    (hstart : (system.style.start newName.toList).1 = .here) (hold : root.Inside old) :
    root.Inside (renameTarget system old newName) := by
  have hcovers : root.Covers old.up := by
    obtain ⟨hvolume, hprefix, hlength⟩ := hold
    refine ⟨hvolume, List.prefix_of_prefix_length_le hprefix (List.dropLast_prefix _) ?_⟩
    simp only [Location.up, List.length_dropLast]
    omega
  have htarget : renameTarget system old newName = old.up.child newName := by
    simp only [validName, Bool.and_eq_true, decide_eq_true_eq, Bool.not_eq_true',
      ne_eq] at hname
    obtain ⟨⟨⟨⟨⟨hnonempty, hhere⟩, hup⟩, hslash⟩, hback⟩, -⟩ := hname
    have hplain : ∀ c ∈ newName.toList, system.style.isSeparator c = false := by
      intro c hmem
      have hnotSlash : c ≠ '/' := by
        rintro rfl
        rw [List.contains_iff_mem.mpr hmem] at hslash
        cases hslash
      have hnotBack : c ≠ '\\' := by
        rintro rfl
        rw [List.contains_iff_mem.mpr hmem] at hback
        cases hback
      cases system.style <;> simp [PathStyle.isSeparator, hnotSlash, hnotBack]
    have hpieces : system.style.pieces newName.toList = [newName] := by
      unfold PathStyle.pieces
      rw [List.splitOnP_eq_singleton hplain]
      simp
    have hhereStart : system.style.start newName.toList = (.here, newName.toList) :=
      Prod.ext hstart (PathStyle.start_here hstart)
    unfold renameTarget PathStyle.join
    rw [hhereStart]
    dsimp only
    rw [hpieces]
    simp [PathStyle.walk, hnonempty, hhere, hup, Location.child]
  rw [htarget]
  exact hcovers.inside (Location.inside_child (.inl rfl))

end Proofs

/-- The system on Unix, when it permits everything. -/
def permissive : TreeSystem where
  style := .unix
  current _ := { volume := "", names := [] }
  maxLinks := 40
  mayMake _ := true
  mayMove _ _ := true
  removal _ := .whole

/-- A shared directory with a file and a link that leads out of it. -/
def sharedTree : ClosedTree :=
  .ofEntries
    [({ volume := "", names := [] }, .dir), ({ volume := "", names := ["o"] }, .dir),
      ({ volume := "", names := ["s"] }, .dir),
      ({ volume := "", names := ["s", "a"] }, .file []),
      ({ volume := "", names := ["s", "l"] }, .link "/o")]
    (by decide)

/-- The directory that is shared. -/
def sharedDir : ShareDef := { id := "s1", aliasName := "s", volume := "", pieces := ["s"] }

end LocalTrans.Share
