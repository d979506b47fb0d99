import LocalTrans.Foundation.PathSyntax
import Mathlib.Data.List.Induction

/-!
# Directory trees with symbolic links

A tree gives every place its node: a directory, a file, or a link with the text it leads to. `follow`
resolves a path as the system does, component by component, through links, and with a limit on how
many it goes through. `mkdir`, `createDirAll`, `remove` and `move` change a tree and record what they
change; a change that is `Within` a directory leaves everything else as it is (`apply_outside`).
`createDirAll` makes the names behind the `gap`, the first directory of the path that is missing:
`create_dir_all_eq`.
-/

namespace Foundation

/-- What is at a place. -/
inductive TreeNode where
  | dir
  | file (content : List UInt8)
  | link (target : String)
deriving DecidableEq

/-- Why a path leads nowhere, or a directory is not made. -/
inductive PathError where
  | notFound
  | notDir
  | loop
  | found
  | refused
deriving DecidableEq

namespace Location

/-- The directory that a place is in. -/
def up (location : Location) : Location :=
  { location with names := location.names.dropLast }

/-- A place is the other one, or below it. -/
def Covers (root location : Location) : Prop :=
  location.volume = root.volume ∧ root.names <+: location.names
deriving Decidable

variable {root location place : Location} {names : List String} {name : String}

theorem Inside.covers (h : root.Inside location) : root.Covers location :=
  ⟨h.1, h.2.1⟩

theorem covers_refl (root : Location) : root.Covers root :=
  ⟨rfl, List.prefix_refl _⟩

/-- What a place covers, it is itself, or has inside. -/
theorem covers_iff : root.Covers location ↔ root = location ∨ root.Inside location := by
  constructor
  · rintro ⟨hvolume, hprefix⟩
    by_cases hlength : root.names.length < location.names.length
    · exact .inr ⟨hvolume, hprefix, hlength⟩
    · have hnames : root.names = location.names :=
        hprefix.eq_of_length (Nat.le_antisymm hprefix.length_le (by omega))
      obtain ⟨volume, names⟩ := root
      obtain ⟨volume', names'⟩ := location
      exact .inl (by simp_all)
  · rintro (rfl | h)
    · exact covers_refl _
    · exact h.covers

/-- Inside a place that is covered. -/
theorem Covers.inside (h : root.Covers place) (hinside : place.Inside location) :
    root.Inside location :=
  ⟨hinside.1.trans h.1, h.2.trans hinside.2.1, Nat.lt_of_le_of_lt h.2.length_le hinside.2.2⟩

/-- Covered by a place that is inside. -/
theorem Inside.of_covers (h : root.Inside place) (hcovers : place.Covers location) :
    root.Inside location :=
  ⟨hcovers.1.trans h.1, h.2.1.trans hcovers.2, Nat.lt_of_lt_of_le h.2.2 hcovers.2.length_le⟩

end Location

/-- One change of a tree: a directory is made, a place is removed with all below it, some places below
a place are removed, or a place is moved with all below it. -/
inductive TreeChange where
  | made (place : Location)
  | removed (place : Location)
  | thinned (place : Location) (left : Location → Bool)
  | moved (source target : Location)

namespace TreeChange

/-- The nodes after a change. -/
def apply (node : Location → Option TreeNode) : TreeChange → Location → Option TreeNode
  | .made place => fun q => if q = place then some .dir else node q
  | .removed place => fun q => if place.Covers q then none else node q
  | .thinned place left => fun q => if place.Inside q ∧ left q = false then none else node q
  | .moved source target => fun q =>
    if target.Covers q then
      node { source with names := source.names ++ q.names.drop target.names.length }
    else if source.Covers q then none
    else node q

/-- A change makes, removes and moves only places strictly inside a directory. -/
def Within (root : Location) : TreeChange → Prop
  | .made place => root.Inside place
  | .removed place => root.Inside place
  | .thinned place _ => root.Covers place
  | .moved source target => root.Inside source ∧ root.Inside target

/-- A change within a directory leaves the directory and all outside it. -/
theorem apply_outside {node : Location → Option TreeNode} {change : TreeChange}
    {root q : Location} (h : change.Within root) (hq : ¬ root.Inside q) :
    change.apply node q = node q := by
  cases change with
  | made place =>
    refine if_neg ?_
    rintro rfl
    exact hq h
  | removed place => exact if_neg fun hcovers => hq (Location.Inside.of_covers h hcovers)
  | thinned place left => exact if_neg fun hinside => hq (Location.Covers.inside h hinside.1)
  | moved source target =>
    have htarget : ¬ target.Covers q := fun hcovers => hq (Location.Inside.of_covers h.2 hcovers)
    have hsource : ¬ source.Covers q := fun hcovers => hq (Location.Inside.of_covers h.1 hcovers)
    simp only [apply, if_neg htarget, if_neg hsource]

end TreeChange

/-- The nodes, and the changes that were made. -/
structure LinkedTree where
  node : Location → Option TreeNode
  log : List TreeChange

namespace LinkedTree

/-- Make a change. -/
def perform (tree : LinkedTree) (change : TreeChange) : LinkedTree :=
  { node := change.apply tree.node, log := tree.log ++ [change] }

/-- The nodes are what the changes have made of those at the beginning. -/
def From (node : Location → Option TreeNode) (tree : LinkedTree) : Prop :=
  tree.node = tree.log.foldl (fun node change => change.apply node) node

variable {node : Location → Option TreeNode} {tree : LinkedTree} {change : TreeChange}
  {root q : Location}

theorem From.perform (h : From node tree) : From node (tree.perform change) := by
  unfold From LinkedTree.perform
  rw [List.foldl_append, List.foldl_cons, List.foldl_nil, ← h]

/-- Changes within a directory leave the directory and all outside it. -/
theorem From.outside (h : From node tree) (hwithin : ∀ change ∈ tree.log, change.Within root)
    (hq : ¬ root.Inside q) : tree.node q = node q := by
  rw [h]
  clear h
  generalize tree.log = log at hwithin
  induction log generalizing node with
  | nil => rfl
  | cons change rest ih =>
    rw [List.foldl_cons, ih fun other hmem => hwithin other (List.mem_cons_of_mem _ hmem)]
    exact TreeChange.apply_outside (hwithin change List.mem_cons_self) hq

end LinkedTree

/-- How much of a place is removed. -/
inductive Removal where
  | whole
  | partly (left : Location → Bool)

/-- What the system does with paths, and what it permits. -/
structure TreeSystem where
  style : PathStyle
  current : Char → Location
  maxLinks : Nat
  mayMake : Location → Bool
  mayMove : Location → Location → Bool
  removal : Location → Removal

namespace TreeSystem

/-- Where a link begins, and the pieces of its text. -/
def linkStart (system : TreeSystem) (place : Location) (target : String) :
    Location × List String :=
  match system.style.start target.toList with
  | (.here, rest) => (place, system.style.pieces rest)
  | (.root, rest) => ({ place with names := [] }, system.style.pieces rest)
  | (.volume volume, rest) => ({ volume, names := [] }, system.style.pieces rest)
  | (.drive letter, rest) =>
    ({ system.current letter with names := [] },
      (system.current letter).names ++ system.style.pieces rest)

/-- Follow the pieces of a path; a link is followed by `again`. -/
def followWith (system : TreeSystem) (node : Location → Option TreeNode) (links : Nat)
    (again : Location → List String → Except PathError (Nat × Location)) :
    Location → List String → Except PathError (Nat × Location)
  | place, [] => .ok (links, place)
  | place, piece :: rest =>
    match node place with
    | some .dir =>
      if piece = "" ∨ piece = "." then followWith system node links again place rest
      else if piece = ".." then followWith system node links again place.up rest
      else match node (place.child piece) with
        | none => .error .notFound
        | some (.link target) =>
          again (system.linkStart place target).1
            ((system.linkStart place target).2 ++ rest)
        | some _ => followWith system node links again (place.child piece) rest
    | _ => .error .notDir

/-- Follow a path from a place through at most so many links; how many are left, and where it
leads. -/
def follow (system : TreeSystem) (node : Location → Option TreeNode) :
    Nat → Location → List String → Except PathError (Nat × Location)
  | 0 => followWith system node 0 fun _ _ => .error .loop
  | links + 1 => followWith system node (links + 1) (follow system node links)

/-- How the text of a path ends: with a name, with a separator, or with `.`. -/
inductive Trailing where
  | name
  | slash
  | dot
deriving DecidableEq

end TreeSystem

/-- A path as the system gets it: the names and `..` in it, from the root of a volume, and how it
ends. -/
structure TreePath where
  volume : String
  comps : List String
  trailing : TreeSystem.Trailing
deriving DecidableEq

namespace TreePath

/-- The root of the volume. -/
def start (path : TreePath) : Location := { volume := path.volume, names := [] }

/-- The pieces to follow. -/
def pieces (path : TreePath) : List String :=
  path.comps ++ match path.trailing with
    | .name => []
    | .slash => [""]
    | .dot => ["."]

/-- The path of the pieces between separators; Windows takes the empty ones and `.` out. -/
def ofPieces (style : PathStyle) (volume : String) (pieces : List String) : TreePath where
  volume := volume
  comps := pieces.filter fun piece => piece ≠ "" ∧ piece ≠ "."
  trailing := match style, (pieces.reverse.dropWhile fun piece => piece = "").head? with
    | .windows, _ => .name
    | .unix, some "." => .dot
    | .unix, _ => if pieces.getLast? = some "" then .slash else .name

end TreePath

namespace TreeSystem

/-- `canonicalize`: where the path leads. -/
def canonicalize (system : TreeSystem) (tree : LinkedTree) (path : TreePath) :
    Except PathError Location :=
  (system.follow tree.node system.maxLinks path.start path.pieces).map Prod.snd

/-- `Path::exists`. -/
def pathExists (system : TreeSystem) (tree : LinkedTree) (path : TreePath) : Bool :=
  (system.canonicalize tree path).isOk

/-- `Path::is_dir`. -/
def isDir (system : TreeSystem) (tree : LinkedTree) (path : TreePath) : Bool :=
  match system.canonicalize tree path with
  | .ok place => tree.node place = some .dir
  | .error _ => false

/-- The place of the path itself: a link at its end is not followed. -/
def placeOf (system : TreeSystem) (tree : LinkedTree) (path : TreePath) :
    Except PathError Location :=
  match path.trailing, path.comps.getLast? with
  | .name, some name =>
    if name = ".." then system.canonicalize tree path
    else match system.follow tree.node system.maxLinks path.start path.comps.dropLast with
      | .ok (_, dir) =>
        if tree.node dir = some .dir then
          if (tree.node (dir.child name)).isSome then .ok (dir.child name)
          else .error .notFound
        else .error .notDir
      | .error error => .error error
  | _, _ => system.canonicalize tree path

/-- Make a directory in another one. -/
def mkdirIn (system : TreeSystem) (tree : LinkedTree) (path : TreePath) (name : String) :
    Except PathError LinkedTree :=
  match system.follow tree.node system.maxLinks path.start path.comps.dropLast with
  | .error error => .error error
  | .ok (_, dir) =>
    if tree.node dir ≠ some .dir then .error .notDir
    else if name = ".." then .error .found
    else match tree.node (dir.child name) with
      | some _ => .error .found
      | none =>
        if system.mayMake (dir.child name) then .ok (tree.perform (.made (dir.child name)))
        else .error .refused

/-- The call `mkdir`. -/
def mkdir (system : TreeSystem) (tree : LinkedTree) (path : TreePath) :
    Except PathError LinkedTree :=
  match path.trailing, path.comps.getLast? with
  | .dot, _ =>
    match system.canonicalize tree path with
    | .ok _ => .error .found
    | .error error => .error error
  | _, none => .error .found
  | _, some name => system.mkdirIn tree path name

/-- `create_dir_all`, with the names from the last to the first: make the directory; if the one it is
in is not found, make that first. -/
def createDirs (system : TreeSystem) (volume : String) :
    LinkedTree → List String → Trailing → LinkedTree × Except PathError Unit
  | tree, names, trailing =>
    let path : TreePath := { volume, comps := names.reverse, trailing }
    match system.mkdir tree path with
    | .ok made => (made, .ok ())
    | .error .notFound =>
      match names with
      | [] => (tree, .error .refused)
      | _ :: parents =>
        match createDirs system volume tree parents .name with
        | (tree, .error error) => (tree, .error error)
        | (tree, .ok ()) =>
          match system.mkdir tree path with
          | .ok made => (made, .ok ())
          | .error error =>
            if system.isDir tree path then (tree, .ok ()) else (tree, .error error)
    | .error error => if system.isDir tree path then (tree, .ok ()) else (tree, .error error)

/-- `create_dir_all`. -/
def createDirAll (system : TreeSystem) (tree : LinkedTree) (path : TreePath) :
    LinkedTree × Except PathError Unit :=
  system.createDirs path.volume tree path.comps.reverse path.trailing

/-- `remove_dir_all` and `remove_file`; a link is removed, not what it leads to. -/
def remove (system : TreeSystem) (tree : LinkedTree) (place : Location) : LinkedTree × Bool :=
  match system.removal place with
  | .whole => (tree.perform (.removed place), true)
  | .partly left => (tree.perform (.thinned place left), false)

/-- `rename`. -/
def move (system : TreeSystem) (tree : LinkedTree) (source target : Location) :
    LinkedTree × Bool :=
  if system.mayMove source target then (tree.perform (.moved source target), true)
  else (tree, false)

section Follow

variable {system : TreeSystem} {node after : Location → Option TreeNode} {links left : Nat}
  {place reached : Location} {piece : String} {first second rest : List String}
  {error : PathError}

@[simp] theorem follow_nil : system.follow node links place [] = .ok (links, place) := by
  cases links <;> rfl

/-- One piece of a path. -/
theorem follow_cons :
    system.follow node links place (piece :: rest) =
      match node place with
      | some .dir =>
        if piece = "" ∨ piece = "." then system.follow node links place rest
        else if piece = ".." then system.follow node links place.up rest
        else match node (place.child piece) with
          | none => .error .notFound
          | some (.link target) =>
            match links with
            | 0 => .error .loop
            | fewer + 1 => system.follow node fewer (system.linkStart place target).1
                ((system.linkStart place target).2 ++ rest)
          | some _ => system.follow node links (place.child piece) rest
      | _ => .error .notDir := by
  cases links <;> rfl

/-- A path is followed to its middle, and from there with the links that are left, if this is so
behind a link. -/
theorem follow_with_append
    {again : Location → List String → Except PathError (Nat × Location)}
    {later : Nat → Location → List String → Except PathError (Nat × Location)}
    (hlater : ∀ place rest, later links place rest = followWith system node links again place rest)
    (hagain : ∀ place first, again place (first ++ second) =
      match again place first with
      | .ok (left, reached) => later left reached second
      | .error error => .error error) :
    followWith system node links again place (first ++ second) =
      match followWith system node links again place first with
      | .ok (left, reached) => later left reached second
      | .error error => .error error := by
  induction first generalizing place with
  | nil => exact (hlater place second).symm
  | cons piece rest ih =>
    rw [List.cons_append, followWith, followWith]
    split
    · split
      · exact ih
      split
      · exact ih
      split
      · rfl
      · rw [← List.append_assoc]
        exact hagain _ _
      · exact ih
    · rfl

/-- A path is followed to its middle, and from there with the links that are left. -/
theorem follow_append :
    system.follow node links place (first ++ second) =
      match system.follow node links place first with
      | .ok (left, reached) => system.follow node left reached second
      | .error error => .error error := by
  induction links generalizing place first with
  | zero => exact follow_with_append (fun _ _ => rfl) fun _ _ => rfl
  | succ links ih => exact follow_with_append (fun _ _ => rfl) fun _ _ => ih

theorem follow_append_ok (h : system.follow node links place first = .ok (left, reached)) :
    system.follow node links place (first ++ second) =
      system.follow node left reached second := by
  rw [follow_append, h]

/-- What is there stays. -/
def Grows (node after : Location → Option TreeNode) : Prop :=
  ∀ q found, node q = some found → after q = some found

/-- A path that leads somewhere leads there when there is more, if this is so behind a link. -/
theorem follow_with_grows
    {again later : Location → List String → Except PathError (Nat × Location)}
    (hagain : ∀ place first left reached, again place first = .ok (left, reached) →
      later place first = .ok (left, reached))
    (hgrows : Grows node after)
    (h : followWith system node links again place first = .ok (left, reached)) :
    followWith system after links later place first = .ok (left, reached) := by
  induction first generalizing place with
  | nil => exact h
  | cons piece rest ih =>
    rw [followWith] at h ⊢
    split at h
    · next hdir =>
      rw [hgrows _ _ hdir]
      dsimp only at h ⊢
      split at h
      · next hblank =>
        rw [if_pos hblank]
        exact ih h
      next hblank =>
      rw [if_neg hblank]
      split at h
      · next hup =>
        rw [if_pos hup]
        exact ih h
      next hup =>
      rw [if_neg hup]
      split at h
      · cases h
      · next target hfound =>
        rw [hgrows _ _ hfound]
        exact hagain _ _ _ _ h
      · next found hlink hfound =>
        rw [hgrows _ _ hfound]
        cases found with
        | link target => exact absurd rfl (hlink target)
        | dir => exact ih h
        | file content => exact ih h
    · cases h

/-- A path that leads somewhere leads there when there is more. -/
theorem follow_grows (hgrows : Grows node after)
    (h : system.follow node links place first = .ok (left, reached)) :
    system.follow after links place first = .ok (left, reached) := by
  induction links generalizing place first left reached with
  | zero => exact follow_with_grows (fun _ _ _ _ hagain => by cases hagain) hgrows h
  | succ links ih => exact follow_with_grows (fun _ _ _ _ hagain => ih hagain) hgrows h

/-- A name of a directory, and not the way up. -/
structure EntryName (name : String) : Prop where
  nonempty : name ≠ ""
  not_here : name ≠ "."
  not_up : name ≠ ".."

/-- One name leads to the entry of the directory that is there and no link. -/
theorem follow_entry (hname : EntryName piece) (hdir : node place = some .dir)
    (hentry : node (place.child piece) = some .dir) :
    system.follow node links place [piece] = .ok (links, place.child piece) := by
  rw [follow_cons, hdir]
  simp [hname.nonempty, hname.not_here, hname.not_up, hentry]

/-- One name leads nowhere if there is no such entry. -/
theorem follow_absent (hname : EntryName piece) (hdir : node place = some .dir)
    (hentry : node (place.child piece) = none) :
    system.follow node links place (piece :: rest) = .error .notFound := by
  rw [follow_cons, hdir]
  simp [hname.nonempty, hname.not_here, hname.not_up, hentry]

/-- What leads on from a place, leads on from a directory. -/
theorem dir_of_follow_cons
    (h : system.follow node links place (piece :: rest) = .ok (left, reached)) :
    node place = some .dir := by
  rw [follow_cons] at h
  split at h
  · assumption
  · cases h

/-- A piece that is no name leads somewhere from a directory. -/
theorem entry_name_of_error (hdir : node place = some .dir)
    (h : system.follow node links place [piece] = .error error) : EntryName piece := by
  rw [follow_cons, hdir] at h
  dsimp only at h
  refine ⟨?_, ?_, ?_⟩
  · rintro rfl
    simp at h
  · rintro rfl
    simp at h
  · rintro rfl
    simp at h

/-- The names of a path behind its first directory that is missing, and the directory that they are
missing from. -/
def gap (system : TreeSystem) (node : Location → Option TreeNode) :
    Nat → Location → List String → Option (Location × List String)
  | _, _, [] => none
  | links, place, name :: rest =>
    match system.follow node links place [name] with
    | .ok (left, reached) => gap system node left reached rest
    | .error _ =>
      if node place = some .dir ∧ node (place.child name) = none then
        some (place, name :: rest)
      else none

/-- What is before the gap is there, and its first name is not. -/
theorem gap_some {names comps : List String}
    (h : system.gap node links place comps = some (reached, names)) :
    ∃ before left name rest, comps = before ++ names ∧ names = name :: rest ∧
      system.follow node links place before = .ok (left, reached) ∧
      node reached = some .dir ∧ node (reached.child name) = none ∧ EntryName name := by
  induction comps generalizing links place with
  | nil => cases h
  | cons name rest ih =>
    rw [gap] at h
    split at h
    · next left next hfollow =>
      obtain ⟨before, left', first, behind, rfl, hnames, hbefore, hfacts⟩ := ih h
      refine ⟨name :: before, left', first, behind, rfl, hnames, ?_, hfacts⟩
      rw [← List.singleton_append, follow_append_ok hfollow]
      exact hbefore
    · next error hfollow =>
      split at h
      · next hmissing =>
        obtain ⟨rfl, rfl⟩ := Prod.mk.inj (Option.some.inj h)
        exact ⟨[], links, name, rest, rfl, rfl, follow_nil, hmissing.1, hmissing.2,
          entry_name_of_error hmissing.1 hfollow⟩
      · cases h

/-- A path with a gap is not found. -/
theorem follow_of_gap {names comps : List String}
    (h : system.gap node links place comps = some (reached, names)) :
    system.follow node links place (comps ++ rest) = .error .notFound := by
  obtain ⟨before, left, name, behind, rfl, rfl, hbefore, hdir, habsent, hname⟩ := gap_some h
  rw [List.append_assoc, follow_append_ok hbefore, List.cons_append]
  exact follow_absent hname hdir habsent

/-- One more name at the end of the path. -/
theorem gap_append_singleton {comps : List String} :
    system.gap node links place (comps ++ [piece]) =
      match system.gap node links place comps with
      | some (reached, names) => some (reached, names ++ [piece])
      | none =>
        match system.follow node links place comps with
        | .ok (left, reached) => system.gap node left reached [piece]
        | .error _ => none := by
  induction comps generalizing links place with
  | nil => simp [gap]
  | cons name rest ih =>
    rw [List.cons_append, gap, gap, ← List.singleton_append (x := name) (l := rest), follow_append]
    split
    · exact ih
    · split
      · rfl
      · rfl

/-- A name that is missing at the end of a path is its gap. -/
theorem gap_of_absent {comps : List String}
    (h : system.follow node links place comps = .ok (left, reached))
    (hdir : node reached = some .dir) (habsent : node (reached.child piece) = none)
    (hname : EntryName piece) :
    system.gap node links place (comps ++ [piece]) = some (reached, [piece]) := by
  rw [gap_append_singleton]
  split
  · next hgap =>
    have hmiss : system.follow node links place (comps ++ []) = .error .notFound :=
      follow_of_gap hgap
    rw [List.append_nil, h] at hmiss
    cases hmiss
  · rw [h]
    dsimp only
    rw [gap, follow_absent hname hdir habsent]
    exact if_pos ⟨hdir, habsent⟩

end Follow

/-- Make directories in each other until one may not be made; and whether all were. -/
def makeChain (system : TreeSystem) : LinkedTree → Location → List String → LinkedTree × Bool
  | tree, _, [] => (tree, true)
  | tree, place, name :: rest =>
    if system.mayMake (place.child name) then
      makeChain system (tree.perform (.made (place.child name))) (place.child name) rest
    else (tree, false)

/-- All the directories of a chain may be made. -/
def mayMakeAll (system : TreeSystem) : Location → List String → Bool
  | _, [] => true
  | place, name :: rest => system.mayMake (place.child name) && mayMakeAll system (place.child name) rest

section Making

variable {system : TreeSystem} {tree made : LinkedTree} {place q root : Location}
  {names : List String} {name : String} {links left : Nat} {all : Bool}

theorem make_chain_append :
    system.makeChain tree place (names ++ [name]) =
      match system.makeChain tree place names with
      | (made, true) =>
        if system.mayMake ((place.below names).child name) then
          (made.perform (.made ((place.below names).child name)), true)
        else (made, false)
      | (made, false) => (made, false) := by
  induction names generalizing tree place with
  | nil => simp [makeChain, Location.below]
  | cons first rest ih =>
    have hbelow : place.below (first :: rest) = (place.child first).below rest := by
      simp [Location.below, Location.child]
    rw [List.cons_append, makeChain, makeChain, hbelow]
    split
    · exact ih
    · rfl

theorem make_chain_all : (system.makeChain tree place names).2 = system.mayMakeAll place names := by
  induction names generalizing tree place with
  | nil => rfl
  | cons name rest ih =>
    rw [makeChain, mayMakeAll]
    split
    · next hmay => rw [ih, hmay, Bool.true_and]
    · next hmay => simp [hmay]

/-- There is nothing at a place, and nothing below it. -/
def Bare (tree : LinkedTree) (place : Location) : Prop :=
  ∀ q, place.Covers q → tree.node q = none

theorem Bare.perform_made (h : Bare tree place) :
    Bare (tree.perform (.made place)) (place.child name) := by
  intro q hcovers
  have hinside : place.Inside q := (Location.inside_child (.inl rfl)).of_covers hcovers
  have hne : q ≠ place := by
    rintro rfl
    exact absurd hinside.2.2 (Nat.lt_irrefl _)
  show (if q = place then some TreeNode.dir else tree.node q) = none
  rw [if_neg hne]
  exact h q hinside.covers

theorem grows_perform_made (h : tree.node place = none) :
    Grows tree.node (tree.perform (.made place)).node := by
  intro q found hfound
  show (if q = place then some TreeNode.dir else tree.node q) = some found
  rw [if_neg]
  · exact hfound
  · rintro rfl
    rw [h] at hfound
    cases hfound

/-- What is there stays when directories are made. -/
theorem grows_make_chain (h : ∀ name rest, names = name :: rest → Bare tree (place.child name)) :
    Grows tree.node (system.makeChain tree place names).1.node := by
  induction names generalizing tree place with
  | nil => exact fun _ _ hfound => hfound
  | cons name rest ih =>
    rw [makeChain]
    split
    · have hbare := h name rest rfl
      intro q found hfound
      have hnow := grows_perform_made (hbare _ (Location.covers_refl _)) q found hfound
      exact ih (fun _ _ _ => hbare.perform_made) q found hnow
    · exact fun _ _ hfound => hfound

/-- All the directories that were made are there; the way leads through them. -/
theorem follow_make_chain (hdir : tree.node place = some .dir)
    (h : ∀ name rest, names = name :: rest → Bare tree (place.child name))
    (hnames : ∀ name ∈ names, EntryName name)
    (hmade : system.makeChain tree place names = (made, true)) :
    system.follow made.node left place names = .ok (left, place.below names) ∧
      made.node (place.below names) = some .dir := by
  induction names generalizing tree place with
  | nil =>
    obtain ⟨rfl, -⟩ := Prod.mk.inj hmade
    simpa [Location.below] using hdir
  | cons name rest ih =>
    have hbelow : place.below (name :: rest) = (place.child name).below rest := by
      simp [Location.below, Location.child]
    have hbare := h name rest rfl
    rw [makeChain] at hmade
    split at hmade
    · have hthere : (tree.perform (.made (place.child name))).node (place.child name) =
          some .dir := if_pos rfl
      have hrest := ih hthere (fun _ _ _ => hbare.perform_made)
        (fun other hmem => hnames other (List.mem_cons_of_mem _ hmem)) hmade
      have hgrows : Grows (tree.perform (.made (place.child name))).node made.node := by
        have hchain : Grows (tree.perform (.made (place.child name))).node
            (system.makeChain (tree.perform (.made (place.child name)))
              (place.child name) rest).1.node :=
          grows_make_chain fun _ _ _ => hbare.perform_made
        rwa [hmade] at hchain
      have hplace : made.node place = some .dir :=
        hgrows _ _ (grows_perform_made (hbare _ (Location.covers_refl _)) _ _ hdir)
      have hentry : made.node (place.child name) = some .dir := hgrows _ _ hthere
      rw [hbelow, ← List.singleton_append,
        follow_append_ok (follow_entry (hnames name List.mem_cons_self) hplace hentry)]
      exact hrest
    · cases (Prod.mk.inj hmade).2

/-- Nothing is made but on the way to the last directory. -/
theorem make_chain_node (hmade : system.makeChain tree place names = (made, all))
    (hq : ¬ q.Covers (place.below names)) : made.node q = tree.node q := by
  induction names generalizing tree place with
  | nil =>
    obtain ⟨rfl, -⟩ := Prod.mk.inj hmade
    rfl
  | cons name rest ih =>
    have hbelow : place.below (name :: rest) = (place.child name).below rest := by
      simp [Location.below, Location.child]
    rw [makeChain] at hmade
    split at hmade
    · rw [hbelow] at hq
      rw [ih hmade hq]
      refine if_neg ?_
      rintro rfl
      exact hq ⟨rfl, List.prefix_append _ _⟩
    · obtain ⟨rfl, -⟩ := Prod.mk.inj hmade
      rfl

/-- What is made is below the directory. -/
theorem make_chain_log (hmade : system.makeChain tree place names = (made, all)) :
    ∃ new, made.log = tree.log ++ new ∧
      (∀ change ∈ new, ∃ behind, behind ≠ [] ∧ change = .made (place.below behind)) ∧
      (∀ name rest, names = name :: rest → system.mayMake (place.child name) = true →
        .made (place.child name) ∈ new) := by
  induction names generalizing tree place with
  | nil =>
    obtain ⟨rfl, -⟩ := Prod.mk.inj hmade
    exact ⟨[], by simp, by simp, by simp⟩
  | cons name rest ih =>
    rw [makeChain] at hmade
    split at hmade
    · obtain ⟨new, hlog, hbelow, -⟩ := ih hmade
      refine ⟨.made (place.child name) :: new, ?_, ?_, ?_⟩
      · rw [hlog]
        simp [LinkedTree.perform]
      · intro change hmem
        rcases List.mem_cons.mp hmem with rfl | hmore
        · exact ⟨[name], by simp, rfl⟩
        · obtain ⟨behind, -, rfl⟩ := hbelow change hmore
          exact ⟨name :: behind, by simp, by simp [Location.below, Location.child]⟩
      · intro first others hsame _
        obtain ⟨rfl, -⟩ := List.cons.inj hsame
        exact List.mem_cons_self
    · next hrefused =>
      obtain ⟨rfl, -⟩ := Prod.mk.inj hmade
      refine ⟨[], by simp, by simp, ?_⟩
      intro first others hsame hmay
      obtain ⟨rfl, -⟩ := List.cons.inj hsame
      exact absurd hmay hrefused

/-- Below a place where there is nothing, there is nothing. -/
def Closed (tree : LinkedTree) : Prop :=
  ∀ q, tree.node q = none → Bare tree q

/-- The names of a path are neither empty nor `.`. -/
def Tidy (comps : List String) : Prop :=
  ∀ name ∈ comps, name ≠ "" ∧ name ≠ "."

variable {volume : String} {comps missing : List String} {trailing : Trailing}
  {result : Except PathError Unit} {error : PathError}

theorem not_is_dir_of_gap
    (h : system.gap tree.node system.maxLinks { volume, names := [] } comps =
      some (place, missing)) :
    system.isDir tree { volume, comps, trailing } = false := by
  unfold isDir canonicalize TreePath.pieces TreePath.start
  rw [follow_of_gap h]
  rfl

/-- A path that ends with `.` and has a gap is not found. -/
theorem mkdir_dot_of_gap
    (h : system.gap tree.node system.maxLinks { volume, names := [] } comps =
      some (place, missing)) :
    system.mkdir tree { volume, comps, trailing := .dot } = .error .notFound := by
  unfold mkdir canonicalize TreePath.pieces TreePath.start
  dsimp only
  rw [follow_of_gap h]
  rfl

/-- A path that does not end with `.` makes its last name in the directory before it. -/
theorem mkdir_append (htrailing : trailing ≠ .dot) :
    system.mkdir tree { volume, comps := comps ++ [name], trailing } =
      match system.follow tree.node system.maxLinks { volume, names := [] } comps with
      | .error error => .error error
      | .ok (_, dir) =>
        if tree.node dir ≠ some .dir then .error .notDir
        else if name = ".." then .error .found
        else match tree.node (dir.child name) with
          | some _ => .error .found
          | none =>
            if system.mayMake (dir.child name) then
              .ok (tree.perform (.made (dir.child name)))
            else .error .refused := by
  unfold mkdir mkdirIn TreePath.start
  cases trailing with
  | dot => exact absurd rfl htrailing
  | name => simp
  | slash => simp

/-- Without a gap nothing is made. -/
theorem mkdir_no_gap (htidy : Tidy comps)
    (h : system.gap tree.node system.maxLinks { volume, names := [] } comps = none) :
    ∃ error, system.mkdir tree { volume, comps, trailing } = .error error := by
  by_cases htrailing : trailing = .dot
  · subst htrailing
    unfold mkdir
    dsimp only
    split
    · exact ⟨_, rfl⟩
    · exact ⟨_, rfl⟩
  · rcases List.eq_nil_or_concat comps with rfl | ⟨before, name, rfl⟩
    · refine ⟨.found, ?_⟩
      unfold mkdir
      cases trailing with
      | dot => exact absurd rfl htrailing
      | name => rfl
      | slash => rfl
    · rw [List.concat_eq_append] at h htidy ⊢
      rw [mkdir_append htrailing]
      rw [gap_append_singleton] at h
      split at h
      · cases h
      split at h
      · next left dir hfollow =>
        rw [hfollow]
        dsimp only
        split
        · exact ⟨_, rfl⟩
        next hdir =>
        split
        · exact ⟨_, rfl⟩
        next hup =>
        split
        · exact ⟨_, rfl⟩
        next habsent =>
        -- the name would be a gap
        have hname : EntryName name :=
          ⟨(htidy name (by simp)).1, (htidy name (by simp)).2, hup⟩
        have hisDir : tree.node dir = some .dir := by simpa using hdir
        rw [gap, follow_absent hname hisDir habsent] at h
        simp [hisDir, habsent] at h
      · next failed hfollow =>
        rw [hfollow]
        exact ⟨_, rfl⟩

/-- Where there is no gap, `create_dir_all` changes nothing; it succeeds on a directory. -/
theorem create_dirs_no_gap (htidy : Tidy names)
    (h : system.gap tree.node system.maxLinks { volume, names := [] } names.reverse = none) :
    ∃ result, system.createDirs volume tree names trailing = (tree, result) ∧
      (result = .ok () →
        system.isDir tree { volume, comps := names.reverse, trailing } = true) := by
  induction names generalizing trailing with
  | nil =>
    have hnothing : ∃ error, system.mkdir tree { volume, comps := [].reverse, trailing } =
        .error error := mkdir_no_gap (by simpa using htidy) h
    obtain ⟨error, hmkdir⟩ := hnothing
    rw [createDirs]
    simp only [hmkdir]
    cases error with
    | notFound => exact ⟨_, rfl, fun hok => nomatch hok⟩
    | notDir | loop | found | refused =>
      dsimp only
      split
      · next hdir => exact ⟨_, rfl, fun _ => hdir⟩
      · exact ⟨_, rfl, fun hok => nomatch hok⟩
  | cons last parents ih =>
    have htidy' : Tidy (last :: parents).reverse := by
      intro name hmem
      exact htidy name (List.mem_reverse.mp hmem)
    have hnothing : ∃ error, system.mkdir tree
        { volume, comps := (last :: parents).reverse, trailing } = .error error :=
      mkdir_no_gap htidy' h
    obtain ⟨error, hmkdir⟩ := hnothing
    have hparents : system.gap tree.node system.maxLinks { volume, names := [] }
        parents.reverse = none := by
      rw [List.reverse_cons, gap_append_singleton] at h
      split at h
      · cases h
      · assumption
    have hbefore : ∃ result, system.createDirs volume tree parents .name = (tree, result) ∧
        (result = .ok () →
          system.isDir tree { volume, comps := parents.reverse, trailing := .name } = true) :=
      ih (fun name hmem => htidy name (List.mem_cons_of_mem _ hmem)) hparents
    obtain ⟨result, hresult, -⟩ := hbefore
    rw [createDirs]
    simp only [hmkdir]
    cases error with
    | notFound =>
      dsimp only
      rw [hresult]
      cases result with
      | error failed => exact ⟨_, rfl, fun hok => nomatch hok⟩
      | ok _ =>
        dsimp only
        simp only [hmkdir]
        split
        · next hdir => exact ⟨_, rfl, fun _ => hdir⟩
        · exact ⟨_, rfl, fun hok => nomatch hok⟩
    | notDir | loop | found | refused =>
      dsimp only
      split
      · next hdir => exact ⟨_, rfl, fun _ => hdir⟩
      · exact ⟨_, rfl, fun hok => nomatch hok⟩

/-- When the chain behind the gap was made, the next name is missing in its last directory. -/
theorem make_chain_gap {behind : List String} (hclosed : Closed tree)
    (hnames : ∀ name ∈ behind, EntryName name)
    (h : system.gap tree.node links { volume, names := [] } comps = some (place, behind))
    (hname : EntryName name) (hall : (system.makeChain tree place behind).2 = true) :
    system.gap (system.makeChain tree place behind).1.node links { volume, names := [] }
      (comps ++ [name]) = some (place.below behind, [name]) := by
  obtain ⟨before, left, first, others, rfl, hbehind, hfollow, hdir, habsent, -⟩ := gap_some h
  have hbare : ∀ name rest, behind = name :: rest → Bare tree (place.child name) := by
    intro name rest hsame
    obtain ⟨rfl, -⟩ := List.cons.inj (hbehind.symm.trans hsame)
    exact hclosed _ habsent
  have hgrows : Grows tree.node (system.makeChain tree place behind).1.node :=
    grows_make_chain hbare
  rcases hchain : system.makeChain tree place behind with ⟨made, all⟩
  rw [hchain] at hall hgrows
  obtain rfl : all = true := hall
  have hmade : system.follow made.node left place behind = .ok (left, place.below behind) ∧
      made.node (place.below behind) = some .dir :=
    follow_make_chain hdir hbare hnames hchain
  have hreached : system.follow made.node links { volume, names := [] } (before ++ behind) =
      .ok (left, place.below behind) := by
    rw [follow_append_ok (follow_grows hgrows hfollow)]
    exact hmade.1
  refine gap_of_absent hreached hmade.2 ?_ hname
  rw [make_chain_node hchain]
  · refine hclosed _ habsent _ ?_
    rw [hbehind]
    refine ⟨rfl, ?_⟩
    simp [Location.below, Location.child]
  · rintro ⟨-, hprefix⟩
    have hlength := hprefix.length_le
    simp only [Location.below, Location.child, List.length_append, List.length_singleton] at hlength
    omega

/-- `create_dir_all` succeeds on a directory that is there. -/
theorem create_dirs_existing (htidy : Tidy names)
    (h : system.follow tree.node system.maxLinks { volume, names := [] } names.reverse =
      .ok (left, place))
    (hdir : tree.node place = some .dir) :
    system.createDirs volume tree names .name = (tree, .ok ()) := by
  have hisDir : system.isDir tree { volume, comps := names.reverse, trailing := .name } = true := by
    unfold isDir canonicalize TreePath.pieces TreePath.start
    dsimp only
    rw [List.append_nil, h]
    simpa [Except.map] using hdir
  have hfound : system.mkdir tree { volume, comps := names.reverse, trailing := .name } =
      .error .found := by
    cases names with
    | nil => rfl
    | cons last parents =>
      rw [List.reverse_cons] at h ⊢
      rw [mkdir_append (by decide)]
      rw [follow_append] at h
      split at h
      · next left' dir hfollow =>
        rw [hfollow]
        have hbefore := dir_of_follow_cons h
        dsimp only
        rw [if_neg (by simp [hbefore])]
        split
        · rfl
        next hup =>
        split
        · rfl
        next habsent =>
        have hname : EntryName last :=
          ⟨(htidy last List.mem_cons_self).1, (htidy last List.mem_cons_self).2, hup⟩
        rw [follow_absent hname hbefore habsent] at h
        cases h
      · cases h
  rw [createDirs.eq_def]
  simp only [hfound, hisDir, if_true]

/-- One directory is missing: it is made if it may be, and if the path does not end with `.`. -/
theorem mkdir_last
    (h : system.gap tree.node system.maxLinks { volume, names := [] } (comps ++ [name]) =
      some (place, [name])) :
    system.mkdir tree { volume, comps := comps ++ [name], trailing } =
      if trailing = .dot then .error .notFound
      else if system.mayMake (place.child name) then
        .ok (tree.perform (.made (place.child name)))
      else .error .refused := by
  by_cases htrailing : trailing = .dot
  · subst htrailing
    rw [mkdir_dot_of_gap h, if_pos rfl]
  · obtain ⟨before, left, first, rest, hcomps, hnames, hfollow, hdir, habsent, hname⟩ := gap_some h
    obtain ⟨rfl, rfl⟩ := List.cons.inj hnames
    obtain rfl : comps = before := List.append_cancel_right hcomps
    rw [mkdir_append htrailing, hfollow, if_neg htrailing]
    dsimp only
    rw [if_neg (by simp [hdir]), if_neg hname.not_up, habsent]

/-- Several directories are missing. -/
theorem mkdir_deep {missing' : List String}
    (h : system.gap tree.node system.maxLinks { volume, names := [] } comps =
      some (place, missing')) :
    system.mkdir tree { volume, comps := comps ++ [name], trailing } = .error .notFound := by
  by_cases htrailing : trailing = .dot
  · subst htrailing
    have hgap : system.gap tree.node system.maxLinks { volume, names := [] } (comps ++ [name]) =
        some (place, missing' ++ [name]) := by
      rw [gap_append_singleton, h]
    exact mkdir_dot_of_gap hgap
  · have hmiss : system.follow tree.node system.maxLinks { volume, names := [] } (comps ++ []) =
        .error .notFound := follow_of_gap h
    rw [List.append_nil] at hmiss
    rw [mkdir_append htrailing, hmiss]

/-- `create_dir_all` on a path with a last name. -/
theorem create_dirs_cons {last : String} {parents : List String} :
    system.createDirs volume tree (last :: parents) trailing =
      match system.mkdir tree { volume, comps := parents.reverse ++ [last], trailing } with
      | .ok made => (made, .ok ())
      | .error .notFound =>
        match system.createDirs volume tree parents .name with
        | (tree, .error error) => (tree, .error error)
        | (tree, .ok ()) =>
          match system.mkdir tree { volume, comps := parents.reverse ++ [last], trailing } with
          | .ok made => (made, .ok ())
          | .error error =>
            if system.isDir tree { volume, comps := parents.reverse ++ [last], trailing } then
              (tree, .ok ())
            else (tree, .error error)
      | .error error =>
        if system.isDir tree { volume, comps := parents.reverse ++ [last], trailing } then
          (tree, .ok ())
        else (tree, .error error) := by
  rw [← List.reverse_cons, createDirs.eq_def]

/-- The directories that `create_dir_all` makes where only the last name of the path is missing. -/
theorem create_dirs_last (htidy : Tidy names)
    (h : system.gap tree.node system.maxLinks { volume, names := [] } (name :: names).reverse =
      some (place, [name])) :
    system.createDirs volume tree (name :: names) trailing =
      if trailing = .dot then (tree, .error .notFound)
      else if system.mayMake (place.child name) then
        (tree.perform (.made (place.child name)), .ok ())
      else (tree, .error .refused) := by
  have hnotDir : system.isDir tree { volume, comps := (name :: names).reverse, trailing } = false :=
    not_is_dir_of_gap h
  rw [List.reverse_cons] at h hnotDir
  have hmkdir : system.mkdir tree { volume, comps := names.reverse ++ [name], trailing } = _ :=
    mkdir_last h
  rw [create_dirs_cons]
  by_cases htrailing : trailing = .dot
  · rw [if_pos htrailing] at hmkdir ⊢
    obtain ⟨before, left, first, rest, hcomps, hnames, hfollow, hdir, -, -⟩ := gap_some h
    obtain ⟨rfl, rfl⟩ := List.cons.inj hnames
    obtain rfl : names.reverse = before := List.append_cancel_right hcomps
    simp only [hmkdir, create_dirs_existing htidy hfollow hdir, hnotDir]
    rfl
  · rw [if_neg htrailing] at hmkdir ⊢
    split at hmkdir
    · next hmay => simp only [hmkdir, if_pos hmay]
    · next hmay => simp only [hmkdir, if_neg hmay, hnotDir]; rfl

/-- `create_dir_all` makes the names behind the gap, until one may not be made; if the path ends with
`.`, all but the last, and then fails. -/
theorem create_dirs_gap (hclosed : Closed tree) (htidy : Tidy names)
    (hmissing : ∀ name ∈ missing, EntryName name)
    (h : system.gap tree.node system.maxLinks { volume, names := [] } names.reverse =
      some (place, missing)) :
    ∃ result, system.createDirs volume tree names trailing =
        ((system.makeChain tree place
          (if trailing = .dot then missing.dropLast else missing)).1, result) ∧
      (result = .ok () ↔
        trailing ≠ .dot ∧ (system.makeChain tree place missing).2 = true) := by
  induction names generalizing trailing missing with
  | nil => cases h
  | cons last parents ih =>
    have htidy' : Tidy parents := fun name hmem => htidy name (List.mem_cons_of_mem _ hmem)
    have hgap := h
    rw [List.reverse_cons, gap_append_singleton] at h
    split at h
    · next reached behind hbefore =>
      obtain ⟨rfl, rfl⟩ := Prod.mk.inj (Option.some.inj h)
      have hentries : ∀ name ∈ behind, EntryName name :=
        fun name hmem => hmissing name (List.mem_append_left _ hmem)
      have hparents : ∃ result, system.createDirs volume tree parents .name =
          ((system.makeChain tree reached
            (if Trailing.name = .dot then behind.dropLast else behind)).1, result) ∧
          (result = .ok () ↔ Trailing.name ≠ .dot ∧
            (system.makeChain tree reached behind).2 = true) :=
        ih htidy' hentries hbefore
      obtain ⟨result, hresult, hok⟩ := hparents
      rw [if_neg (by decide)] at hresult
      rw [create_dirs_cons]
      simp only [mkdir_deep hbefore, hresult]
      have hmade := make_chain_gap hclosed hentries hbefore (hmissing last (by simp))
      rw [make_chain_append]
      rcases hchain : system.makeChain tree reached behind with ⟨made, all⟩
      rw [hchain] at hok hmade
      cases all with
      | false =>
        cases result with
        | ok _ => exact absurd (hok.mp rfl).2 (by simp)
        | error error =>
          refine ⟨.error error, ?_, by simp⟩
          dsimp only
          split
          · rw [List.dropLast_concat, hchain]
          · rw [make_chain_append, hchain]
      | true =>
        obtain rfl : result = .ok () := hok.mpr ⟨by decide, rfl⟩
        simp only [mkdir_last (hmade rfl), not_is_dir_of_gap (hmade rfl)]
        by_cases htrailing : trailing = .dot
        · refine ⟨.error .notFound, ?_, by simp [htrailing]⟩
          simp only [if_pos htrailing, List.dropLast_concat, hchain]
          rfl
        · simp only [if_neg htrailing, make_chain_append, hchain]
          by_cases hmay : system.mayMake ((reached.below behind).child last) = true
          · simp only [if_pos hmay]
            exact ⟨.ok (), rfl, by simp [htrailing]⟩
          · simp only [if_neg hmay]
            exact ⟨.error .refused, rfl, by simp⟩
    · next hbefore =>
      split at h
      · next left reached hfollow =>
        obtain ⟨before, left', first, others, hcomps, hnames, -⟩ := gap_some h
        obtain rfl : [last] = missing := by
          rw [hnames] at hcomps ⊢
          cases before with
          | nil => exact hcomps
          | cons other rest => simp at hcomps
        rw [create_dirs_last htidy' hgap]
        by_cases htrailing : trailing = .dot
        · simp only [if_pos htrailing]
          exact ⟨_, rfl, by simp [htrailing]⟩
        · simp only [if_neg htrailing, makeChain]
          by_cases hmay : system.mayMake (place.child last) = true
          · simp only [if_pos hmay]
            exact ⟨_, rfl, by simp [htrailing]⟩
          · simp only [if_neg hmay]
            exact ⟨_, rfl, by simp⟩
      · cases h

/-- The first directory of a chain is there if it may be made. -/
theorem make_chain_first {rest : List String} (hbare : Bare tree (place.child name))
    (hmay : system.mayMake (place.child name) = true) :
    (system.makeChain tree place (name :: rest)).1.node (place.child name) = some .dir := by
  rw [makeChain, if_pos hmay]
  have hgrows : Grows (tree.perform (.made (place.child name))).node
      (system.makeChain (tree.perform (.made (place.child name)))
        (place.child name) rest).1.node :=
    grows_make_chain fun _ _ _ => hbare.perform_made
  exact hgrows _ _ (if_pos rfl)

/-- What `mkdir` and `create_dir_all` do are changes. -/
theorem from_mkdir {node : Location → Option TreeNode} {path : TreePath}
    (h : LinkedTree.From node tree) (hmade : system.mkdir tree path = .ok made) :
    LinkedTree.From node made := by
  unfold mkdir at hmade
  split at hmade
  · split at hmade
    · cases hmade
    · cases hmade
  · cases hmade
  · unfold mkdirIn at hmade
    split at hmade
    · cases hmade
    split at hmade
    · cases hmade
    split at hmade
    · cases hmade
    split at hmade
    · cases hmade
    split at hmade
    · obtain rfl := Except.ok.inj hmade
      exact h.perform
    · cases hmade

theorem from_create_dirs {node : Location → Option TreeNode} (h : LinkedTree.From node tree) :
    LinkedTree.From node (system.createDirs volume tree names trailing).1 := by
  induction names generalizing trailing with
  | nil =>
    rw [createDirs.eq_def]
    dsimp only
    split
    · next hmade => exact from_mkdir h hmade
    · exact h
    · split
      · exact h
      · exact h
  | cons last parents ih =>
    rw [create_dirs_cons]
    split
    · next hmade => exact from_mkdir h hmade
    · have hparents : LinkedTree.From node (system.createDirs volume tree parents .name).1 := ih
      split
      · next between error hcreate =>
        rw [hcreate] at hparents
        exact hparents
      · next between hcreate =>
        rw [hcreate] at hparents
        split
        · next hmade => exact from_mkdir hparents hmade
        · split
          · exact hparents
          · exact hparents
    · split
      · exact h
      · exact h

/-- The gap of a path is that of its rest, if its beginning is there. -/
theorem gap_append_ok {node : Location → Option TreeNode} {reached : Location}
    (h : system.follow node links place comps = .ok (left, reached)) :
    system.gap node links place (comps ++ missing) = system.gap node left reached missing := by
  induction comps generalizing links place with
  | nil =>
    obtain ⟨rfl, rfl⟩ := Prod.mk.inj (Except.ok.inj (follow_nil.symm.trans h))
    rfl
  | cons first rest ih =>
    rw [← List.singleton_append, follow_append] at h
    rw [List.cons_append, gap]
    split at h
    · exact ih h
    · cases h

end Making

end TreeSystem

/-- A tree in which every place is in a directory. -/
structure ClosedTree where
  node : Location → Option TreeNode
  closed : ∀ place name, node (place.child name) ≠ none → node place = some .dir

namespace ClosedTree

/-- The tree before any change. -/
def start (tree : ClosedTree) : LinkedTree := { node := tree.node, log := [] }

theorem closed_start (tree : ClosedTree) : TreeSystem.Closed tree.start := by
  rintro place hnone q ⟨hvolume, behind, hnames⟩
  obtain ⟨volume, names⟩ := q
  obtain rfl : volume = place.volume := hvolume
  dsimp only at hnames
  subst hnames
  induction behind using List.reverseRecOn with
  | nil =>
    rw [List.append_nil]
    exact hnone
  | append_singleton before name ih =>
    by_contra hsome
    have hparent := tree.closed { volume := place.volume, names := place.names ++ before } name (by
      simpa [Location.child, start] using hsome)
    rw [show tree.node _ = none from ih] at hparent
    cases hparent

/-- A tree with finitely many entries. -/
def ofEntries (entries : List (Location × TreeNode))
    (h : ∀ entry ∈ entries, entry.1.names ≠ [] → entries.lookup entry.1.up = some .dir) :
    ClosedTree where
  node place := entries.lookup place
  closed place name hsome := by
    obtain ⟨found, hfound⟩ := Option.ne_none_iff_exists'.mp hsome
    have hmem : (place.child name, found) ∈ entries := by
      obtain ⟨before, after, rfl, -⟩ := List.lookup_eq_some_iff.mp hfound
      simp
    have hup := h _ hmem (by simp [Location.child])
    simpa [Location.up, Location.child] using hup

end ClosedTree

end Foundation
