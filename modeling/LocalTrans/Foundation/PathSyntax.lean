import Mathlib.Algebra.Order.Ring.Nat

/-!
# Paths and where they lead

The syntax of paths on Unix and on Windows, as the standard path type reads it: separators,
absolute paths, drive prefixes, `.` and `..`, the last component with its stem and extension. A
`Location` is a place in the file system, and `join` says where a path leads from a location. A
plain name, with neither separator nor colon, leads to an entry of the directory itself. Case is
significant, symbolic links are not followed, and the prefixes of network and verbatim paths are
volumes of their own.
-/

namespace Foundation

/-- The two families of path syntax. -/
inductive PathStyle where
  | unix
  | windows
deriving DecidableEq, Repr

/-- A place in the file system: a volume, and the names on the way from its root. -/
structure Location where
  volume : String
  names : List String
deriving DecidableEq, Repr

namespace Location

/-- A location strictly below another. -/
def Inside (root location : Location) : Prop :=
  location.volume = root.volume ∧ root.names <+: location.names ∧
    root.names.length < location.names.length
deriving Decidable

/-- The entry of a directory with the given name. -/
def child (location : Location) (name : String) : Location :=
  { location with names := location.names ++ [name] }

/-- The directory some names further down. -/
def below (location : Location) (names : List String) : Location :=
  { location with names := location.names ++ names }

variable {root location : Location} {names : List String} {name : String}

/-- Whatever is below a location that is not above the root is inside the root. -/
theorem inside_below (h : names ≠ []) : root.Inside (root.below names) := by
  refine ⟨rfl, List.prefix_append _ _, ?_⟩
  have hpos : 0 < names.length := List.length_pos_iff.mpr h
  simp only [below, List.length_append]
  omega

/-- An entry of a directory that is inside, or of the root itself, is inside. -/
theorem inside_child (h : location = root ∨ root.Inside location) :
    root.Inside (location.child name) := by
  rcases h with rfl | ⟨hvolume, hprefix, hlength⟩
  · exact inside_below (by simp)
  · refine ⟨hvolume, hprefix.trans (List.prefix_append _ _), ?_⟩
    simp only [child, List.length_append]
    omega

/-- Some names below the root lead to the root or inside it. -/
theorem below_or (root : Location) (names : List String) :
    root.below names = root ∨ root.Inside (root.below names) := by
  by_cases h : names = []
  · subst h
    exact .inl (by simp [below])
  · exact .inr (inside_below h)

end Location

namespace PathStyle

/-- The characters that separate components. -/
def isSeparator : PathStyle → Char → Bool
  | .unix, c => c == '/'
  | .windows, c => c == '/' || c == '\\'

/-- Where a path starts: in the current directory of the process, at the root of its volume, at
the root of a named volume, or in the current directory of a drive. -/
inductive Start where
  | here
  | root
  | volume (name : String)
  | drive (letter : Char)
deriving DecidableEq

/-- Split off the text before the next separator. -/
def untilSeparator (style : PathStyle) (path : List Char) : List Char × List Char :=
  (path.takeWhile fun c => !style.isSeparator c, (path.dropWhile fun c => !style.isSeparator c).tail)

/-- The prefix of a path, and the rest of it. -/
def start (style : PathStyle) (path : List Char) : Start × List Char :=
  match style, path with
  | .unix, first :: rest => if first == '/' then (.root, rest) else (.here, path)
  | .unix, [] => (.here, [])
  | .windows, first :: second :: rest =>
    if style.isSeparator first && style.isSeparator second then
      let (server, rest) := style.untilSeparator rest
      let (share, rest) := style.untilSeparator rest
      if server.isEmpty || share.isEmpty then (.root, path)
      else (.volume (String.ofList ('/' :: '/' :: server ++ '/' :: share)), rest)
    else if style.isSeparator first then (.root, second :: rest)
    else if first.isAlpha && second == ':' then
      match rest with
      | third :: rest =>
        if style.isSeparator third then
          (.volume (String.ofList [first.toUpper, ':']), rest)
        else (.drive first.toUpper, third :: rest)
      | [] => (.drive first.toUpper, [])
    else (.here, path)
  | .windows, [first] => if style.isSeparator first then (.root, []) else (.here, path)
  | .windows, [] => (.here, [])

/-- A path without a prefix and a root is its own rest. -/
theorem start_here {style : PathStyle} {path : List Char} (h : (style.start path).1 = .here) :
    (style.start path).2 = path := by
  unfold start at h ⊢
  split at h
  · split at h
    · cases h
    · next hfirst => simp [hfirst]
  · rfl
  · dsimp only at h ⊢
    split at h
    · next hnet =>
      rw [if_pos hnet]
      split at h
      · cases h
      · cases h
    next hnet =>
    rw [if_neg hnet]
    split at h
    · cases h
    next hroot =>
    rw [if_neg hroot]
    split at h
    · next hdrive =>
      rw [if_pos hdrive]
      split at h
      · split at h
        · cases h
        · cases h
      · cases h
    · next hdrive => rw [if_neg hdrive]
  · split at h
    · cases h
    · next hfirst => simp [hfirst]
  · rfl

/-- The pieces between separators. -/
def pieces (style : PathStyle) (path : List Char) : List String :=
  (path.splitOnP style.isSeparator).map String.ofList

/-- Follow one piece of a path. -/
def walk (names : List String) (piece : String) : List String :=
  if piece = "" ∨ piece = "." then names
  else if piece = ".." then names.dropLast
  else names ++ [piece]

/-- `Path::join`, and where the result leads; `current` is the current directory of a drive. -/
def join (style : PathStyle) (current : Char → Location) (base : Location) (path : String) :
    Location :=
  let (start, rest) := style.start path.toList
  let pieces := style.pieces rest
  match start with
  | .here => { base with names := pieces.foldl walk base.names }
  | .root => { base with names := pieces.foldl walk [] }
  | .volume name => { volume := name, names := pieces.foldl walk [] }
  | .drive letter =>
    { current letter with names := pieces.foldl walk (current letter).names }

/-- `Path::is_absolute`. -/
def isAbsolute (style : PathStyle) (path : String) : Bool :=
  match style, (style.start path.toList).1 with
  | .unix, .root => true
  | .windows, .volume _ => true
  | _, _ => false

/-- The names in a path, after its prefix and root. -/
def names (style : PathStyle) (path : String) : List String :=
  (style.pieces (style.start path.toList).2).filter fun piece => piece ≠ "" ∧ piece ≠ "."

/-- The text of the prefix and the root, as `Path::components` yields them. -/
def rootComponents (style : PathStyle) (path : String) : List String :=
  match style, (style.start path.toList).1 with
  | _, .here => []
  | .unix, _ => ["/"]
  | .windows, .root => ["\\"]
  | .windows, .volume name => [name, "\\"]
  | .windows, .drive letter => [String.ofList [letter, ':']]

/-- `Path::parent`, by components: all but the last name. -/
def parent (style : PathStyle) (path : String) : List String :=
  match style.names path with
  | [] => []
  | names => style.rootComponents path ++ names.dropLast

/-- `Path::file_name`. -/
def fileName (style : PathStyle) (path : String) : Option String :=
  match (style.names path).getLast? with
  | some last => if last = ".." then none else some last
  | none => none

/-- Split a file name at its last dot, unless nothing stands before it. -/
def splitAtDot (name : List Char) : List Char × Option (List Char) :=
  let after := (name.reverse.takeWhile fun c => c != '.').reverse
  let before := name.take (name.length - after.length - 1)
  if name.contains '.' && !before.isEmpty then (before, some after) else (name, none)

/-- `Path::file_stem`. -/
def fileStem (style : PathStyle) (path : String) : Option String :=
  (style.fileName path).map fun name => String.ofList (splitAtDot name.toList).1

/-- `Path::extension`. -/
def extension (style : PathStyle) (path : String) : Option String :=
  (style.fileName path).bind fun name => (splitAtDot name.toList).2.map String.ofList

end PathStyle

/-- A name that is an entry of a directory on every system. -/
structure PlainName (name : String) : Prop where
  nonempty : name ≠ ""
  not_here : name ≠ "."
  not_parent : name ≠ ".."
  chars : ∀ c ∈ name.toList, c ≠ '/' ∧ c ≠ '\\' ∧ c ≠ ':'

namespace PlainName

variable {name : String} {style : PathStyle} {current : Char → Location} {base : Location}

/-- A plain name has no separator. -/
theorem no_separator (h : PlainName name) : ∀ c ∈ name.toList, style.isSeparator c = false := by
  intro c hc
  obtain ⟨hslash, hback, -⟩ := h.chars c hc
  cases style <;> simp [PathStyle.isSeparator, hslash, hback]

/-- A plain name has no prefix and no root. -/
theorem start_eq (h : PlainName name) : style.start name.toList = (.here, name.toList) := by
  have hsep : ∀ c ∈ name.toList, style.isSeparator c = false := h.no_separator
  have hcolon : ∀ c ∈ name.toList, (c == ':') = false := by
    intro c hc
    simpa using (h.chars c hc).2.2
  unfold PathStyle.start
  split
  · next first rest hlist =>
    have hfirst := (h.chars first (by rw [hlist]; simp)).1
    simp [hfirst, hlist]
  · next hlist => rw [hlist]
  · next first second rest hlist =>
    have hfirst := hsep first (by rw [hlist]; simp)
    have hsecond := hcolon second (by rw [hlist]; simp)
    simp [hfirst, hsecond, hlist]
  · next first hlist =>
    have hfirst := hsep first (by rw [hlist]; simp)
    simp [hfirst, hlist]
  · next hlist => rw [hlist]

/-- A plain name is one piece. -/
theorem pieces_eq (h : PlainName name) : style.pieces name.toList = [name] := by
  unfold PathStyle.pieces
  rw [List.splitOnP_eq_singleton h.no_separator]
  simp

/-- A plain name leads to an entry of the directory. -/
theorem join_eq (h : PlainName name) : style.join current base name = base.child name := by
  unfold PathStyle.join
  rw [h.start_eq]
  simp [h.pieces_eq, PathStyle.walk, h.nonempty, h.not_here, h.not_parent, Location.child]

/-- The last component of a plain name is the name. -/
theorem fileName_eq (h : PlainName name) : style.fileName name = some name := by
  have hnames : style.names name = [name] := by
    unfold PathStyle.names
    rw [h.start_eq]
    simp [h.pieces_eq, h.nonempty, h.not_here]
  unfold PathStyle.fileName
  rw [hnames]
  simp [h.not_parent]

end PlainName

end Foundation
