import LocalTrans.Foundation.PathSyntax
import LocalTrans.Transfer.Progress

/-!
# File names from a peer

`sanitize_file_name`, `sanitize_component` and `sanitize_rel_parent`, and the numbered names that
are tried when a name is taken. What they return leads to an entry of the directory it is joined
to, on every system.
-/

namespace LocalTrans

open Foundation

/-- The characters `sanitize_file_name` drops: control and bidirectional-override characters. -/
def isControl (c : Char) : Bool :=
  c.toNat ≤ 0x1F || c.toNat == 0x7F || (0x202A ≤ c.toNat && c.toNat ≤ 0x202E) ||
    (0x2066 ≤ c.toNat && c.toNat ≤ 0x2069)

/-- The characters no sanitised name has. -/
def isForbidden (c : Char) : Bool :=
  ['/', '\\', ':', '*', '?', '"', '<', '>', '|'].contains c

/-- `RESERVED`: the device names of Windows. -/
def reservedNames : List String :=
  ["CON", "PRN", "AUX", "NUL",
    "COM1", "COM2", "COM3", "COM4", "COM5", "COM6", "COM7", "COM8", "COM9",
    "LPT1", "LPT2", "LPT3", "LPT4", "LPT5", "LPT6", "LPT7", "LPT8", "LPT9"]

/-- `sanitize_file_name`: drop the control characters, and refuse what is no file name then. -/
def sanitizeFileName (name : String) : Except EngineError String :=
  let cleaned := name.toList.filter fun c => !isControl c
  let stem := cleaned.takeWhile fun c => c != '.'
  if cleaned.isEmpty then .error (.protocol "非法文件名(为空)")
  else if cleaned.any isForbidden then .error (.protocol "非法文件名(含分隔符或非法字符)")
  else if cleaned == ['.'] || cleaned == ['.', '.'] then .error (.protocol "非法文件名(穿越目录)")
  else if reservedNames.contains (String.ofList (stem.map Char.toUpper)) then
    .error (.protocol "非法文件名(Windows 保留名)")
  else if cleaned.getLast? == some '.' || cleaned.getLast? == some ' ' then
    .error (.protocol "非法文件名(尾点或尾空格)")
  else if (String.ofList cleaned).utf8ByteSize > 255 then
    .error (.protocol "非法文件名(超过 255 字节)")
  else .ok (String.ofList cleaned)

/-- `sanitize_component`: drop the forbidden characters, and replace what is no name then. -/
def sanitizeComponent (name : String) : String :=
  let cleaned := String.ofList (name.toList.filter fun c => !isForbidden c)
  if cleaned = "" ∨ cleaned = ".." ∨ cleaned = "." then "folder" else cleaned

/-- One component of `sanitize_rel_parent`; `none` for a component that is skipped. -/
def sanitizeRelComponent (rel comp : String) : Except EngineError (Option String) :=
  if comp = ".." ∨ comp.toList.any (fun c => c == ':' || c == '/' || c == '\\') then
    .error (.protocol ("非法相对路径: " ++ rel))
  else if comp = "" ∨ comp = "." then .ok none
  else .ok (some (sanitizeComponent comp))

/-- The components of the parent, each sanitised. -/
def sanitizeRelComponents (rel : String) : List String → Except EngineError (List String)
  | [] => .ok []
  | comp :: rest =>
    match sanitizeRelComponent rel comp, sanitizeRelComponents rel rest with
    | .error error, _ => .error error
    | .ok _, .error error => .error error
    | .ok none, .ok names => .ok names
    | .ok (some name), .ok names => .ok (name :: names)

/-- `sanitize_rel_parent`: the directories on the way to a listed file. -/
def sanitizeRelParent (style : PathStyle) (rel : String) : Except EngineError (List String) :=
  if style.isAbsolute rel then .error (.protocol ("非法相对路径: " ++ rel))
  else sanitizeRelComponents rel (style.parent rel)

/-- `trim_matches('/')`. -/
def trimSlashes (text : String) : String :=
  String.ofList (((text.toList.dropWhile (· == '/')).reverse.dropWhile (· == '/')).reverse)

/-- The directories an offered `rel_dir` stands for. -/
def sanitizeRelDir (relDir : String) : List String :=
  ((relDir.toList.splitOnP fun c => c == '/').filter fun piece => !piece.isEmpty).map fun piece =>
    sanitizeComponent (String.ofList piece)

/-- The name tried with a counter before the extension. -/
def numberedName (style : PathStyle) (name : String) (i : Nat) : String :=
  let stem := (style.fileStem name).getD name
  match style.extension name with
  | some extension => stem ++ " (" ++ toString i ++ ")." ++ extension
  | none => stem ++ " (" ++ toString i ++ ")"

/-- The name `write_small_file` tries, with the counter at the end. -/
def countedName (name : String) (i : Nat) : String :=
  name ++ " (" ++ toString i ++ ")"

section Plain

variable {name : String}

/-- The digits of a counter are no separators. -/
theorem counter_chars (i : Nat) : ∀ c ∈ (toString i).toList, c ≠ '/' ∧ c ≠ '\\' ∧ c ≠ ':' := by
  intro c hc
  have hdigits : c ∈ Nat.toDigits 10 i := by simpa using hc
  have hdigit := Nat.isDigit_of_mem_toDigits (by decide) (by decide) hdigits
  refine ⟨?_, ?_, ?_⟩
  · rintro rfl
    exact absurd hdigit (by decide)
  · rintro rfl
    exact absurd hdigit (by decide)
  · rintro rfl
    exact absurd hdigit (by decide)

/-- A name with a bracket in it is plain if it has no separator and no colon. -/
theorem plain_of_bracket (hbracket : '(' ∈ name.toList)
    (h : ∀ c ∈ name.toList, c ≠ '/' ∧ c ≠ '\\' ∧ c ≠ ':') : PlainName name where
  nonempty := by
    rintro rfl
    simp at hbracket
  not_here := by
    rintro rfl
    exact absurd hbracket (by decide)
  not_parent := by
    rintro rfl
    exact absurd hbracket (by decide)
  chars := h

/-- The parts around the last dot are made of the name's characters. -/
theorem split_at_dot_subset (cs : List Char) :
    (∀ c ∈ (PathStyle.splitAtDot cs).1, c ∈ cs) ∧
      ∀ after, (PathStyle.splitAtDot cs).2 = some after → ∀ c ∈ after, c ∈ cs := by
  unfold PathStyle.splitAtDot
  dsimp only
  split
  · refine ⟨fun c hc => List.mem_of_mem_take hc, fun after hafter c hc => ?_⟩
    cases hafter
    rw [List.mem_reverse] at hc
    exact List.mem_reverse.mp (List.takeWhile_subset _ hc)
  · exact ⟨fun c hc => hc, by simp⟩

/-- A numbered plain name is plain. -/
theorem numbered_name_plain (style : PathStyle) (h : PlainName name) (i : Nat) :
    PlainName (numberedName style name i) := by
  obtain ⟨hstem, hextension⟩ := split_at_dot_subset name.toList
  have hbracket : ∀ c ∈ " (".toList, c ≠ '/' ∧ c ≠ '\\' ∧ c ≠ ':' := by simp
  have hclose : ∀ c ∈ ")".toList, c ≠ '/' ∧ c ≠ '\\' ∧ c ≠ ':' := by simp
  have hdot : ∀ c ∈ ").".toList, c ≠ '/' ∧ c ≠ '\\' ∧ c ≠ ':' := by simp
  unfold numberedName PathStyle.fileStem PathStyle.extension
  rw [h.fileName_eq]
  simp only [Option.map_some, Option.getD_some, Option.bind_some]
  cases hafter : (PathStyle.splitAtDot name.toList).2 with
  | none =>
    refine plain_of_bracket (by simp) fun c hc => ?_
    simp only [Option.map_none, String.toList_append, String.toList_ofList, List.mem_append]
      at hc
    rcases hc with ((hc | hc) | hc) | hc
    · exact h.chars c (hstem c hc)
    · exact hbracket c hc
    · exact counter_chars i c hc
    · exact hclose c hc
  | some after =>
    refine plain_of_bracket (by simp) fun c hc => ?_
    simp only [Option.map_some, String.toList_append, String.toList_ofList, List.mem_append]
      at hc
    rcases hc with (((hc | hc) | hc) | hc) | hc
    · exact h.chars c (hstem c hc)
    · exact hbracket c hc
    · exact counter_chars i c hc
    · exact hdot c hc
    · exact h.chars c (hextension after hafter c hc)

/-- So is one with a counter at the end. -/
theorem counted_name_plain (h : PlainName name) (i : Nat) : PlainName (countedName name i) := by
  have hbracket : ∀ c ∈ " (".toList, c ≠ '/' ∧ c ≠ '\\' ∧ c ≠ ':' := by simp
  have hclose : ∀ c ∈ ")".toList, c ≠ '/' ∧ c ≠ '\\' ∧ c ≠ ':' := by simp
  unfold countedName
  refine plain_of_bracket (by simp) fun c hc => ?_
  simp only [String.toList_append, List.mem_append] at hc
  rcases hc with ((hc | hc) | hc) | hc
  · exact h.chars c hc
  · exact hbracket c hc
  · exact counter_chars i c hc
  · exact hclose c hc

/-- A forbidden character is neither a separator nor a colon. -/
theorem chars_of_not_forbidden {c : Char} (h : isForbidden c = false) :
    c ≠ '/' ∧ c ≠ '\\' ∧ c ≠ ':' := by
  refine ⟨?_, ?_, ?_⟩
  · rintro rfl
    exact absurd h (by decide)
  · rintro rfl
    exact absurd h (by decide)
  · rintro rfl
    exact absurd h (by decide)

/-- What `sanitize_component` returns is plain. -/
theorem sanitize_component_plain (name : String) : PlainName (sanitizeComponent name) := by
  unfold sanitizeComponent
  dsimp only
  split
  · exact ⟨by decide, by decide, by decide, by simp⟩
  · next hbad =>
    rw [not_or, not_or] at hbad
    obtain ⟨hempty, hparent, hhere⟩ := hbad
    refine ⟨hempty, hhere, hparent, fun c hc => ?_⟩
    rw [String.toList_ofList, List.mem_filter] at hc
    exact chars_of_not_forbidden (by simpa using hc.2)

/-- What `sanitize_file_name` accepts, and what it makes of it. -/
theorem sanitize_file_name_ok {cleaned : String} (h : sanitizeFileName name = .ok cleaned) :
    cleaned = String.ofList (name.toList.filter fun c => !isControl c) ∧ PlainName cleaned := by
  unfold sanitizeFileName at h
  dsimp only at h
  split at h
  · cases h
  next hempty =>
  split at h
  · cases h
  next hforbidden =>
  split at h
  · cases h
  next hdots =>
  split at h
  · cases h
  split at h
  · cases h
  split at h
  · cases h
  cases h
  refine ⟨rfl, ?_, ?_, ?_, ?_⟩
  · intro hnil
    have hchars := congrArg String.toList hnil
    rw [String.toList_ofList] at hchars
    exact hempty (by simp [hchars])
  · intro hhere
    have hchars := congrArg String.toList hhere
    rw [String.toList_ofList] at hchars
    exact hdots (by rw [hchars]; decide)
  · intro hparent
    have hchars := congrArg String.toList hparent
    rw [String.toList_ofList] at hchars
    exact hdots (by rw [hchars]; decide)
  · intro c hc
    rw [String.toList_ofList] at hc
    refine chars_of_not_forbidden ?_
    by_contra hbad
    exact hforbidden (List.any_eq_true.mpr ⟨c, hc, by simpa using hbad⟩)

/-- A name that `sanitize_file_name` accepts is plain even before it is cleaned. -/
theorem plain_of_sanitize_ok {cleaned : String} (h : sanitizeFileName name = .ok cleaned) :
    PlainName name := by
  obtain ⟨rfl, hplain⟩ := sanitize_file_name_ok h
  have hkept : ∀ c ∈ name.toList, isControl c = false →
      c ∈ (String.ofList (name.toList.filter fun c => !isControl c)).toList := by
    intro c hc hcontrol
    rw [String.toList_ofList, List.mem_filter]
    exact ⟨hc, by simp [hcontrol]⟩
  refine ⟨?_, ?_, ?_, ?_⟩
  · rintro rfl
    exact hplain.nonempty (by decide)
  · rintro rfl
    exact hplain.not_here (by decide)
  · rintro rfl
    exact hplain.not_parent (by decide)
  · intro c hc
    by_cases hcontrol : isControl c = true
    · refine ⟨?_, ?_, ?_⟩
      · rintro rfl
        exact absurd hcontrol (by decide)
      · rintro rfl
        exact absurd hcontrol (by decide)
      · rintro rfl
        exact absurd hcontrol (by decide)
    · exact hplain.chars c (hkept c hc (by simpa using hcontrol))

/-- The directories of an offered `rel_dir` are plain. -/
theorem sanitize_rel_dir_plain {relDir : String} : ∀ name ∈ sanitizeRelDir relDir, PlainName name := by
  intro name hmem
  obtain ⟨piece, -, rfl⟩ := List.mem_map.mp hmem
  exact sanitize_component_plain _

/-- The directories on the way to a listed file are plain. -/
theorem sanitize_rel_components_plain {rel : String} {comps names : List String}
    (h : sanitizeRelComponents rel comps = .ok names) : ∀ name ∈ names, PlainName name := by
  induction comps generalizing names with
  | nil =>
    cases h
    simp
  | cons comp rest ih =>
    unfold sanitizeRelComponents at h
    split at h
    · cases h
    · cases h
    · next hrest =>
      cases h
      exact ih hrest
    · next cleaned others hcomp hrest =>
      cases h
      intro name hmem
      rcases List.mem_cons.mp hmem with rfl | hmem
      · unfold sanitizeRelComponent at hcomp
        split at hcomp
        · cases hcomp
        · split at hcomp
          · cases hcomp
          · cases hcomp
            exact sanitize_component_plain _
      · exact ih hrest name hmem

/-- So is what `sanitize_rel_parent` returns. -/
theorem sanitize_rel_parent_plain {style : PathStyle} {rel : String} {names : List String}
    (h : sanitizeRelParent style rel = .ok names) : ∀ name ∈ names, PlainName name := by
  unfold sanitizeRelParent at h
  split at h
  · cases h
  · exact sanitize_rel_components_plain h

end Plain

end LocalTrans
