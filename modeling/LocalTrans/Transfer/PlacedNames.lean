import LocalTrans.Transfer.Containment
import Mathlib.Data.List.TakeWhile

/-!
# The names of placed files

`sanitize_file_name` drops control characters and refuses other names. The stream of small files and
the pushed large files go on with the name it returns; a pull and the copy of an instant small file
go on with the name the peer supplied. `placed_name_sanitised_iff` says when what is placed has a
cleaned name.
-/

namespace LocalTrans

open Foundation

/-- The part of a name that is compared with the device names. -/
def deviceStem (name : List Char) : String :=
  String.ofList ((name.takeWhile fun c => c != '.').map Char.toUpper)

/-- What is excluded in a name: separators and the like, control characters, device names. -/
structure CleanName (name : String) : Prop where
  separators : ∀ c ∈ name.toList, isForbidden c = false
  controls : ∀ c ∈ name.toList, isControl c = false
  reserved : deviceStem name.toList ∉ reservedNames

section Cleaning

variable {name cleaned : String}

/-- What `sanitize_file_name` lets through. -/
theorem sanitize_ok_iff : sanitizeFileName name = .ok cleaned ↔
    cleaned.toList = name.toList.filter (fun c => !isControl c) ∧ cleaned ≠ "" ∧
      (∀ c ∈ cleaned.toList, isForbidden c = false) ∧ cleaned ≠ "." ∧ cleaned ≠ ".." ∧
      deviceStem cleaned.toList ∉ reservedNames ∧
      cleaned.toList.getLast? ≠ some '.' ∧ cleaned.toList.getLast? ≠ some ' ' ∧
      cleaned.utf8ByteSize ≤ 255 := by
  unfold sanitizeFileName
  dsimp only
  generalize (name.toList.filter fun c => !isControl c) = kept
  have hnil : kept.isEmpty = true ↔ String.ofList kept = "" := by
    rw [List.isEmpty_iff, ← String.ofList_nil, String.ofList_inj]
  have hdots : (kept == ['.'] || kept == ['.', '.']) = true ↔
      String.ofList kept = "." ∨ String.ofList kept = ".." := by
    rw [Bool.or_eq_true, beq_iff_eq, beq_iff_eq, show "." = String.ofList ['.'] from rfl,
      show ".." = String.ofList ['.', '.'] from rfl, String.ofList_inj, String.ofList_inj]
  constructor
  · intro h
    split at h
    · cases h
    next hempty =>
    split at h
    · cases h
    next hforbidden =>
    split at h
    · cases h
    next hhere =>
    split at h
    · cases h
    next hreserved =>
    split at h
    · cases h
    next hlast =>
    split at h
    · cases h
    next hsize =>
    cases h
    rw [hdots, not_or] at hhere
    simp only [Bool.or_eq_true, beq_iff_eq, not_or] at hlast
    rw [String.toList_ofList]
    refine ⟨rfl, fun h => hempty (hnil.mpr h), fun c hc => ?_, hhere.1, hhere.2, fun h => ?_,
      hlast.1, hlast.2, Nat.le_of_not_lt hsize⟩
    · by_contra hbad
      exact hforbidden (List.any_eq_true.mpr ⟨c, hc, by simpa using hbad⟩)
    · exact hreserved (List.contains_iff_mem.mpr h)
  · rintro ⟨hlist, hempty, hforbidden, hhere, hparent, hreserved, hdot, hspace, hsize⟩
    have hcleaned : cleaned = String.ofList kept := by rw [← hlist, String.ofList_toList]
    rw [hlist] at hforbidden hreserved hdot hspace
    rw [hcleaned] at hempty hhere hparent hsize
    rw [if_neg (fun h => hempty (hnil.mp h)), if_neg, if_neg, if_neg, if_neg, if_neg, hcleaned]
    · exact Nat.not_lt.mpr hsize
    · simp only [Bool.or_eq_true, beq_iff_eq, not_or]
      exact ⟨hdot, hspace⟩
    · exact fun h => hreserved (List.contains_iff_mem.mp h)
    · rw [hdots, not_or]
      exact ⟨hhere, hparent⟩
    · intro h
      obtain ⟨c, hc, hbad⟩ := List.any_eq_true.mp h
      rw [hforbidden c hc] at hbad
      cases hbad

/-- A name that was cleaned is clean. -/
theorem clean_of_sanitize (h : sanitizeFileName name = .ok cleaned) : CleanName cleaned := by
  obtain ⟨hlist, -, hforbidden, -, -, hreserved, -⟩ := sanitize_ok_iff.mp h
  refine ⟨hforbidden, fun c hc => ?_, hreserved⟩
  rw [hlist] at hc
  simpa using (List.mem_filter.mp hc).2

/-- `sanitize_file_name` is idempotent. -/
theorem sanitize_idempotent (h : sanitizeFileName name = .ok cleaned) :
    sanitizeFileName cleaned = .ok cleaned := by
  have hcontrols := (clean_of_sanitize h).controls
  obtain ⟨-, hrest⟩ := sanitize_ok_iff.mp h
  refine sanitize_ok_iff.mpr ⟨?_, hrest⟩
  exact (List.filter_eq_self.mpr fun c hc => by simp [hcontrols c hc]).symm

/-- Cleaning changes a name exactly if it has a control character. -/
theorem sanitize_self_iff (h : sanitizeFileName name = .ok cleaned) :
    sanitizeFileName name = .ok name ↔ ∀ c ∈ name.toList, isControl c = false := by
  constructor
  · exact fun hself => (clean_of_sanitize hself).controls
  · intro hcontrols
    obtain ⟨hlist, -⟩ := sanitize_ok_iff.mp h
    have hall : name.toList.filter (fun c => !isControl c) = name.toList :=
      List.filter_eq_self.mpr fun c hc => by simp [hcontrols c hc]
    rw [hall] at hlist
    rw [h, String.toList_inj.mp hlist]

end Cleaning

section Counters

variable {name : String} {style : PathStyle}

/-- The digits of a counter are clean characters. -/
theorem counter_clean (i : Nat) :
    ∀ c ∈ (toString i).toList, isForbidden c = false ∧ isControl c = false := by
  intro c hc
  have hdigits : c ∈ Nat.toDigits 10 i := by simpa using hc
  have hdigit := Nat.isDigit_of_mem_toDigits (by decide) (by decide) hdigits
  constructor
  · by_contra hbad
    have hmem : c ∈ ['/', '\\', ':', '*', '?', '"', '<', '>', '|'] :=
      List.contains_iff_mem.mp (Bool.not_eq_false _ ▸ hbad)
    have hnone : ['/', '\\', ':', '*', '?', '"', '<', '>', '|'].all (fun c => !c.isDigit) = true := by
      decide
    have hnot := List.all_eq_true.mp hnone c hmem
    rw [hdigit] at hnot
    cases hnot
  · simp only [Char.isDigit, Bool.and_eq_true, decide_eq_true_eq, UInt32.le_iff_toNat_le] at hdigit
    have hlow : 48 ≤ c.toNat := hdigit.1
    have hhigh : c.toNat ≤ 57 := hdigit.2
    simp only [isControl, Bool.or_eq_false_iff, Bool.and_eq_false_iff, decide_eq_false_iff_not,
      beq_eq_false_iff_ne]
    omega

/-- A bracket after the beginning of a clean name leaves it clean. -/
theorem clean_bracket {before : List Char} {after : List Char} (h : CleanName name)
    (hbefore : before <+: name.toList)
    (hafter : ∀ c ∈ after, isForbidden c = false ∧ isControl c = false) :
    CleanName (String.ofList (before ++ ' ' :: '(' :: after)) := by
  have hchars : ∀ c ∈ before ++ ' ' :: '(' :: after, isForbidden c = false ∧ isControl c = false := by
    intro c hc
    rcases List.mem_append.mp hc with hc | hc
    · exact ⟨h.separators c (hbefore.subset hc), h.controls c (hbefore.subset hc)⟩
    · rcases List.mem_cons.mp hc with rfl | hc
      · decide
      · rcases List.mem_cons.mp hc with rfl | hc
        · decide
        · exact hafter c hc
  refine ⟨?_, ?_, ?_⟩
  · rw [String.toList_ofList]
    exact fun c hc => (hchars c hc).1
  · rw [String.toList_ofList]
    exact fun c hc => (hchars c hc).2
  · rw [String.toList_ofList]
    by_cases hdot : ∀ c ∈ before, (c != '.') = true
    · -- the part before the first dot has the bracket, which no device name has
      have hbracket : '(' ∈ (deviceStem (before ++ ' ' :: '(' :: after)).toList := by
        rw [deviceStem, String.toList_ofList, List.takeWhile_append_of_pos hdot]
        refine List.mem_map.mpr ⟨'(', List.mem_append_right _ ?_, by decide⟩
        simp
      have hnone : ∀ device ∈ reservedNames, '(' ∉ device.toList := by decide
      exact fun hmem => hnone _ hmem hbracket
    · -- the part before the first dot is that of the name
      have hstops : ∀ rest, (before ++ rest).takeWhile (fun c => c != '.') =
          before.takeWhile fun c => c != '.' := by
        intro rest
        rw [List.takeWhile_append, if_neg]
        intro hlength
        refine hdot fun c hc => ?_
        rw [← (List.takeWhile_prefix _).eq_of_length hlength] at hc
        exact List.mem_takeWhile_imp (p := fun c => c != '.') hc
      obtain ⟨rest, hrest⟩ := hbefore
      have hsame : deviceStem (before ++ ' ' :: '(' :: after) = deviceStem name.toList := by
        rw [deviceStem, deviceStem, hstops, ← hrest, hstops]
      rw [hsame]
      exact h.reserved

/-- A name is split at its last dot, or not at all. -/
theorem split_at_dot_eq (cs : List Char) : PathStyle.splitAtDot cs = (cs, none) ∨
    ∃ before after, PathStyle.splitAtDot cs = (before, some after) ∧ cs = before ++ '.' :: after := by
  unfold PathStyle.splitAtDot
  dsimp only
  split
  · next hsplit =>
    rw [Bool.and_eq_true] at hsplit
    refine .inr ⟨_, _, rfl, ?_⟩
    have hdot : '.' ∈ cs.reverse := List.mem_reverse.mpr (List.contains_iff_mem.mp hsplit.1)
    obtain ⟨rest, hrest⟩ : ∃ rest, cs.reverse.dropWhile (fun c => c != '.') = '.' :: rest := by
      cases hdrop : cs.reverse.dropWhile fun c => c != '.' with
      | nil =>
        have hall := List.dropWhile_eq_nil_iff.mp hdrop '.' hdot
        exact absurd hall (by decide)
      | cons first rest =>
        have hfirst := List.head?_dropWhile_not (fun c => c != '.') cs.reverse
        rw [hdrop] at hfirst
        exact ⟨rest, by simpa using hfirst⟩
    have hcs : cs = rest.reverse ++ '.' ::
        (cs.reverse.takeWhile fun c => c != '.').reverse := by
      have happend := List.takeWhile_append_dropWhile (p := fun c => c != '.') (l := cs.reverse)
      rw [hrest] at happend
      have hreverse := congrArg List.reverse happend
      simpa using hreverse.symm
    have hlength := congrArg List.length hcs
    simp only [List.length_append, List.length_reverse, List.length_cons] at hlength
    have hbefore : cs.take (cs.length - (cs.reverse.takeWhile fun c => c != '.').reverse.length - 1) =
        rest.reverse := by
      have hcount : rest.reverse.length =
          cs.length - (cs.reverse.takeWhile fun c => c != '.').reverse.length - 1 := by
        rw [List.length_reverse, List.length_reverse]
        omega
      have htake : (rest.reverse ++ '.' ::
          (cs.reverse.takeWhile fun c => c != '.').reverse).take rest.reverse.length =
            rest.reverse := List.take_left
      rw [← hcs, hcount] at htake
      exact htake
    rw [hbefore]
    exact hcs
  · exact .inl rfl

/-- The part before the last dot is a beginning of the name. -/
theorem split_at_dot_starts (cs : List Char) : (PathStyle.splitAtDot cs).1 <+: cs := by
  rcases split_at_dot_eq cs with h | ⟨before, after, h, hcs⟩
  · simp only [h, List.prefix_refl]
  · rw [h]
    exact ⟨'.' :: after, hcs.symm⟩

/-- A numbered name, character by character. -/
theorem numbered_name_eq (h : PlainName name) (i : Nat) :
    numberedName style name i = String.ofList ((PathStyle.splitAtDot name.toList).1 ++ ' ' :: '(' ::
      ((toString i).toList ++ ')' ::
        (((PathStyle.splitAtDot name.toList).2.map fun after => '.' :: after).getD []))) := by
  unfold numberedName PathStyle.fileStem PathStyle.extension
  rw [h.fileName_eq]
  apply String.toList_inj.mp
  generalize hparts : PathStyle.splitAtDot name.toList = parts
  obtain ⟨before, after⟩ := parts
  cases after with
  | none => simp [hparts]
  | some after => simp [hparts]

theorem counted_name_eq (name : String) (i : Nat) :
    countedName name i =
      String.ofList (name.toList ++ ' ' :: '(' :: ((toString i).toList ++ [')'])) := by
  apply String.toList_inj.mp
  simp [countedName]

/-- A numbered clean name is clean. -/
theorem numbered_name_clean (h : CleanName name) (hplain : PlainName name) (i : Nat) :
    CleanName (numberedName style name i) := by
  rw [numbered_name_eq hplain]
  refine clean_bracket h (split_at_dot_starts _) fun c hc => ?_
  rcases List.mem_append.mp hc with hc | hc
  · exact counter_clean i c hc
  · rcases List.mem_cons.mp hc with rfl | hc
    · decide
    · cases hafter : (PathStyle.splitAtDot name.toList).2 with
      | none =>
        rw [hafter] at hc
        exact absurd hc List.not_mem_nil
      | some after =>
        rw [hafter] at hc
        rcases List.mem_cons.mp hc with rfl | hc
        · decide
        · have hmem := (split_at_dot_subset name.toList).2 after hafter c hc
          exact ⟨h.separators c hmem, h.controls c hmem⟩

/-- So is one with a counter at the end. -/
theorem counted_name_clean (h : CleanName name) (i : Nat) : CleanName (countedName name i) := by
  rw [counted_name_eq]
  refine clean_bracket h (List.prefix_refl _) fun c hc => ?_
  rcases List.mem_append.mp hc with hc | hc
  · exact counter_clean i c hc
  · rw [List.mem_singleton.mp hc]
    decide

/-- A numbered name has all characters of the name but a dot. -/
theorem numbered_name_keeps (h : PlainName name) (i : Nat) {c : Char} (hc : c ∈ name.toList)
    (hdot : c ≠ '.') : c ∈ (numberedName style name i).toList := by
  rw [numbered_name_eq h, String.toList_ofList]
  rcases split_at_dot_eq name.toList with hsplit | ⟨before, after, hsplit, hname⟩
  · rw [hsplit]
    exact List.mem_append_left _ hc
  · rw [hsplit]
    rw [hname] at hc
    rcases List.mem_append.mp hc with hc | hc
    · exact List.mem_append_left _ hc
    · have hafter : c ∈ after := (List.mem_cons.mp hc).resolve_left hdot
      simp [hafter]

end Counters

/-- What a resolver of conflicts makes of a name: the name itself, or the name with a counter. -/
def Variant (style : PathStyle) (name final : String) : Prop :=
  final = name ∨ (∃ i, final = numberedName style name i) ∨ ∃ i, final = countedName name i

/-- What a peer supplied was cleaned, and the file was placed under the cleaned name, possibly with
a counter. -/
def Sanitised (style : PathStyle) (supplied : String) (placed : Placed) : Prop :=
  ∃ cleaned final, sanitizeFileName supplied = .ok cleaned ∧
    placed.place.names.getLast? = some final ∧ Variant style cleaned final ∧ CleanName final

/-- A file is placed in a directory under a variant of a name. -/
def PlacedUnder (style : PathStyle) (name : String) (placed : Placed) : Prop :=
  ∃ dir final, placed.place = Location.child dir final ∧ Variant style name final

section Variants

variable {style : PathStyle} {name final supplied cleaned : String} {placed : Placed}

theorem variant_plain (h : PlainName name) (hvariant : Variant style name final) :
    PlainName final := by
  rcases hvariant with rfl | ⟨i, rfl⟩ | ⟨i, rfl⟩
  · exact h
  · exact numbered_name_plain style h i
  · exact counted_name_plain h i

theorem variant_clean (h : CleanName name) (hplain : PlainName name)
    (hvariant : Variant style name final) : CleanName final := by
  rcases hvariant with rfl | ⟨i, rfl⟩ | ⟨i, rfl⟩
  · exact h
  · exact numbered_name_clean h hplain i
  · exact counted_name_clean h i

/-- A counter takes nothing away from a name but a dot. -/
theorem variant_keeps (h : PlainName name) (hvariant : Variant style name final) {c : Char}
    (hc : c ∈ name.toList) (hdot : c ≠ '.') : c ∈ final.toList := by
  rcases hvariant with rfl | ⟨i, rfl⟩ | ⟨i, rfl⟩
  · exact hc
  · exact numbered_name_keeps h i hc hdot
  · rw [counted_name_eq, String.toList_ofList]
    exact List.mem_append_left _ hc

/-- A file that is placed under the cleaned name. -/
theorem sanitised_of_cleaned (h : sanitizeFileName supplied = .ok cleaned)
    (hplaced : PlacedUnder style cleaned placed) : Sanitised style supplied placed := by
  obtain ⟨dir, final, hplace, hvariant⟩ := hplaced
  refine ⟨cleaned, final, h, ?_, hvariant, ?_⟩
  · rw [hplace]
    simp [Location.child]
  · exact variant_clean (clean_of_sanitize h) (sanitize_file_name_ok h).2 hvariant

/-- A file that is placed under the name as it was supplied has a cleaned name exactly if cleaning
leaves that name alone. -/
theorem sanitised_of_raw (hplaced : PlainName supplied → PlacedUnder style supplied placed) :
    Sanitised style supplied placed ↔ sanitizeFileName supplied = .ok supplied := by
  constructor
  · rintro ⟨cleaned, final, hcleaned, hlast, -, hclean⟩
    have hplain := plain_of_sanitize_ok hcleaned
    obtain ⟨dir, under, hplace, hvariant⟩ := hplaced hplain
    have hunder : under = final := by
      rw [hplace] at hlast
      simpa [Location.child] using hlast
    subst hunder
    -- a control character of the supplied name would be in the name of the file
    refine (sanitize_self_iff hcleaned).mpr fun c hc => ?_
    by_cases hdot : c = '.'
    · rw [hdot]
      decide
    · exact hclean.controls c (variant_keeps hplain hvariant hc hdot)
  · intro h
    exact sanitised_of_cleaned h (hplaced (sanitize_file_name_ok h).2)

end Variants

section Paths

variable {hash : List UInt8 → String} {format : IndexFormat} {platform : Platform}
  {fs next : FileSystem} {root partsRoot destDir src : Location} {name : String} {placed : Placed}

/-- `resolve_name_conflict` chooses a variant. -/
theorem resolve_variant {style : PathStyle} {taken : String → Bool} :
    Variant style name (PartWriter.resolveNameConflict style taken name) :=
  (PartWriter.resolve_conflict_variant style taken name).imp_right .inl

/-- A variant of a plain name leads to an entry of the directory. -/
theorem placed_under_join {final : String} (hplain : PlainName name)
    (hvariant : Variant platform.style name final)
    (hplace : placed.place = platform.join destDir final) :
    PlacedUnder platform.style name placed :=
  ⟨destDir, final, hplace.trans (variant_plain hplain hvariant).join_eq, hvariant⟩

/-- `write_small_file` places under a variant. -/
theorem write_small_under {data : List UInt8} {outcome : FileOutcome} (hplain : PlainName name)
    (h : writeSmallFile platform fs destDir name data outcome = (next, .ok placed)) :
    PlacedUnder platform.style name placed := by
  unfold writeSmallFile at h
  split at h
  · cases h
  · next i _ =>
    have hplace : placed.place = smallCandidate platform destDir name i := by
      cases outcome with
      | done =>
        cases h
        rfl
      | broken written => cases h
      | refused => cases h
    unfold smallCandidate at hplace
    split at hplace
    · exact placed_under_join hplain (.inl rfl) hplace
    · exact placed_under_join hplain (.inr (.inr ⟨i, rfl⟩)) hplace

/-- `place_dedup_copy` places under a variant. -/
theorem place_dedup_under {outcome : PlaceOutcome} (hplain : PlainName name)
    (h : placeDedupCopy platform fs src destDir name outcome = (next, .ok placed)) :
    PlacedUnder platform.style name placed := by
  have htarget := (place_dedup_ok h).1
  obtain ⟨i, -, hplace⟩ := Option.map_eq_some_iff.mp htarget
  have hplace := hplace.symm
  unfold dedupCandidate at hplace
  split at hplace
  · exact placed_under_join hplain (.inl rfl) hplace
  · exact placed_under_join hplain (.inr (.inl ⟨i, rfl⟩)) hplace

/-- `finalize` places under a variant. -/
theorem final_place_under (hplain : PlainName name)
    (hplace : placed.place = finalPlace platform fs destDir name) :
    PlacedUnder platform.style name placed :=
  placed_under_join hplain resolve_variant hplace

/-- A pull places under a variant of the name in the answer, which `finalize` has not refused. -/
theorem start_pull_under {source : Option String × Option String × Option String}
    {answer : MetaResp} {jobs : List Nat} {window : Nat → Nat} {arrivals : List Arrival}
    {outcome : PartOutcome}
    (h : startPullParts hash platform fs partsRoot destDir source (.ok answer) jobs window arrivals
      outcome = (next, .ok placed)) (hplain : PlainName answer.fileName) :
    PlacedUnder platform.style answer.fileName placed := by
  unfold startPullParts at h
  dsimp only at h
  split at h
  · split at h
    · cases h
    · next disk writer hopen =>
      have hopened := opened_of_open hopen
      obtain ⟨-, -, -, -, -, hplace, -⟩ := finalize_into_ok h
      rw [hopened.manifest] at hplace
      exact placed_under_join hplain resolve_variant hplace
  · exact final_place_under hplain (receive_chunked_ok h).2.1

/-- A pushed large file is placed under a variant of the cleaned name. -/
theorem recv_push_under {file : OfferFile} {answer : MetaResp} {arrivals : List Arrival}
    {outcome : PartOutcome} {instant : InstantOutcome}
    (h : recvPushLargeFile hash format platform fs root file (.ok answer) arrivals outcome
      instant = (next, .ok placed)) :
    ∃ cleaned, sanitizeFileName answer.fileName = .ok cleaned ∧
      PlacedUnder platform.style cleaned placed := by
  unfold recvPushLargeFile at h
  dsimp only at h
  split at h
  · cases h
  next fileName hname =>
  have hplain := (sanitize_file_name_ok hname).2
  refine ⟨fileName, hname, ?_⟩
  split at h
  · cases h
  split at h
  · split at h
    · cases h
    · next hplace =>
      cases h
      exact place_dedup_under hplain hplace
  · split at h
    · cases h
    · next hchunked =>
      have hplace := final_place_under hplain (receive_chunked_ok hchunked).2.1
      split at h
      · cases h
        exact hplace
      · cases h
        exact hplace

/-- A small file of the stream is placed under a variant of its name. -/
theorem recv_small_under {entry : SmallEntry} {outcome : SmallOutcome} (hplain : PlainName entry.name)
    (h : recvSmallFile hash format platform fs root entry outcome = (next, .ok placed)) :
    PlacedUnder platform.style entry.name placed := by
  unfold recvSmallFile at h
  split at h
  · cases h
  · dsimp only at h
    split at h
    · cases h
    · next hwrite =>
      cases h
      exact write_small_under hplain hwrite

/-- The name of an entry is the cleaned form of the name in the stream. -/
theorem next_entry_cleaned {stream body rest : List UInt8} {clean : Bool} {raw : String}
    {entry : SmallEntry}
    (hread : readText "读名长" "读文件名" "文件名非 UTF-8" stream = .ok (raw, body))
    (h : nextEntry stream clean = .entry entry rest) : sanitizeFileName raw = .ok entry.name := by
  unfold nextEntry at h
  rw [hread] at h
  split at h
  · cases h
  split at h
  · cases h
  split at h
  · next heq => cases heq
  next heq =>
  cases heq
  split at h
  · cases h
  next hname =>
  rw [read_body_name h]
  exact hname

end Paths

/-- The ways a file can be received. -/
inductive ReceivePath where
  | smallStream
  | instantSmall
  | pushedLarge
  | pull
deriving DecidableEq

/-- Whether a path goes on with the name that `sanitize_file_name` returns. -/
def ReceivePath.cleans : ReceivePath → Bool
  | .smallStream | .pushedLarge => true
  | .instantSmall | .pull => false

/-- `Receives hash format platform path supplied placed`: a file that the peer calls `supplied` is
received on the path, and placed. -/
inductive Receives (hash : List UInt8 → String) (format : IndexFormat) (platform : Platform) :
    ReceivePath → String → Placed → Prop where
  | smallStream {stream body rest : List UInt8} {clean : Bool} {raw : String} {entry : SmallEntry}
      {fs next : FileSystem} {root : Location} {outcome : SmallOutcome} {placed : Placed} :
      readText "读名长" "读文件名" "文件名非 UTF-8" stream = .ok (raw, body) →
      nextEntry stream clean = .entry entry rest →
      recvSmallFile hash format platform fs root entry outcome = (next, .ok placed) →
      Receives hash format platform .smallStream raw placed
  | instantSmall {fs next : FileSystem} {root : Location} {index after : InboxIndex}
      {item : InstantFile} {outcome : PlaceOutcome} {receipt : Receipt} :
      placeInstant platform fs root index item outcome = (next, after, some receipt) →
      Receives hash format platform .instantSmall item.name receipt.placed
  | pushedLarge {fs next : FileSystem} {root : Location} {file : OfferFile} {answer : MetaResp}
      {arrivals : List Arrival} {outcome : PartOutcome} {instant : InstantOutcome}
      {placed : Placed} :
      recvPushLargeFile hash format platform fs root file (.ok answer) arrivals outcome instant =
        (next, .ok placed) →
      Receives hash format platform .pushedLarge answer.fileName placed
  | pull {fs next : FileSystem} {partsRoot destDir : Location}
      {source : Option String × Option String × Option String} {answer : MetaResp}
      {jobs : List Nat} {window : Nat → Nat} {arrivals : List Arrival} {outcome : PartOutcome}
      {placed : Placed} :
      startPullParts hash platform fs partsRoot destDir source (.ok answer) jobs window arrivals
        outcome = (next, .ok placed) →
      Receives hash format platform .pull answer.fileName placed

/-- `sanitize_file_name` is idempotent. On a path that goes on with the name it returns, what is
placed has a cleaned name; on a path that goes on with the name the peer supplied, it has one if and
only if cleaning leaves that name as it is. -/
theorem placed_name_sanitised_iff (hash : List UInt8 → String) (format : IndexFormat)
    (platform : Platform) :
    (∀ name cleaned, sanitizeFileName name = .ok cleaned →
      sanitizeFileName cleaned = .ok cleaned) ∧
    ∀ path supplied placed, Receives hash format platform path supplied placed →
      (Sanitised platform.style supplied placed ↔
        path.cleans = true ∨ sanitizeFileName supplied = .ok supplied) := by
  refine ⟨fun name cleaned => sanitize_idempotent, fun path supplied placed h => ?_⟩
  cases h with
  | smallStream hread hentry hreceive =>
    have hname := next_entry_cleaned hread hentry
    have hunder := recv_small_under (sanitize_file_name_ok hname).2 hreceive
    exact ⟨fun _ => .inl rfl, fun _ => sanitised_of_cleaned hname hunder⟩
  | @instantSmall fs next root index after item outcome receipt hplace =>
    have hunder : PlainName item.name → PlacedUnder platform.style item.name receipt.placed := by
      intro hplain
      unfold placeInstant at hplace
      split at hplace
      · cases hplace
      · next hcopy =>
        cases hplace
        exact place_dedup_under hplain hcopy
    simpa [ReceivePath.cleans] using sanitised_of_raw hunder
  | pushedLarge hreceive =>
    obtain ⟨cleaned, hname, hunder⟩ := recv_push_under hreceive
    exact ⟨fun _ => .inl rfl, fun _ => sanitised_of_cleaned hname hunder⟩
  | pull hpull =>
    simpa [ReceivePath.cleans] using sanitised_of_raw (start_pull_under hpull)

/-- An answer that announces an empty file. -/
def emptyAnswer (name : String) : MetaResp :=
  { jobId := 5, fileName := name, totalSize := 0, chunkHashes := [], fileHash := none }

/-- A pulled file with an ordinary name is placed under it. -/
theorem ordinary_name_pulled : ∃ placed,
    Receives shortHash unreadableIndex unixPlatform .pull "a.txt" placed ∧
      Sanitised unixPlatform.style "a.txt" placed := by
  have hpull : Receives shortHash unreadableIndex unixPlatform .pull "a.txt"
      { place := sampleRoot.child "a.txt", content := [] } :=
    @Receives.pull _ _ _ FileSystem.empty _ sampleRoot sampleRoot (none, none, none)
      (emptyAnswer "a.txt") [] (fun _ => 1) [] smoothParts _ rfl
  exact ⟨_, hpull, ((placed_name_sanitised_iff _ _ _).2 _ _ _ hpull).mpr (.inr (by decide))⟩

/-- A pulled file whose name turns the direction of writing is placed under that name. -/
theorem override_name_pulled : ¬ ∀ (hash : List UInt8 → String) (format : IndexFormat)
    (platform : Platform) path supplied placed, Receives hash format platform path supplied placed →
      Sanitised platform.style supplied placed := by
  intro hall
  have hpull : Receives shortHash unreadableIndex unixPlatform .pull "a\u202Etxt.exe"
      { place := sampleRoot.child "a\u202Etxt.exe", content := [] } :=
    @Receives.pull _ _ _ FileSystem.empty _ sampleRoot sampleRoot (none, none, none)
      (emptyAnswer "a\u202Etxt.exe") [] (fun _ => 1) [] smoothParts _ rfl
  obtain ⟨cleaned, final, -, hlast, -, hclean⟩ := hall _ _ _ _ _ _ hpull
  have hfinal : final = "a\u202Etxt.exe" := by
    simpa [Location.child] using hlast.symm
  exact absurd (hclean.controls '\u202E' (by rw [hfinal]; decide)) (by decide)

end LocalTrans
