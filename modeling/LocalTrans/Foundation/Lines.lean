import Mathlib.Data.List.DropRight
import Mathlib.Data.List.Infix

/-!
# Lines, and what is around them

`trim` takes the blanks off both ends of a list; a list without any is `Trimmed`. Lines that end in a
separator each are found again after the blanks at the end are taken off (`joined_lines`,
`split_lines`), where the separator is a blank and the last line does not end in one. `isWhite` and
`isControlChar` are the white space and the control characters of Unicode.
-/

namespace Foundation

/-- A character of white space. -/
def isWhite (c : Char) : Bool :=
  (0x9 ≤ c.toNat && c.toNat ≤ 0xd) || c.toNat = 0x20 || c.toNat = 0x85 || c.toNat = 0xa0 ||
    c.toNat = 0x1680 || (0x2000 ≤ c.toNat && c.toNat ≤ 0x200a) || c.toNat = 0x2028 ||
    c.toNat = 0x2029 || c.toNat = 0x202f || c.toNat = 0x205f || c.toNat = 0x3000

/-- A control character. -/
def isControlChar (c : Char) : Bool := c.toNat < 0x20 || (0x7f ≤ c.toNat && c.toNat < 0xa0)

variable {α : Type*} {blank : α → Bool} {a newline : α} {l : List α}

/-- A list without the blanks at its ends. -/
def trim (blank : α → Bool) (l : List α) : List α := (l.dropWhile blank).rdropWhile blank

/-- No blanks are at the ends. -/
def Trimmed (blank : α → Bool) (l : List α) : Prop :=
  (∀ a ∈ l.head?, blank a = false) ∧ ∀ a ∈ l.getLast?, blank a = false

theorem trim_of_trimmed (h : Trimmed blank l) : trim blank l = l := by
  have hfront : l.dropWhile blank = l := by
    cases l with
    | nil => rfl
    | cons first rest => simp [h.1 first rfl]
  unfold trim
  rw [hfront, List.rdropWhile_eq_self_iff]
  intro hne
  simp [h.2 _ (List.getLast?_eq_some_getLast hne)]

theorem trim_trimmed (blank : α → Bool) (l : List α) : Trimmed blank (trim blank l) := by
  unfold trim
  constructor
  · intro a ha
    obtain ⟨rest, hrest⟩ := List.rdropWhile_prefix blank (l := l.dropWhile blank)
    have hhead : a ∈ (l.dropWhile blank).head? := by
      rw [← hrest]
      cases hkept : (l.dropWhile blank).rdropWhile blank with
      | nil =>
        rw [hkept] at ha
        cases ha
      | cons first more =>
        rw [hkept] at ha
        exact ha
    have hne : l.dropWhile blank ≠ [] := by
      intro hnil
      rw [hnil] at hhead
      cases hhead
    have hfirst := List.head_dropWhile_not blank hne
    rwa [(List.head_eq_iff_head?_eq_some hne).mpr hhead] at hfirst
  · intro a ha
    obtain ⟨hne, rfl⟩ := List.mem_getLast?_eq_getLast ha
    exact Bool.eq_false_iff.mpr (List.rdropWhile_last_not blank _ hne)

theorem trim_cons (h : blank a = true) : trim blank (a :: l) = trim blank l := by
  simp [trim, h]

theorem mem_of_mem_trim (h : a ∈ trim blank l) : a ∈ l :=
  (List.dropWhile_suffix blank).subset ((List.rdropWhile_prefix blank _).subset h)

/-- Lists are trimmed together if the first begins and the last ends without a blank. -/
theorem Trimmed.append {front back : List α} (hne : front ≠ []) (hne' : back ≠ [])
    (hfront : ∀ a ∈ front.head?, blank a = false) (hback : Trimmed blank back) :
    Trimmed blank (front ++ back) := by
  constructor
  · rwa [List.head?_append_of_ne_nil _ hne]
  · rw [List.getLast?_append_of_ne_nil _ hne']
    exact hback.2

section LastSeparator

variable [DecidableEq α] {front back : List α}

/-- What is before and after the last separator. -/
def splitLast (separator : α) : List α → Option (List α × List α)
  | [] => none
  | a :: rest =>
    match splitLast separator rest with
    | some (front, back) => some (a :: front, back)
    | none => if a = separator then some ([], rest) else none

theorem split_last_none : splitLast newline l = none ↔ newline ∉ l := by
  induction l with
  | nil => simp [splitLast]
  | cons first rest ih =>
    unfold splitLast
    cases hrest : splitLast newline rest with
    | some parts =>
      have hmem : newline ∈ rest := by
        by_contra hnone
        rw [ih.mpr hnone] at hrest
        cases hrest
      simp [hmem]
    | none =>
      have hmem := ih.mp hrest
      simp [hmem, eq_comm]

theorem split_last_iff :
    splitLast newline l = some (front, back) ↔ l = front ++ newline :: back ∧ newline ∉ back := by
  induction l generalizing front back with
  | nil => simp [splitLast]
  | cons first rest ih =>
    unfold splitLast
    cases hrest : splitLast newline rest with
    | some parts =>
      obtain ⟨more, after⟩ := parts
      obtain ⟨hsplit, hafter⟩ := ih.mp hrest
      constructor
      · rintro ⟨⟩
        exact ⟨by rw [hsplit]; rfl, hafter⟩
      · rintro ⟨hfront, hback⟩
        cases front with
        | nil =>
          obtain ⟨rfl, rfl⟩ := List.cons.inj hfront
          exact absurd (hsplit ▸ by simp) hback
        | cons other others =>
          obtain ⟨rfl, hothers⟩ := List.cons.inj hfront
          have hsame := ih.mpr ⟨hothers, hback⟩
          rw [hrest] at hsame
          obtain ⟨rfl, rfl⟩ := Prod.mk.inj (Option.some.inj hsame)
          rfl
    | none =>
      have hnone := split_last_none.mp hrest
      constructor
      · intro h
        dsimp only at h
        split at h
        · next heq =>
          obtain ⟨rfl, rfl⟩ := Prod.mk.inj (Option.some.inj h)
          exact ⟨by rw [heq]; rfl, hnone⟩
        · cases h
      · rintro ⟨hfront, hback⟩
        cases front with
        | nil =>
          obtain ⟨rfl, rfl⟩ := List.cons.inj hfront
          simp
        | cons other others =>
          obtain ⟨rfl, rfl⟩ := List.cons.inj hfront
          exact absurd (by simp) hnone

end LastSeparator

section Splitting

variable [BEq α] [LawfulBEq α] {line last text : List α} {ls : List (List α)}

/-- The separator is in none of the pieces, and they have nothing that the list does not have. -/
theorem mem_split (h : line ∈ text.splitOn newline) (hmem : a ∈ line) :
    a ≠ newline ∧ a ∈ text := by
  induction text generalizing line with
  | nil =>
    rw [List.splitOn_nil, List.mem_singleton] at h
    subst h
    cases hmem
  | cons first rest ih =>
    rw [List.splitOn_cons_eq_if_modifyHead] at h
    split at h
    · rcases List.mem_cons.mp h with rfl | hrest
      · cases hmem
      · obtain ⟨hne, hin⟩ := ih hrest hmem
        exact ⟨hne, List.mem_cons_of_mem _ hin⟩
    · next hfirst =>
      cases hpieces : rest.splitOn newline with
      | nil => exact absurd hpieces (List.splitOn_ne_nil _ _)
      | cons piece pieces =>
        rw [hpieces] at h
        rcases List.mem_cons.mp h with rfl | hmore
        · rcases List.mem_cons.mp hmem with rfl | hpiece
          · exact ⟨by simpa using hfirst, List.mem_cons_self⟩
          · obtain ⟨hne, hin⟩ := ih (hpieces ▸ List.mem_cons_self) hpiece
            exact ⟨hne, List.mem_cons_of_mem _ hin⟩
        · obtain ⟨hne, hin⟩ := ih (hpieces ▸ List.mem_cons_of_mem _ hmore) hmem
          exact ⟨hne, List.mem_cons_of_mem _ hin⟩

/-- Lines with a separator between them are found again. -/
theorem split_lines (hplain : ∀ line ∈ ls, newline ∉ line) (hlast : newline ∉ last) :
    (ls.flatMap (· ++ [newline]) ++ last).splitOn newline = ls ++ [last] := by
  induction ls with
  | nil => simpa using List.splitOn_eq_singleton hlast
  | cons first rest ih =>
    have hfirst := List.splitOn_eq_singleton (hplain first List.mem_cons_self)
    have hrest := ih fun line hmem => hplain line (List.mem_cons_of_mem _ hmem)
    rw [List.flatMap_cons, List.append_assoc, List.append_assoc, List.singleton_append,
      List.splitOn_append_cons_of_beq _ _ (beq_self_eq_true newline), hfirst, hrest]
    rfl

omit [BEq α] [LawfulBEq α] in
/-- Without the blanks at the end, lines that end in a separator each have one between them. -/
theorem joined_lines (hblank : blank newline = true) (hne : last ≠ [])
    (hend : ∀ a ∈ last.getLast?, blank a = false) :
    ((ls ++ [last]).flatMap (· ++ [newline])).rdropWhile blank =
      ls.flatMap (· ++ [newline]) ++ last := by
  rw [List.flatMap_append, List.flatMap_singleton, ← List.append_assoc,
    List.rdropWhile_concat_pos _ _ _ hblank, List.rdropWhile_eq_self_iff]
  intro hall
  have hget := List.getLast?_eq_some_getLast hall
  rw [List.getLast?_append_of_ne_nil _ hne] at hget
  simp [hend _ hget]

end Splitting

end Foundation
