import Mathlib.Algebra.Order.Ring.Nat
import Mathlib.Data.List.Basic

/-!
# Compact JSON

What a serialiser writes for texts, numbers, arrays and objects, without blanks, and how many
bytes that takes. A text is escaped: quotation mark, backslash and the control characters; every
other character stands for itself in UTF-8.
-/

namespace Foundation.Json

/-- The bytes of a text, not escaped. -/
def plain (text : String) : List UInt8 :=
  text.toList.flatMap String.utf8EncodeChar

/-- One character of an escaped text. -/
def escapeChar (c : Char) : List UInt8 :=
  match c with
  | '"' => plain "\\\""
  | '\\' => plain "\\\\"
  | '\n' => plain "\\n"
  | '\r' => plain "\\r"
  | '\t' => plain "\\t"
  | c =>
    if c.toNat = 8 then plain "\\b"
    else if c.toNat = 12 then plain "\\f"
    else if c.toNat < 32 then
      plain "\\u00" ++ String.utf8EncodeChar (c.toNat / 16).digitChar ++
        String.utf8EncodeChar (c.toNat % 16).digitChar
    else String.utf8EncodeChar c

/-- A text in quotation marks. -/
def string (text : String) : List UInt8 :=
  34 :: (text.toList.flatMap escapeChar ++ [34])

/-- A number. -/
def number (n : Nat) : List UInt8 :=
  (Nat.toDigits 10 n).flatMap String.utf8EncodeChar

/-- A truth value. -/
def bool (value : Bool) : List UInt8 :=
  if value then plain "true" else plain "false"

/-- Nothing. -/
def null : List UInt8 :=
  plain "null"

/-- Items separated by commas. -/
def separated : List (List UInt8) → List UInt8
  | [] => []
  | [item] => item
  | item :: rest => item ++ 44 :: separated rest

/-- An array. -/
def array (items : List (List UInt8)) : List UInt8 :=
  91 :: (separated items ++ [93])

/-- A field of an object. -/
def field (name : String) (value : List UInt8) : List UInt8 :=
  string name ++ 58 :: value

/-- An object. -/
def object (fields : List (List UInt8)) : List UInt8 :=
  123 :: (separated fields ++ [125])

/-- The bytes of a text in quotation marks. -/
def stringSize (text : String) : Nat :=
  2 + (text.toList.map fun c => (escapeChar c).length).sum

/-- The digits of a number. -/
def numberSize (n : Nat) : Nat :=
  (Nat.toDigits 10 n).length

variable {items : List (List UInt8)}

@[simp] theorem length_string (text : String) : (string text).length = stringSize text := by
  simp only [string, stringSize, List.length_cons, List.length_append, List.length_flatMap,
    List.length_nil]
  omega

@[simp] theorem length_number (n : Nat) : (number n).length = numberSize n := by
  have hdigits : ∀ digits : List Char, (∀ c ∈ digits, c.isDigit = true) →
      (digits.flatMap String.utf8EncodeChar).length = digits.length := by
    intro digits
    induction digits with
    | nil => simp
    | cons c digits ih =>
      intro hall
      have hc := hall c List.mem_cons_self
      have hsize : (String.utf8EncodeChar c).length = 1 := by
        rw [String.length_utf8EncodeChar]
        unfold Char.isDigit at hc
        simp only [ge_iff_le, Bool.and_eq_true, decide_eq_true_eq] at hc
        unfold Char.utf8Size
        have hle : c.val ≤ 127 := UInt32.le_trans hc.2 (by decide)
        simp [hle]
      rw [List.flatMap_cons, List.length_append, hsize, ih fun d hd =>
        hall d (List.mem_cons_of_mem _ hd), List.length_cons]
      omega
  exact hdigits _ fun c hc => Nat.isDigit_of_mem_toDigits (by decide) (by decide) hc

/-- Items and the commas between them. -/
theorem length_separated (h : items ≠ []) :
    (separated items).length + 1 = (items.map List.length).sum + items.length := by
  induction items with
  | nil => exact absurd rfl h
  | cons item rest ih =>
    cases rest with
    | nil => simp [separated]
    | cons next rest =>
      have hrest := ih (by simp)
      simp only [separated, List.length_append, List.length_cons, List.map_cons,
        List.sum_cons] at hrest ⊢
      omega

/-- An array takes a comma more than it has, unless it is empty. -/
theorem length_array (items : List (List UInt8)) :
    (array items).length = 1 + (items.map List.length).sum + max items.length 1 := by
  by_cases h : items = []
  · simp [array, separated, h]
  · have hlength := length_separated h
    have hpos : 0 < items.length := List.length_pos_iff.mpr h
    simp only [array, List.length_cons, List.length_append, List.length_nil]
    omega

/-- So does an object. -/
theorem length_object (items : List (List UInt8)) :
    (object items).length = 1 + (items.map List.length).sum + max items.length 1 := by
  by_cases h : items = []
  · simp [object, separated, h]
  · have hlength := length_separated h
    have hpos : 0 < items.length := List.length_pos_iff.mpr h
    simp only [object, List.length_cons, List.length_append, List.length_nil]
    omega

@[simp] theorem length_field (name : String) (value : List UInt8) :
    (field name value).length = stringSize name + 1 + value.length := by
  simp only [field, List.length_append, List.length_cons, length_string]
  omega

/-- An escaped character takes at most six bytes. -/
theorem length_escapeChar_le (c : Char) : (escapeChar c).length ≤ 6 := by
  unfold escapeChar
  split
  all_goals first
    | decide
    | skip
  split
  · decide
  split
  · decide
  split
  · next hlt =>
    have hdigit : ∀ n < 16, (String.utf8EncodeChar (Nat.digitChar n)).length = 1 := by decide
    have hhigh := hdigit (c.toNat / 16) (by omega)
    have hlow := hdigit (c.toNat % 16) (by omega)
    have hprefix : (plain "\\u00").length = 4 := by decide
    simp only [List.length_append]
    omega
  · rw [String.length_utf8EncodeChar]
    have hsize := Char.utf8Size_le_four c
    omega

/-- A text is escaped in at most six bytes a character. -/
theorem stringSize_le (text : String) : stringSize text ≤ 2 + 6 * text.length := by
  have hsum : ∀ chars : List Char,
      (chars.map fun c => (escapeChar c).length).sum ≤ 6 * chars.length := by
    intro chars
    induction chars with
    | nil => simp
    | cons c chars ih =>
      have hc := length_escapeChar_le c
      simp only [List.map_cons, List.sum_cons, List.length_cons]
      omega
  have hle := hsum text.toList
  rw [String.length_toList] at hle
  unfold stringSize
  omega

end Foundation.Json
