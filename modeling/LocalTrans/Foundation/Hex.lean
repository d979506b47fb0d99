import Mathlib.Algebra.Order.Ring.Nat

/-!
# Hexadecimal texts

`hexText` writes two lower-case digits for a byte, and `hexDecode` reads pairs of digits of either
case; a text of an odd length or with another character is refused. What was written is read again
(`hex_decode_text`).
-/

namespace Foundation

/-- `hex::encode`. -/
def hexText (bytes : List UInt8) : String :=
  String.ofList (bytes.flatMap fun byte =>
    [(byte.toNat / 16).digitChar, (byte.toNat % 16).digitChar])

/-- The value of a digit. -/
def hexValue (c : Char) : Option Nat :=
  if '0' ≤ c ∧ c ≤ '9' then some (c.toNat - '0'.toNat)
  else if 'a' ≤ c ∧ c ≤ 'f' then some (c.toNat - 'a'.toNat + 10)
  else if 'A' ≤ c ∧ c ≤ 'F' then some (c.toNat - 'A'.toNat + 10)
  else none

/-- The bytes of pairs of digits. -/
def hexPairs : List Char → Option (List UInt8)
  | [] => some []
  | [_] => none
  | high :: low :: rest => do
      let high ← hexValue high
      let low ← hexValue low
      let bytes ← hexPairs rest
      some (UInt8.ofNat (high * 16 + low) :: bytes)

/-- `hex::decode`. -/
def hexDecode (text : String) : Option (List UInt8) := hexPairs text.toList

theorem hex_value_digit {n : Nat} (h : n < 16) : hexValue n.digitChar = some n := by
  have hall : ∀ n < 16, hexValue (Nat.digitChar n) = some n := by decide
  exact hall n h

/-- What was written is read again. -/
theorem hex_decode_text (bytes : List UInt8) : hexDecode (hexText bytes) = some bytes := by
  unfold hexDecode hexText
  rw [String.toList_ofList]
  induction bytes with
  | nil => rfl
  | cons byte rest ih =>
    have hlt := byte.toNat_lt
    have hbyte : byte.toNat / 16 * 16 + byte.toNat % 16 = byte.toNat := by omega
    rw [List.flatMap_cons]
    show (do
      let high ← hexValue (byte.toNat / 16).digitChar
      let low ← hexValue (byte.toNat % 16).digitChar
      let bytes ← hexPairs (rest.flatMap fun byte : UInt8 =>
        [(byte.toNat / 16).digitChar, (byte.toNat % 16).digitChar])
      some (UInt8.ofNat (high * 16 + low) :: bytes)) = _
    rw [hex_value_digit (by omega), hex_value_digit (by omega), ih]
    show some (UInt8.ofNat (byte.toNat / 16 * 16 + byte.toNat % 16) :: rest) = _
    rw [hbyte, UInt8.ofNat_toNat]

end Foundation
