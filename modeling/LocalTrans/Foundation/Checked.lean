import Mathlib.Data.Int.Basic
import Mathlib.Tactic.Ring.Basic

/-!
# Machine integers under overflow checks

A machine integer of `width` bits is the number it stands for. An operation under overflow checks has
a result only if the number has `width` bits (`checkedSub`, `checkedMul`, `checkedSignedSub`), and a
cast keeps the bits that fit (`castTo`, `asSigned`).
-/

namespace Foundation

variable {width a b : Nat}

/-- Unsigned subtraction. -/
def checkedSub (a b : Nat) : Option Nat :=
  if b ≤ a then some (a - b) else none

/-- Unsigned multiplication. -/
def checkedMul (width a b : Nat) : Option Nat :=
  if a * b < 2 ^ width then some (a * b) else none

/-- A cast to an unsigned integer. -/
def castTo (width a : Nat) : Nat := a % 2 ^ width

/-- A cast of an unsigned integer to a signed one of the same width. -/
def asSigned (width a : Nat) : Int :=
  if a < 2 ^ (width - 1) then a else (a : Int) - 2 ^ width

/-- Signed subtraction. -/
def checkedSignedSub (width : Nat) (a b : Int) : Option Int :=
  if -(2 ^ (width - 1)) ≤ a - b ∧ a - b < 2 ^ (width - 1) then some (a - b) else none

theorem checked_sub_of_le (h : b ≤ a) : checkedSub a b = some (a - b) := if_pos h

theorem checked_mul_of_lt (h : a * b < 2 ^ width) : checkedMul width a b = some (a * b) := if_pos h

theorem cast_of_lt (h : a < 2 ^ width) : castTo width a = a := Nat.mod_eq_of_lt h

/-- The difference of two casts has a result if both are on the same side of the sign, or the one
that turned negative is far enough from the other. -/
theorem checked_signed_sub_iff (hwidth : 0 < width) (ha : a < 2 ^ width) (hb : b < 2 ^ width) :
    (checkedSignedSub width (asSigned width a) (asSigned width b)).isSome = true ↔
      (a < 2 ^ (width - 1) ↔ b < 2 ^ (width - 1)) ∨ b + 2 ^ (width - 1) ≤ a ∨
        a + 2 ^ (width - 1) < b := by
  obtain ⟨half, rfl⟩ : ∃ half, width = half + 1 := ⟨width - 1, by omega⟩
  have hdouble : (2 : Int) ^ (half + 1) = 2 * 2 ^ half := by rw [pow_succ, mul_comm]
  have hdouble' : 2 ^ (half + 1) = 2 * 2 ^ half := by rw [pow_succ, mul_comm]
  have hcast : (2 : Int) ^ half = ((2 ^ half : Nat) : Int) := by push_cast; rfl
  unfold checkedSignedSub asSigned
  rw [Option.isSome_ite, Nat.add_sub_cancel, hdouble, hcast]
  rw [hdouble'] at ha hb
  generalize 2 ^ half = sign at *
  by_cases hsign : a < sign
  · by_cases hsign' : b < sign
    · rw [if_pos hsign, if_pos hsign']
      omega
    · rw [if_pos hsign, if_neg hsign']
      omega
  · by_cases hsign' : b < sign
    · rw [if_neg hsign, if_pos hsign']
      omega
    · rw [if_neg hsign, if_neg hsign']
      omega

end Foundation
