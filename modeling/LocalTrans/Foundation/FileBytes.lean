import Mathlib.Algebra.Order.Ring.Nat

/-!
# Writing into the middle of a file

The contents of a file are a list. `writeAt` writes at an offset as `seek` and `write` do: a gap
past the end is filled, a write within the contents replaces them, and a write of nothing changes
nothing. `slice` reads a part. A part that a write covers reads as what was written, and a part
it does not touch reads as before.
-/

namespace Foundation

variable {α : Type*} {fill : α} {content data : List α} {offset start size index : Nat}

/-- The part of the contents that begins at `start`, at most `size` long. -/
def slice (content : List α) (start size : Nat) : List α :=
  (content.drop start).take size

/-- Write `data` at `offset`. -/
def writeAt (fill : α) (content : List α) (offset : Nat) (data : List α) : List α :=
  if data.isEmpty then content
  else
    content.take offset ++ List.replicate (offset - content.length) fill ++ data ++
      content.drop (offset + data.length)

/-- What is read at a position of a part. -/
theorem getElem?_slice :
    (slice content start size)[index]? = if index < size then content[start + index]? else none := by
  unfold slice
  rw [List.getElem?_take]
  split
  · rw [List.getElem?_drop]
  · rfl

/-- A part that lies within the contents has its full size. -/
theorem length_slice (h : start + size ≤ content.length) : (slice content start size).length = size := by
  unfold slice
  rw [List.length_take, List.length_drop]
  omega

/-- A file grows by a write only as far as the write reaches. -/
theorem length_writeAt (h : data ≠ []) :
    (writeAt fill content offset data).length = max content.length (offset + data.length) := by
  unfold writeAt
  rw [if_neg (by simpa using h)]
  simp only [List.length_append, List.length_take, List.length_replicate, List.length_drop]
  omega

/-- A file never shrinks by a write. -/
theorem le_length_writeAt : content.length ≤ (writeAt fill content offset data).length := by
  by_cases h : data = []
  · simp [writeAt, h]
  · rw [length_writeAt h]
    exact Nat.le_max_left _ _

/-- What was written is there. -/
theorem getElem?_writeAt_of_mem (h : offset ≤ index) (hlt : index < offset + data.length) :
    (writeAt fill content offset data)[index]? = data[index - offset]? := by
  have hdata : data ≠ [] := by
    rintro rfl
    simp at hlt
    omega
  unfold writeAt
  rw [if_neg (by simpa using hdata), List.append_assoc]
  have hbefore : (content.take offset ++ List.replicate (offset - content.length) fill).length =
      offset := by
    rw [List.length_append, List.length_take, List.length_replicate]
    omega
  rw [List.getElem?_append_right (by omega), hbefore, List.getElem?_append_left (by omega)]

/-- What was not written is as before. -/
theorem getElem?_writeAt_of_not_mem (h : index < offset ∨ offset + data.length ≤ index)
    (hlt : index < content.length) :
    (writeAt fill content offset data)[index]? = content[index]? := by
  by_cases hdata : data = []
  · simp [writeAt, hdata]
  unfold writeAt
  rw [if_neg (by simpa using hdata), List.append_assoc, List.append_assoc]
  rcases h with hbefore | hafter
  · rw [List.getElem?_append_left (by rw [List.length_take]; omega), List.getElem?_take,
      if_pos hbefore]
  · have hlength : (content.take offset).length = offset := by
      rw [List.length_take]
      omega
    rw [List.getElem?_append_right (by omega), hlength,
      List.getElem?_append_right (by rw [List.length_replicate]; omega), List.length_replicate,
      List.getElem?_append_right (by omega), List.getElem?_drop]
    congr 1
    omega

/-- The part that was written. -/
theorem slice_writeAt_self :
    slice (writeAt fill content offset data) offset data.length = data := by
  apply List.ext_getElem?
  intro index
  rw [getElem?_slice]
  split
  · next hlt =>
    rw [getElem?_writeAt_of_mem (by omega) (by omega)]
    congr 1
    omega
  · next hge => rw [List.getElem?_eq_none (by omega)]

/-- A part before or after what was written. -/
theorem slice_writeAt_other (h : start + size ≤ offset ∨ offset + data.length ≤ start)
    (hle : start + size ≤ content.length) :
    slice (writeAt fill content offset data) start size = slice content start size := by
  apply List.ext_getElem?
  intro index
  rw [getElem?_slice, getElem?_slice]
  split
  · exact getElem?_writeAt_of_not_mem (by omega) (by omega)
  · rfl

/-- Writing again what is there changes nothing, even if only a part of it is written. -/
theorem writeAt_slice {count : Nat} (h : offset + size ≤ content.length) :
    writeAt fill content offset ((slice content offset size).take count) = content := by
  apply List.ext_getElem?
  intro index
  have hlength : ((slice content offset size).take count).length = min count size := by
    rw [List.length_take, length_slice h]
  by_cases hmem : offset ≤ index ∧ index < offset + min count size
  · rw [getElem?_writeAt_of_mem hmem.1 (by omega), List.getElem?_take, if_pos (by omega),
      getElem?_slice, if_pos (by omega)]
    congr 1
    omega
  · by_cases hlt : index < content.length
    · exact getElem?_writeAt_of_not_mem (by omega) hlt
    · have hsame : (writeAt fill content offset ((slice content offset size).take count)).length =
          content.length := by
        by_cases hdata : (slice content offset size).take count = []
        · simp [writeAt, hdata]
        · rw [length_writeAt hdata]
          omega
      rw [List.getElem?_eq_none (by omega), List.getElem?_eq_none (by omega)]

end Foundation
