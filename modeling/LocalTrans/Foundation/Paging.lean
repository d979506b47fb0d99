import Mathlib.Algebra.Order.Ring.Nat

/-!
# Reading a list page by page

A server answers a cursor with a page and the cursor of the next one, or none after the last.
`Paged` says what a client has read when it followed the cursors to the end; it holds of no list when
the server fails or goes on for ever. Pages cut from a list by offset give the whole list
(`paged_pages`), whatever the limit is.
-/

namespace Foundation

variable {α ε : Type*} {fetch : Nat → Except ε (List α × Option Nat)} {cursor limit : Nat}
  {l entries other : List α}

/-- Following the cursors from a first one gives the entries, and comes to an end. -/
inductive Paged (fetch : Nat → Except ε (List α × Option Nat)) : Nat → List α → Prop where
  | last {cursor page} : fetch cursor = .ok (page, none) → Paged fetch cursor page
  | more {cursor page next entries} : fetch cursor = .ok (page, some next) →
      Paged fetch next entries → Paged fetch cursor (page ++ entries)

/-- The first page was answered. -/
theorem Paged.answered (h : Paged fetch cursor entries) : ∃ page, fetch cursor = .ok page := by
  cases h with
  | last hpage => exact ⟨_, hpage⟩
  | more hpage _ => exact ⟨_, hpage⟩

/-- The page of a list that begins at an offset, and the offset of the next one. -/
def pageOf (l : List α) (cursor limit : Nat) : List α × Option Nat :=
  if l.length ≤ cursor then ([], none)
  else
    let stop := min (cursor + limit) l.length
    ((l.drop cursor).take (stop - cursor), if stop < l.length then some stop else none)

/-- The last page is the rest of the list. -/
theorem page_of_last (h : l.length ≤ cursor + limit) : pageOf l cursor limit = (l.drop cursor, none) := by
  unfold pageOf
  split
  · next hend => rw [List.drop_eq_nil_of_le hend]
  · rw [Nat.min_eq_right h]
    dsimp only
    rw [if_neg (Nat.lt_irrefl _), List.take_of_length_le (Nat.le_of_eq List.length_drop)]

/-- A page before the last one is full. -/
theorem page_of_more (h : cursor + limit < l.length) :
    pageOf l cursor limit = ((l.drop cursor).take limit, some (cursor + limit)) := by
  unfold pageOf
  rw [if_neg (by omega), Nat.min_eq_left (Nat.le_of_lt h)]
  dsimp only
  rw [if_pos h, Nat.add_sub_cancel_left]

/-- A page, and what is left after it. -/
theorem take_append_drop_add (l : List α) (cursor limit : Nat) :
    (l.drop cursor).take limit ++ l.drop (cursor + limit) = l.drop cursor := by
  rw [← List.drop_drop, List.take_append_drop]

/-- Pages of at least one entry, from an offset on, give the rest of the list. -/
theorem paged_pages (hfetch : ∀ cursor, fetch cursor = .ok (pageOf l cursor limit))
    (hlimit : 1 ≤ limit) : ∀ cursor, Paged fetch cursor (l.drop cursor) := by
  intro cursor
  -- every page but the last leaves fewer entries
  induction hleft : l.length - cursor using Nat.strongRecOn generalizing cursor with
  | ind left ih =>
    by_cases hlast : l.length ≤ cursor + limit
    · exact .last ((hfetch cursor).trans (congrArg Except.ok (page_of_last hlast)))
    · have hmore : cursor + limit < l.length := Nat.lt_of_not_le hlast
      rw [← take_append_drop_add l cursor limit]
      exact .more ((hfetch cursor).trans (congrArg Except.ok (page_of_more hmore)))
        (ih (l.length - (cursor + limit)) (by omega) (cursor + limit) rfl)

end Foundation
