import Mathlib.Data.List.Sort

/-!
# Sorting and choosing by a key

`sortBy` is a stable sort by a key, `maxByKey` the last entry with the largest key. A list with
distinct keys has one sorted form, whatever its order was (`sort_by_congr`), and sorting does not
change what a list holds (`mem_sort_by`).
-/

namespace Foundation

variable {α κ : Type*} [LinearOrder κ] {key : α → κ} {l l' : List α} {a best : α}

/-- A stable sort, smallest key first. -/
def sortBy (key : α → κ) (l : List α) : List α := l.insertionSort fun a b => key a ≤ key b

/-- The last of the entries with the largest key. -/
def maxByKey (key : α → κ) : List α → Option α
  | [] => none
  | first :: rest => some (rest.foldl (fun best a => if key best ≤ key a then a else best) first)

theorem sort_by_perm (key : α → κ) (l : List α) : (sortBy key l).Perm l :=
  List.perm_insertionSort _ l

@[simp] theorem mem_sort_by : a ∈ sortBy key l ↔ a ∈ l := (sort_by_perm key l).mem_iff

theorem sort_by_sorted (key : α → κ) (l : List α) :
    (sortBy key l).Pairwise fun a b => key a ≤ key b := by
  have : IsTrans α fun a b => key a ≤ key b := ⟨fun _ _ _ h h' => le_trans h h'⟩
  have : Std.Total fun a b => key a ≤ key b := ⟨fun a b => le_total (key a) (key b)⟩
  exact List.pairwise_insertionSort _ l

/-- With distinct keys the sorted list does not depend on the order of the list. -/
theorem sort_by_congr (h : l.Perm l') (hdistinct : (l.map key).Nodup) :
    sortBy key l = sortBy key l' := by
  have hperm : (sortBy key l).Perm (sortBy key l') :=
    (sort_by_perm key l).trans (h.trans (sort_by_perm key l').symm)
  refine hperm.eq_of_pairwise ?_ (sort_by_sorted key l) (sort_by_sorted key l')
  intro a b ha hb hab hba
  have hb : b ∈ l := h.mem_iff.mpr (mem_sort_by.mp hb)
  exact List.inj_on_of_nodup_map hdistinct (mem_sort_by.mp ha) hb (le_antisymm hab hba)

theorem max_by_key_mem (h : maxByKey key l = some best) : best ∈ l := by
  cases l with
  | nil => cases h
  | cons first rest =>
    obtain rfl := Option.some.inj h
    clear h
    induction rest generalizing first with
    | nil => exact List.mem_cons_self
    | cons second rest ih =>
      rw [List.foldl_cons]
      split
      · exact List.mem_cons_of_mem _ (ih second)
      · rcases List.mem_cons.mp (ih first) with heq | hmem
        · rw [heq]
          exact List.mem_cons_self
        · exact List.mem_cons_of_mem _ (List.mem_cons_of_mem _ hmem)

/-- The fold ends with a key as large as the one it began with, and as those on the way. -/
theorem le_fold_max (key : α → κ) (first : α) (rest : List α) :
    key first ≤ key (rest.foldl (fun best a => if key best ≤ key a then a else best) first) ∧
      ∀ a ∈ rest,
        key a ≤ key (rest.foldl (fun best a => if key best ≤ key a then a else best) first) := by
  induction rest generalizing first with
  | nil => exact ⟨le_refl _, by simp⟩
  | cons second rest ih =>
    rw [List.foldl_cons]
    obtain ⟨hstart, hrest⟩ := ih (if key first ≤ key second then second else first)
    have hboth : key first ≤ key (if key first ≤ key second then second else first) ∧
        key second ≤ key (if key first ≤ key second then second else first) := by
      split
      · next hless => exact ⟨hless, le_refl _⟩
      · next hless => exact ⟨le_refl _, le_of_lt (not_le.mp hless)⟩
    refine ⟨hboth.1.trans hstart, fun a hmem => ?_⟩
    rcases List.mem_cons.mp hmem with rfl | hmem
    · exact hboth.2.trans hstart
    · exact hrest a hmem

theorem max_by_key_le (h : maxByKey key l = some best) (hmem : a ∈ l) : key a ≤ key best := by
  cases l with
  | nil => cases h
  | cons first rest =>
    obtain rfl := Option.some.inj h
    obtain ⟨hfirst, hrest⟩ := le_fold_max key first rest
    rcases List.mem_cons.mp hmem with rfl | hmem
    · exact hfirst
    · exact hrest a hmem

/-- Only an empty list has no largest key. -/
theorem max_by_key_none : maxByKey key l = none ↔ l = [] := by
  cases l <;> simp [maxByKey]

end Foundation
