import Mathlib.Algebra.BigOperators.Group.List.Basic
import Mathlib.Algebra.Order.Ring.Nat

/-!
# Lists addressed by place

A table of tasks is a list in which a task is known by its place: an entry is changed where it
stands (`get_set`), a new one comes at the end (`get_append`), and none is taken out, so that what
holds of all entries (`forall_set`, `forall_append`) and what is there (`set_cases`, `get_append_of`)
are kept. What a table
counts (`countP_set_add`, `countP_modify_le`, `countP_le_one`), adds up (`sum_map_set`) or lists
(`map_filter_set_same`) changes with the entry only, and a search by place is a search of the list
with its places (`exists_place_iff`, `forall_place_iff`).
-/

namespace Foundation

variable {α β : Type*} {l : List α} {i j : Nat} {a b : α}

/-- The table after an entry of it was changed. -/
theorem get_set (h : l[i]? = some a) : (l.set i b)[j]? = if j = i then some b else l[j]? := by
  obtain ⟨hlt, -⟩ := List.getElem?_eq_some_iff.mp h
  rw [List.getElem?_set]
  by_cases hj : i = j
  · rw [if_pos hj, if_pos hlt, if_pos hj.symm]
  · rw [if_neg hj, if_neg (Ne.symm hj)]

/-- The table after an entry was added to it. -/
theorem get_append : (l ++ [a])[j]? = if j = l.length then some a else l[j]? := by
  rw [List.getElem?_append]
  split
  · next hlt => rw [if_neg (by omega)]
  · next hge =>
    split
    · next heq =>
      rw [heq, Nat.sub_self]
      rfl
    · next hne =>
      rw [List.getElem?_eq_none (l := l) (by omega)]
      exact List.getElem?_eq_none (by simp only [List.length_singleton]; omega)

/-- What holds of the new entry and of those that were there holds in the table after a change. -/
theorem forall_set {P : Nat → α → Prop} (h : l[i]? = some a) (hnew : P i b)
    (hold : ∀ j c, l[j]? = some c → P j c) (j : Nat) (c : α) (hget : (l.set i b)[j]? = some c) :
    P j c := by
  rw [get_set h] at hget
  split at hget
  · next hj =>
    obtain rfl := Option.some.inj hget
    exact hj ▸ hnew
  · exact hold j c hget

/-- What holds of the new entry and of those that were there holds in the table after an addition. -/
theorem forall_append {P : Nat → α → Prop} (hnew : P l.length a)
    (hold : ∀ j c, l[j]? = some c → P j c) (j : Nat) (c : α) (hget : (l ++ [a])[j]? = some c) :
    P j c := by
  rw [get_append] at hget
  split at hget
  · next hj =>
    obtain rfl := Option.some.inj hget
    exact hj ▸ hnew
  · exact hold j c hget

/-- An entry is the one that is changed, or is there after the change. -/
theorem set_cases (h : l[i]? = some a) (hget : l[j]? = some b) :
    (j = i ∧ b = a ∧ ∀ c, (l.set i c)[j]? = some c) ∨ (j ≠ i ∧ ∀ c, (l.set i c)[j]? = some b) := by
  by_cases hj : j = i
  · subst hj
    exact .inl ⟨rfl, Option.some.inj (hget.symm.trans h), fun c => (get_set h).trans (if_pos rfl)⟩
  · exact .inr ⟨hj, fun c => (get_set h).trans ((if_neg hj).trans hget)⟩

/-- An entry is still there after an addition. -/
theorem get_append_of {c : α} (hget : l[j]? = some c) : (l ++ [a])[j]? = some c := by
  have hlt := (List.getElem?_eq_some_iff.mp hget).1
  rw [get_append, if_neg (Nat.ne_of_lt hlt), hget]

/-- A count changes by what the entry counted before and counts now. -/
theorem countP_set_add (p : α → Bool) (h : l[i]? = some a) :
    (l.set i b).countP p + (if p a = true then 1 else 0) =
      l.countP p + (if p b = true then 1 else 0) := by
  obtain ⟨hlt, hget⟩ := List.getElem?_eq_some_iff.mp h
  have hpos : p a = true → 0 < l.countP p := fun hcounted =>
    List.countP_pos_iff.mpr ⟨a, List.mem_of_getElem? h, hcounted⟩
  rw [List.countP_set hlt, hget]
  by_cases hcounted : p a = true
  · have hone := hpos hcounted
    rw [if_pos hcounted]
    omega
  · rw [if_neg hcounted]
    omega

/-- An entry is counted as before when it was changed into one that is counted like it. -/
theorem countP_set_same {p : α → Bool} (h : l[i]? = some a) (hsame : p b = p a) :
    (l.set i b).countP p = l.countP p := by
  have hcount := countP_set_add (b := b) p h
  rw [hsame] at hcount
  exact Nat.add_right_cancel hcount

/-- A count does not grow when every entry that is counted after a change was counted before. -/
theorem countP_modify_le {p : α → Bool} {change : α → α} (i : Nat)
    (hless : ∀ a, p (change a) = true → p a = true) :
    (l.modify i change).countP p ≤ l.countP p := by
  induction l generalizing i with
  | nil => simp
  | cons first rest ih =>
    cases i with
    | zero =>
      rw [List.modify_zero_cons, List.countP_cons, List.countP_cons]
      by_cases hfirst : p (change first) = true
      · simp [hfirst, hless first hfirst]
      · rw [if_neg hfirst]
        omega
    | succ i =>
      have hrest := ih i
      rw [List.modify_succ_cons, List.countP_cons, List.countP_cons]
      omega

/-- A property that holds at one place at most is counted once at most. -/
theorem countP_le_one {p : α → Bool}
    (hsingle : ∀ (j k : Nat) (a b : α), l[j]? = some a → l[k]? = some b → p a = true →
      p b = true → j = k) :
    l.countP p ≤ 1 := by
  induction l with
  | nil => exact Nat.zero_le 1
  | cons first rest ih =>
    have hrest := ih fun j k a b ha hb hone htwo =>
      Nat.succ.inj (hsingle (j + 1) (k + 1) a b ha hb hone htwo)
    rw [List.countP_cons]
    split
    · next hfirst =>
      have hnone : rest.countP p = 0 := by
        refine List.countP_eq_zero.mpr fun a hmem ha => ?_
        obtain ⟨j, hget⟩ := List.mem_iff_getElem?.mp hmem
        have hsame := hsingle 0 (j + 1) first a rfl hget hfirst ha
        omega
      omega
    · exact hrest

/-- A sum over the table changes by the weight of the entry. -/
theorem sum_map_set (f : α → Nat) (h : l[i]? = some a) (b : α) :
    ((l.set i b).map f).sum + f a = (l.map f).sum + f b := by
  induction l generalizing i with
  | nil => cases h
  | cons first rest ih =>
    cases i with
    | zero =>
      obtain rfl := Option.some.inj h
      simp only [List.set_cons_zero, List.map_cons, List.sum_cons]
      omega
    | succ i =>
      have hrest := ih (i := i) h
      simp only [List.set_cons_succ, List.map_cons, List.sum_cons]
      omega

/-- What the table lists stays when an entry was changed into one that is listed like it. -/
theorem map_filter_set_same {p : α → Bool} {f : α → β} (h : l[i]? = some a) (hsame : p b = p a)
    (hvalue : f b = f a) : ((l.set i b).filter p).map f = (l.filter p).map f := by
  induction l generalizing i with
  | nil => cases h
  | cons first rest ih =>
    cases i with
    | zero =>
      obtain rfl := Option.some.inj h
      rw [List.set_cons_zero, List.filter_cons, List.filter_cons, hsame]
      split
      · rw [List.map_cons, List.map_cons, hvalue]
      · rfl
    | succ i =>
      have hrest := ih (i := i) h
      rw [List.set_cons_succ, List.filter_cons, List.filter_cons]
      split
      · rw [List.map_cons, List.map_cons, hrest]
      · exact hrest

/-- A search by place is a search of the list with its places. -/
theorem exists_place_iff (holds : α → Nat → Prop) :
    (∃ entry ∈ l.zipIdx, holds entry.1 entry.2) ↔ ∃ j a, l[j]? = some a ∧ holds a j := by
  constructor
  · rintro ⟨⟨a, j⟩, hmem, hholds⟩
    exact ⟨j, a, List.mem_zipIdx_iff_getElem?.mp hmem, hholds⟩
  · rintro ⟨j, a, hget, hholds⟩
    exact ⟨(a, j), List.mem_zipIdx_iff_getElem?.mpr hget, hholds⟩

/-- What holds at every place holds of the list with its places. -/
theorem forall_place_iff (holds : α → Nat → Prop) :
    (∀ entry ∈ l.zipIdx, holds entry.1 entry.2) ↔ ∀ j a, l[j]? = some a → holds a j := by
  constructor
  · intro h j a hget
    exact h (a, j) (List.mem_zipIdx_iff_getElem?.mpr hget)
  · rintro h ⟨a, j⟩ hmem
    exact h j a (List.mem_zipIdx_iff_getElem?.mp hmem)

end Foundation
