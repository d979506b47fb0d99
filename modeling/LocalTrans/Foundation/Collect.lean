import LocalTrans.Foundation.ReverseIndex
import Mathlib.Data.List.Find

/-!
# Maps made from lists

`collect` inserts the entries of a list in turn, so that the last one of a key stays
(`lookup_collect`). `supply` inserts those whose key the map does not have yet, so that what was there
stays, and else the first one (`lookup_supply`). Where the keys of a list are distinct, the order does
not matter (`find_of_perm`).
-/

namespace Foundation

variable {α β γ : Type*} [DecidableEq β] {items : Map β γ} {key : α → β} {value : α → γ} {b : β}

/-- Insert the entries of a list. -/
def collect (items : Map β γ) (key : α → β) (value : α → γ) (l : List α) : Map β γ :=
  l.foldl (fun items a => items.insert (key a) (value a)) items

/-- Insert the entries of a list whose keys are not there. -/
def supply (items : Map β γ) (key : α → β) (value : α → γ) (l : List α) : Map β γ :=
  l.foldl (fun items a => if key a ∈ items then items else items.insert (key a) (value a)) items

theorem lookup_collect (items : Map β γ) (key : α → β) (value : α → γ) (l : List α) :
    (collect items key value l).lookup b =
      ((l.reverse.find? fun a => key a = b).map value).or (items.lookup b) := by
  unfold collect
  induction l generalizing items with
  | nil => rfl
  | cons first rest ih =>
    rw [List.foldl_cons, ih, List.reverse_cons, List.find?_append]
    cases rest.reverse.find? fun a => key a = b with
    | some found => rfl
    | none =>
      by_cases hkey : key first = b
      · subst hkey
        simp
      · rw [AList.lookup_insert_ne (Ne.symm hkey)]
        simp [hkey]

theorem lookup_supply (items : Map β γ) (key : α → β) (value : α → γ) (l : List α) :
    (supply items key value l).lookup b =
      (items.lookup b).or ((l.find? fun a => key a = b).map value) := by
  unfold supply
  induction l generalizing items with
  | nil => simp
  | cons first rest ih =>
    rw [List.foldl_cons, ih]
    by_cases hkey : key first = b
    · subst hkey
      split
      · next hmem =>
        obtain ⟨found, hfound⟩ := Option.isSome_iff_exists.mp (AList.lookup_isSome.mpr hmem)
        simp [hfound]
      · next hnew => simp [AList.lookup_eq_none.mpr hnew]
    · have hlookup : (if key first ∈ items then items else
          items.insert (key first) (value first)).lookup b = items.lookup b := by
        split
        · rfl
        · exact AList.lookup_insert_ne (Ne.symm hkey)
      simp [hlookup, hkey]

/-- With distinct keys, what is found does not depend on the order. -/
theorem find_of_perm (key : α → β) {l l' : List α} (h : l.Perm l') (hdistinct : (l.map key).Nodup)
    (b : β) : (l.find? fun a => key a = b) = l'.find? fun a => key a = b := by
  refine List.find?_eq_find?_of_perm h ?_
  rintro a ⟨ha, hkey⟩ a' ⟨ha', hkey'⟩
  have hsame : key a = key a' := by rw [of_decide_eq_true hkey, of_decide_eq_true hkey']
  exact List.inj_on_of_nodup_map hdistinct ha ha' hsame

/-- With distinct keys, the last one is the first one. -/
theorem find_reverse (key : α → β) {l : List α} (hdistinct : (l.map key).Nodup) (b : β) :
    (l.reverse.find? fun a => key a = b) = l.find? fun a => key a = b :=
  (find_of_perm key (List.reverse_perm l).symm hdistinct b).symm

end Foundation
