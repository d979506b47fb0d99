import Mathlib.Data.List.AList

/-!
# Maps and their reverse indexes

A `Map` has at most one value for a key. A `ReverseIndex` leads from something that the items of a
map have, such as a port or a token, back to the key of the item that has it. Each operation that
keeps a map and an index in step is a rule: `empty`, `insert`, `update`, `rekey` and `erase`.
-/

namespace Foundation

/-- A map with at most one value for a key. -/
abbrev Map (α β : Type*) := AList fun _ : α => β

variable {α β γ : Type*} [DecidableEq α] [DecidableEq β] {items : Map α γ} {index : Map β α}
  {key : γ → β} {a : α} {item : γ}

section Lookup

theorem lookup_insert_iff {a' : α} {item' : γ} :
    (items.insert a item).lookup a' = some item' ↔
      a' = a ∧ item' = item ∨ a' ≠ a ∧ items.lookup a' = some item' := by
  by_cases heq : a' = a
  · subst heq
    rw [AList.lookup_insert]
    constructor
    · intro h
      exact .inl ⟨rfl, (Option.some.inj h).symm⟩
    · rintro (⟨-, rfl⟩ | ⟨hne, -⟩)
      · rfl
      · exact absurd rfl hne
  · rw [AList.lookup_insert_ne heq]
    simp [heq]

theorem lookup_erase_iff {a' : α} {item' : γ} :
    (items.erase a).lookup a' = some item' ↔ a' ≠ a ∧ items.lookup a' = some item' := by
  by_cases heq : a' = a
  · subst heq
    rw [AList.lookup_erase]
    simp
  · rw [AList.lookup_erase_ne heq]
    simp [heq]

theorem lookup_ne_none_iff : items.lookup a ≠ none ↔ ∃ item, items.lookup a = some item :=
  Option.ne_none_iff_exists'

/-- The entries of a map are what is looked up in it. -/
theorem mem_entries_iff : ⟨a, item⟩ ∈ items.entries ↔ items.lookup a = some item :=
  AList.mem_lookup_iff.symm

/-- The items of a map that meet a condition. -/
def Map.retain (items : Map α γ) (keep : α → γ → Bool) : Map α γ :=
  ⟨items.entries.filter fun entry => keep entry.1 entry.2,
    items.nodupKeys.sublist List.filter_sublist⟩

variable {keep : α → γ → Bool}

theorem lookup_retain_iff :
    (items.retain keep).lookup a = some item ↔ items.lookup a = some item ∧ keep a item = true := by
  rw [← mem_entries_iff, ← mem_entries_iff]
  exact List.mem_filter

omit [DecidableEq α] in
theorem length_retain_le : (items.retain keep).entries.length ≤ items.entries.length :=
  List.length_filter_le _ _

/-- An item that is not kept leaves room. -/
theorem length_retain_lt (h : items.lookup a = some item) (hkeep : keep a item = false) :
    (items.retain keep).entries.length < items.entries.length := by
  refine List.length_filter_lt_length_iff_exists.mpr ⟨⟨a, item⟩, mem_entries_iff.mpr h, ?_⟩
  simp [hkeep]

theorem length_insert_le : (items.insert a item).entries.length ≤ items.entries.length + 1 := by
  rw [AList.entries_insert, List.length_cons]
  exact Nat.succ_le_succ (List.kerase_sublist a items.entries).length_le

/-- An item that is there already is replaced. -/
theorem length_insert_of_mem {old : γ} (h : items.lookup a = some old) :
    (items.insert a item).entries.length = items.entries.length := by
  have hmem : a ∈ items.entries.keys := List.mem_keys_of_mem (mem_entries_iff.mpr h)
  obtain ⟨found, before, after, -, hentries, hkerase⟩ := List.exists_of_kerase hmem
  rw [AList.entries_insert, hkerase, hentries]
  simp [Nat.add_assoc]

end Lookup

/-- The index leads to the key of the item that has what is looked up, and only to it. -/
def ReverseIndex (items : Map α γ) (index : Map β α) (key : γ → β) : Prop :=
  ∀ a b, index.lookup b = some a ↔ ∃ item, items.lookup a = some item ∧ key item = b

namespace ReverseIndex

theorem empty : ReverseIndex (∅ : Map α γ) (∅ : Map β α) key := by
  intro a b
  simp

/-- Two items have nothing in common. -/
theorem unique (h : ReverseIndex items index key) {a' : α} {item' : γ}
    (hitem : items.lookup a = some item) (hitem' : items.lookup a' = some item')
    (hkey : key item = key item') : a = a' := by
  have hfirst := (h a (key item)).mpr ⟨item, hitem, rfl⟩
  have hsecond := (h a' (key item)).mpr ⟨item', hitem', hkey.symm⟩
  exact Option.some.inj (hfirst.symm.trans hsecond)

/-- An item that is not there is entered with something that no item has. -/
theorem insert (h : ReverseIndex items index key) (hitem : items.lookup a = none)
    (hkey : index.lookup (key item) = none) :
    ReverseIndex (items.insert a item) (index.insert (key item) a) key := by
  intro a' b
  rw [lookup_insert_iff]
  constructor
  · rintro (⟨rfl, rfl⟩ | ⟨hne, hold⟩)
    · exact ⟨item, AList.lookup_insert _, rfl⟩
    · obtain ⟨other, hother, rfl⟩ := (h a' b).mp hold
      refine ⟨other, lookup_insert_iff.mpr (.inr ⟨?_, hother⟩), rfl⟩
      rintro rfl
      rw [hitem] at hother
      cases hother
  · rintro ⟨other, hother, rfl⟩
    rcases lookup_insert_iff.mp hother with ⟨rfl, rfl⟩ | ⟨-, hold⟩
    · exact .inl ⟨rfl, rfl⟩
    · have hlookup := (h a' (key other)).mpr ⟨other, hold, rfl⟩
      refine .inr ⟨?_, hlookup⟩
      intro heq
      rw [heq, hkey] at hlookup
      cases hlookup

/-- An item is replaced by one that has the same. -/
theorem update (h : ReverseIndex items index key) {old : γ} (hold : items.lookup a = some old)
    (hkey : key item = key old) : ReverseIndex (items.insert a item) index key := by
  intro a' b
  rw [h a' b]
  constructor
  · rintro ⟨other, hother, rfl⟩
    by_cases heq : a' = a
    · subst heq
      obtain rfl := Option.some.inj (hold.symm.trans hother)
      exact ⟨item, AList.lookup_insert _, hkey⟩
    · exact ⟨other, lookup_insert_iff.mpr (.inr ⟨heq, hother⟩), rfl⟩
  · rintro ⟨other, hother, rfl⟩
    rcases lookup_insert_iff.mp hother with ⟨rfl, rfl⟩ | ⟨-, hlookup⟩
    · exact ⟨old, hold, hkey.symm⟩
    · exact ⟨other, hlookup, rfl⟩

/-- What an item had leads nowhere when the item is removed. -/
theorem erase (h : ReverseIndex items index key) (hitem : items.lookup a = some item) :
    ReverseIndex (items.erase a) (index.erase (key item)) key := by
  intro a' b
  rw [lookup_erase_iff, h a' b]
  constructor
  · rintro ⟨hne, other, hother, rfl⟩
    refine ⟨other, lookup_erase_iff.mpr ⟨?_, hother⟩, rfl⟩
    rintro rfl
    obtain rfl := Option.some.inj (hitem.symm.trans hother)
    exact hne rfl
  · rintro ⟨other, hother, rfl⟩
    obtain ⟨hne, hlookup⟩ := lookup_erase_iff.mp hother
    refine ⟨fun heq => ?_, other, hlookup, rfl⟩
    exact hne (h.unique hlookup hitem heq)

/-- An item is replaced by one that has something else. -/
theorem rekey (h : ReverseIndex items index key) {old : γ} (hold : items.lookup a = some old)
    (hkey : index.lookup (key item) = none) :
    ReverseIndex (items.insert a item) ((index.erase (key old)).insert (key item) a) key := by
  have herased : ReverseIndex (items.erase a) (index.erase (key old)) key := h.erase hold
  have hfree : (index.erase (key old)).lookup (key item) = none := by
    by_contra hfound
    obtain ⟨a', hlookup⟩ := lookup_ne_none_iff.mp hfound
    rw [(lookup_erase_iff.mp hlookup).2] at hkey
    cases hkey
  have hinserted := herased.insert (AList.lookup_erase a items) hfree
  intro a' b
  rw [hinserted a' b]
  simp only [lookup_insert_iff, lookup_erase_iff]
  constructor
  · rintro ⟨other, hother | ⟨hne, -, hlookup⟩, hb⟩
    · exact ⟨other, .inl hother, hb⟩
    · exact ⟨other, .inr ⟨hne, hlookup⟩, hb⟩
  · rintro ⟨other, hother | ⟨hne, hlookup⟩, hb⟩
    · exact ⟨other, .inl hother, hb⟩
    · exact ⟨other, .inr ⟨hne, hne, hlookup⟩, hb⟩

end ReverseIndex

end Foundation
