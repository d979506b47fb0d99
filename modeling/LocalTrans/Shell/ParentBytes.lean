import LocalTrans.Foundation.Places
import LocalTrans.Shell.Children
import Mathlib.Algebra.Order.BigOperators.Group.List
import Mathlib.Algebra.Order.Group.Nat

/-!
# The bytes of a card with children

`child_upsert` keeps the total and the bytes of a parent card next to those of its children. A child
that is added brings its total, and one that is replaced brings the bytes it has more; its total is
not compared. `upsert_balanced_iff` says for one call when the two sides stay equal and the child
goes on for the file that was there, and `accounted_iff` for all sequences of calls.
`handleBatchPullEvent` makes calls that do not.
-/

namespace LocalTrans

open Foundation

/-- What a child stands for: the file of an engine id, or a file that is known by its name. -/
inductive ChildIdentity where
  | engine (jobId : String)
  | named (name : String)
deriving DecidableEq

/-- The identity of a child. -/
def ChildDto.identity (child : ChildDto) : ChildIdentity :=
  if child.jobId = "" then .named child.name else .engine child.jobId

/-- A child goes on for the file of another one: they are the same, or the other one kept the place
by the name until the file had an engine id. -/
def ChildDto.Continues (old new : ChildDto) : Prop :=
  new.identity = old.identity ∨ old.jobId = "" ∧ new.name = old.name

namespace Desktop.TransferCard

/-- The card has the bytes of its children, and no more than their total. -/
structure Balanced (card : TransferCard) : Prop where
  total : card.dto.total = (card.dto.children.map ChildDto.total).sum
  done : card.dto.done = (card.dto.children.map ChildDto.done).sum
  le : card.dto.done ≤ card.dto.total

/-- Every child is there still, or goes on where it was. -/
def Kept (before after : TransferCard) : Prop :=
  ∀ (i : Nat) (old : ChildDto), before.dto.children[i]? = some old →
    ∃ new, after.dto.children[i]? = some new ∧ old.Continues new

/-- The card is balanced after every one of the calls, and none of them loses a child. -/
def Accounted : TransferCard → List ChildDto → Prop
  | card, [] => Balanced card
  | card, child :: rest =>
    Balanced card ∧ Kept card (card.childUpsert child) ∧ Accounted (card.childUpsert child) rest

/-- The child that another one takes the place of. -/
def replaced (children : List ChildDto) (child : ChildDto) : Option ChildDto :=
  if child.jobId = "" then children.find? fun c => c.name = child.name
  else (children.find? fun c => c.jobId = child.jobId).or
    (children.find? fun c => c.jobId = "" ∧ c.name = child.name)

/-- The call suits the card. A new child does not make the total overflow, nor has it more bytes than
are left; one that takes the place of another has its total, and an engine id if that one has. -/
def Suits (card : TransferCard) (child : ChildDto) : Prop :=
  match replaced card.dto.children child with
  | none =>
    card.dto.total + child.total ≤ u64Max ∧
      card.dto.done + child.done ≤ card.dto.total + child.total
  | some old =>
    child.total = old.total ∧ (child.jobId = "" → old.jobId = "") ∧
      card.dto.done + (child.done - old.done) ≤ card.dto.total

/-- Every call suits the card as it is then. -/
def AllSuit : TransferCard → List ChildDto → Prop
  | _, [] => True
  | card, child :: rest => Suits card child ∧ AllSuit (card.childUpsert child) rest

variable {card : TransferCard} {child old : ChildDto} {children calls : List ChildDto} {i : Nat}

theorem find_of_find_idx {p : ChildDto → Bool} (h : children.findIdx? p = some i) :
    ∃ found, children[i]? = some found ∧ children.find? p = some found := by
  obtain ⟨hi, hmeets, hbefore⟩ := List.findIdx?_eq_some_iff_getElem.mp h
  refine ⟨children[i], List.getElem?_eq_getElem hi, ?_⟩
  rw [List.find?_eq_some_iff_getElem]
  exact ⟨hmeets, i, hi, rfl, fun j hj => by simpa using hbefore j hj⟩

theorem find_of_find_idx_none {p : ChildDto → Bool} (h : children.findIdx? p = none) :
    children.find? p = none := by
  rw [List.findIdx?_eq_none_iff] at h
  exact List.find?_eq_none.mpr fun c hc => by simp [h c hc]

/-- The slot of a child is the place of the one that is replaced. -/
theorem child_slot_replaced (children : List ChildDto) (child : ChildDto) : match childSlot children child with
    | some i => ∃ old, children[i]? = some old ∧ replaced children child = some old
    | none => replaced children child = none := by
  unfold childSlot replaced
  by_cases hid : child.jobId = ""
  · rw [if_pos hid, if_pos hid]
    cases hname : children.findIdx? fun c => c.name = child.name with
    | none => exact find_of_find_idx_none hname
    | some i => exact find_of_find_idx hname
  · rw [if_neg hid, if_neg hid]
    cases hjob : children.findIdx? fun c => c.jobId = child.jobId with
    | some i =>
      obtain ⟨found, hget, hfind⟩ := find_of_find_idx hjob
      exact ⟨found, hget, by rw [hfind]; rfl⟩
    | none =>
      rw [find_of_find_idx_none hjob, Option.none_or]
      cases hname : children.findIdx? fun c => c.jobId = "" ∧ c.name = child.name with
      | none => exact find_of_find_idx_none hname
      | some i => exact find_of_find_idx hname

/-- What is replaced goes on, unless it has an engine id and the call has none. -/
theorem continues_iff (h : replaced children child = some old) (bytes : Nat) :
    old.Continues { child with done := bytes } ↔ (child.jobId = "" → old.jobId = "") := by
  unfold replaced at h
  unfold ChildDto.Continues ChildDto.identity
  split at h
  · next hid =>
    have hname : old.name = child.name := by simpa using List.find?_some h
    by_cases hold : old.jobId = ""
    · simp [hid, hold, hname]
    · simp [hid, hold]
  · next hid =>
    refine iff_of_true ?_ fun hempty => absurd hempty hid
    rcases Option.or_eq_some_iff.mp h with hjob | ⟨-, hname⟩
    · have hsame : old.jobId = child.jobId := by simpa using List.find?_some hjob
      left
      simp [hsame, hid]
    · have hfound : old.jobId = "" ∧ old.name = child.name := by
        simpa using List.find?_some hname
      exact .inr ⟨hfound.1, hfound.2.symm⟩

/-- One call keeps the balance and all children if and only if it suits the card. -/
theorem upsert_balanced_iff (child : ChildDto) (h : Balanced card) (hfits : card.dto.total ≤ u64Max) :
    Balanced (card.childUpsert child) ∧ Kept card (card.childUpsert child) ↔ Suits card child := by
  have hslot := child_slot_replaced card.dto.children child
  cases hplace : childSlot card.dto.children child with
  | none =>
    rw [hplace] at hslot
    have hnext : card.childUpsert child = { card with dto := { card.dto with
        total := saturatingAdd card.dto.total child.total
        done := saturatingAdd card.dto.done child.done
        children := card.dto.children ++ [child] } } := by
      rw [childUpsert, hplace]
    have hkept : Kept card (card.childUpsert child) := by
      intro j old hold
      obtain ⟨hlt, -⟩ := List.getElem?_eq_some_iff.mp hold
      refine ⟨old, ?_, .inl rfl⟩
      rw [hnext]
      exact (List.getElem?_append_left hlt).trans hold
    rw [Suits, hslot, and_iff_left hkept, hnext]
    have htotals : ((card.dto.children ++ [child]).map ChildDto.total).sum =
        card.dto.total + child.total := by
      rw [List.map_append, List.sum_append, h.total]
      rfl
    have hdones : ((card.dto.children ++ [child]).map ChildDto.done).sum =
        card.dto.done + child.done := by
      rw [List.map_append, List.sum_append, h.done]
      rfl
    constructor
    · rintro ⟨htotal, hdone, hle⟩
      dsimp only at htotal hdone hle
      rw [htotals] at htotal
      rw [hdones] at hdone
      rw [htotal, hdone] at hle
      unfold saturatingAdd at htotal
      exact ⟨by omega, hle⟩
    · rintro ⟨hroom, hle⟩
      have htotal := saturating_add_eq hroom
      have hdone := saturating_add_eq (Nat.le_trans hle hroom)
      exact ⟨htotal.trans htotals.symm, hdone.trans hdones.symm,
        by rw [htotal, hdone]; exact hle⟩
  | some i =>
    rw [hplace] at hslot
    obtain ⟨old, hold, hreplaced⟩ := hslot
    have hnext : card.childUpsert child = { card with dto := { card.dto with
        children := card.dto.children.set i { child with done := max child.done old.done }
        done := saturatingAdd (card.dto.done - old.done) (max child.done old.done) } } := by
      simp only [childUpsert, hplace, hold, Option.map_some, Option.getD_some]
    have htotals := sum_map_set ChildDto.total hold { child with done := max child.done old.done }
    have hdones := sum_map_set ChildDto.done hold { child with done := max child.done old.done }
    rw [← h.total] at htotals
    rw [← h.done] at hdones
    dsimp only at htotals hdones
    have hkept : Kept card (card.childUpsert child) ↔ (child.jobId = "" → old.jobId = "") := by
      rw [hnext, ← continues_iff hreplaced (max child.done old.done)]
      constructor
      · intro hkept
        obtain ⟨new, hnew, hcontinues⟩ := hkept i old hold
        rw [get_set hold, if_pos rfl] at hnew
        obtain rfl := Option.some.inj hnew
        exact hcontinues
      · intro hcontinues j other hother
        by_cases hj : j = i
        · subst hj
          obtain rfl := Option.some.inj (hold.symm.trans hother)
          exact ⟨_, (get_set hold).trans (if_pos rfl), hcontinues⟩
        · exact ⟨other, (get_set hold).trans ((if_neg hj).trans hother), .inl rfl⟩
    rw [Suits, hreplaced, hkept, hnext]
    have hless : old.done ≤ card.dto.done := by
      rw [h.done]
      exact List.le_sum_of_mem (List.mem_map.mpr ⟨old, List.mem_of_getElem? hold, rfl⟩)
    constructor
    · rintro ⟨⟨htotal, hdone, hle⟩, hid⟩
      dsimp only at htotal hdone hle
      refine ⟨by omega, hid, by omega⟩
    · rintro ⟨htotal, hid, hroom⟩
      have hdone : saturatingAdd (card.dto.done - old.done) (max child.done old.done) =
          card.dto.done - old.done + max child.done old.done := saturating_add_eq (by omega)
      exact ⟨⟨by dsimp only; omega, by dsimp only; omega, by dsimp only; omega⟩, hid⟩

/-- The total of a card stays a `u64`. -/
theorem upsert_total_fits (child : ChildDto) (hfits : card.dto.total ≤ u64Max) :
    (card.childUpsert child).dto.total ≤ u64Max := by
  unfold childUpsert
  split
  · exact hfits
  · exact Nat.min_le_right _ _

theorem accounted_of_balanced (h : Balanced card) (hfits : card.dto.total ≤ u64Max) :
    Accounted card calls ↔ AllSuit card calls := by
  induction calls generalizing card with
  | nil => exact iff_of_true h trivial
  | cons child rest ih =>
    have hstep := upsert_balanced_iff child h hfits
    have hnext := upsert_total_fits child hfits
    constructor
    · rintro ⟨-, hkept, hrest⟩
      have hbalanced : Balanced (card.childUpsert child) := by
        cases rest with
        | nil => exact hrest
        | cons _ _ => exact hrest.1
      exact ⟨hstep.mp ⟨hbalanced, hkept⟩, (ih hbalanced hnext).mp hrest⟩
    · rintro ⟨hsuits, hrest⟩
      obtain ⟨hbalanced, hkept⟩ := hstep.mpr hsuits
      exact ⟨h, hkept, (ih hbalanced hnext).mpr hrest⟩

/-- A card that begins without children is balanced after all calls, and loses no child, if and only
if every call suits it. -/
theorem accounted_iff (hchildren : card.dto.children = []) (htotal : card.dto.total = 0)
    (hdone : card.dto.done = 0) (calls : List ChildDto) :
    Accounted card calls ↔ AllSuit card calls := by
  refine accounted_of_balanced ⟨?_, ?_, ?_⟩ ?_
  · rw [htotal, hchildren]
    rfl
  · rw [hdone, hchildren]
    rfl
  · rw [hdone]
    exact Nat.zero_le _
  · rw [htotal]
    exact Nat.zero_le _

/-- The calls for a file of a batch that starts, and fails. -/
def failedFileCalls : List ChildDto :=
  [{ jobId := "", name := "a", total := 10, done := 0, state := "active" },
    { jobId := "", name := "a", total := 0, done := 0, state := "failed" }]

theorem accounted_sample :
    Accounted (.new { sampleRow with total := 0 }) failedFileCalls ↔
      AllSuit (.new { sampleRow with total := 0 }) failedFileCalls :=
  accounted_iff rfl rfl rfl failedFileCalls

/-- The child of a file that fails has no total any more, and its card has it still. -/
theorem failed_file_unbalances :
    ¬ ∀ card calls, card.dto.children = [] → card.dto.total = 0 → card.dto.done = 0 →
      Accounted card calls := by
  intro hall
  obtain ⟨-, -, -, -, hbalanced⟩ :=
    hall (.new { sampleRow with total := 0 }) failedFileCalls rfl rfl rfl
  have htotal := hbalanced.total
  exact absurd htotal (by decide)

/-- The progress of a file, as `handle_batch_pull_event` tells it apart. -/
inductive BatchPullEvent where
  | started (total : Nat)
  | resumed (alreadyBytes : Nat)
  | chunkDone (bytes : Nat)
  | speed (bps : Nat)
  | instantHit (total : Nat)
  | done
  | failed (reason : String)
  | other

/-- `source_speed`. -/
def sourceSpeed (card : TransferCard) (bps remoteDone : Nat) (health : Option HealthDto)
    (nowMs : Int) : TransferCard :=
  (card.apply (.progress card.dto.done card.dto.total bps remoteDone health) nowMs).2

/-- `handle_batch_pull_event`: the card of the batch, and whether the file has failed. -/
def handleBatchPullEvent (card : TransferCard) (displayName : String) (fileFailed : Bool)
    (ev : BatchPullEvent) (nowMs : Int) : TransferCard × Bool :=
  match ev with
  | .started total =>
    ((card.cardApply .started nowMs).childUpsert
      { jobId := "", name := displayName, total, done := 0, state := "active" }, fileFailed)
  | .resumed alreadyBytes =>
    ((card.cardApply .started nowMs).childUpsert
      { jobId := "", name := displayName, total := 0, done := alreadyBytes, state := "active" },
      fileFailed)
  | .chunkDone bytes =>
    match card.dto.children.find? fun c => c.name = displayName ∧ c.jobId = "" with
    | none => (card, fileFailed)
    | some c =>
      (card.childUpsert
        { jobId := "", name := c.name, total := c.total, done := (c.done + bytes) % 2 ^ 64,
          state := "active" }, fileFailed)
  | .speed bps => (card.sourceSpeed bps 0 none nowMs, fileFailed)
  | .instantHit total =>
    (((card.cardApply .started nowMs).cardMutate fun dto => { dto with instant := true }).childUpsert
      { jobId := "", name := displayName, total, done := total, state := "done" }, fileFailed)
  | .done =>
    let total := ((card.dto.children.find? fun c =>
      c.name = displayName ∧ c.state = "active").map ChildDto.total).getD 0
    (card.childUpsert
      { jobId := "", name := displayName, total, done := total, state := "done" }, fileFailed)
  | .failed reason =>
    ((card.childUpsert
        { jobId := "", name := displayName, total := 0, done := 0, state := "failed" }).cardMutate
      fun dto => { dto with failReason := some reason }, true)
  | .other => (card, fileFailed)

end Desktop.TransferCard

end LocalTrans
