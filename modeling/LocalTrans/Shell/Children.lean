import LocalTrans.Shell.Cards

/-!
# Cards with children

A folder that is downloaded and a batch of files that is pushed have one card, with a child for each
file. The functions here are those of `AppState` that write to one card of the table, on the card
itself: `card_apply` and `source_chunk_add` go through `apply`, `card_mutate` and `child_upsert` past
it. `child_upsert` finds the child of a file by its engine id or its name, and adds to the bytes of
the card. `child_upsert_new` and `child_upsert_known` say what it does to a file without an engine
id.
-/

namespace LocalTrans.Desktop

/-- The largest `u64`. -/
def u64Max : Nat := 2 ^ 64 - 1

/-- `u64::saturating_add`. -/
def saturatingAdd (a b : Nat) : Nat := min (a + b) u64Max

theorem saturating_add_eq {a b : Nat} (h : a + b ≤ u64Max) : saturatingAdd a b = a + b :=
  Nat.min_eq_left h

/-- `matches!(state, "done" | "failed" | "interrupted")`. -/
def IsTerminal (state : String) : Prop :=
  state = "done" ∨ state = "failed" ∨ state = "interrupted"
deriving Decidable

namespace TransferCard

/-- `card_apply` on a card that nobody cancels: the history takes the record of what was taken. -/
def cardApply (card : TransferCard) (ev : CardEvent) (nowMs : Int) : TransferCard :=
  if (card.apply ev nowMs).1 then (card.apply ev nowMs).2.takeLastTransition.2 else card

/-- `card_mutate`: the row is rewritten, and no transition is left for the history. -/
def cardMutate (card : TransferCard) (rewrite : TransferDto → TransferDto) : TransferCard :=
  { card with dto := rewrite card.dto, lastTransition := none }

/-- `source_chunk_add`. -/
def sourceChunkAdd (card : TransferCard) (bytes : Nat) (nowMs : Int) : TransferCard :=
  (card.apply (.progress ((card.dto.done + bytes) % 2 ^ 64) card.dto.total card.dto.speedBps
    card.dto.remoteDone none) nowMs).2

/-- Which child `child_upsert` writes over: the one with the engine id, else the one with the name
and no engine id. A child without an engine id goes to the first child with its name. -/
def childSlot (children : List ChildDto) (child : ChildDto) : Option Nat :=
  if child.jobId = "" then children.findIdx? fun c => c.name = child.name
  else
    match children.findIdx? fun c => c.jobId = child.jobId with
    | some i => some i
    | none => children.findIdx? fun c => c.jobId = "" ∧ c.name = child.name

/-- `child_upsert`. -/
def childUpsert (card : TransferCard) (child : ChildDto) : TransferCard :=
  match childSlot card.dto.children child with
  | some i =>
    let oldDone := ((card.dto.children[i]?).map ChildDto.done).getD 0
    let newDone := max child.done oldDone
    { card with dto := { card.dto with
        children := card.dto.children.set i { child with done := newDone }
        done := saturatingAdd (card.dto.done - oldDone) newDone } }
  | none =>
    { card with dto := { card.dto with
        total := saturatingAdd card.dto.total child.total
        done := saturatingAdd card.dto.done child.done
        children := card.dto.children ++ [child] } }

/-- `recheck_parent_terminal`: once all children are done or failed, so is the card. -/
def recheckParentTerminal (card : TransferCard) (nowMs : Int) : TransferCard :=
  let children := card.dto.children
  if children = [] ∨ ¬ children.all fun c => c.state == "done" || c.state == "failed" then card
  else if card.dto.state = "done" ∨ card.dto.state = "failed" ∨ card.dto.state = "interrupted" then
    card
  else
    let failedCount := (children.filter fun c => c.state == "failed").length
    if 0 < failedCount then
      card.cardApply (.failed (some (toString failedCount ++ " 项失败"))) nowMs
    else if card.dto.state = "pending" then
      (card.cardApply .started nowMs).cardApply .finished nowMs
    else card.cardApply .finished nowMs

section Applying

variable {card : TransferCard} {ev : CardEvent} {nowMs : Int}

theorem state_from_str_iff {text : String} {state : CardState} :
    stateFromStr text = some state ↔ text = asStr state := by
  constructor
  · intro h
    unfold stateFromStr at h
    split at h
    all_goals first | (obtain rfl := Option.some.inj h; rfl) | cases h
  · rintro rfl
    cases state with
    | _ => rfl

/-- `apply` refuses an event and leaves the card as it is, or goes along an edge of the table. -/
theorem apply_cases (card : TransferCard) (ev : CardEvent) (nowMs : Int) :
    card.apply ev nowMs = (false, card) ∨
      ∃ state found next, card.dto.state = asStr state ∧
        card.edge nowMs state ev = some (found, next) ∧
          card.apply ev nowMs =
            (true, match next with | none => found | some next => found.enter state next) := by
  unfold apply
  cases hstate : stateFromStr card.dto.state with
  | none => exact .inl rfl
  | some state =>
    dsimp only
    split
    · exact .inl rfl
    · cases hedge : card.edge nowMs state ev with
      | none => exact .inl rfl
      | some result =>
        obtain ⟨found, next⟩ := result
        refine .inr ⟨state, found, next, state_from_str_iff.mp hstate, hedge, ?_⟩
        cases next with
        | none => rfl
        | some next => rfl

/-- `apply` on a card whose state is known and not final. -/
theorem apply_eq {state : CardState} (h : card.dto.state = asStr state)
    (hopen : ¬ (state = .done ∨ state = .failed ∨ state = .interrupted)) :
    card.apply ev nowMs =
      match card.edge nowMs state ev with
      | none => (false, card)
      | some (card, none) => (true, card)
      | some (card, some next) => (true, card.enter state next) := by
  unfold apply
  rw [state_from_str_iff.mpr h]
  refine (if_neg hopen).trans ?_
  rcases card.edge nowMs state ev with _ | ⟨found, _ | next⟩
  · rfl
  · rfl
  · rfl

/-- A report of progress is copied onto an active card and refused by any other. -/
theorem apply_progress {done total speedBps remoteDone : Nat} :
    (card.apply (.progress done total speedBps remoteDone none) nowMs).2 =
      if card.dto.state = "active" then
        { card with dto := { card.dto with
          done := done, total := total, speedBps := speedBps, remoteDone := remoteDone } }
      else card := by
  by_cases hactive : card.dto.state = "active"
  · have hstate : card.dto.state = asStr .active := hactive
    rw [if_pos hactive, apply_eq hstate (by decide)]
    rfl
  · rw [if_neg hactive]
    rcases apply_cases card (.progress done total speedBps remoteDone none) nowMs with
      h | ⟨state, found, next, hstate, hedge, -⟩
    · rw [h]
    · cases state with
      | active => exact absurd hstate hactive
      | _ => cases hedge

/-- Two cards with the same bytes and the same children. -/
structure SameBytes (before after : TransferCard) : Prop where
  total : after.dto.total = before.dto.total
  done : after.dto.done = before.dto.done
  children : after.dto.children = before.dto.children

theorem SameBytes.refl (card : TransferCard) : SameBytes card card := ⟨rfl, rfl, rfl⟩

/-- A start writes no bytes. -/
theorem card_apply_started_bytes (card : TransferCard) (nowMs : Int) :
    SameBytes card (card.cardApply .started nowMs) := by
  unfold cardApply
  rcases apply_cases card .started nowMs with h | ⟨state, found, next, -, hedge, h⟩
  · rw [h]
    exact .refl card
  · cases state with
    | pending =>
      obtain ⟨rfl, rfl⟩ := Prod.mk.inj (Option.some.inj hedge)
      rw [h]
      exact ⟨rfl, rfl, rfl⟩
    | _ => cases hedge

/-- A failure writes no bytes. -/
theorem card_apply_failed_bytes (card : TransferCard) (reason : Option String) (nowMs : Int) :
    SameBytes card (card.cardApply (.failed reason) nowMs) := by
  unfold cardApply
  rcases apply_cases card (.failed reason) nowMs with h | ⟨state, found, next, -, hedge, h⟩
  · rw [h]
    exact .refl card
  · cases state with
    | pending | active | paused | cancelling =>
      obtain ⟨rfl, rfl⟩ := Prod.mk.inj (Option.some.inj hedge)
      rw [h]
      exact ⟨rfl, rfl, rfl⟩
    | _ => cases hedge

/-- A finished card is full, where it takes the event. -/
theorem card_apply_finished_bytes (card : TransferCard) (nowMs : Int) :
    (card.cardApply .finished nowMs).dto.total = card.dto.total ∧
      (card.cardApply .finished nowMs).dto.children = card.dto.children ∧
        ((card.cardApply .finished nowMs).dto.done = card.dto.done ∨
          (card.cardApply .finished nowMs).dto.done = card.dto.total) := by
  unfold cardApply
  rcases apply_cases card .finished nowMs with h | ⟨state, found, next, -, hedge, h⟩
  · rw [h]
    exact ⟨rfl, rfl, .inl rfl⟩
  · cases state with
    | active | paused | cancelling =>
      obtain ⟨rfl, rfl⟩ := Prod.mk.inj (Option.some.inj hedge)
      rw [h]
      exact ⟨rfl, rfl, .inr rfl⟩
    | _ => cases hedge

/-- A chunk adds its bytes to an active card. -/
theorem source_chunk_add_bytes (card : TransferCard) (bytes : Nat) (nowMs : Int)
    (hfits : card.dto.done + bytes < 2 ^ 64) :
    (card.sourceChunkAdd bytes nowMs).dto.total = card.dto.total ∧
      (card.sourceChunkAdd bytes nowMs).dto.children = card.dto.children ∧
        (card.sourceChunkAdd bytes nowMs).dto.done =
          if card.dto.state = "active" then card.dto.done + bytes else card.dto.done := by
  unfold sourceChunkAdd
  rw [apply_progress, Nat.mod_eq_of_lt hfits]
  split
  · exact ⟨rfl, rfl, rfl⟩
  · exact ⟨rfl, rfl, rfl⟩

/-- A chunk without bytes adds nothing. -/
theorem source_chunk_add_zero (card : TransferCard) (nowMs : Int)
    (hfits : card.dto.done < 2 ^ 64) :
    SameBytes card (card.sourceChunkAdd 0 nowMs) := by
  obtain ⟨htotal, hchildren, hdone⟩ := source_chunk_add_bytes card 0 nowMs hfits
  refine ⟨htotal, ?_, hchildren⟩
  rw [hdone]
  split
  · rfl
  · rfl

end Applying

section Upserting

variable {card : TransferCard} {child : ChildDto} {children : List ChildDto} {i : Nat}

/-- Where a child without an engine id goes: to the first child with its name. -/
theorem child_slot_by_name (hid : child.jobId = "") :
    childSlot children child = children.findIdx? fun c => c.name = child.name := by
  rw [childSlot, if_pos hid]

/-- A child without an engine id and with a new name is added, with its bytes. -/
theorem child_upsert_new (hid : child.jobId = "")
    (hnew : child.name ∉ card.dto.children.map ChildDto.name) :
    card.childUpsert child = { card with dto := { card.dto with
      total := saturatingAdd card.dto.total child.total
      done := saturatingAdd card.dto.done child.done
      children := card.dto.children ++ [child] } } := by
  have hnone : childSlot card.dto.children child = none := by
    rw [child_slot_by_name hid, List.findIdx?_eq_none_iff]
    intro c hc
    have hne : c.name ≠ child.name := fun h => hnew (List.mem_map.mpr ⟨c, hc, h⟩)
    simp [hne]
  rw [childUpsert, hnone]

/-- A child without an engine id takes the place of the child with its name. The total stays, and the
bytes of the card follow those of the child. -/
theorem child_upsert_known (hid : child.jobId = "")
    (hknown : child.name ∈ card.dto.children.map ChildDto.name) :
    ∃ old ∈ card.dto.children, old.name = child.name ∧
      (card.childUpsert child).dto.total = card.dto.total ∧
      (card.childUpsert child).dto.done =
        saturatingAdd (card.dto.done - old.done) (max child.done old.done) ∧
      (card.childUpsert child).dto.children.map ChildDto.name =
        card.dto.children.map ChildDto.name := by
  obtain ⟨found, hfound, hname⟩ := List.mem_map.mp hknown
  cases hslot : childSlot card.dto.children child with
  | none =>
    rw [child_slot_by_name hid, List.findIdx?_eq_none_iff] at hslot
    have := hslot found hfound
    simp [hname] at this
  | some i =>
    have hindex := hslot
    rw [child_slot_by_name hid, List.findIdx?_eq_some_iff_getElem] at hindex
    obtain ⟨hi, hmatch, -⟩ := hindex
    have hold : card.dto.children[i].name = child.name := by simpa using hmatch
    refine ⟨card.dto.children[i], List.getElem_mem hi, hold, ?_, ?_, ?_⟩
    · rw [childUpsert, hslot]
    · simp only [childUpsert, hslot, List.getElem?_eq_getElem hi, Option.map_some,
        Option.getD_some]
    · simp only [childUpsert, hslot]
      rw [List.map_set, ← hold]
      apply List.ext_getElem (by simp)
      intro j hj hj'
      rw [List.getElem_set]
      split
      · next heq =>
        subst heq
        simp
      · rfl

/-- The names of the children after `child_upsert` without an engine id. -/
theorem child_upsert_names (card : TransferCard) (hid : child.jobId = "") :
    (card.childUpsert child).dto.children.map ChildDto.name =
      if child.name ∈ card.dto.children.map ChildDto.name then
        card.dto.children.map ChildDto.name
      else card.dto.children.map ChildDto.name ++ [child.name] := by
  split
  · next hknown =>
    obtain ⟨_, _, _, _, _, hnames⟩ := child_upsert_known hid hknown
    exact hnames
  · next hnew =>
    rw [child_upsert_new hid hnew, List.map_append]
    rfl

/-- A child without bytes of its own changes no bytes, where it takes the place of none with more
than the card has. -/
theorem child_upsert_empty (hid : child.jobId = "") (htotal : child.total = 0)
    (hdone : child.done = 0) (hcard : card.dto.done ≤ card.dto.total)
    (hfits : card.dto.total ≤ u64Max)
    (hold : ∀ c ∈ card.dto.children, c.name = child.name → c.done ≤ card.dto.done) :
    (card.childUpsert child).dto.total = card.dto.total ∧
      (card.childUpsert child).dto.done = card.dto.done := by
  by_cases hknown : child.name ∈ card.dto.children.map ChildDto.name
  · obtain ⟨old, hmem, hname, hsame, hbytes, -⟩ := child_upsert_known hid hknown
    have hle := hold old hmem hname
    refine ⟨hsame, ?_⟩
    rw [hbytes, hdone, Nat.zero_max, saturating_add_eq (by omega)]
    omega
  · rw [child_upsert_new hid hknown]
    show saturatingAdd card.dto.total child.total = card.dto.total ∧
      saturatingAdd card.dto.done child.done = card.dto.done
    rw [htotal, hdone, saturating_add_eq (by omega), saturating_add_eq (by omega)]
    exact ⟨rfl, rfl⟩

end Upserting

end TransferCard

end LocalTrans.Desktop
