import LocalTrans.Shell.Identity
import LocalTrans.Shell.Restart
import Mathlib.Logic.Function.Basic

/-!
# The ids of cards

`card_create` takes the next id from a counter that starts at `CARD_ID_BASE`. The counter is raised
above the rows that are loaded at the start, unless these are in the half that peers use for the ids
of their tasks, and above a row that `restore_disk_job` makes, in whichever half that is.
`card_ids_apart` says when the ids of cards stay in their range and apart from all other ids.
-/

namespace LocalTrans

open Foundation

/-- The ids that peers give to the tasks they send for start here. -/
def peerIdBase : Nat := 2 ^ 63

/-- The table of cards, the map from the ids of tasks, and the counter. -/
structure CardDesk where
  transfers : Nat → Option TableCard
  engineToCard : Nat → Option Nat
  nextCardId : Nat

/-- What happens: the program starts and loads its table, a card is created, the id of a task is
bound to a card, with or without the card being told, a row is made of a parts directory, a card is
hidden or removed. -/
inductive CardIdInput where
  | start (now : Int) (orphans : List OrphanJob) (file : TransfersFile)
  | create (dto : TransferDto)
  | bind (engine card : Nat)
  | bindPassive (engine card : Nat)
  | restore (id : Nat) (orphans : List OrphanJob)
  | markRemoved (card : Nat)
  | remove (card : Nat)

/-- What is seen of a run: the program starts, a row gets the id of a task when it is made of a
parts directory or of a saved row, the id of a task is bound, and `card_create` hands out an id. -/
inductive CardIdEvent where
  | started
  | rebuilt (engine : Nat)
  | bound (engine : Nat)
  | created (card : Nat)
deriving DecidableEq

namespace CardDesk

/-- How a loaded row raises the counter. -/
def raise (next id : Nat) : Nat := if id < peerIdBase then max next (id + 1) else next

/-- The rows by their ids: of two rows with the same id the later one stays. -/
def table (cards : List TableCard) (id : Nat) : Option TableCard :=
  cards.reverse.find? fun card => card.dto.jobId = id

/-- The program starts. -/
def load (now : Int) (orphans : List OrphanJob) (file : TransfersFile) : CardDesk :=
  let cards := rebuildCards now orphans file
  { transfers := table cards
    engineToCard := fun _ => none
    nextCardId := (cards.map fun card => card.dto.jobId).foldl raise cardIdBase }

/-- A row is written. -/
def put (s : CardDesk) (id : Nat) (card : Option TableCard) : CardDesk :=
  { s with transfers := Function.update s.transfers id card }

/-- `card_create`: the id it hands out, and the desk afterwards. -/
def cardCreate (s : CardDesk) (dto : TransferDto) : Nat × CardDesk :=
  (s.nextCardId,
    { s.put s.nextCardId (some {
        dto := { dto with jobId := s.nextCardId }, engineId := none, removed := false }) with
      nextCardId := (s.nextCardId + 1) % 2 ^ 64 })

/-- `bind_engine_id_passive`. -/
def bindEngineIdPassive (s : CardDesk) (engine card : Nat) : CardDesk :=
  { s with engineToCard := Function.update s.engineToCard engine (some card) }

/-- `bind_engine_id`. -/
def bindEngineId (s : CardDesk) (engine card : Nat) : CardDesk :=
  match s.transfers card with
  | none => s.bindEngineIdPassive engine card
  | some found =>
    (s.bindEngineIdPassive engine card).put card (some { found with
      engineId := some engine
      dto := { found.dto with partsId := some engine } })

/-- The row of a card shows it again, or hides it. -/
def setRemoved (s : CardDesk) (card : Nat) (removed : Bool) : CardDesk :=
  match s.transfers card with
  | none => s
  | some found => s.put card (some { found with removed })

/-- `restore_disk_job`, with what is found on disk: the row is made unless there is one by its id,
and the counter is raised above it, whatever it is. -/
def restoreDiskJob (s : CardDesk) (id : Nat) (orphans : List OrphanJob) :
    Option (CardDesk × List CardIdEvent) :=
  match s.engineToCard id with
  | some card => some (s.setRemoved card false, [])
  | none =>
    match orphans.find? fun job => job.jobId = id with
    | none => none
    | some job =>
      some ({ s.put id (some ((s.transfers id).getD (orphanTableCard job))) with
        nextCardId := max s.nextCardId ((id + 1) % 2 ^ 64) }, [.rebuilt id])

/-- One step. An id is a 64-bit number. -/
def step : Machine CardDesk CardIdInput CardIdEvent
  | _, .start now orphans file =>
    some (load now orphans file, .started ::
      ((rebuildCards now orphans file).filterMap TableCard.engineId).map CardIdEvent.rebuilt)
  | s, .create dto => some ((s.cardCreate dto).2, [.created (s.cardCreate dto).1])
  | s, .bind engine card => some (s.bindEngineId engine card, [.bound engine])
  | s, .bindPassive engine card => some (s.bindEngineIdPassive engine card, [.bound engine])
  | s, .restore id orphans => if id < 2 ^ 64 then s.restoreDiskJob id orphans else none
  | s, .markRemoved card => some (s.setRemoved card true, [])
  | s, .remove card => some (s.put card none, [])

/-- The program before its first start. -/
def off : CardDesk where
  transfers _ := none
  engineToCard _ := none
  nextCardId := cardIdBase

/-- `resolve_engine_id`: the id of the task behind a card, or the id itself. -/
def resolveEngineId (s : CardDesk) (id : Nat) : Nat :=
  ((s.transfers id).bind TableCard.engineId).getD id

/-- What happened since the program was started last. -/
def sinceStart (trace : List CardIdEvent) : List CardIdEvent :=
  trace.foldl (fun seen event => if event = .started then [] else seen ++ [event]) []

/-- The id is one of a card, and no card and no task has it: it is in the range of the cards, no row
is listed under it or has a task of that id, and it is not the id of a task that was ever bound, or
that a row was made with since the program runs. -/
structure Fresh (trace : List CardIdEvent) (s : CardDesk) (id : Nat) : Prop where
  space : cardIdBase ≤ id ∧ id < peerIdBase
  table : s.transfers id = none
  rows : ∀ other card, s.transfers other = some card → card.engineId ≠ some id
  bound : .bound id ∉ trace
  rebuilt : .rebuilt id ∉ sinceStart trace

/-- No id is both one that was handed out to a card and one of a task that was bound. -/
def Apart (trace : List CardIdEvent) : Prop := ∀ id, .created id ∈ trace → .bound id ∉ trace

/-- What a run keeps to. No row is made of a directory whose name is in the half of the peers, the
ids of tasks that are bound are not in the range of the cards, and the counter has not run out. -/
def OwnSpace : Guard CardDesk CardIdInput CardIdEvent
  | _, s, .restore id orphans =>
    s.engineToCard id = none → (∃ job ∈ orphans, job.jobId = id) →
      (id + 1) % 2 ^ 64 ≤ peerIdBase
  | _, _, .bind engine _ => engine < cardIdBase ∨ peerIdBase ≤ engine
  | _, _, .bindPassive engine _ => engine < cardIdBase ∨ peerIdBase ≤ engine
  | _, s, .create _ => s.nextCardId ≠ peerIdBase
  | _, _, _ => True

variable {s next : CardDesk} {trace : List CardIdEvent} {id : Nat} {card : TableCard}

/-- The id is below the counter, or one of a peer. -/
def Below (s : CardDesk) (id : Nat) : Prop := id < s.nextCardId ∨ peerIdBase ≤ id

/-- What the desk keeps. -/
structure CardIdInv (trace : List CardIdEvent) (s : CardDesk) : Prop where
  space : cardIdBase ≤ s.nextCardId ∧ s.nextCardId ≤ peerIdBase
  rows : ∀ id card, s.transfers id = some card → s.Below id ∧
    ∀ engine, card.engineId = some engine → s.Below engine
  bound : ∀ id, .bound id ∈ trace → id < cardIdBase ∨ peerIdBase ≤ id
  created : ∀ id, .created id ∈ trace → cardIdBase ≤ id ∧ id < peerIdBase
  rebuilt : ∀ id, .rebuilt id ∈ sinceStart trace → s.Below id

section Loading

variable {now : Int} {cards : List TableCard} {orphans : List OrphanJob} {file : TransfersFile}

/-- A row that has the id of a task has it from its own. -/
def Keyed (cards : List TableCard) : Prop :=
  ∀ card ∈ cards, ∀ engine, card.engineId = some engine → engine = card.dto.jobId

theorem merge_entry_keyed (h : Keyed cards) (entry : TransferCardSerde) :
    Keyed (mergeEntry now cards entry) := by
  unfold mergeEntry
  split
  · exact h
  · intro card hmem engine hengine
    rcases mem_place_entry hmem with hold | ⟨before, hold, -, rfl⟩ | ⟨-, rfl⟩
    · exact h card hold engine hengine
    · exact h before hold engine hengine
    · unfold freshCard at hengine
      dsimp only at hengine
      split at hengine
      · exact (Option.some.inj hengine).symm
      · cases hengine

theorem rebuild_keyed : Keyed (rebuildCards now orphans file) := by
  unfold rebuildCards
  have hstart : Keyed (orphans.map orphanTableCard) := by
    intro card hmem engine hengine
    obtain ⟨job, -, rfl⟩ := List.mem_map.mp hmem
    exact (Option.some.inj hengine).symm
  generalize orphans.map orphanTableCard = cards at hstart
  induction loadCardsFile file generalizing cards with
  | nil => exact hstart
  | cons entry rest ih => exact ih _ (merge_entry_keyed hstart entry)

/-- The counter after the rows were loaded: it did not fall, it is above every row that counts, and
where every row leaves room it does not reach the ids of peers. -/
theorem foldl_raise (ids : List Nat) (start : Nat) :
    start ≤ ids.foldl raise start ∧
      (∀ id ∈ ids, id < ids.foldl raise start ∨ peerIdBase ≤ id) ∧
      (start ≤ peerIdBase → ids.foldl raise start ≤ peerIdBase) := by
  induction ids generalizing start with
  | nil =>
    refine ⟨Nat.le_refl _, fun id hmem => ?_, fun h => h⟩
    cases hmem
  | cons first rest ih =>
    obtain ⟨hle, hrows, hbound⟩ := ih (raise start first)
    have hstart : start ≤ raise start first := by
      unfold raise
      split
      · exact Nat.le_max_left _ _
      · exact Nat.le_refl _
    refine ⟨Nat.le_trans hstart hle, fun id hmem => ?_, fun h => hbound ?_⟩
    · rcases List.mem_cons.mp hmem with rfl | hrest
      · by_cases hsmall : id < peerIdBase
        · left
          have hraised : id + 1 ≤ raise start id := by
            unfold raise
            rw [if_pos hsmall]
            exact Nat.le_max_right _ _
          exact Nat.lt_of_lt_of_le hraised hle
        · exact .inr (Nat.le_of_not_lt hsmall)
      · exact hrows id hrest
    · unfold raise
      split
      · next hsmall => exact Nat.max_le.mpr ⟨h, hsmall⟩
      · exact h

end Loading

/-- What happened since the start, one event later. -/
theorem since_start_append (event : CardIdEvent) :
    sinceStart (trace ++ [event]) =
      if event = .started then [] else sinceStart trace ++ [event] := by
  unfold sinceStart
  rw [List.foldl_append]
  rfl

/-- The rows that a start makes are what happened since. -/
theorem since_start_started (ids : List Nat) :
    sinceStart (trace ++ .started :: ids.map CardIdEvent.rebuilt) =
      ids.map CardIdEvent.rebuilt := by
  have hrest : ∀ seen : List CardIdEvent, (ids.map CardIdEvent.rebuilt).foldl
      (fun seen event => if event = .started then [] else seen ++ [event]) seen =
        seen ++ ids.map CardIdEvent.rebuilt := by
    intro seen
    induction ids generalizing seen with
    | nil => exact (List.append_nil seen).symm
    | cons first rest ih =>
      rw [List.map_cons, List.foldl_cons, if_neg CardIdEvent.noConfusion, ih, List.append_assoc]
      rfl
  unfold sinceStart
  rw [List.foldl_append, List.foldl_cons, if_pos rfl, hrest]
  rfl

theorem Below.mono (h : s.Below id) (hle : s.nextCardId ≤ next.nextCardId) : next.Below id :=
  h.imp_left fun hlt => Nat.lt_of_lt_of_le hlt hle

theorem below_of_apart (hspace : cardIdBase ≤ s.nextCardId)
    (h : id < cardIdBase ∨ peerIdBase ≤ id) : s.Below id :=
  h.imp_left fun hlt => Nat.lt_of_lt_of_le hlt hspace

namespace CardIdInv

/-- A row of the table that was changed: the counter stays or rises, and the new row has ids below
it. -/
theorem put_row (h : CardIdInv trace s) {changed : Option TableCard}
    (htable : next.transfers = Function.update s.transfers id changed)
    (hle : s.nextCardId ≤ next.nextCardId) (hbound : next.nextCardId ≤ peerIdBase)
    (hrow : ∀ card, changed = some card → next.Below id ∧
      ∀ engine, card.engineId = some engine → next.Below engine) : CardIdInv trace next where
  __ := h
  space := ⟨Nat.le_trans h.space.1 hle, hbound⟩
  rows other card hcard := by
    rw [htable, Function.update_apply] at hcard
    split at hcard
    · next heq =>
      rw [heq]
      exact hrow card hcard
    · obtain ⟨hid, hengine⟩ := h.rows other card hcard
      exact ⟨hid.mono hle, fun engine heq => (hengine engine heq).mono hle⟩
  rebuilt id hmem := (h.rebuilt id hmem).mono hle

/-- An event that is seen: an id that is bound is not in the range of the cards, an id that is
handed out is, and the id of a row that was made is below the counter. -/
theorem see (h : CardIdInv trace s) (event : CardIdEvent) (hstart : event ≠ .started)
    (hbound : ∀ id, event = .bound id → id < cardIdBase ∨ peerIdBase ≤ id)
    (hcreated : ∀ id, event = .created id → cardIdBase ≤ id ∧ id < peerIdBase)
    (hrebuilt : ∀ id, event = .rebuilt id → s.Below id) : CardIdInv (trace ++ [event]) s where
  __ := h
  bound id hmem := by
    rcases List.mem_append.mp hmem with hold | hnew
    · exact h.bound id hold
    · exact hbound id (List.mem_singleton.mp hnew).symm
  created id hmem := by
    rcases List.mem_append.mp hmem with hold | hnew
    · exact h.created id hold
    · exact hcreated id (List.mem_singleton.mp hnew).symm
  rebuilt id hmem := by
    rw [since_start_append, if_neg hstart] at hmem
    rcases List.mem_append.mp hmem with hold | hnew
    · exact h.rebuilt id hold
    · exact hrebuilt id (List.mem_singleton.mp hnew).symm

/-- A row is shown or hidden. -/
theorem set_removed (h : CardIdInv trace s) (id : Nat) (removed : Bool) :
    CardIdInv trace (s.setRemoved id removed) := by
  unfold setRemoved
  cases hcard : s.transfers id with
  | none => exact h
  | some found =>
    refine h.put_row rfl (Nat.le_refl _) h.space.2 fun card heq => ?_
    obtain rfl := Option.some.inj heq
    exact h.rows id found hcard

/-- The id of a task is bound to a card. -/
theorem bind (h : CardIdInv trace s) {engine card : Nat}
    (hspace : engine < cardIdBase ∨ peerIdBase ≤ engine) :
    CardIdInv (trace ++ [.bound engine]) (s.bindEngineIdPassive engine card) ∧
      CardIdInv (trace ++ [.bound engine]) (s.bindEngineId engine card) := by
  have hseen := h.see (.bound engine) CardIdEvent.noConfusion
    (fun id heq => CardIdEvent.bound.inj heq ▸ hspace) (fun id heq => by cases heq)
    (fun id heq => by cases heq)
  have hpassive : CardIdInv (trace ++ [.bound engine]) (s.bindEngineIdPassive engine card) :=
    { hseen with }
  refine ⟨hpassive, ?_⟩
  unfold bindEngineId
  cases hcard : s.transfers card with
  | none => exact hpassive
  | some found =>
    refine hpassive.put_row rfl (Nat.le_refl _) h.space.2 fun changed heq => ?_
    obtain rfl := Option.some.inj heq
    refine ⟨(h.rows card found hcard).1, fun id hid => ?_⟩
    obtain rfl := Option.some.inj hid
    exact below_of_apart h.space.1 hspace

/-- `card_create` keeps the desk while the counter has not run out. -/
theorem create (h : CardIdInv trace s) (dto : TransferDto) (hroom : s.nextCardId ≠ peerIdBase) :
    CardIdInv (trace ++ [.created (s.cardCreate dto).1]) (s.cardCreate dto).2 := by
  have hlt : s.nextCardId < peerIdBase := Nat.lt_of_le_of_ne h.space.2 hroom
  have hnext : (s.cardCreate dto).2.nextCardId = s.nextCardId + 1 :=
    Nat.mod_eq_of_lt (Nat.lt_of_le_of_lt hlt (by decide))
  have hput : CardIdInv trace (s.cardCreate dto).2 := by
    refine h.put_row rfl ?_ ?_ fun card heq => ?_
    · rw [hnext]
      exact Nat.le_succ _
    · rw [hnext]
      exact hlt
    · obtain rfl := Option.some.inj heq
      refine ⟨.inl ?_, fun engine hengine => by cases hengine⟩
      rw [hnext]
      exact Nat.lt_succ_self _
  refine hput.see _ CardIdEvent.noConfusion (fun id heq => by cases heq) (fun id heq => ?_)
    (fun id heq => by cases heq)
  obtain rfl := CardIdEvent.created.inj heq
  exact ⟨h.space.1, hlt⟩

/-- `restore_disk_job` keeps the desk where the directory is not named in the half of the peers. -/
theorem restore (h : CardIdInv trace s) {orphans : List OrphanJob} {emitted : List CardIdEvent}
    (hspace : OwnSpace trace s (.restore id orphans))
    (hnext : s.restoreDiskJob id orphans = some (next, emitted)) :
    CardIdInv (trace ++ emitted) next := by
  unfold restoreDiskJob at hnext
  cases hcard : s.engineToCard id with
  | some card =>
    rw [hcard] at hnext
    exact silent_answer hnext (h.set_removed card false)
  | none =>
    rw [hcard] at hnext
    cases hjob : orphans.find? (fun job => job.jobId = id) with
    | none =>
      rw [hjob] at hnext
      cases hnext
    | some job =>
      rw [hjob] at hnext
      obtain ⟨rfl, rfl⟩ := answer_inj hnext
      have hname : job.jobId = id := by simpa using List.find?_some hjob
      have hraised := hspace hcard ⟨job, List.mem_of_find?_eq_some hjob, hname⟩
      -- an id below the ids of peers is below the raised counter
      have hbelow : id < max s.nextCardId ((id + 1) % 2 ^ 64) ∨ peerIdBase ≤ id := by
        by_cases hsmall : id < peerIdBase
        · left
          rw [Nat.mod_eq_of_lt (Nat.lt_of_le_of_lt hsmall (by decide))]
          exact Nat.lt_of_lt_of_le (Nat.lt_succ_self id) (Nat.le_max_right _ _)
        · exact .inr (Nat.le_of_not_lt hsmall)
      have hput : CardIdInv trace { s.put id (some ((s.transfers id).getD
          (orphanTableCard job))) with
            nextCardId := max s.nextCardId ((id + 1) % 2 ^ 64) } := by
        refine h.put_row rfl (Nat.le_max_left _ _) (Nat.max_le.mpr ⟨h.space.2, hraised⟩)
          fun card heq => ⟨hbelow, fun engine hengine => ?_⟩
        obtain rfl := Option.some.inj heq
        cases hrow : s.transfers id with
        | some found =>
          rw [hrow] at hengine
          exact ((h.rows id found hrow).2 engine hengine).mono (Nat.le_max_left _ _)
        | none =>
          rw [hrow] at hengine
          obtain rfl := Option.some.inj hengine
          rw [hname]
          exact hbelow
      exact hput.see _ CardIdEvent.noConfusion (fun id heq => by cases heq)
        (fun id heq => by cases heq) (fun id heq => CardIdEvent.rebuilt.inj heq ▸ hbelow)

/-- A start keeps what is known of the ids that were handed out and bound before. -/
theorem start (h : CardIdInv trace s) (now : Int) (orphans : List OrphanJob)
    (file : TransfersFile) : CardIdInv (trace ++ .started ::
      ((rebuildCards now orphans file).filterMap TableCard.engineId).map CardIdEvent.rebuilt)
        (load now orphans file) := by
  obtain ⟨hle, hrows, hbound⟩ :=
    foldl_raise ((rebuildCards now orphans file).map fun card => card.dto.jobId) cardIdBase
  have hbelow : ∀ card ∈ rebuildCards now orphans file,
      (load now orphans file).Below card.dto.jobId :=
    fun card hmem => hrows _ (List.mem_map.mpr ⟨card, hmem, rfl⟩)
  have hold : ∀ event, event ∈ trace ++ .started ::
      ((rebuildCards now orphans file).filterMap TableCard.engineId).map CardIdEvent.rebuilt →
      event ∈ trace ∨ event = .started ∨ ∃ id, event = .rebuilt id := by
    intro event hmem
    rcases List.mem_append.mp hmem with hmem | hmem
    · exact .inl hmem
    · rcases List.mem_cons.mp hmem with heq | hmem
      · exact .inr (.inl heq)
      · obtain ⟨id, -, heq⟩ := List.mem_map.mp hmem
        exact .inr (.inr ⟨id, heq.symm⟩)
  refine ⟨⟨hle, hbound (by decide)⟩, ?_, ?_, ?_, ?_⟩
  · intro id card hcard
    have hmem := List.mem_reverse.mp (List.mem_of_find?_eq_some hcard)
    have hname : card.dto.jobId = id := by
      have hfound : (rebuildCards now orphans file).reverse.find?
          (fun card => card.dto.jobId = id) = some card := hcard
      simpa using List.find?_some hfound
    refine ⟨hname ▸ hbelow card hmem, fun engine hengine => ?_⟩
    rw [rebuild_keyed card hmem engine hengine]
    exact hbelow card hmem
  · intro id hmem
    rcases hold _ hmem with hmem | heq | ⟨other, heq⟩
    · exact h.bound id hmem
    · cases heq
    · cases heq
  · intro id hmem
    rcases hold _ hmem with hmem | heq | ⟨other, heq⟩
    · exact h.created id hmem
    · cases heq
    · cases heq
  · intro id hmem
    rw [since_start_started] at hmem
    obtain ⟨engine, hengine, heq⟩ := List.mem_map.mp hmem
    obtain rfl := CardIdEvent.rebuilt.inj heq
    obtain ⟨card, hcard, hid⟩ := List.mem_filterMap.mp hengine
    rw [rebuild_keyed card hcard engine hid]
    exact hbelow card hcard

/-- What the desk keeps, it keeps with every step that meets the guard. -/
theorem step (h : CardIdInv trace s) {input : CardIdInput} {emitted : List CardIdEvent}
    (hspace : OwnSpace trace s input)
    (hnext : CardDesk.step s input = some (next, emitted)) : CardIdInv (trace ++ emitted) next := by
  cases input with
  | start now orphans file =>
    obtain ⟨rfl, rfl⟩ := answer_inj hnext
    exact h.start now orphans file
  | create dto =>
    obtain ⟨rfl, rfl⟩ := answer_inj hnext
    exact h.create dto hspace
  | bind engine card =>
    obtain ⟨rfl, rfl⟩ := answer_inj hnext
    exact (h.bind hspace).2
  | bindPassive engine card =>
    obtain ⟨rfl, rfl⟩ := answer_inj hnext
    exact (h.bind hspace).1
  | restore id orphans =>
    simp only [CardDesk.step] at hnext
    split at hnext
    · exact h.restore hspace hnext
    · cases hnext
  | markRemoved card =>
    exact silent_answer hnext (h.set_removed card true)
  | remove card =>
    exact silent_answer hnext
      (h.put_row rfl (Nat.le_refl _) h.space.2 fun changed heq => by cases heq)

/-- What the desk keeps before the first start. -/
theorem off : CardIdInv [] CardDesk.off where
  space := ⟨Nat.le_refl _, by decide⟩
  rows id card hcard := by cases hcard
  bound id hmem := by cases hmem
  created id hmem := by cases hmem
  rebuilt id hmem := by cases hmem

/-- The next id is a fresh one. -/
theorem fresh (h : CardIdInv trace s) (hroom : s.nextCardId ≠ peerIdBase) :
    Fresh trace s s.nextCardId := by
  have hlt : s.nextCardId < peerIdBase := Nat.lt_of_le_of_ne h.space.2 hroom
  have hno : ¬ s.Below s.nextCardId := by
    rintro (hless | hpeer)
    · exact Nat.lt_irrefl _ hless
    · exact absurd hlt (Nat.not_lt.mpr hpeer)
  refine ⟨⟨h.space.1, hlt⟩, ?_, ?_, fun hmem => ?_, fun hmem => hno (h.rebuilt _ hmem)⟩
  · by_contra hthere
    obtain ⟨card, hcard⟩ := Option.ne_none_iff_exists'.mp hthere
    exact hno (h.rows _ card hcard).1
  · exact fun other card hcard heq => hno ((h.rows other card hcard).2 _ heq)
  · exact hno (below_of_apart h.space.1 (h.bound _ hmem))

/-- What the desk keeps, it keeps over a run. -/
theorem run {inputs : List CardIdInput}
    (h : Exec CardDesk.step OwnSpace CardDesk.off inputs trace s) : CardIdInv trace s := by
  induction h with
  | start => exact .off
  | step _ hspace hnext ih => exact ih.step hspace hnext

end CardIdInv

/-- Over every run that keeps to the ranges, what `card_create` hands out is fresh, and no id is
that of a card and of a task. -/
theorem card_ids_apart {inputs : List CardIdInput}
    (h : Exec step OwnSpace off inputs trace s) (dto : TransferDto)
    (hroom : OwnSpace trace s (.create dto)) :
    Fresh trace s (s.cardCreate dto).1 ∧ Apart trace := by
  have hinv := CardIdInv.run h
  refine ⟨hinv.fresh hroom, fun id hcreated hbound => ?_⟩
  obtain ⟨hbase, hpeer⟩ := hinv.created id hcreated
  rcases hinv.bound id hbound with hless | hle
  · exact absurd hless (Nat.not_lt.mpr hbase)
  · exact absurd hpeer (Nat.not_lt.mpr hle)

instance (trace : List CardIdEvent) (s : CardDesk) : ∀ input, Decidable (OwnSpace trace s input)
  | .restore id orphans => inferInstanceAs (Decidable (s.engineToCard id = none →
      (∃ job ∈ orphans, job.jobId = id) → (id + 1) % 2 ^ 64 ≤ peerIdBase))
  | .bind engine _ => inferInstanceAs (Decidable (engine < cardIdBase ∨ peerIdBase ≤ engine))
  | .bindPassive engine _ => inferInstanceAs (Decidable (engine < cardIdBase ∨ peerIdBase ≤ engine))
  | .create _ => inferInstanceAs (Decidable (s.nextCardId ≠ peerIdBase))
  | .start _ _ _ | .markRemoved _ | .remove _ => .isTrue trivial

/-- The directory of a download whose sender gave it an id of its own half. -/
def samplePeerOrphan : OrphanJob := { sampleOrphan with jobId := 0x8000000000000002 }

/-- A row is made of that directory, and the next card gets an id of the peers. -/
theorem restored_id_raises_counter :
    ¬ ∀ inputs trace s, Exec step Guard.free off inputs trace s → ∀ dto : TransferDto,
      Fresh trace s (s.cardCreate dto).1 := by
  intro hall
  have hexec : Exec step Guard.free off [.restore 0x8000000000000002 [samplePeerOrphan]]
      ([] ++ [.rebuilt 0x8000000000000002])
      { off.put 0x8000000000000002 (some (orphanTableCard samplePeerOrphan)) with
        nextCardId := 0x8000000000000003 } :=
    Exec.start.step trivial rfl
  have hfresh := hall _ _ _ hexec (sampleCard .pending false).dto
  exact absurd hfresh.space.2 (by decide)

/-- The program starts with a row of an earlier run, a card is created and its task bound. -/
theorem card_ids_apart_sample : ∃ trace s,
    Exec step OwnSpace off [.start 1 [sampleOrphan] .unreadable,
      .create (sampleCard .pending false).dto, .bind 0x8000000000000002 cardIdBase] trace s ∧
      Fresh trace s (s.cardCreate (sampleCard .pending false).dto).1 ∧ Apart trace := by
  obtain ⟨trace, last, hexec, hnext⟩ := exec_reaches step OwnSpace off
    [.start 1 [sampleOrphan] .unreadable, .create (sampleCard .pending false).dto,
      .bind 0x8000000000000002 cardIdBase] CardDesk.nextCardId (cardIdBase + 1) (by decide +kernel)
  refine ⟨trace, last, hexec, card_ids_apart hexec _ ?_⟩
  show last.nextCardId ≠ peerIdBase
  rw [hnext]
  decide

end CardDesk

end LocalTrans
