import LocalTrans.Transfer.Manifest
import Mathlib.Data.List.Nodup

/-!
# The transfer table over a restart

The cards of the desktop are written to `transfers.json` by the pump that runs every second, and
by `prepare_shutdown` in a format of its own. After a restart `rebuild_cards` makes a card of
every parts directory and merges what was written into these. `rebuild_step` says what one entry
does to the cards, and `rebuild_run` what all of them do.
-/

namespace LocalTrans

/-- `CardState`. -/
inductive CardState where
  | pending
  | active
  | paused
  | cancelling
  | done
  | failed
  | interrupted
deriving DecidableEq

/-- The states of the history: the card is done or failed. -/
def CardState.isHistory : CardState → Bool
  | .done | .failed => true
  | _ => false

/-- The states that `rebuild_cards` leaves as they are. -/
def CardState.isSettled : CardState → Bool
  | .done | .failed | .interrupted | .cancelling => true
  | _ => false

/-- Whether a card is about a file that is fetched or one that is sent. -/
inductive Direction where
  | pull
  | push
deriving DecidableEq

/-- `TransferDto`, without what is only shown. -/
structure TransferDto where
  jobId : Nat
  name : String
  total : Nat
  done : Nat
  state : CardState
  speedBps : Nat
  peer : String
  direction : Direction
  localRole : String
  startedAtMs : Option Int
  finishedAtMs : Option Int
  sourcePath : Option String
  failReason : Option String
  partsId : Option Nat
deriving DecidableEq

/-- A card of the table: its row, the id of its task, and whether the user removed it from view. -/
structure TableCard where
  dto : TransferDto
  engineId : Option Nat
  removed : Bool
deriving DecidableEq

/-- `TransferCardSerde`: one entry of `transfers.json`. -/
structure TransferCardSerde where
  dto : TransferDto
  removed : Bool
deriving DecidableEq

/-- `transfers.json`: the format of the pump, or the bare list of rows, or neither. -/
inductive TransfersFile where
  | unreadable
  | cards (cards : List TransferCardSerde)
  | rows (rows : List TransferDto)
deriving DecidableEq

/-- `TransferMeta`: what a manifest keeps of the card. -/
structure TransferMeta where
  direction : Direction
  localRole : String
  displayName : String
  peerHex : String
  createdAtMs : Int
  finishedAtMs : Option Int
  sourcePath : Option String
deriving DecidableEq

/-- `OrphanJob`: a parts directory whose manifest can be read. -/
structure OrphanJob where
  jobId : Nat
  manifest : Manifest
  card : Option TransferMeta
deriving DecidableEq

/-- `load_cards_file`: the rows of the bare list are not removed. -/
def loadCardsFile : TransfersFile → List TransferCardSerde
  | .unreadable => []
  | .cards cards => cards
  | .rows rows => rows.map fun dto => { dto, removed := false }

/-- How far the chunks of an orphan are there. -/
def OrphanJob.state (job : OrphanJob) : CardState :=
  if job.manifest.missingChunks.isEmpty then .failed else .interrupted

/-- `orphan_card_dto`: the row of a parts directory. -/
def orphanCardDto (job : OrphanJob) : TransferDto :=
  let m := job.manifest
  let received := m.received.zipIdx.filterMap fun (received, i) => if received then some i else none
  { jobId := job.jobId
    name := ((job.card.map TransferMeta.displayName).filter fun name => name ≠ "").getD m.fileName
    total := m.totalSize
    done := (received.map m.chunkLen).sum
    state := job.state
    speedBps := 0
    peer := (((job.card.map TransferMeta.peerHex).filter fun peer => peer ≠ "").or m.peer).getD ""
    direction := (job.card.map TransferMeta.direction).getD .pull
    localRole := (job.card.map TransferMeta.localRole).getD "destination"
    startedAtMs := job.card.map TransferMeta.createdAtMs
    finishedAtMs := job.card.bind TransferMeta.finishedAtMs
    sourcePath := job.card.bind TransferMeta.sourcePath
    failReason := if job.manifest.missingChunks.isEmpty then some "数据完整性存疑,建议重新拉取" else none
    partsId := some job.jobId }

/-- The card of a parts directory. -/
def orphanTableCard (job : OrphanJob) : TableCard :=
  { dto := orphanCardDto job, engineId := some job.jobId, removed := false }

/-- What the card of a parts directory takes from an entry under its id. -/
def TableCard.fillFrom (card : TableCard) (dto : TransferDto) (removed : Bool) : TableCard :=
  { card with
    removed
    dto := { card.dto with
      name := if card.dto.name = "" then dto.name else card.dto.name
      startedAtMs := card.dto.startedAtMs.or dto.startedAtMs
      finishedAtMs := card.dto.finishedAtMs.or dto.finishedAtMs
      failReason := card.dto.failReason.or dto.failReason } }

/-- A card of an entry that no parts directory goes with. -/
def freshCard (dto : TransferDto) (removed : Bool) : TableCard :=
  { dto, removed, engineId := if dto.direction = .pull then some dto.jobId else none }

/-- The first card that is known under an id is changed, or a new one is put at the end. -/
def placeEntry (dto : TransferDto) (removed : Bool) : List TableCard → List TableCard
  | [] => [freshCard dto removed]
  | card :: rest =>
    if card.engineId = some dto.jobId then card.fillFrom dto removed :: rest
    else card :: placeEntry dto removed rest

/-- A row that was not settled is interrupted now. -/
def settle (now : Int) (dto : TransferDto) : TransferDto :=
  if dto.state.isSettled then dto
  else { dto with
    state := .interrupted, speedBps := 0, finishedAtMs := dto.finishedAtMs.or (some now) }

/-- One entry of `transfers.json` in `rebuild_cards`. A download that was not settled is dropped
where there is no parts directory to go on from. -/
def mergeEntry (now : Int) (cards : List TableCard) (entry : TransferCardSerde) : List TableCard :=
  if !entry.dto.state.isSettled && entry.dto.direction ≠ .push &&
      !(cards.any fun card => card.engineId = some entry.dto.jobId) then cards
  else placeEntry (settle now entry.dto) entry.removed cards

/-- `rebuild_cards`: the cards of the parts directories, and `transfers.json` merged into them.
Removing the complete directories afterwards leaves the cards as they are. -/
def rebuildCards (now : Int) (orphans : List OrphanJob) (file : TransfersFile) : List TableCard :=
  (loadCardsFile file).foldl (mergeEntry now) (orphans.map orphanTableCard)

/-- `collect_persist_list`: all cards that are not done or failed, at most 150 visible ones of the
others, and all removed ones. -/
def collectPersistList (cards : List TableCard) : List TransferCardSerde :=
  let entry := fun card : TableCard => ({ dto := card.dto, removed := card.removed } : TransferCardSerde)
  (cards.filter fun card => !card.dto.state.isHistory).map entry ++
    ((cards.filter fun card => card.dto.state.isHistory && !card.removed).map entry).take 150 ++
    (cards.filter fun card => card.dto.state.isHistory && card.removed).map entry

/-- `CardEvent::Interrupted` on a card: a card that waits in the queue does not take it. -/
def interruptCard (now : Int) (card : TableCard) : TableCard :=
  if card.dto.state = .active ∨ card.dto.state = .paused then
    { card with dto := { card.dto with
        state := .interrupted, speedBps := 0, finishedAtMs := some now } }
  else card

/-- What `prepare_shutdown` writes: every row that is not done or failed, and at most 150 others. -/
def shutdownRows (cards : List TableCard) : List TransferDto :=
  let rows := cards.map TableCard.dto
  (rows.filter fun dto => !dto.state.isHistory) ++ (rows.filter fun dto => dto.state.isHistory).take 150

/-- How the table reaches `transfers.json`: through the pump, or through `prepare_shutdown`, which
interrupts the open cards first, as many as it gets to in five seconds. -/
inductive TableWriter where
  | pump
  | shutdown (reached : Nat → Bool) (now : Int)

/-- The table when it is written. -/
def TableWriter.table (cards : List TableCard) : TableWriter → List TableCard
  | .pump => cards
  | .shutdown reached now =>
    cards.map fun card => if reached card.dto.jobId then interruptCard now card else card

/-- What is written of a table. -/
def TableWriter.file (cards : List TableCard) (writer : TableWriter) : TransfersFile :=
  match writer with
  | .pump => .cards (collectPersistList (writer.table cards))
  | .shutdown .. => .rows (shutdownRows (writer.table cards))

section Merging

variable {now : Int} {cards : List TableCard} {card : TableCard} {entry : TransferCardSerde}
  {dto : TransferDto} {removed : Bool}

@[simp] theorem fill_from_job_id : (card.fillFrom dto removed).dto.jobId = card.dto.jobId := rfl

@[simp] theorem fill_from_engine_id : (card.fillFrom dto removed).engineId = card.engineId := rfl

@[simp] theorem fill_from_state : (card.fillFrom dto removed).dto.state = card.dto.state := rfl

@[simp] theorem fill_from_removed : (card.fillFrom dto removed).removed = removed := rfl

@[simp] theorem settle_job_id : (settle now dto).jobId = dto.jobId := by
  unfold settle
  split <;> rfl

theorem settle_settled : (settle now dto).state.isSettled = true := by
  unfold settle
  split
  · assumption
  · rfl

theorem settle_of_settled (h : dto.state.isSettled = true) : settle now dto = dto :=
  if_pos h

/-- Where an entry is placed: in the card that goes by its id, or in a new one. -/
theorem mem_place_entry {found : TableCard} (h : found ∈ placeEntry dto removed cards) :
    found ∈ cards ∨ (∃ card ∈ cards, card.engineId = some dto.jobId ∧
      found = card.fillFrom dto removed) ∨
      (∀ card ∈ cards, card.engineId ≠ some dto.jobId) ∧ found = freshCard dto removed := by
  induction cards with
  | nil => exact .inr (.inr ⟨by simp, List.mem_singleton.mp h⟩)
  | cons first rest ih =>
    unfold placeEntry at h
    split at h
    · next hfirst =>
      rcases List.mem_cons.mp h with rfl | h
      · exact .inr (.inl ⟨first, List.mem_cons_self, hfirst, rfl⟩)
      · exact .inl (List.mem_cons_of_mem _ h)
    · next hfirst =>
      rcases List.mem_cons.mp h with rfl | h
      · exact .inl List.mem_cons_self
      · rcases ih h with hmem | ⟨card, hmem, hid, hfound⟩ | ⟨hnone, hfound⟩
        · exact .inl (List.mem_cons_of_mem _ hmem)
        · exact .inr (.inl ⟨card, List.mem_cons_of_mem _ hmem, hid, hfound⟩)
        · refine .inr (.inr ⟨fun card hmem => ?_, hfound⟩)
          rcases List.mem_cons.mp hmem with rfl | hmem
          · exact hfirst
          · exact hnone card hmem

/-- The entry is there afterwards: in a card that went by its id, or in a new one. -/
theorem place_entry_there (cards : List TableCard) (dto : TransferDto) (removed : Bool) :
    (∃ card ∈ cards, card.engineId = some dto.jobId ∧
      card.fillFrom dto removed ∈ placeEntry dto removed cards) ∨
    (∀ card ∈ cards, card.engineId ≠ some dto.jobId) ∧
      freshCard dto removed ∈ placeEntry dto removed cards := by
  induction cards with
  | nil => exact .inr ⟨by simp, List.mem_singleton.mpr rfl⟩
  | cons first rest ih =>
    unfold placeEntry
    split
    · next hfirst => exact .inl ⟨first, List.mem_cons_self, hfirst, List.mem_cons_self⟩
    · next hfirst =>
      rcases ih with ⟨card, hmem, hid, hthere⟩ | ⟨hnone, hthere⟩
      · exact .inl ⟨card, List.mem_cons_of_mem _ hmem, hid, List.mem_cons_of_mem _ hthere⟩
      · refine .inr ⟨fun card hmem => ?_, List.mem_cons_of_mem _ hthere⟩
        rcases List.mem_cons.mp hmem with rfl | hmem
        · exact hfirst
        · exact hnone card hmem

/-- The cards that do not go by the id stay. -/
theorem place_entry_stays (hmem : card ∈ cards) (hother : card.engineId ≠ some dto.jobId) :
    card ∈ placeEntry dto removed cards := by
  induction cards with
  | nil => cases hmem
  | cons first rest ih =>
    unfold placeEntry
    split
    · next hfirst =>
      rcases List.mem_cons.mp hmem with rfl | hmem
      · exact absurd hfirst hother
      · exact List.mem_cons_of_mem _ hmem
    · rcases List.mem_cons.mp hmem with rfl | hmem
      · exact List.mem_cons_self
      · exact List.mem_cons_of_mem _ (ih hmem)

/-- The ids of the cards stay, and a new card brings its own. -/
theorem place_entry_ids :
    (placeEntry dto removed cards).map (fun card => card.dto.jobId) =
      cards.map (fun card => card.dto.jobId) ++
        (if cards.any (fun card => card.engineId = some dto.jobId) then [] else [dto.jobId]) := by
  induction cards with
  | nil => rfl
  | cons first rest ih =>
    unfold placeEntry
    split
    · next hfirst => simp [hfirst]
    · next hfirst => simp [hfirst, ih]

end Merging

section Rebuilding

variable {now : Int} {orphans : List OrphanJob} {seen : List Nat} {cards : List TableCard}
  {card : TableCard} {entry : TransferCardSerde}

/-- The cards while `transfers.json` is merged in, with the ids of the entries so far: one card for
every id, a card that has an engine id goes by it, and every parts directory has its card. -/
structure Rebuilding (orphans : List OrphanJob) (seen : List Nat) (cards : List TableCard) : Prop where
  ids : (cards.map fun card => card.dto.jobId).Nodup
  keyed : ∀ card ∈ cards, ∀ id, card.engineId = some id → card.dto.jobId = id
  origin : ∀ card ∈ cards, (∃ job ∈ orphans, card.engineId = some job.jobId) ∨ card.dto.jobId ∈ seen
  orphans : ∀ job ∈ orphans, ∃ card ∈ cards, card.engineId = some job.jobId ∧
    card.dto.state = job.state
  settled : ∀ card ∈ cards, card.dto.state.isSettled = true

/-- The entries that are not dropped: settled ones, pushes, and those of a parts directory. -/
def TransferCardSerde.Kept (orphans : List OrphanJob) (entry : TransferCardSerde) : Prop :=
  entry.dto.state.isSettled = true ∨ entry.dto.direction = .push ∨
    ∃ job ∈ orphans, job.jobId = entry.dto.jobId

/-- The card of an entry: under its id, removed if it was, and in its state if there is no parts
directory of this name. -/
def TransferCardSerde.Shown (orphans : List OrphanJob) (entry : TransferCardSerde)
    (card : TableCard) : Prop :=
  card.dto.jobId = entry.dto.jobId ∧ card.removed = entry.removed ∧
    (entry.dto.state.isSettled = true → (∀ job ∈ orphans, job.jobId ≠ entry.dto.jobId) →
      card.dto.state = entry.dto.state)

theorem orphan_state_settled (job : OrphanJob) : job.state.isSettled = true := by
  unfold OrphanJob.state
  split <;> rfl

theorem rebuilding_start (h : (orphans.map OrphanJob.jobId).Nodup) :
    Rebuilding orphans [] (orphans.map orphanTableCard) := by
  refine ⟨by rwa [List.map_map], ?_, ?_, ?_, ?_⟩
  · intro card hmem id hid
    obtain ⟨job, -, rfl⟩ := List.mem_map.mp hmem
    exact Option.some.inj hid
  · intro card hmem
    obtain ⟨job, hjob, rfl⟩ := List.mem_map.mp hmem
    exact .inl ⟨job, hjob, rfl⟩
  · intro job hjob
    exact ⟨_, List.mem_map_of_mem hjob, rfl, rfl⟩
  · intro card hmem
    obtain ⟨job, -, rfl⟩ := List.mem_map.mp hmem
    exact orphan_state_settled job

namespace Rebuilding

variable {dto : TransferDto} {removed : Bool}

/-- Only the card of a parts directory can already go by the id of the next entry. -/
theorem engine_of_id (h : Rebuilding orphans seen cards) (hfresh : dto.jobId ∉ seen)
    (hmem : card ∈ cards) (hid : card.dto.jobId = dto.jobId) :
    ∃ job ∈ orphans, job.jobId = dto.jobId ∧ card.engineId = some dto.jobId := by
  rcases h.origin card hmem with ⟨job, hjob, hengine⟩ | hseen
  · have hsame : job.jobId = dto.jobId := (h.keyed card hmem job.jobId hengine).symm.trans hid
    exact ⟨job, hjob, hsame, by rw [hengine, hsame]⟩
  · exact absurd (hid ▸ hseen) hfresh

theorem unique {other : TableCard} (h : Rebuilding orphans seen cards) (hmem : card ∈ cards)
    (hother : other ∈ cards) (hid : card.dto.jobId = other.dto.jobId) : card = other :=
  List.inj_on_of_nodup_map h.ids hmem hother hid

/-- A settled row is placed. -/
theorem place (h : Rebuilding orphans seen cards) (hfresh : dto.jobId ∉ seen)
    (hsettled : dto.state.isSettled = true) :
    Rebuilding orphans (dto.jobId :: seen) (placeEntry dto removed cards) := by
  refine ⟨?_, ?_, ?_, ?_, ?_⟩
  · rw [place_entry_ids]
    split
    · rw [List.append_nil]
      exact h.ids
    · next hnone =>
      refine List.nodup_append.mpr ⟨h.ids, List.nodup_singleton _, ?_⟩
      rintro id hid other hother rfl
      obtain ⟨card, hmem, rfl⟩ := List.mem_map.mp hid
      obtain ⟨-, -, -, hengine⟩ := h.engine_of_id hfresh hmem (List.mem_singleton.mp hother)
      exact hnone (List.any_eq_true.mpr ⟨card, hmem, by simpa using hengine⟩)
  · intro card hmem id hid
    rcases mem_place_entry hmem with hold | ⟨before, hbefore, -, rfl⟩ | ⟨-, rfl⟩
    · exact h.keyed card hold id hid
    · exact h.keyed before hbefore id hid
    · unfold freshCard at hid
      split at hid
      · exact Option.some.inj hid
      · cases hid
  · intro card hmem
    rcases mem_place_entry hmem with hold | ⟨before, hbefore, -, rfl⟩ | ⟨-, rfl⟩
    · exact (h.origin card hold).imp_right (List.mem_cons_of_mem _)
    · exact (h.origin before hbefore).imp_right (List.mem_cons_of_mem _)
    · exact .inr List.mem_cons_self
  · intro job hjob
    obtain ⟨card, hmem, hengine, hstate⟩ := h.orphans job hjob
    by_cases hid : job.jobId = dto.jobId
    · rcases place_entry_there cards dto removed with
        ⟨found, hfound, hfoundId, hplaced⟩ | ⟨hnone, -⟩
      · have hsame : card = found := h.unique hmem hfound (by
          rw [h.keyed card hmem _ hengine, h.keyed found hfound _ hfoundId, hid])
        subst hsame
        exact ⟨_, hplaced, hengine, hstate⟩
      · exact absurd (by rw [hengine, hid]) (hnone card hmem)
    · refine ⟨card, place_entry_stays hmem ?_, hengine, hstate⟩
      rw [hengine]
      exact fun hsame => hid (Option.some.inj hsame)
  · intro card hmem
    rcases mem_place_entry hmem with hold | ⟨before, hbefore, -, rfl⟩ | ⟨-, rfl⟩
    · exact h.settled card hold
    · exact h.settled before hbefore
    · exact hsettled

/-- The card of a placed row. -/
theorem placed (h : Rebuilding orphans seen cards) (hfresh : dto.jobId ∉ seen) :
    ∃ card ∈ placeEntry dto removed cards, card.dto.jobId = dto.jobId ∧ card.removed = removed ∧
      ((∀ job ∈ orphans, job.jobId ≠ dto.jobId) → card.dto.state = dto.state) := by
  rcases place_entry_there cards dto removed with
    ⟨card, hmem, hengine, hplaced⟩ | ⟨-, hplaced⟩
  · have hid : card.dto.jobId = dto.jobId := h.keyed card hmem _ hengine
    obtain ⟨job, hjob, hsame, -⟩ := h.engine_of_id hfresh hmem hid
    exact ⟨_, hplaced, hid, rfl, fun hnone => absurd hsame (hnone job hjob)⟩
  · exact ⟨_, hplaced, rfl, rfl, fun _ => rfl⟩

/-- What one entry does: the order of the cards is kept, the entry is shown if it is not dropped,
and the other cards stay. -/
theorem step (h : Rebuilding orphans seen cards) (hfresh : entry.dto.jobId ∉ seen) :
    Rebuilding orphans (entry.dto.jobId :: seen) (mergeEntry now cards entry) ∧
      (entry.Kept orphans → ∃ card ∈ mergeEntry now cards entry, entry.Shown orphans card) ∧
      ∀ card ∈ cards, card.dto.jobId ≠ entry.dto.jobId → card ∈ mergeEntry now cards entry := by
  unfold mergeEntry
  split
  · next hdropped =>
    refine ⟨⟨h.ids, h.keyed, ?_, h.orphans, h.settled⟩, ?_, fun card hmem _ => hmem⟩
    · intro card hmem
      exact (h.origin card hmem).imp_right (List.mem_cons_of_mem _)
    simp only [Bool.and_eq_true, Bool.not_eq_true', decide_eq_true_eq, List.any_eq_false] at hdropped
    obtain ⟨⟨hopen, hpull⟩, hnone⟩ := hdropped
    rintro (hsettled | hpush | ⟨job, hjob, hid⟩)
    · rw [hopen] at hsettled
      cases hsettled
    · exact absurd hpush hpull
    · obtain ⟨card, hmem, hengine, -⟩ := h.orphans job hjob
      exact absurd (by rw [hengine, hid]) (hnone card hmem)
  · have hfresh' : (settle now entry.dto).jobId ∉ seen := by rwa [settle_job_id]
    refine ⟨?_, fun _ => ?_, ?_⟩
    · have hplaced : Rebuilding orphans ((settle now entry.dto).jobId :: seen)
          (placeEntry (settle now entry.dto) entry.removed cards) :=
        h.place hfresh' settle_settled
      rwa [settle_job_id] at hplaced
    · obtain ⟨card, hmem, hid, hremoved, hstate⟩ := h.placed hfresh'
      rw [settle_job_id] at hid hstate
      refine ⟨card, hmem, hid, hremoved, fun hsettled hnone => ?_⟩
      rw [hstate hnone, settle_of_settled hsettled]
    · intro card hmem hother
      refine place_entry_stays hmem fun hengine => hother ?_
      rw [h.keyed card hmem _ hengine, settle_job_id]

/-- What all entries do. -/
theorem run {entries : List TransferCardSerde} (h : Rebuilding orphans seen cards)
    (hids : (entries.map fun entry => entry.dto.jobId).Nodup)
    (hfresh : ∀ entry ∈ entries, entry.dto.jobId ∉ seen) :
    (∃ all, Rebuilding orphans all (entries.foldl (mergeEntry now) cards)) ∧
      (∀ entry ∈ entries, entry.Kept orphans →
        ∃ card ∈ entries.foldl (mergeEntry now) cards, entry.Shown orphans card) ∧
      ∀ card ∈ cards, (∀ entry ∈ entries, card.dto.jobId ≠ entry.dto.jobId) →
        card ∈ entries.foldl (mergeEntry now) cards := by
  induction entries generalizing seen cards with
  | nil => exact ⟨⟨seen, h⟩, by simp, fun card hmem _ => hmem⟩
  | cons first rest ih =>
    rw [List.map_cons, List.nodup_cons] at hids
    obtain ⟨hnew, hrest⟩ := hids
    have hother : ∀ entry ∈ rest, entry.dto.jobId ≠ first.dto.jobId := by
      intro entry hmem hsame
      exact hnew (hsame ▸ List.mem_map_of_mem hmem)
    obtain ⟨hnext, hshown, hstays⟩ := h.step (hfresh first List.mem_cons_self)
    obtain ⟨hall, hlater, hkept⟩ := ih hnext hrest (by
      intro entry hmem hseen
      rcases List.mem_cons.mp hseen with hsame | hseen
      · exact hother entry hmem hsame
      · exact hfresh entry (List.mem_cons_of_mem _ hmem) hseen)
    refine ⟨hall, ?_, ?_⟩
    · intro entry hmem hkeep
      rcases List.mem_cons.mp hmem with rfl | hmem
      · -- The card of this entry goes by an id that no later entry has.
        obtain ⟨card, hcard, hshow⟩ := hshown hkeep
        refine ⟨card, hkept card hcard fun later hlater hsame => ?_, hshow⟩
        exact hother later hlater (hsame.symm.trans hshow.1)
      · exact hlater entry hmem hkeep
    · intro card hmem hnone
      refine hkept card (hstays card hmem (hnone first List.mem_cons_self)) fun entry hmem => ?_
      exact hnone entry (List.mem_cons_of_mem _ hmem)

end Rebuilding

end Rebuilding

section Writing

variable {cards : List TableCard} {card : TableCard} {writer : TableWriter}

/-- The finished cards that only so many of are written. -/
def TableWriter.history (cards : List TableCard) : TableWriter → List TableCard
  | .pump => cards.filter fun card => card.dto.state.isHistory && !card.removed
  | writer => (writer.table cards).filter fun card => card.dto.state.isHistory

/-- The cards that are written: the ones that are not done or failed, the first 150 of the history,
and through the pump all that were removed. -/
def TableWriter.Writes (cards : List TableCard) (writer : TableWriter) (card : TableCard) : Prop :=
  card ∈ writer.table cards ∧ (card.dto.state.isHistory = false ∨
    writer = .pump ∧ card.removed = true ∨ card ∈ (writer.history cards).take 150)

/-- What is written about a card: `prepare_shutdown` does not write whether it was removed. -/
def TableWriter.entry : TableWriter → TableCard → TransferCardSerde
  | .pump, card => { dto := card.dto, removed := card.removed }
  | .shutdown .., card => { dto := card.dto, removed := false }

/-- What is read back is what was written about the cards. -/
theorem load_written (cards : List TableCard) (writer : TableWriter) :
    loadCardsFile (writer.file cards) =
      (((writer.table cards).filter fun card => !card.dto.state.isHistory) ++
        (writer.history cards).take 150 ++
        match writer with
        | .pump => cards.filter fun card => card.dto.state.isHistory && card.removed
        | .shutdown .. => []).map writer.entry := by
  cases writer with
  | pump =>
    simp only [TableWriter.file, loadCardsFile, collectPersistList, List.map_append, List.map_take]
    rfl
  | shutdown reached now =>
    simp only [TableWriter.file, loadCardsFile, shutdownRows, List.map_append, List.map_take,
      List.filter_map, List.map_map, List.append_nil]
    rfl

/-- Interrupting cards leaves their ids alone. -/
theorem table_ids (cards : List TableCard) (writer : TableWriter) :
    (writer.table cards).map (fun card => card.dto.jobId) = cards.map fun card => card.dto.jobId := by
  cases writer with
  | pump => rfl
  | shutdown reached now =>
    simp only [TableWriter.table, List.map_map]
    refine List.map_congr_left fun card _ => ?_
    simp only [Function.comp_apply]
    split
    · unfold interruptCard
      split <;> rfl
    · rfl

/-- No card is written twice. -/
theorem written_ids (h : (cards.map fun card => card.dto.jobId).Nodup) :
    ((loadCardsFile (writer.file cards)).map fun entry => entry.dto.jobId).Nodup := by
  have hid : (fun entry : TransferCardSerde => entry.dto.jobId) ∘ writer.entry =
      fun card => card.dto.jobId := by
    cases writer <;> rfl
  rw [load_written, List.map_map, hid]
  rw [← table_ids cards writer] at h
  have hparts : ∀ (l : List TableCard) (p : TableCard → Bool),
      ((l.filter fun card => !p card) ++ l.filter p).Perm l := fun l p =>
    List.perm_append_comm.trans (List.filter_append_perm p l)
  cases writer with
  | pump =>
    have hfinished : ((cards.filter fun card => card.dto.state.isHistory && !card.removed) ++
        cards.filter fun card => card.dto.state.isHistory && card.removed).Perm
        (cards.filter fun card => card.dto.state.isHistory) := by
      have hsplit := hparts (cards.filter fun card => card.dto.state.isHistory) TableCard.removed
      simpa only [List.filter_filter, Bool.and_comm] using hsplit
    refine List.Nodup.sublist (List.Sublist.map _ ?_)
      ((((hfinished.append_left _).trans (hparts cards _)).map _).nodup_iff.mpr h)
    rw [List.append_assoc]
    exact ((List.take_sublist _ _).append_right _).append_left _
  | shutdown reached now =>
    refine List.Nodup.sublist (List.Sublist.map _ ?_)
      (((hparts _ fun card => card.dto.state.isHistory).map _).nodup_iff.mpr h)
    rw [List.append_nil]
    exact (List.take_sublist _ _).append_left _

/-- The entry of a card that is written. -/
theorem mem_written (h : writer.Writes cards card) :
    writer.entry card ∈ loadCardsFile (writer.file cards) := by
  rw [load_written]
  refine List.mem_map_of_mem ?_
  obtain ⟨hmem, hopen | ⟨rfl, hremoved⟩ | hrecent⟩ := h
  · refine List.mem_append_left _ (List.mem_append_left _ (List.mem_filter.mpr ⟨hmem, ?_⟩))
    simp [hopen]
  · cases hhistory : card.dto.state.isHistory with
    | false =>
      refine List.mem_append_left _ (List.mem_append_left _ (List.mem_filter.mpr ⟨hmem, ?_⟩))
      simp [hhistory]
    | true =>
      refine List.mem_append_right _ (List.mem_filter.mpr ⟨hmem, ?_⟩)
      simp [hhistory, hremoved]
  · exact List.mem_append_left _ (List.mem_append_right _ hrecent)

end Writing

/-- A card is kept over the restart if it is settled, a push, or that of a parts directory. -/
def TableCard.Kept (orphans : List OrphanJob) (card : TableCard) : Prop :=
  card.dto.state.isSettled = true ∨ card.dto.direction = .push ∨
    ∃ job ∈ orphans, job.jobId = card.dto.jobId

/-- A download in the given state, with a card id and the id of its task. -/
def sampleCard (state : CardState) (removed : Bool) : TableCard :=
  { dto := {
      jobId := 0x400000000000, name := "a.bin", total := 5, done := 0, state, speedBps := 0
      peer := "aa", direction := .pull, localRole := "destination", startedAtMs := some 1
      finishedAtMs := none, sourcePath := none, failReason := none, partsId := some 5 }
    engineId := some 5
    removed }

/-- The parts directory of this download, with its only chunk missing. -/
def sampleOrphan : OrphanJob :=
  { jobId := 5
    manifest := {
      fileName := "a.bin", totalSize := 5, chunkHashes := ["00"], received := [false]
      peer := some "aa", shareId := none, rel := none }
    card := none }

/-- What holds of every card and what is rebuilt of its table, however it was written. -/
def AfterRestart (P : TableCard → List TableCard → Prop) : Prop :=
  ∀ (now : Int) (cards : List TableCard) (orphans : List OrphanJob) (writer : TableWriter),
    (cards.map fun card => card.dto.jobId).Nodup → (orphans.map OrphanJob.jobId).Nodup →
      ∀ card ∈ cards, P card (rebuildCards now orphans (writer.file cards))

end LocalTrans
