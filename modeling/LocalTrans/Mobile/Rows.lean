import LocalTrans.Shell.Cards
import LocalTrans.Transfer.Progress
import Mathlib.Logic.Function.Basic

/-!
# The transfer table of the mobile app

`AppState` of the mobile crate keeps the cards in a hash map. A `Row` is a card without what is only
shown, and `Row.apply` is the state machine of the card on it (`row_apply`). The functions here are
those of `state.rs` that write to the table; `card_apply` and `card_mutate` leave every other row
alone, and so does `apply_card_event`, which removes a row that was being cancelled once its end has
been confirmed.
-/

namespace LocalTrans

/-- `is_terminal` on a state. -/
def CardState.Terminal (state : CardState) : Prop :=
  state = .done ∨ state = .failed ∨ state = .interrupted
deriving Decidable

namespace Ffi

open Foundation

/-- A card of the table, without its speed, its times and its health. -/
structure Row where
  name : String
  total : Nat
  done : Nat
  state : CardState
  peer : String
  direction : String
  localRole : String
  failReason : String
  instant : Bool
  queuePos : Option Nat
  engineId : Option Nat
  removed : Bool
deriving DecidableEq

namespace Row

/-- `record_fail`: without a reason the text that is there stays. -/
def recordFail (row : Row) (reason : Option String) : Row :=
  { row with failReason := reason.getD row.failReason, state := .failed }

/-- The row after an event; an event that is not listed is refused. -/
def apply (row : Row) (ev : CardEvent) : Option Row :=
  match row.state, ev with
  | .pending, .started => some { row with state := .active }
  | .pending, .queueTimeout => some { row with failReason := "排队超时", state := .failed }
  | .pending, .failed reason => some (row.recordFail reason)
  | .pending, .cancelRequested => some { row with state := .cancelling }
  | .active, .progress done total _ _ _ => some { row with done, total }
  | .active, .paused => some { row with state := .paused }
  | .active, .failed reason => some (row.recordFail reason)
  | .active, .finished => some { row with done := row.total, state := .done }
  | .active, .interrupted => some { row with state := .interrupted }
  | .active, .cancelRequested => some { row with state := .cancelling }
  | .paused, .resumed => some { row with state := .active }
  | .paused, .failed reason => some (row.recordFail reason)
  | .paused, .interrupted => some { row with state := .interrupted }
  | .paused, .finished => some { row with done := row.total, state := .done }
  | .paused, .cancelRequested => some { row with state := .cancelling }
  | .cancelling, .cancelConfirmed => some row
  | .cancelling, .failed reason => some (row.recordFail reason)
  | .cancelling, .interrupted => some { row with state := .interrupted }
  | .cancelling, .finished => some { row with done := row.total, state := .done }
  | _, _ => none

end Row

/-- `SavedFilesAcc`: where the files of a job are saved, if that is known (else the empty path), and
the names of the files that started since the last event that named them. -/
structure SavedFilesAcc where
  root : String
  names : List String
deriving DecidableEq

/-- `AppState`, as far as the handlers of transfer events read it. -/
structure AppState where
  transfers : Nat → Option Row
  savedFiles : Nat → Option SavedFilesAcc
  inboxDir : String

/-- What the app hears of a transfer. The progress of a row that stays under way is not among it. -/
inductive AppEvent where
  | transferUpdated (job : Nat) (row : Row)
  | transferDone (job : Nat) (ok : Bool) (failReason : String)
  | filesSaved (job : Nat) (paths : List String)
deriving DecidableEq

namespace AppState

/-- Write a row. -/
def setRow (st : AppState) (id : Nat) (row : Option Row) : AppState :=
  { st with transfers := Function.update st.transfers id row }

/-- `card_apply`: the row if the event is taken. -/
def cardApply (st : AppState) (id : Nat) (ev : CardEvent) : Option Row × AppState :=
  match (st.transfers id).bind (Row.apply · ev) with
  | some row => (some row, st.setRow id (some row))
  | none => (none, st)

/-- `card_mutate`. -/
def cardMutate (st : AppState) (id : Nat) (rewrite : Row → Row) : AppState :=
  match st.transfers id with
  | some row => st.setRow id (some (rewrite row))
  | none => st

/-- `card_create`: a row that is there is replaced. -/
def cardCreate (st : AppState) (id : Nat) (row : Row) : AppState :=
  st.setRow id (some row)

/-- `card_remove`. -/
def cardRemove (st : AppState) (id : Nat) : AppState :=
  st.setRow id none

/-- `source_chunk_add`. -/
def sourceChunkAdd (st : AppState) (id bytes : Nat) : AppState :=
  match st.transfers id with
  | some row => (st.cardApply id (.progress ((row.done + bytes) % 2 ^ 64) row.total 0 0 none)).2
  | none => st

/-- `finalize_remove`, apart from the watchdog: the row goes, and its file names with it. -/
def finalizeRemove (st : AppState) (id : Nat) : AppState :=
  match st.transfers id with
  | some _ => { st.setRow id none with savedFiles := Function.update st.savedFiles id none }
  | none => st

/-- `apply_card_event`: the row if the event is taken and the row stays. A row that was being
cancelled and has ended now is removed. -/
def applyCardEvent (st : AppState) (id : Nat) (ev : CardEvent) :
    Option Row × AppState × List AppEvent :=
  match st.transfers id, st.cardApply id ev with
  | some before, (some row, next) =>
    if before.state = .cancelling ∧ row.state.Terminal then
      (none, next.finalizeRemove id, [.transferDone id false "removed"])
    else (some row, next, [])
  | _, (_, next) => (none, next, [])

/-- The row of a new transfer that nothing is known of but this. -/
def pendingRow (name : String) (total : Nat) (peer direction localRole : String) : Row :=
  { name, total, done := 0, state := .pending, peer, direction, localRole, failReason := ""
    instant := false, queuePos := none, engineId := none, removed := false }

end AppState

end Ffi

end LocalTrans
