import LocalTrans.Mobile.Rows

/-!
# The handler of fetched files in the mobile app

The handler takes the events of a file that is fetched again to the table. The row of the download is
a placeholder under an id of the shell until its first event; then it goes on under the id of the
engine.
-/

namespace LocalTrans.Ffi.AppState

/-- A new row is created and started. -/
def startRow (st : AppState) (id : Nat) (row : Row) : AppState :=
  ((st.cardCreate id row).cardApply id .started).2

/-- The row as it is now, for the app. -/
def updated (st : AppState) (id : Nat) : List AppEvent :=
  match st.transfers id with
  | some row => [.transferUpdated id row]
  | none => []

/-- An event that ends a row is applied, and the app hears of the end. -/
def endRow (st : AppState) (id : Nat) (ev : CardEvent) (ok : Bool) (reason : String) :
    AppState × List AppEvent :=
  match st.applyCardEvent id ev with
  | (some row, next, emitted) =>
    (next, emitted ++ [.transferUpdated id row, .transferDone id ok reason])
  | (none, next, emitted) => (next, emitted)

/-- A row that waits is started. -/
def startPending (st : AppState) (id : Nat) : AppState :=
  if (st.transfers id).any fun row => row.state = .pending then (st.cardApply id .started).2 else st

/-- `Started` of a transfer whose row stays under the id of the engine: an ended row is replaced,
and any other is renamed. -/
def takeOver (st : AppState) (job : Nat) (name : String) (total : Nat) (row : Row) : AppState :=
  match st.transfers job with
  | some old =>
    if old.state.Terminal then (st.cardRemove job).startRow job row
    else ((st.cardMutate job fun row => { row with name, total }).cardApply job .started).2
  | none => st.startRow job row

/-- `Resumed`: the bytes that are there already. -/
def resumeRow (st : AppState) (job alreadyBytes : Nat) : AppState :=
  (st.startPending job).cardMutate job fun row => { row with done := alreadyBytes }

/-- `handle_pull_progress_event`, for one file that is fetched again. -/
def handlePullProgressEvent (st : AppState) (placeholder : Nat) (alive : Bool) :
    ProgressEvent → AppState × Bool × List AppEvent
  | .started job name total =>
    let next := if alive then st.cardRemove placeholder else st
    let next := next.takeOver job name total (pendingRow name total "" "pull" "receiver")
    (next, false, next.updated job)
  | .resumed job alreadyBytes => (st.resumeRow job alreadyBytes, alive, [])
  | .chunkDone job _ bytes => (st.sourceChunkAdd job bytes, alive, [])
  | .done job =>
    let (next, emitted) := st.endRow job .finished true ""
    (next, alive, emitted)
  | .failed job reason =>
    let (next, emitted) := st.endRow job (.failed (some reason)) false reason
    (next, alive, emitted)
  | .instantHit .. => (st, alive, [])

end LocalTrans.Ffi.AppState
