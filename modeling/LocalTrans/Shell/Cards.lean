import LocalTrans.Foundation.Reactor
import LocalTrans.Shell.Restart

/-!
# The state machine of a transfer card

`transfer_state.rs` of the desktop shell and its port in the mobile crate. Every event reaches a card
through `apply`, which refuses what its table of transitions does not list and all events of a
finished card. The two tables are kept by hand. `Corresponds` relates the cards of the two crates,
`apply_agree` says what one event does to such a pair, and `card_machines_agree` is the result about
all sequences of events.
-/

namespace LocalTrans

open Foundation

/-- `HealthDto`. The loss ratio is an `f64` that is only passed on; its bits stand for it. -/
structure HealthDto where
  lossRatio : BitVec 64
  rttMs : Nat
  cwnd : Nat
  streams : Nat
deriving DecidableEq

/-- `ChildDto`: a file of a card that stands for several. -/
structure ChildDto where
  jobId : String
  name : String
  total : Nat
  done : Nat
  state : String
deriving DecidableEq

/-- `CardEvent`. -/
inductive CardEvent where
  | started
  | progress (done total speedBps remoteDone : Nat) (health : Option HealthDto)
  | paused
  | resumed
  | failed (reason : Option String)
  | finished
  | interrupted
  | cancelRequested
  | cancelConfirmed
  | queueTimeout
deriving DecidableEq

namespace Desktop

/-- `TransferDto` of the desktop. -/
structure TransferDto where
  jobId : Nat
  name : String
  total : Nat
  done : Nat
  state : String
  speedBps : Nat
  peer : String
  direction : String
  localRole : String
  health : Option HealthDto
  startedAtMs : Option Int
  finishedAtMs : Option Int
  sourcePath : Option String
  failReason : Option String
  remoteDone : Nat
  instant : Bool
  queuePos : Option Nat
  batchId : Option String
  children : List ChildDto
  partsId : Option String
deriving DecidableEq

/-- `CardState::as_str`. -/
def asStr : CardState → String
  | .pending => "pending"
  | .active => "active"
  | .paused => "paused"
  | .cancelling => "cancelling"
  | .done => "done"
  | .failed => "failed"
  | .interrupted => "interrupted"

/-- `state_from_str`. -/
def stateFromStr : String → Option CardState
  | "pending" => some .pending
  | "active" => some .active
  | "paused" => some .paused
  | "cancelling" => some .cancelling
  | "done" => some .done
  | "failed" => some .failed
  | "interrupted" => some .interrupted
  | _ => none

/-- `TransferCard` of the desktop. -/
structure TransferCard where
  dto : TransferDto
  engineId : Option Nat
  removed : Bool
  cancellingSinceMs : Option Int
  lastTransition : Option (String × String)
deriving DecidableEq

namespace TransferCard

/-- `TransferCard::new`. -/
def new (dto : TransferDto) : TransferCard :=
  { dto := dto, engineId := none, removed := false, cancellingSinceMs := none,
    lastTransition := none }

/-- `record_fail`. -/
def recordFail (card : TransferCard) (reason : Option String) (nowMs : Int) : TransferCard :=
  let failReason := match reason with
    | some r => some r
    | none => card.dto.failReason
  { card with dto := { card.dto with
      failReason := failReason, speedBps := 0, finishedAtMs := some nowMs } }

/-- The table of `apply`: the card after an event and the state it enters, `none` where the event
leaves the state alone. An event that is not listed is refused. -/
def edge (card : TransferCard) (nowMs : Int) :
    CardState → CardEvent → Option (TransferCard × Option CardState)
  | .pending, .started =>
    some ({ card with dto := { card.dto with startedAtMs := some nowMs } }, some .active)
  | .pending, .queueTimeout =>
    some ({ card with dto := { card.dto with failReason := some "排队超时" } }, some .failed)
  | .pending, .failed reason => some (card.recordFail reason nowMs, some .failed)
  | .pending, .cancelRequested =>
    some ({ card with cancellingSinceMs := some nowMs }, some .cancelling)
  | .active, .progress done total speedBps remoteDone health =>
    let health := match health with
      | some h => some h
      | none => card.dto.health
    -- no transition is recorded: the card stays where it is
    some ({ card with dto := { card.dto with
      done := done, total := total, speedBps := speedBps, remoteDone := remoteDone,
      health := health } }, none)
  | .active, .paused => some ({ card with dto := { card.dto with speedBps := 0 } }, some .paused)
  | .active, .failed reason => some (card.recordFail reason nowMs, some .failed)
  | .active, .finished =>
    some ({ card with dto := { card.dto with
      done := card.dto.total, speedBps := 0, finishedAtMs := some nowMs } }, some .done)
  | .active, .interrupted =>
    some ({ card with dto := { card.dto with
      speedBps := 0, finishedAtMs := some nowMs } }, some .interrupted)
  | .active, .cancelRequested =>
    some ({ card with cancellingSinceMs := some nowMs }, some .cancelling)
  | .paused, .resumed => some (card, some .active)
  | .paused, .failed reason => some (card.recordFail reason nowMs, some .failed)
  | .paused, .interrupted =>
    some ({ card with dto := { card.dto with
      speedBps := 0, finishedAtMs := some nowMs } }, some .interrupted)
  | .paused, .finished =>
    some ({ card with dto := { card.dto with
      done := card.dto.total, speedBps := 0, finishedAtMs := some nowMs } }, some .done)
  | .paused, .cancelRequested =>
    some ({ card with cancellingSinceMs := some nowMs }, some .cancelling)
  | .cancelling, .cancelConfirmed => some (card, none)
  | .cancelling, .failed reason =>
    some ({ card with cancellingSinceMs := none }.recordFail reason nowMs, some .failed)
  | .cancelling, .interrupted =>
    some ({ card with
      cancellingSinceMs := none,
      dto := { card.dto with speedBps := 0, finishedAtMs := some nowMs } }, some .interrupted)
  | .cancelling, .finished =>
    some ({ card with
      cancellingSinceMs := none,
      dto := { card.dto with
        done := card.dto.total, speedBps := 0, finishedAtMs := some nowMs } }, some .done)
  | _, _ => none

/-- The end of `apply`: the card enters a state, and the transition is kept for the history. -/
def enter (card : TransferCard) (state next : CardState) : TransferCard :=
  { card with
    dto := { card.dto with state := asStr next }
    lastTransition := some (asStr state, asStr next) }

/-- `TransferCard::apply`: whether the event is taken, and the card after it. -/
def apply (card : TransferCard) (ev : CardEvent) (nowMs : Int) : Bool × TransferCard :=
  match stateFromStr card.dto.state with
  | none => (false, card)
  | some state =>
    if state = .done ∨ state = .failed ∨ state = .interrupted then (false, card)
    else
      match card.edge nowMs state ev with
      | none => (false, card)
      | some (card, none) => (true, card)
      | some (card, some next) => (true, card.enter state next)

/-- `take_last_transition`. -/
def takeLastTransition (card : TransferCard) : Option (String × String) × TransferCard :=
  (card.lastTransition, { card with lastTransition := none })

/-- The transition that `apply` records for an event. -/
def recorded (card : TransferCard) (ev : CardEvent) (nowMs : Int) : Option (String × String) :=
  (card.takeLastTransition.2.apply ev nowMs).2.lastTransition

/-- A card under a sequence of events with their times: what `apply` answers and records. -/
def machine : Reactor TransferCard (CardEvent × Int) (Bool × Option (String × String)) :=
  fun card input =>
    (((card.apply input.1 input.2).1, card.recorded input.1 input.2),
      (card.apply input.1 input.2).2)

end TransferCard

end Desktop

namespace Ffi

/-- `TransferDto` of the mobile crate. -/
structure TransferDto where
  jobId : Nat
  name : String
  total : Nat
  done : Nat
  state : String
  speedBps : Nat
  peer : String
  direction : String
  localRole : String
  progressPercent : Nat
  etaSecs : Int
  failReason : String
  localPath : Option String
  remoteDone : Nat
  instant : Bool
  queuePos : Option Nat
  batchId : Option String
  children : List ChildDto
  partsId : Option String
  startedAtMs : Option Int
  finishedAtMs : Option Int
  sourcePath : Option String
  health : Option HealthDto
deriving DecidableEq

/-- `CardState::as_str`. -/
def asStr : CardState → String
  | .pending => "pending"
  | .active => "active"
  | .paused => "paused"
  | .cancelling => "cancelling"
  | .done => "done"
  | .failed => "failed"
  | .interrupted => "interrupted"

/-- `state_from_str`. -/
def stateFromStr : String → Option CardState
  | "pending" => some .pending
  | "active" => some .active
  | "paused" => some .paused
  | "cancelling" => some .cancelling
  | "done" => some .done
  | "failed" => some .failed
  | "interrupted" => some .interrupted
  | _ => none

/-- `is_terminal`. -/
def isTerminal (state : String) : Bool :=
  state == "done" || state == "failed" || state == "interrupted"

/-- `TransferCard` of the mobile crate. -/
structure TransferCard where
  dto : TransferDto
  engineId : Option Nat
  removed : Bool
  cancellingSinceMs : Option Int
  lastTransition : Option (String × String)
deriving DecidableEq

namespace TransferCard

/-- `TransferCard::new`. -/
def new (dto : TransferDto) : TransferCard :=
  { dto := dto, engineId := none, removed := false, cancellingSinceMs := none,
    lastTransition := none }

/-- `record_fail`: without a reason the text that is there stays. -/
def recordFail (card : TransferCard) (reason : Option String) (nowMs : Int) : TransferCard :=
  let failReason := match reason with
    | some r => r
    | none => card.dto.failReason
  { card with dto := { card.dto with
      failReason := failReason, speedBps := 0, finishedAtMs := some nowMs } }

/-- The table of `apply`, as on the desktop. -/
def edge (card : TransferCard) (nowMs : Int) :
    CardState → CardEvent → Option (TransferCard × Option CardState)
  | .pending, .started =>
    some ({ card with dto := { card.dto with startedAtMs := some nowMs } }, some .active)
  | .pending, .queueTimeout =>
    some ({ card with dto := { card.dto with failReason := "排队超时" } }, some .failed)
  | .pending, .failed reason => some (card.recordFail reason nowMs, some .failed)
  | .pending, .cancelRequested =>
    some ({ card with cancellingSinceMs := some nowMs }, some .cancelling)
  | .active, .progress done total speedBps remoteDone health =>
    let health := match health with
      | some h => some h
      | none => card.dto.health
    some ({ card with dto := { card.dto with
      done := done, total := total, speedBps := speedBps, remoteDone := remoteDone,
      health := health } }, none)
  | .active, .paused => some ({ card with dto := { card.dto with speedBps := 0 } }, some .paused)
  | .active, .failed reason => some (card.recordFail reason nowMs, some .failed)
  | .active, .finished =>
    some ({ card with dto := { card.dto with
      done := card.dto.total, speedBps := 0, finishedAtMs := some nowMs } }, some .done)
  | .active, .interrupted =>
    some ({ card with dto := { card.dto with
      speedBps := 0, finishedAtMs := some nowMs } }, some .interrupted)
  | .active, .cancelRequested =>
    some ({ card with cancellingSinceMs := some nowMs }, some .cancelling)
  | .paused, .resumed => some (card, some .active)
  | .paused, .failed reason => some (card.recordFail reason nowMs, some .failed)
  | .paused, .interrupted =>
    some ({ card with dto := { card.dto with
      speedBps := 0, finishedAtMs := some nowMs } }, some .interrupted)
  | .paused, .finished =>
    some ({ card with dto := { card.dto with
      done := card.dto.total, speedBps := 0, finishedAtMs := some nowMs } }, some .done)
  | .paused, .cancelRequested =>
    some ({ card with cancellingSinceMs := some nowMs }, some .cancelling)
  | .cancelling, .cancelConfirmed => some (card, none)
  | .cancelling, .failed reason =>
    some ({ card with cancellingSinceMs := none }.recordFail reason nowMs, some .failed)
  | .cancelling, .interrupted =>
    some ({ card with
      cancellingSinceMs := none,
      dto := { card.dto with speedBps := 0, finishedAtMs := some nowMs } }, some .interrupted)
  | .cancelling, .finished =>
    some ({ card with
      cancellingSinceMs := none,
      dto := { card.dto with
        done := card.dto.total, speedBps := 0, finishedAtMs := some nowMs } }, some .done)
  | _, _ => none

/-- The end of `apply`. -/
def enter (card : TransferCard) (state next : CardState) : TransferCard :=
  { card with
    dto := { card.dto with state := asStr next }
    lastTransition := some (asStr state, asStr next) }

/-- `TransferCard::apply`. -/
def apply (card : TransferCard) (ev : CardEvent) (nowMs : Int) : Bool × TransferCard :=
  match stateFromStr card.dto.state with
  | none => (false, card)
  | some state =>
    if isTerminal (asStr state) then (false, card)
    else
      match card.edge nowMs state ev with
      | none => (false, card)
      | some (card, none) => (true, card)
      | some (card, some next) => (true, card.enter state next)

/-- `take_last_transition`. -/
def takeLastTransition (card : TransferCard) : Option (String × String) × TransferCard :=
  (card.lastTransition, { card with lastTransition := none })

/-- The transition that `apply` records for an event. -/
def recorded (card : TransferCard) (ev : CardEvent) (nowMs : Int) : Option (String × String) :=
  (card.takeLastTransition.2.apply ev nowMs).2.lastTransition

/-- A card under a sequence of events with their times: what `apply` answers and records. -/
def machine : Reactor TransferCard (CardEvent × Int) (Bool × Option (String × String)) :=
  fun card input =>
    (((card.apply input.1 input.2).1, card.recorded input.1 input.2),
      (card.apply input.1 input.2).2)

end TransferCard

/-- A mobile row with the fields of a desktop row: no reason is the empty reason, and what only the
mobile row has stays its own. -/
def TransferDto.carrying (own : TransferDto) (dto : Desktop.TransferDto) : TransferDto :=
  { own with
    jobId := dto.jobId
    name := dto.name
    total := dto.total
    done := dto.done
    state := dto.state
    speedBps := dto.speedBps
    peer := dto.peer
    direction := dto.direction
    localRole := dto.localRole
    failReason := dto.failReason.getD ""
    remoteDone := dto.remoteDone
    instant := dto.instant
    queuePos := dto.queuePos
    batchId := dto.batchId
    children := dto.children
    partsId := dto.partsId
    startedAtMs := dto.startedAtMs
    finishedAtMs := dto.finishedAtMs
    sourcePath := dto.sourcePath
    health := dto.health }

end Ffi

/-- Cards of the two crates that stand for the same transfer: the same row up to how a missing
reason is written, and the same time of the request to cancel. -/
structure Corresponds (card : Desktop.TransferCard) (mobile : Ffi.TransferCard) : Prop where
  dto : mobile.dto = mobile.dto.carrying card.dto
  stamp : mobile.cancellingSinceMs = card.cancellingSinceMs

variable {card : Desktop.TransferCard} {mobile : Ffi.TransferCard}

/-- What the two tables answer: both refuse, or both go on to the same state with cards that
correspond and hold records they did not touch. -/
def SameEdge (card : Desktop.TransferCard) (mobile : Ffi.TransferCard) :
    Option (Desktop.TransferCard × Option CardState) →
      Option (Ffi.TransferCard × Option CardState) → Prop
  | none, none => True
  | some (card', next), some (mobile', next') =>
    Corresponds card' mobile' ∧ next = next' ∧
      card'.lastTransition = card.lastTransition ∧
        mobile'.lastTransition = mobile.lastTransition
  | _, _ => False

namespace Corresponds

/-- The mobile row is written with what it has for itself. -/
theorem exists_own (h : Corresponds card mobile) :
    ∃ own : Ffi.TransferDto, mobile = { mobile with
      dto := own.carrying card.dto, cancellingSinceMs := card.cancellingSinceMs } := by
  obtain ⟨hdto, hstamp⟩ := h
  refine ⟨mobile.dto, ?_⟩
  rw [← hdto, ← hstamp]

theorem state_eq (h : Corresponds card mobile) : mobile.dto.state = card.dto.state := by
  rw [h.dto]
  rfl

/-- A failure is written alike into both rows, with a reason or without one. -/
theorem record_fail (h : Corresponds card mobile) (reason : Option String) (nowMs : Int) :
    Corresponds (card.recordFail reason nowMs) (mobile.recordFail reason nowMs) := by
  obtain ⟨own, hmobile⟩ := h.exists_own
  rw [hmobile]
  cases reason with
  | none => exact ⟨rfl, rfl⟩
  | some text => exact ⟨rfl, rfl⟩

/-- The two tables agree on every state and event. -/
theorem edge (h : Corresponds card mobile) (nowMs : Int) (state : CardState) (ev : CardEvent) :
    SameEdge card mobile (card.edge nowMs state ev) (mobile.edge nowMs state ev) := by
  have hfail := h.record_fail
  obtain ⟨own, hmobile⟩ := h.exists_own
  cases state with
  | pending =>
    cases ev with
    | started | queueTimeout | cancelRequested =>
      rw [hmobile]
      exact ⟨⟨rfl, rfl⟩, rfl, rfl, rfl⟩
    | failed reason => exact ⟨hfail reason nowMs, rfl, rfl, rfl⟩
    | _ => trivial
  | active =>
    cases ev with
    | progress done total speedBps remoteDone health =>
      rw [hmobile]
      cases health with
      | none => exact ⟨⟨rfl, rfl⟩, rfl, rfl, rfl⟩
      | some health => exact ⟨⟨rfl, rfl⟩, rfl, rfl, rfl⟩
    | paused | finished | interrupted | cancelRequested =>
      rw [hmobile]
      exact ⟨⟨rfl, rfl⟩, rfl, rfl, rfl⟩
    | failed reason => exact ⟨hfail reason nowMs, rfl, rfl, rfl⟩
    | _ => trivial
  | paused =>
    cases ev with
    | resumed | finished | interrupted | cancelRequested =>
      rw [hmobile]
      exact ⟨⟨rfl, rfl⟩, rfl, rfl, rfl⟩
    | failed reason => exact ⟨hfail reason nowMs, rfl, rfl, rfl⟩
    | _ => trivial
  | cancelling =>
    cases ev with
    | cancelConfirmed | finished | interrupted =>
      rw [hmobile]
      exact ⟨⟨rfl, rfl⟩, rfl, rfl, rfl⟩
    | failed reason =>
      -- the stamp of the request to cancel is cleared before the failure is recorded
      have hcleared : Corresponds { card with cancellingSinceMs := none }
          { mobile with cancellingSinceMs := none } := ⟨h.dto, rfl⟩
      exact ⟨hcleared.record_fail reason nowMs, rfl, rfl, rfl⟩
    | _ => trivial
  | done | failed | interrupted =>
    cases ev with
    | _ => trivial

/-- Cards that correspond still do when both enter a state. -/
theorem enter (h : Corresponds card mobile) (state next : CardState) :
    Corresponds (card.enter state next) (mobile.enter state next) := by
  obtain ⟨own, hmobile⟩ := h.exists_own
  rw [hmobile]
  cases next with
  | _ => exact ⟨rfl, rfl⟩

theorem cleared (h : Corresponds card mobile) :
    Corresponds card.takeLastTransition.2 mobile.takeLastTransition.2 := ⟨h.dto, h.stamp⟩

end Corresponds

theorem as_str_agree (state : CardState) : Ffi.asStr state = Desktop.asStr state := by
  cases state with
  | _ => rfl

theorem state_from_str_agree (text : String) :
    Ffi.stateFromStr text = Desktop.stateFromStr text := rfl

/-- Both crates stop at the same states. -/
theorem is_terminal_iff (state : CardState) :
    Ffi.isTerminal (Ffi.asStr state) ↔
      state = .done ∨ state = .failed ∨ state = .interrupted := by
  cases state with
  | _ => decide

/-- One event, on cards that correspond: taken by both or by neither, and they correspond after it.
Where they held the same record before, they hold the same record after. -/
theorem apply_agree (h : Corresponds card mobile) (ev : CardEvent) (nowMs : Int) :
    (card.apply ev nowMs).1 = (mobile.apply ev nowMs).1 ∧
      Corresponds (card.apply ev nowMs).2 (mobile.apply ev nowMs).2 ∧
        (card.lastTransition = mobile.lastTransition →
          (card.apply ev nowMs).2.lastTransition = (mobile.apply ev nowMs).2.lastTransition) := by
  unfold Desktop.TransferCard.apply Ffi.TransferCard.apply
  rw [h.state_eq, state_from_str_agree]
  cases hstate : Desktop.stateFromStr card.dto.state with
  | none => exact ⟨rfl, h, id⟩
  | some state =>
    simp only [is_terminal_iff]
    by_cases hterminal : state = .done ∨ state = .failed ∨ state = .interrupted
    · simp only [if_pos hterminal]
      exact ⟨trivial, h, id⟩
    · simp only [if_neg hterminal]
      have hedge := h.edge nowMs state ev
      cases hcard : card.edge nowMs state ev with
      | none =>
        cases hmobile : mobile.edge nowMs state ev with
        | none => exact ⟨rfl, h, id⟩
        | some found => simp [hcard, hmobile, SameEdge] at hedge
      | some found =>
        obtain ⟨card', next⟩ := found
        cases hmobile : mobile.edge nowMs state ev with
        | none => simp [hcard, hmobile, SameEdge] at hedge
        | some found =>
          obtain ⟨mobile', next'⟩ := found
          rw [hcard, hmobile] at hedge
          obtain ⟨hnext, rfl, hlast, hlast'⟩ := hedge
          cases next with
          | none => exact ⟨rfl, hnext, fun hsame => hlast.trans (hsame.trans hlast'.symm)⟩
          | some next =>
            refine ⟨rfl, hnext.enter state next, fun _ => ?_⟩
            simp only [Desktop.TransferCard.enter, Ffi.TransferCard.enter, as_str_agree]

/-- One event is recorded alike on cards that correspond, whatever records they held. -/
theorem recorded_agree (h : Corresponds card mobile) (ev : CardEvent) (nowMs : Int) :
    card.recorded ev nowMs = mobile.recorded ev nowMs :=
  (apply_agree h.cleared ev nowMs).2.2 rfl

theorem cards_lockstep :
    Lockstep Desktop.TransferCard.machine Ffi.TransferCard.machine Corresponds := by
  intro card mobile input h
  obtain ⟨haccepted, hnext, -⟩ := apply_agree h input.1 input.2
  exact ⟨Prod.ext haccepted (recorded_agree h input.1 input.2), hnext⟩

/-- On cards that correspond, the two crates take the same events of every sequence and record the
same transitions, and the cards correspond after it. -/
theorem card_machines_agree (card : Desktop.TransferCard) (mobile : Ffi.TransferCard)
    (h : Corresponds card mobile) (inputs : List (CardEvent × Int)) :
    Desktop.TransferCard.machine.answers card inputs =
        Ffi.TransferCard.machine.answers mobile inputs ∧
      Corresponds (Desktop.TransferCard.machine.after card inputs)
        (Ffi.TransferCard.machine.after mobile inputs) :=
  cards_lockstep.run h inputs

/-- The row of a new download on the desktop. -/
def sampleRow : Desktop.TransferDto where
  jobId := 1
  name := "t.bin"
  total := 100
  done := 0
  state := "pending"
  speedBps := 0
  peer := "aa"
  direction := "pull"
  localRole := "destination"
  health := none
  startedAtMs := none
  finishedAtMs := none
  sourcePath := none
  failReason := none
  remoteDone := 0
  instant := false
  queuePos := none
  batchId := none
  children := []
  partsId := none

/-- The row of the same download on the phone. -/
def sampleMobileRow : Ffi.TransferDto where
  jobId := 1
  name := "t.bin"
  total := 100
  done := 0
  state := "pending"
  speedBps := 0
  peer := "aa"
  direction := "pull"
  localRole := "destination"
  progressPercent := 0
  etaSecs := -1
  failReason := ""
  localPath := none
  remoteDone := 0
  instant := false
  queuePos := none
  batchId := none
  children := []
  partsId := none
  startedAtMs := none
  finishedAtMs := none
  sourcePath := none
  health := none

/-- A download that is refused a pause before it starts, starts, and fails without a reason. -/
def sampleEvents : List (CardEvent × Int) :=
  [(.paused, 5), (.started, 6), (.progress 40 100 10 0 none, 7), (.failed none, 8), (.started, 9)]

theorem card_machines_agree_sample :
    Desktop.TransferCard.machine.answers (.new sampleRow) sampleEvents =
        Ffi.TransferCard.machine.answers (.new sampleMobileRow) sampleEvents ∧
      Corresponds (Desktop.TransferCard.machine.after (.new sampleRow) sampleEvents)
        (Ffi.TransferCard.machine.after (.new sampleMobileRow) sampleEvents) :=
  card_machines_agree (.new sampleRow) (.new sampleMobileRow) ⟨rfl, rfl⟩ sampleEvents

end LocalTrans
