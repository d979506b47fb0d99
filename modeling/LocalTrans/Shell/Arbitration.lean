import LocalTrans.Foundation.Execution
import LocalTrans.Foundation.Places
import LocalTrans.Shell.Children

/-!
# The arbitration of a deletion

`destroy_transfer` on a card that is under way asks the engine to stop, makes the card `cancelling`
and hangs a watchdog. A terminal event of the engine, or the watchdog after five seconds, then goes
through `finalize_destroy`, which takes the watchdog's handle and aborts it, removes the card and
starts to remove its parts. `ArbiterDesk` is the table of cards with the handles and the tasks, and
a step of a task goes from one await point to the next. A task that was aborted goes on until it has
to wait and is dropped then, so a watchdog that aborts itself survives only if it finds every lock
free. `arbitration_run` is the result for the runs in which it does.
-/

namespace LocalTrans.Desktop

open Foundation

namespace TransferCard

variable {card : TransferCard} {ev : CardEvent} {nowMs : Int}

/-- What an event does that is taken: a card that is being cancelled stays as it is or is finished,
and only a request to cancel makes any other card `cancelling`. -/
theorem apply_taken (card : TransferCard) (ev : CardEvent) (nowMs : Int) :
    card.apply ev nowMs = (false, card) ∨
      ((card.apply ev nowMs).1 = true ∧ ¬ IsTerminal card.dto.state ∧
        ((card.dto.state ≠ "cancelling" ∧
            ((card.apply ev nowMs).2.dto.state = "cancelling" → ev = .cancelRequested)) ∨
          (card.dto.state = "cancelling" ∧ (card.apply ev nowMs).2 = card) ∨
          (card.dto.state = "cancelling" ∧ ev ≠ .cancelRequested ∧
            IsTerminal (card.apply ev nowMs).2.dto.state ∧
            (card.apply ev nowMs).2.lastTransition =
              some ("cancelling", (card.apply ev nowMs).2.dto.state)))) := by
  rcases apply_cases card ev nowMs with h | ⟨state, found, next, hstate, hedge, h⟩
  · exact .inl h
  · rw [h, hstate]
    cases state with
    | pending =>
      refine .inr ⟨rfl, by decide, .inl ⟨by decide, fun hcancelling => ?_⟩⟩
      cases ev with
      | cancelRequested => rfl
      | started | queueTimeout | failed _ =>
        obtain ⟨rfl, rfl⟩ := answer_inj hedge
        exact absurd hcancelling (by simp [enter, asStr])
      | _ => cases hedge
    | active =>
      refine .inr ⟨rfl, by decide, .inl ⟨by decide, fun hcancelling => ?_⟩⟩
      cases ev with
      | cancelRequested => rfl
      | progress _ _ _ _ _ =>
        obtain ⟨rfl, rfl⟩ := answer_inj hedge
        exact absurd (hstate.symm.trans hcancelling) (by decide)
      | paused | failed _ | finished | interrupted =>
        obtain ⟨rfl, rfl⟩ := answer_inj hedge
        exact absurd hcancelling (by simp [enter, asStr])
      | _ => cases hedge
    | paused =>
      refine .inr ⟨rfl, by decide, .inl ⟨by decide, fun hcancelling => ?_⟩⟩
      cases ev with
      | cancelRequested => rfl
      | resumed | failed _ | finished | interrupted =>
        obtain ⟨rfl, rfl⟩ := answer_inj hedge
        exact absurd hcancelling (by simp [enter, asStr])
      | _ => cases hedge
    | cancelling =>
      refine .inr ⟨rfl, by decide, .inr ?_⟩
      cases ev with
      | cancelConfirmed =>
        obtain ⟨rfl, rfl⟩ := answer_inj hedge
        exact .inl ⟨rfl, rfl⟩
      | failed _ | finished | interrupted =>
        obtain ⟨rfl, rfl⟩ := answer_inj hedge
        exact .inr ⟨rfl, by simp, by simp [enter, asStr, IsTerminal], rfl⟩
      | _ => cases hedge
    | done | failed | interrupted => cases hedge

end TransferCard

/-- Where a task waits: a call of `destroy_transfer`, a watchdog, or either of them or the handler
of an event in `finalize_destroy`. -/
inductive ArbiterPoint where
  | checking
  | requesting
  | confirming
  | stopping
  | hanging
  | sleeping
  | woken
  | forgetting
  | takingHandle
  | readingRow
  | resolving
  | removingRow
  | readingConfig
  | ended
deriving DecidableEq

/-- A task of the arbitration: the card it is about, where it waits, and whether it was aborted. -/
structure ArbiterTask where
  card : Nat
  point : ArbiterPoint
  aborted : Bool
deriving DecidableEq

/-- The table of cards, the handles of the watchdogs, and the tasks. A handle names its task by its
place in the list. -/
structure ArbiterDesk where
  cards : Nat → Option TransferCard
  nextCard : Nat
  watchdogs : Nat → Option Nat
  tasks : List ArbiterTask

/-- What happens: cards are made, the engine reports an event, the user destroys a card, and a task
gets the lock it waits for or has to wait. -/
inductive ArbiterInput where
  | create (dto : TransferDto)
  | event (card : Nat) (ev : CardEvent) (nowMs : Int)
  | destroy (card : Nat)
  | advance (task : Nat) (nowMs : Int)
  | wait (task : Nat)

/-- What is seen of a run: `destroy_transfer` takes a card to be destroyed, the row of a card is
removed, and so are its parts. -/
inductive DestroyEvent where
  | taken (card : Nat)
  | row (card : Nat)
  | parts (card : Nat)
deriving DecidableEq

namespace ArbiterDesk

/-- The state of a card in the table. -/
def stateOf (s : ArbiterDesk) (card : Nat) : Option String :=
  (s.cards card).map fun found => found.dto.state

/-- A card is written back to the table. -/
def setCard (s : ArbiterDesk) (card : Nat) (found : TransferCard) : ArbiterDesk :=
  { s with cards := fun id => if id = card then some found else s.cards id }

/-- A new task. -/
def spawn (s : ArbiterDesk) (card : Nat) (point : ArbiterPoint) : ArbiterDesk :=
  { s with tasks := s.tasks ++ [{ card := card, point := point, aborted := false }] }

/-- A task goes on to another await point. -/
def goTo (s : ArbiterDesk) (i : Nat) (task : ArbiterTask) (point : ArbiterPoint) : ArbiterDesk :=
  { s with tasks := s.tasks.set i { task with point := point } }

/-- `JoinHandle::abort`. -/
def abort (s : ArbiterDesk) (i : Nat) : ArbiterDesk :=
  match s.tasks[i]? with
  | none => s
  | some task => { s with tasks := s.tasks.set i { task with aborted := true } }

/-- `card_apply`. A card that was `cancelling` and is finished by the event goes through
`finalize_destroy`. -/
def cardApply (s : ArbiterDesk) (card : Nat) (ev : CardEvent) (nowMs : Int) : ArbiterDesk :=
  match s.cards card with
  | none => s
  | some found =>
    let (accepted, after) := found.apply ev nowMs
    if accepted then
      let (transition, after) := after.takeLastTransition
      let nowTerminal : Bool := match transition with
        | some (_, next) => decide (IsTerminal next)
        | none => false
      if found.dto.state = "cancelling" ∧ nowTerminal = true then
        (s.setCard card after).spawn card .takingHandle
      else s.setCard card after
    else s

/-- One task, from the await point it waits at to the next. -/
def advance (s : ArbiterDesk) (i : Nat) (task : ArbiterTask) (nowMs : Int) :
    Option (ArbiterDesk × List DestroyEvent) :=
  match task.point with
  -- `destroy_transfer`
  | .checking =>
    match s.stateOf task.card with
    | none => some (s.goTo i task .ended, [])
    | some state =>
      if IsTerminal state then some (s.goTo i task .takingHandle, [.taken task.card])
      else some (s.goTo i task .requesting, [])
  | .requesting =>
    some ((s.cardApply task.card .cancelRequested nowMs).goTo i task .confirming, [])
  | .confirming =>
    if s.stateOf task.card = some "cancelling" then
      some (s.goTo i task .stopping, [.taken task.card])
    else some (s.goTo i task .ended, [])
  | .stopping => some (s.goTo i task .hanging, [])
  | .hanging =>
    match s.watchdogs task.card with
    | some _ => some (s.goTo i task .ended, [])
    | none =>
      some (({ s with
        watchdogs := fun id => if id = task.card then some s.tasks.length else s.watchdogs id
      }.goTo i task .ended).spawn task.card .sleeping, [])
  -- the watchdog
  | .sleeping => if task.aborted then none else some (s.goTo i task .woken, [])
  | .woken =>
    if s.stateOf task.card = some "cancelling" then some (s.goTo i task .takingHandle, [])
    else some (s.goTo i task .forgetting, [])
  | .forgetting =>
    some ({ s with
      watchdogs := fun id => if id = task.card then none else s.watchdogs id
    }.goTo i task .ended, [])
  -- `finalize_destroy`
  | .takingHandle =>
    match s.watchdogs task.card with
    | none => some (s.goTo i task .readingRow, [])
    | some handle =>
      some (({ s with
        watchdogs := fun id => if id = task.card then none else s.watchdogs id
      }.goTo i task .readingRow).abort handle, [])
  | .readingRow => some (s.goTo i task .resolving, [])
  | .resolving => some (s.goTo i task .removingRow, [])
  | .removingRow =>
    match s.cards task.card with
    | none => some (s.goTo i task .ended, [])
    | some _ =>
      some ({ s with
        cards := fun id => if id = task.card then none else s.cards id
      }.goTo i task .readingConfig, [.row task.card])
  | .readingConfig =>
    -- the removal of the directory is started in the same poll, and goes on by itself
    some (s.goTo i task .ended, [.parts task.card])
  | .ended => none

/-- One step. -/
def step : Machine ArbiterDesk ArbiterInput DestroyEvent
  | s, .create dto =>
    if dto.state = "cancelling" then none
    else some ({ s.setCard s.nextCard (.new dto) with nextCard := s.nextCard + 1 }, [])
  | s, .event card ev nowMs =>
    if ev = .cancelRequested then none else some (s.cardApply card ev nowMs, [])
  | s, .destroy card => some (s.spawn card .checking, [])
  | s, .advance i nowMs =>
    match s.tasks[i]? with
    | none => none
    | some task => s.advance i task nowMs
  | s, .wait i =>
    match s.tasks[i]? with
    | none => none
    | some task => if task.aborted then some (s.goTo i task .ended, []) else some (s, [])

/-- A desk without cards and tasks. -/
def empty : ArbiterDesk where
  cards _ := none
  nextCard := 0
  watchdogs _ := none
  tasks := []

end ArbiterDesk

namespace ArbiterTask

/-- The task is in `finalize_destroy` and has not tried to remove the row yet. -/
def Finalizing (task : ArbiterTask) : Prop :=
  task.point = .readingRow ∨ task.point = .resolving ∨ task.point = .removingRow
deriving Decidable

/-- The task will remove the card: it is in `finalize_destroy`, or enters it and nobody aborted
it. -/
def WillFinish (task : ArbiterTask) : Prop :=
  task.Finalizing ∨ (task.aborted = false ∧ task.point = .takingHandle)
deriving Decidable

/-- The task will remove the card if it is still being cancelled: it is a call that is about to hang
a watchdog, a watchdog that nobody aborted, or it is in `finalize_destroy`. -/
def WillRemove (task : ArbiterTask) : Prop :=
  task.Finalizing ∨
    (task.aborted = false ∧
      (task.point = .confirming ∨ task.point = .stopping ∨ task.point = .hanging ∨
        task.point = .sleeping ∨ task.point = .woken ∨ task.point = .takingHandle))
deriving Decidable

variable {task : ArbiterTask}

theorem WillFinish.will_remove (h : task.WillFinish) : task.WillRemove := by
  rcases h with h | ⟨halive, hpoint⟩
  · exact .inl h
  · exact .inr ⟨halive, .inr (.inr (.inr (.inr (.inr hpoint))))⟩

end ArbiterTask

namespace ArbiterDesk

/-- The task will remove its card, as the card is now. -/
def Removes (s : ArbiterDesk) (task : ArbiterTask) : Prop :=
  task.WillFinish ∨ (s.stateOf task.card = some "cancelling" ∧ task.WillRemove)
deriving Decidable

theorem Removes.will_remove {s : ArbiterDesk} {task : ArbiterTask} (h : s.Removes task) :
    task.WillRemove :=
  h.elim ArbiterTask.WillFinish.will_remove And.right

theorem Removes.will_finish {s : ArbiterDesk} {task : ArbiterTask} (h : s.Removes task)
    (hstate : s.stateOf task.card ≠ some "cancelling") : task.WillFinish :=
  h.resolve_right fun hright => hstate hright.1

/-- A task other than the given one will remove the card. -/
def Relieved (s : ArbiterDesk) (i card : Nat) : Prop :=
  ∃ (j : Nat) (other : ArbiterTask), s.tasks[j]? = some other ∧ j ≠ i ∧ other.card = card ∧
    s.Removes other

/-- What a run keeps to: an aborted task that took the handle does not have to wait for a lock,
unless it has not removed the row, and the row is gone or another task is about to remove it. -/
def LocksFree : Guard ArbiterDesk ArbiterInput DestroyEvent
  | _, s, .wait i =>
    match s.tasks[i]? with
    | none => True
    | some task => task.aborted = true →
        task.point ≠ .readingConfig ∧
          (task.Finalizing → s.cards task.card = none ∨ s.Relieved i task.card)
  | _, _, _ => True

/-- All tasks have ended. -/
def Quiet (s : ArbiterDesk) : Prop := ∀ task ∈ s.tasks, task.point = .ended

/-- The arbitration holds: a card in `cancelling` has a task that will remove it; no card is removed
twice, and its parts never without it and no more than once; and once all tasks have ended, no card
is left in `cancelling`, and every card that was taken to be destroyed is removed with its parts. -/
structure Arbitrated (trace : List DestroyEvent) (s : ArbiterDesk) : Prop where
  covered : ∀ card, s.stateOf card = some "cancelling" →
    ∃ task ∈ s.tasks, task.card = card ∧ task.WillRemove
  once : ∀ card, trace.count (.parts card) ≤ trace.count (.row card) ∧ trace.count (.row card) ≤ 1
  quiet : s.Quiet → ∀ card, s.stateOf card ≠ some "cancelling" ∧
    (.taken card ∈ trace → trace.count (.row card) = 1 ∧ trace.count (.parts card) = 1)

variable {s next : ArbiterDesk} {i j card handle : Nat} {task other : ArbiterTask}
  {trace : List DestroyEvent}

/-- The tasks after one of them went on. -/
theorem get_go_to (htask : s.tasks[i]? = some task) {point : ArbiterPoint} :
    (s.goTo i task point).tasks[j]? =
      if j = i then some { task with point := point } else s.tasks[j]? :=
  get_set htask

/-- The tasks after a new one was spawned. -/
theorem get_spawn {point : ArbiterPoint} :
    (s.spawn card point).tasks[j]? =
      if j = s.tasks.length then some { card := card, point := point, aborted := false }
      else s.tasks[j]? :=
  get_append

/-- The card is being cancelled, was finished, or is gone. -/
def Past (s : ArbiterDesk) (card : Nat) : Prop :=
  ∀ found, s.cards card = some found →
    found.dto.state = "cancelling" ∨ IsTerminal found.dto.state

/-- The card was finished or is gone. -/
def Gone (s : ArbiterDesk) (card : Nat) : Prop :=
  ∀ found, s.cards card = some found → IsTerminal found.dto.state

/-- The points of a call or a watchdog that found the card `cancelling`. -/
def SawCancelling (point : ArbiterPoint) : Prop :=
  point = .stopping ∨ point = .hanging ∨ point = .sleeping ∨ point = .woken
deriving Decidable

/-- The points of a watchdog before it takes its handle. -/
def Watching (point : ArbiterPoint) : Prop :=
  point = .sleeping ∨ point = .woken ∨ point = .forgetting ∨ point = .takingHandle
deriving Decidable

/-- The points of a call before it is done. -/
def Calling (point : ArbiterPoint) : Prop :=
  point = .checking ∨ point = .requesting ∨ point = .confirming ∨ point = .stopping ∨
    point = .hanging
deriving Decidable

/-- A task that has removed the row of the card, and not started to remove its parts. -/
def holdsParts (card : Nat) (task : ArbiterTask) : Bool :=
  task.card == card && task.point == .readingConfig

/-- What the desk keeps. -/
structure ArbiterInv (trace : List DestroyEvent) (s : ArbiterDesk) : Prop where
  known : ∀ (j : Nat) (task : ArbiterTask), s.tasks[j]? = some task → task.point ≠ .checking →
    task.point ≠ .ended → task.card < s.nextCard
  fresh : ∀ card, s.nextCard ≤ card → s.cards card = none
  plain : ∀ card (found : TransferCard), s.cards card = some found → found.lastTransition = none
  handle : ∀ card w, s.watchdogs card = some w → ∃ task : ArbiterTask, s.tasks[w]? = some task ∧
    task.card = card ∧ task.aborted = false ∧ Watching task.point
  past : ∀ (j : Nat) (task : ArbiterTask), s.tasks[j]? = some task → SawCancelling task.point →
    s.Past task.card
  gone : ∀ (j : Nat) (task : ArbiterTask), s.tasks[j]? = some task → task.point = .forgetting →
    s.Gone task.card
  covered : ∀ card, s.stateOf card = some "cancelling" →
    ∃ (j : Nat) (task : ArbiterTask), s.tasks[j]? = some task ∧ task.card = card ∧ task.WillRemove
  parts : ∀ card, trace.count (.parts card) + s.tasks.countP (holdsParts card) =
    trace.count (.row card)
  removed : ∀ card, 0 < trace.count (.row card) → s.cards card = none ∧ card < s.nextCard
  once : ∀ card, trace.count (.row card) ≤ 1
  calls : ∀ (j : Nat) (task : ArbiterTask), s.tasks[j]? = some task → Calling task.point →
    task.aborted = false
  missing : ∀ card, card < s.nextCard → s.cards card = none → 0 < trace.count (.row card)
  taken : ∀ card, .taken card ∈ trace → card < s.nextCard
  finishing : ∀ card, .taken card ∈ trace → ∀ found, s.cards card = some found →
    found.dto.state ≠ "cancelling" → ∃ (j : Nat) (task : ArbiterTask), s.tasks[j]? = some task ∧
      task.card = card ∧ task.WillFinish

namespace ArbiterInv

/-- A task goes on, and neither the cards nor the handles change. -/
theorem go_to (h : ArbiterInv trace s) (htask : s.tasks[i]? = some task) (point : ArbiterPoint)
    (hknown : point ≠ .checking → point ≠ .ended → task.card < s.nextCard)
    (hhandle : s.watchdogs task.card = some i → Watching point)
    (hpast : SawCancelling point → s.Past task.card)
    (hgone : point = .forgetting → s.Gone task.card)
    (hgoes : s.cards task.card ≠ none → s.Removes task →
      s.Removes { task with point := point } ∨ s.Relieved i task.card)
    (hold : task.point ≠ .readingConfig) (hnew : point ≠ .readingConfig)
    (hcall : Calling point → task.aborted = false) :
    ArbiterInv trace (s.goTo i task point) where
  __ := h
  known := forall_set htask hknown h.known
  handle card w hw := by
    obtain ⟨found, hfound, rfl, halive, hwatching⟩ := h.handle card w hw
    rcases set_cases htask hfound with ⟨rfl, rfl, hset⟩ | ⟨-, hset⟩
    · exact ⟨_, hset _, rfl, halive, hhandle hw⟩
    · exact ⟨found, hset _, rfl, halive, hwatching⟩
  past := forall_set htask hpast h.past
  gone := forall_set htask hgone h.gone
  covered card hcard := by
    obtain ⟨j, found, hfound, rfl, hremoves⟩ := h.covered card hcard
    rcases set_cases htask hfound with ⟨rfl, rfl, hset⟩ | ⟨-, hset⟩
    · have hstate : s.stateOf found.card = some "cancelling" := hcard
      have hthere : s.cards found.card ≠ none := fun hnone => by
        rw [stateOf, hnone] at hstate
        cases hstate
      rcases hgoes hthere (.inr ⟨hstate, hremoves⟩) with
        hsame | ⟨k, other, hother, hne, hsame, hrest⟩
      · exact ⟨j, _, hset _, rfl, hsame.will_remove⟩
      · exact ⟨k, other, (get_go_to htask).trans ((if_neg hne).trans hother), hsame,
          hrest.will_remove⟩
    · exact ⟨j, found, hset _, rfl, hremoves⟩
  parts card := by
    have hsame : holdsParts card { task with point := point } = holdsParts card task := by
      simp only [holdsParts, beq_eq_false_iff_ne.mpr hold, beq_eq_false_iff_ne.mpr hnew]
    show _ + (s.tasks.set i _).countP _ = _
    rw [countP_set_same htask hsame]
    exact h.parts card
  calls := forall_set htask hcall h.calls
  finishing card htaken card' hcard hstate := by
    obtain ⟨j, found, hfound, rfl, hfinishes⟩ := h.finishing card htaken card' hcard hstate
    rcases set_cases htask hfound with ⟨rfl, rfl, hset⟩ | ⟨-, hset⟩
    · have hsome : s.cards found.card = some card' := hcard
      have hthere : s.cards found.card ≠ none := fun hnone => by
        rw [hnone] at hsome
        cases hsome
      have hother : s.stateOf found.card ≠ some "cancelling" := fun heq => by
        rw [stateOf, hsome] at heq
        exact hstate (Option.some.inj heq)
      rcases hgoes hthere (.inl hfinishes) with hsame | ⟨k, other, hk, hne, heq, hrest⟩
      · exact ⟨j, _, hset _, rfl, hsame.will_finish hother⟩
      · exact ⟨k, other, (get_go_to htask).trans ((if_neg hne).trans hk), heq,
          hrest.will_finish (heq ▸ hother)⟩
    · exact ⟨j, found, hset _, rfl, hfinishes⟩

/-- A new task, which is no watchdog that is hung. -/
theorem spawn (h : ArbiterInv trace s) (card : Nat) (point : ArbiterPoint)
    (hknown : point ≠ .checking → card < s.nextCard)
    (hpast : SawCancelling point → s.Past card) (hgone : point ≠ .forgetting)
    (hnew : point ≠ .readingConfig) : ArbiterInv trace (s.spawn card point) where
  __ := h
  known := forall_append (fun hchecking _ => hknown hchecking) h.known
  handle c w hw := by
    obtain ⟨found, hfound, hrest⟩ := h.handle c w hw
    exact ⟨found, get_append_of hfound, hrest⟩
  past := forall_append hpast h.past
  gone := forall_append (fun heq => absurd heq hgone) h.gone
  covered c hc := by
    obtain ⟨j, found, hfound, hrest⟩ := h.covered c hc
    exact ⟨j, found, get_append_of hfound, hrest⟩
  parts c := by
    have hnone : holdsParts c { card := card, point := point, aborted := false } = false := by
      simp only [holdsParts, beq_eq_false_iff_ne.mpr hnew, Bool.and_false]
    show _ + (s.tasks ++ [_]).countP _ = _
    rw [List.countP_append, List.countP_singleton, hnone]
    exact h.parts c
  calls := forall_append (fun _ => rfl) h.calls
  finishing c htaken found hfound hstate := by
    obtain ⟨j, task, htask, hrest⟩ := h.finishing c htaken found hfound hstate
    exact ⟨j, task, get_append_of htask, hrest⟩

/-- A handle leaves the map. -/
theorem forget (h : ArbiterInv trace s) (card : Nat) :
    ArbiterInv trace { s with
      watchdogs := fun id => if id = card then none else s.watchdogs id } where
  __ := h
  handle c w hw := by
    dsimp only at hw
    obtain ⟨-, hw⟩ := of_unless hw
    exact h.handle c w hw

/-- A task that no handle names is aborted. Unless it is in `finalize_destroy`, another task will
remove its card. -/
theorem abort (h : ArbiterInv trace s) (hnamed : ∀ card, s.watchdogs card ≠ some i)
    (hcall : ∀ task : ArbiterTask, s.tasks[i]? = some task → ¬ Calling task.point)
    (hcover : ∀ task : ArbiterTask, s.tasks[i]? = some task → task.Finalizing ∨
      ∃ (j : Nat) (other : ArbiterTask), s.tasks[j]? = some other ∧ j ≠ i ∧
        other.card = task.card ∧ other.WillFinish) :
    ArbiterInv trace (s.abort i) := by
  unfold ArbiterDesk.abort
  split
  · exact h
  · next task htask =>
    exact { h with
      known := forall_set htask (h.known i task htask) h.known
      handle := fun card w hw => by
        obtain ⟨found, hfound, hrest⟩ := h.handle card w hw
        rcases set_cases htask hfound with ⟨rfl, -, -⟩ | ⟨-, hset⟩
        · exact absurd hw (hnamed card)
        · exact ⟨found, hset _, hrest⟩
      past := forall_set htask (h.past i task htask) h.past
      gone := forall_set htask (h.gone i task htask) h.gone
      covered := fun card hcard => by
        obtain ⟨j, found, hfound, rfl, hremoves⟩ := h.covered card hcard
        rcases set_cases htask hfound with ⟨rfl, rfl, hset⟩ | ⟨-, hset⟩
        · rcases hcover found htask with hfinal | ⟨k, other, hk, hne, hother, hfinishes⟩
          · exact ⟨j, _, hset _, rfl, .inl hfinal⟩
          · exact ⟨k, other, (get_set htask).trans ((if_neg hne).trans hk), hother,
              hfinishes.will_remove⟩
        · exact ⟨j, found, hset _, rfl, hremoves⟩
      parts := fun card => by
        show _ + (s.tasks.set i _).countP _ = _
        refine Eq.trans (congrArg _ (countP_set_same htask ?_)) (h.parts card)
        rfl
      calls := forall_set htask (fun hcalling => absurd hcalling (hcall task htask)) h.calls
      finishing := fun card htaken row hrow hstate => by
        obtain ⟨j, found, hfound, rfl, hfinishes⟩ := h.finishing card htaken row hrow hstate
        rcases set_cases htask hfound with ⟨rfl, rfl, hset⟩ | ⟨-, hset⟩
        · rcases hcover found htask with hfinal | ⟨k, other, hk, hne, hrest⟩
          · exact ⟨j, _, hset _, rfl, .inl hfinal⟩
          · exact ⟨k, other, (get_set htask).trans ((if_neg hne).trans hk), hrest⟩
        · exact ⟨j, found, hset _, rfl, hfinishes⟩ }

/-- A call finds no handle of the card: it hangs a watchdog for it. -/
theorem hang (h : ArbiterInv trace s) (hknown : card < s.nextCard) (hpast : s.Past card) :
    ArbiterInv trace ({ s with
      watchdogs := fun id => if id = card then some s.tasks.length else s.watchdogs id
    }.spawn card .sleeping) := by
  have hspawn := h.spawn card .sleeping (fun _ => hknown) (fun _ => hpast)
    (by decide) (by decide)
  refine { hspawn with handle := ?_ }
  intro c w hw
  change (if c = card then some s.tasks.length else s.watchdogs c) = some w at hw
  split at hw
  · next hc =>
    obtain rfl := Option.some.inj hw
    exact ⟨_, by rw [get_spawn]; exact if_pos rfl, hc.symm, rfl, .inl rfl⟩
  · exact hspawn.handle c w hw

/-- The row of the card is removed. -/
theorem remove_row (h : ArbiterInv trace s) (htask : s.tasks[i]? = some task)
    (hpoint : task.point = .removingRow) {found : TransferCard}
    (hfound : s.cards task.card = some found) :
    ArbiterInv (trace ++ [.row task.card]) ({ s with
      cards := fun id => if id = task.card then none else s.cards id
    }.goTo i task .readingConfig) := by
  have hcard : task.card < s.nextCard := h.known i task htask (by simp [hpoint]) (by simp [hpoint])
  have hrows : trace.count (.row task.card) = 0 := by
    by_contra hne
    have hnone := (h.removed task.card (Nat.pos_of_ne_zero hne)).1
    rw [hfound] at hnone
    cases hnone
  have hcount : ∀ c, (trace ++ [DestroyEvent.row task.card]).count (.row c) =
      trace.count (.row c) + if c = task.card then 1 else 0 := by
    intro c
    rw [List.count_append, List.count_singleton]
    by_cases hc : c = task.card
    · simp [hc]
    · simp [hc, Ne.symm hc]
  have hfewer : ∀ c found, (if c = task.card then none else s.cards c) = some found →
      c ≠ task.card ∧ s.cards c = some found := by
    intro c found hc
    obtain ⟨hne, hc⟩ := of_unless hc
    exact ⟨hne, hc⟩
  -- a task that stands for another card stays where it is
  have hstays : ∀ {j : Nat} {other : ArbiterTask}, s.tasks[j]? = some other →
      other.card ≠ task.card → (s.goTo i task .readingConfig).tasks[j]? = some other := by
    intro j other hother hne
    rcases set_cases htask hother with ⟨-, rfl, -⟩ | ⟨-, hset⟩
    · exact absurd rfl hne
    · exact hset _
  refine ⟨forall_set htask (fun _ _ => hcard) h.known, ?_, ?_, ?_, ?_, ?_, ?_, ?_, ?_, ?_, ?_, ?_,
    ?_, ?_⟩
  · intro c hc
    show (if c = task.card then none else s.cards c) = none
    split
    · rfl
    · exact h.fresh c hc
  · intro c other hother
    exact h.plain c other (hfewer c other hother).2
  · intro c w hw
    obtain ⟨other, hother, hcards, halive, hwatching⟩ := h.handle c w hw
    rcases set_cases htask hother with ⟨-, rfl, -⟩ | ⟨-, hset⟩
    · rw [hpoint] at hwatching
      exact absurd hwatching (by decide)
    · exact ⟨other, hset _, hcards, halive, hwatching⟩
  · refine forall_set htask (fun hsaw => ?_) fun j other hold hsaw found hc =>
      h.past j other hold hsaw found (hfewer _ _ hc).2
    have hnot : ¬ SawCancelling .readingConfig := by decide
    exact absurd hsaw hnot
  · exact forall_set htask nofun fun j other hold hforgets found hc =>
      h.gone j other hold hforgets found (hfewer _ _ hc).2
  · intro c hc
    obtain ⟨other, hother, hstate⟩ := Option.map_eq_some_iff.mp hc
    obtain ⟨hne, hother⟩ := hfewer c other hother
    obtain ⟨j, found, hfound, rfl, hremoves⟩ := h.covered c (by
      rw [stateOf, hother]
      exact congrArg some hstate)
    exact ⟨j, found, hstays hfound hne, rfl, hremoves⟩
  · intro c
    have hparts := h.parts c
    have hbefore : holdsParts c task = false := by
      rw [holdsParts, hpoint]
      exact Bool.and_false _
    have hafter : holdsParts c { task with point := .readingConfig } = decide (c = task.card) := by
      by_cases hc : c = task.card
      · simp [holdsParts, hc]
      · simp [holdsParts, hc, Ne.symm hc]
    have hset := countP_set_add (b := { task with point := .readingConfig }) (holdsParts c) htask
    rw [hbefore, hafter] at hset
    show _ + (s.tasks.set i _).countP _ = _
    rw [hcount, List.count_append]
    by_cases hc : c = task.card
    · simp [hc] at hset hparts ⊢
      omega
    · simp [hc] at hset ⊢
      omega
  · intro c hc
    show (if c = task.card then none else s.cards c) = none ∧ c < s.nextCard
    by_cases heq : c = task.card
    · rw [if_pos heq, heq]
      exact ⟨rfl, hcard⟩
    · rw [hcount, if_neg heq, Nat.add_zero] at hc
      rw [if_neg heq]
      exact h.removed c hc
  · intro c
    rw [hcount]
    split
    · next heq => exact Nat.le_of_eq (by rw [heq, hrows])
    · exact h.once c
  · refine forall_set htask (fun hcalling => ?_) h.calls
    have hnot : ¬ Calling .readingConfig := by decide
    exact absurd hcalling hnot
  · intro c hc hnone
    rw [hcount]
    by_cases heq : c = task.card
    · rw [if_pos heq]
      omega
    · change (if c = task.card then none else s.cards c) = none at hnone
      rw [if_neg heq] at hnone
      exact Nat.lt_of_lt_of_le (h.missing c hc hnone) (Nat.le_add_right _ _)
  · intro c htaken
    exact h.taken c (by simpa using htaken)
  · intro c htaken row hc hstate
    obtain ⟨hne, hrow⟩ := hfewer c row hc
    obtain ⟨j, other, hother, rfl, hfinishes⟩ :=
      h.finishing c (by simpa using htaken) row hrow hstate
    exact ⟨j, other, hstays hother hne, rfl, hfinishes⟩

/-- The removal of the parts is started. -/
theorem remove_parts (h : ArbiterInv trace s) (htask : s.tasks[i]? = some task)
    (hpoint : task.point = .readingConfig) :
    ArbiterInv (trace ++ [.parts task.card]) (s.goTo i task .ended) := by
  have hrow : ∀ c, (trace ++ [DestroyEvent.parts task.card]).count (.row c) =
      trace.count (.row c) := by
    intro c
    rw [List.count_append, List.count_singleton]
    simp
  have hnot : ¬ SawCancelling .ended ∧ ¬ Calling .ended := by decide
  refine ⟨forall_set htask (fun _ hended => absurd rfl hended) h.known, h.fresh, h.plain, ?_,
    forall_set htask (fun hsaw => absurd hsaw hnot.1) h.past, forall_set htask nofun h.gone, ?_, ?_,
    ?_, ?_, forall_set htask (fun hcalling => absurd hcalling hnot.2) h.calls, ?_, ?_, ?_⟩
  · intro c w hw
    obtain ⟨other, hother, hcards, halive, hwatching⟩ := h.handle c w hw
    rcases set_cases htask hother with ⟨-, rfl, -⟩ | ⟨-, hset⟩
    · rw [hpoint] at hwatching
      exact absurd hwatching (by decide)
    · exact ⟨other, hset _, hcards, halive, hwatching⟩
  · intro c hc
    obtain ⟨j, found, hfound, rfl, hremoves⟩ := h.covered c hc
    rcases set_cases htask hfound with ⟨-, rfl, -⟩ | ⟨-, hset⟩
    · unfold ArbiterTask.WillRemove ArbiterTask.Finalizing at hremoves
      rw [hpoint] at hremoves
      simp at hremoves
    · exact ⟨j, found, hset _, rfl, hremoves⟩
  · intro c
    have hparts := h.parts c
    have hbefore : holdsParts c task = decide (c = task.card) := by
      by_cases hc : c = task.card
      · simp [holdsParts, hc, hpoint]
      · simp [holdsParts, hc, Ne.symm hc]
    have hafter : holdsParts c { task with point := .ended } = false := Bool.and_false _
    have hset := countP_set_add (b := { task with point := .ended }) (holdsParts c) htask
    rw [hbefore, hafter] at hset
    show _ + (s.tasks.set i _).countP _ = _
    rw [hrow, List.count_append, List.count_singleton]
    by_cases hc : c = task.card
    · simp [hc] at hset hparts ⊢
      omega
    · simp [hc, Ne.symm hc] at hset ⊢
      omega
  · intro c hc
    rw [hrow] at hc
    exact h.removed c hc
  · intro c
    rw [hrow]
    exact h.once c
  · intro c hc hnone
    rw [hrow]
    exact h.missing c hc hnone
  · intro c htaken
    exact h.taken c (by simpa using htaken)
  · intro c htaken found hc hstate
    obtain ⟨j, other, hother, rfl, hfinishes⟩ :=
      h.finishing c (by simpa using htaken) found hc hstate
    rcases set_cases htask hother with ⟨-, rfl, -⟩ | ⟨-, hset⟩
    · unfold ArbiterTask.WillFinish ArbiterTask.Finalizing at hfinishes
      rw [hpoint] at hfinishes
      simp at hfinishes
    · exact ⟨j, other, hset _, rfl, hfinishes⟩

/-- A card is written back. -/
theorem set_card (h : ArbiterInv trace s) {found after : TransferCard}
    (hfound : s.cards card = some found) (hplain : after.lastTransition = none)
    (hpast : s.Past card → after.dto.state = "cancelling" ∨ IsTerminal after.dto.state)
    (hgone : s.Gone card → IsTerminal after.dto.state)
    (hcovered : after.dto.state = "cancelling" → ∃ (j : Nat) (task : ArbiterTask),
      s.tasks[j]? = some task ∧ task.card = card ∧ task.WillRemove)
    (hfinish : found.dto.state = "cancelling" → after.dto.state ≠ "cancelling" →
      ∃ (j : Nat) (task : ArbiterTask), s.tasks[j]? = some task ∧ task.card = card ∧
        task.WillFinish) :
    ArbiterInv trace (s.setCard card after) := by
  have hcard : card < s.nextCard := by
    by_contra hge
    have hnone := h.fresh card (Nat.le_of_not_lt hge)
    rw [hfound] at hnone
    cases hnone
  have hcases : ∀ c other, (s.setCard card after).cards c = some other →
      (c = card ∧ other = after) ∨ (c ≠ card ∧ s.cards c = some other) := by
    intro c other hother
    change (if c = card then some after else s.cards c) = some other at hother
    split at hother
    · next hc => exact .inl ⟨hc, (Option.some.inj hother).symm⟩
    · next hc => exact .inr ⟨hc, hother⟩
  refine ⟨h.known, ?_, ?_, h.handle, ?_, ?_, ?_, h.parts, ?_, h.once, h.calls, ?_, h.taken, ?_⟩
  · intro c hc
    show (if c = card then some after else s.cards c) = none
    rw [if_neg (by rintro rfl; exact absurd hcard (Nat.not_lt.mpr hc))]
    exact h.fresh c hc
  · intro c other hother
    rcases hcases c other hother with ⟨-, rfl⟩ | ⟨-, hold⟩
    · exact hplain
    · exact h.plain c other hold
  · intro j task htask hsaw other hother
    rcases hcases _ other hother with ⟨hc, rfl⟩ | ⟨-, hold⟩
    · exact hpast (hc ▸ h.past j task htask hsaw)
    · exact h.past j task htask hsaw other hold
  · intro j task htask hforgets other hother
    rcases hcases _ other hother with ⟨hc, rfl⟩ | ⟨-, hold⟩
    · exact hgone (hc ▸ h.gone j task htask hforgets)
    · exact h.gone j task htask hforgets other hold
  · intro c hc
    obtain ⟨other, hother, hstate⟩ := Option.map_eq_some_iff.mp hc
    rcases hcases c other hother with ⟨rfl, rfl⟩ | ⟨-, hold⟩
    · exact hcovered hstate
    · exact h.covered c (by
        rw [stateOf, hold]
        exact congrArg some hstate)
  · intro c hc
    obtain ⟨hnone, hlt⟩ := h.removed c hc
    have hne : c ≠ card := by
      rintro rfl
      rw [hfound] at hnone
      cases hnone
    show (if c = card then some after else s.cards c) = none ∧ c < s.nextCard
    rw [if_neg hne]
    exact ⟨hnone, hlt⟩
  · intro c hc hnone
    change (if c = card then some after else s.cards c) = none at hnone
    split at hnone
    · cases hnone
    · exact h.missing c hc hnone
  · intro c htaken other hother hstate
    rcases hcases c other hother with ⟨rfl, rfl⟩ | ⟨-, hold⟩
    · by_cases hbefore : found.dto.state = "cancelling"
      · exact hfinish hbefore hstate
      · exact h.finishing c htaken found hfound hbefore
    · exact h.finishing c htaken other hold hstate

/-- A new card. -/
theorem create (h : ArbiterInv trace s) {dto : TransferDto} (hstate : dto.state ≠ "cancelling") :
    ArbiterInv trace { s.setCard s.nextCard (.new dto) with nextCard := s.nextCard + 1 } := by
  have hcases : ∀ c other, (s.setCard s.nextCard (.new dto)).cards c = some other →
      (c = s.nextCard ∧ other = .new dto) ∨ s.cards c = some other := by
    intro c other hother
    change (if c = s.nextCard then some _ else s.cards c) = some other at hother
    split at hother
    · next hc => exact .inl ⟨hc, (Option.some.inj hother).symm⟩
    · exact .inr hother
  refine ⟨?_, ?_, ?_, h.handle, ?_, ?_, ?_, h.parts, ?_, h.once, h.calls, ?_, ?_, ?_⟩
  · intro j task htask hchecking hended
    exact Nat.lt_succ_of_lt (h.known j task htask hchecking hended)
  · intro c hc
    show (if c = s.nextCard then some _ else s.cards c) = none
    have hlt : s.nextCard < c := hc
    rw [if_neg (by omega)]
    exact h.fresh c (by omega)
  · intro c other hother
    rcases hcases c other hother with ⟨-, rfl⟩ | hold
    · rfl
    · exact h.plain c other hold
  · intro j task htask hsaw other hother
    rcases hcases _ other hother with ⟨hc, -⟩ | hold
    · -- the task is about a card that is there already
      have hlt := h.known j task htask
        (by rintro heq; rw [heq] at hsaw; exact absurd hsaw (by decide))
        (by rintro heq; rw [heq] at hsaw; exact absurd hsaw (by decide))
      omega
    · exact h.past j task htask hsaw other hold
  · intro j task htask hforgets other hother
    rcases hcases _ other hother with ⟨hc, -⟩ | hold
    · have hlt := h.known j task htask (by simp [hforgets]) (by simp [hforgets])
      omega
    · exact h.gone j task htask hforgets other hold
  · intro c hc
    obtain ⟨other, hother, hcancelling⟩ := Option.map_eq_some_iff.mp hc
    rcases hcases c other hother with ⟨-, rfl⟩ | hold
    · exact absurd hcancelling hstate
    · exact h.covered c (by
        rw [stateOf, hold]
        exact congrArg some hcancelling)
  · intro c hc
    obtain ⟨hnone, hlt⟩ := h.removed c hc
    show (if c = s.nextCard then some _ else s.cards c) = none ∧ c < s.nextCard + 1
    rw [if_neg (by omega)]
    exact ⟨hnone, by omega⟩
  · intro c hc hnone
    change (if c = s.nextCard then some _ else s.cards c) = none at hnone
    have hlt : c < s.nextCard + 1 := hc
    split at hnone
    · cases hnone
    · exact h.missing c (by omega) hnone
  · intro c htaken
    exact Nat.lt_succ_of_lt (h.taken c htaken)
  · intro c htaken other hother hcancelling
    rcases hcases c other hother with ⟨hc, -⟩ | hold
    · have hlt := h.taken c htaken
      omega
    · exact h.finishing c htaken other hold hcancelling

end ArbiterInv

/-- `card_apply` writes nothing, writes the card back, or finishes a card that was being cancelled
and goes on to `finalize_destroy`. -/
theorem card_apply_cases (s : ArbiterDesk) (card : Nat) (ev : CardEvent) (nowMs : Int)
    (hplain : ∀ found, s.cards card = some found → found.lastTransition = none) :
    s.cardApply card ev nowMs = s ∨ ∃ found after, s.cards card = some found ∧
      after.lastTransition = none ∧ ¬ IsTerminal found.dto.state ∧
      ((s.cardApply card ev nowMs = s.setCard card after ∧
          (found.dto.state = "cancelling" → after.dto.state = "cancelling") ∧
          (after.dto.state = "cancelling" →
            found.dto.state = "cancelling" ∨ ev = .cancelRequested)) ∨
        (ev ≠ .cancelRequested ∧ IsTerminal after.dto.state ∧
          s.cardApply card ev nowMs = (s.setCard card after).spawn card .takingHandle)) := by
  unfold cardApply
  cases hfound : s.cards card with
  | none => exact .inl rfl
  | some found =>
    rcases found.apply_taken ev nowMs with
      hrefused | ⟨htaken, hopen, hother | hsame | hfinished⟩
    · refine .inl ?_
      simp only [hrefused, Bool.false_eq_true, if_false]
    · obtain ⟨hstate, hrequest⟩ := hother
      refine .inr ⟨found, (found.apply ev nowMs).2.takeLastTransition.2, rfl, rfl, hopen,
        .inl ⟨?_, fun heq => absurd heq hstate, fun heq => .inr (hrequest heq)⟩⟩
      simp only [htaken, if_true, hstate, false_and, if_false]
    · obtain ⟨hstate, hcard⟩ := hsame
      refine .inr ⟨found, found.takeLastTransition.2, rfl, rfl, hopen,
        .inl ⟨?_, fun heq => heq, fun heq => .inl heq⟩⟩
      have hnone : found.takeLastTransition.1 = none := hplain found hfound
      simp only [htaken, if_true, hcard, hnone, Bool.false_eq_true, and_false, if_false]
    · obtain ⟨hstate, hev, hterminal, hlast⟩ := hfinished
      refine .inr ⟨found, (found.apply ev nowMs).2.takeLastTransition.2, rfl, rfl, hopen,
        .inr ⟨hev, hterminal, ?_⟩⟩
      have hsome : (found.apply ev nowMs).2.takeLastTransition.1 =
          some ("cancelling", (found.apply ev nowMs).2.dto.state) := hlast
      simp only [htaken, if_true, hsome, hstate, hterminal, decide_true, and_self]

namespace ArbiterInv

/-- An event that is no request to cancel. -/
theorem event (h : ArbiterInv trace s) {ev : CardEvent} {nowMs : Int}
    (hev : ev ≠ .cancelRequested) : ArbiterInv trace (s.cardApply card ev nowMs) := by
  rcases s.card_apply_cases card ev nowMs (h.plain card) with
    hsame | ⟨found, after, hfound, hplain, hopen, ⟨hset, hkeeps, hrequest⟩ | ⟨-, hterminal, hset⟩⟩
  · rw [hsame]
    exact h
  · rw [hset]
    refine h.set_card hfound hplain (fun hpast => ?_)
      (fun hgone => absurd (hgone found hfound) hopen) (fun hcancelling => ?_) ?_
    · exact .inl (hkeeps ((hpast found hfound).resolve_right hopen))
    · have hbefore := (hrequest hcancelling).resolve_right hev
      exact h.covered card (by
        rw [stateOf, hfound]
        exact congrArg some hbefore)
    · exact fun hbefore hne => absurd (hkeeps hbefore) hne
  · rw [hset]
    have hne : after.dto.state ≠ "cancelling" := by
      intro heq
      rw [heq] at hterminal
      exact absurd hterminal (by decide)
    have hcard : card < s.nextCard := by
      by_contra hge
      have hnone := h.fresh card (Nat.le_of_not_lt hge)
      rw [hfound] at hnone
      cases hnone
    have hspawned := h.spawn card .takingHandle (fun _ => hcard)
      (fun hsaw => absurd hsaw (by decide)) (by decide) (by decide)
    -- the handler of the event removes the card
    exact hspawned.set_card hfound hplain (fun _ => .inr hterminal) (fun _ => hterminal)
      (fun heq => absurd heq hne)
      (fun _ _ => ⟨s.tasks.length, _, get_spawn.trans (if_pos rfl), rfl, .inr ⟨rfl, rfl⟩⟩)

/-- A call asks for the card to be cancelled. -/
theorem request (h : ArbiterInv trace s) (htask : s.tasks[i]? = some task)
    (hpoint : task.point = .requesting) {nowMs : Int} :
    ArbiterInv trace ((s.cardApply task.card .cancelRequested nowMs).goTo i task .confirming) := by
  have halive : task.aborted = false := h.calls i task htask (.inr (.inl hpoint))
  have hmoved : ArbiterInv trace (s.goTo i task .confirming) := by
    refine h.go_to htask .confirming
      (fun _ _ => h.known i task htask (by simp [hpoint]) (by simp [hpoint]))
      (fun hhandle => ?_) (fun hsaw => absurd hsaw (by decide)) (fun heq => by cases heq)
      (fun _ hremoves => ?_) (by simp [hpoint]) (by decide) (fun _ => halive)
    · obtain ⟨found, hfound, -, -, hwatching⟩ := h.handle _ _ hhandle
      obtain rfl := Option.some.inj (htask.symm.trans hfound)
      rw [hpoint] at hwatching
      exact absurd hwatching (by decide)
    · have hyes := hremoves.will_remove
      simp [ArbiterTask.WillRemove, ArbiterTask.Finalizing, hpoint] at hyes
  rcases s.card_apply_cases task.card .cancelRequested nowMs (h.plain task.card) with
    hsame | ⟨found, after, hfound, hplain, hopen, ⟨hset, hkeeps, -⟩ | ⟨hev, -, -⟩⟩
  · rw [hsame]
    exact hmoved
  · rw [hset]
    -- the call itself is the task that will remove the card
    exact hmoved.set_card hfound hplain
      (fun hpast => .inl (hkeeps ((hpast found hfound).resolve_right hopen)))
      (fun hgone => absurd (hgone found hfound) hopen)
      (fun _ => ⟨i, { task with point := .confirming }, by rw [get_go_to htask, if_pos rfl], rfl,
        .inr ⟨halive, .inl rfl⟩⟩)
      (fun hbefore hne => absurd (hkeeps hbefore) hne)
  · exact absurd rfl hev

/-- No handle names a task that is not a watchdog in front of its handle. -/
theorem unwatched (h : ArbiterInv trace s) (card : Nat) (htask : s.tasks[i]? = some task)
    (hpoint : ¬ Watching task.point) : s.watchdogs card ≠ some i := by
  intro hhandle
  obtain ⟨found, hfound, -, -, hwatching⟩ := h.handle _ _ hhandle
  obtain rfl := Option.some.inj (htask.symm.trans hfound)
  exact hpoint hwatching

/-- A handle names one task, which is about its card. -/
theorem handle_card (h : ArbiterInv trace s) (hhandle : s.watchdogs card = some handle)
    {other : Nat} (hother : s.watchdogs other = some handle) : other = card := by
  obtain ⟨found, hfound, hcard, -⟩ := h.handle _ _ hhandle
  obtain ⟨same, hsame, hsamecard, -⟩ := h.handle _ _ hother
  obtain rfl := Option.some.inj (hfound.symm.trans hsame)
  exact hsamecard.symm.trans hcard

/-- A card that is there has been made. -/
theorem card_lt (h : ArbiterInv trace s) {state : String} (hstate : s.stateOf card = some state) :
    card < s.nextCard := by
  by_contra hge
  rw [stateOf, h.fresh card (Nat.le_of_not_lt hge)] at hstate
  cases hstate

/-- A task goes on in `finalize_destroy`, or into it. -/
theorem go_final (h : ArbiterInv trace s) (htask : s.tasks[i]? = some task) (point : ArbiterPoint)
    (hcard : task.card < s.nextCard) (hhandle : s.watchdogs task.card ≠ some i)
    (hold : task.point ≠ .readingConfig)
    (hpoint : point = .readingRow ∨ point = .resolving ∨ point = .removingRow) :
    ArbiterInv trace (s.goTo i task point) := by
  have hnot : ¬ SawCancelling point ∧ point ≠ .forgetting ∧ point ≠ .readingConfig ∧
      ¬ Calling point := by
    rcases hpoint with rfl | rfl | rfl
    all_goals decide
  exact h.go_to htask point (fun _ _ => hcard) (fun heq => absurd heq hhandle)
    (fun hsaw => absurd hsaw hnot.1) (fun heq => absurd heq hnot.2.1)
    (fun _ _ => .inl (.inl (.inl hpoint))) hold hnot.2.2.1
    (fun hcall => absurd hcall hnot.2.2.2)

/-- A call finds no handle, hangs a watchdog and ends. -/
theorem hang_ended (h : ArbiterInv trace s) (htask : s.tasks[i]? = some task)
    (hpoint : task.point = .hanging) :
    ArbiterInv trace (({ s with
      watchdogs := fun id => if id = task.card then some s.tasks.length else s.watchdogs id
    }.goTo i task .ended).spawn task.card .sleeping) := by
  obtain ⟨hlt, -⟩ := List.getElem?_eq_some_iff.mp htask
  have hhung := h.hang (h.known i task htask (by simp [hpoint]) (by simp [hpoint]))
    (h.past i task htask (.inr (.inl hpoint)))
  have hsame : ({ s with
        watchdogs := fun id => if id = task.card then some s.tasks.length else s.watchdogs id
      }.goTo i task .ended).spawn task.card .sleeping =
      ({ s with
        watchdogs := fun id => if id = task.card then some s.tasks.length else s.watchdogs id
      }.spawn task.card .sleeping).goTo i task .ended := by
    unfold goTo ArbiterDesk.spawn
    rw [List.set_append_left _ _ hlt]
  rw [hsame]
  have hstill : ({ s with
        watchdogs := fun id => if id = task.card then some s.tasks.length else s.watchdogs id
      }.spawn task.card .sleeping).tasks[i]? = some task := by
    rw [get_spawn]
    exact (if_neg (Nat.ne_of_lt hlt)).trans htask
  refine hhung.go_to hstill .ended (fun _ hended => absurd rfl hended) (fun hhandle => ?_)
    (fun hsaw => absurd hsaw (by decide)) (fun heq => by cases heq)
    (fun _ hremoves => .inr ?_) (by simp [hpoint]) (by decide)
    (fun hcall => absurd hcall (by decide))
  · change (if task.card = task.card then some s.tasks.length else _) = some i at hhandle
    rw [if_pos rfl] at hhandle
    exact absurd (Option.some.inj hhandle) (Nat.ne_of_gt hlt)
  · -- the watchdog it hung will remove the card
    have hno : ¬ task.WillFinish := by
      simp [ArbiterTask.WillFinish, ArbiterTask.Finalizing, hpoint]
    refine ⟨s.tasks.length, _, get_spawn.trans (if_pos rfl), Nat.ne_of_gt hlt, rfl,
      .inr ⟨(hremoves.resolve_left hno).1, .inr ⟨rfl, .inr (.inr (.inr (.inl rfl)))⟩⟩⟩

/-- A task takes the handle of the watchdog and aborts it. -/
theorem take_handle (h : ArbiterInv trace s) (htask : s.tasks[i]? = some task)
    (hpoint : task.point = .takingHandle) (hhandle : s.watchdogs task.card = some handle) :
    ArbiterInv trace (({ s with
      watchdogs := fun id => if id = task.card then none else s.watchdogs id
    }.goTo i task .readingRow).abort handle) := by
  obtain ⟨found, hfound, hcard, -, hwatching⟩ := h.handle _ _ hhandle
  have hforgot := (h.forget task.card).go_final htask .readingRow
    (h.known i task htask (by simp [hpoint]) (by simp [hpoint]))
    (by simp) (by simp [hpoint]) (.inl rfl)
  have hget : ∀ other : ArbiterTask, ({ s with
        watchdogs := fun id => if id = task.card then none else s.watchdogs id
      }.goTo i task .readingRow).tasks[handle]? = some other →
      (handle = i ∧ other = { task with point := .readingRow }) ∨ (handle ≠ i ∧ other = found) := by
    intro other hother
    rw [get_go_to (s := { s with
      watchdogs := fun id => if id = task.card then none else s.watchdogs id }) htask] at hother
    split at hother
    · next heq => exact .inl ⟨heq, (Option.some.inj hother).symm⟩
    · next hne => exact .inr ⟨hne, Option.some.inj (hother.symm.trans hfound)⟩
  refine hforgot.abort ?_ ?_ ?_
  · intro c hc
    change (if c = task.card then none else s.watchdogs c) = some handle at hc
    obtain ⟨hne, hc⟩ := of_unless hc
    exact hne (h.handle_card hhandle hc)
  · intro other hother hcalling
    rcases hget other hother with ⟨-, rfl⟩ | ⟨-, rfl⟩
    · have hnot : ¬ Calling .readingRow := by decide
      exact absurd hcalling hnot
    · rcases hwatching with heq | heq | heq | heq
      all_goals
        rw [heq] at hcalling
        exact absurd hcalling (by decide)
  · intro other hother
    rcases hget other hother with ⟨-, rfl⟩ | ⟨hne, rfl⟩
    · -- a watchdog that aborts itself has the row still to remove
      exact .inl (.inl rfl)
    · refine .inr ⟨i, { task with point := .readingRow }, ?_, Ne.symm hne, hcard.symm,
        .inl (.inl rfl)⟩
      exact (get_go_to (s := { s with
        watchdogs := fun id => if id = task.card then none else s.watchdogs id }) htask).trans
          (if_pos rfl)

/-- A task ends. Where it would have removed its card, another task will. -/
theorem go_ended (h : ArbiterInv trace s) (htask : s.tasks[i]? = some task)
    (hhandle : s.watchdogs task.card ≠ some i) (hold : task.point ≠ .readingConfig)
    (hrelieved : s.cards task.card ≠ none → s.Removes task → s.Relieved i task.card) :
    ArbiterInv trace (s.goTo i task .ended) := by
  exact h.go_to htask .ended (fun _ hended => absurd rfl hended) (fun heq => absurd heq hhandle)
    (fun hsaw => absurd hsaw (by decide)) (fun heq => by cases heq)
    (fun hthere hremoves => .inr (hrelieved hthere hremoves)) hold (by decide)
    (fun hcall => absurd hcall (by decide))

/-- `destroy_transfer` takes a card that is being cancelled, or that it goes on to remove. -/
theorem take (h : ArbiterInv trace s) (hcard : card < s.nextCard)
    (hfinish : s.stateOf card ≠ some "cancelling" → ∃ (j : Nat) (task : ArbiterTask),
      s.tasks[j]? = some task ∧ task.card = card ∧ task.WillFinish) :
    ArbiterInv (trace ++ [.taken card]) s := by
  have hrow : ∀ c, (trace ++ [DestroyEvent.taken card]).count (.row c) = trace.count (.row c) := by
    intro c
    rw [List.count_append, List.count_singleton]
    simp
  have hparts : ∀ c, (trace ++ [DestroyEvent.taken card]).count (.parts c) =
      trace.count (.parts c) := by
    intro c
    rw [List.count_append, List.count_singleton]
    simp
  have hback : ∀ c, DestroyEvent.taken c ∈ trace ++ [.taken card] →
      .taken c ∈ trace ∨ c = card := by
    intro c hc
    rcases List.mem_append.mp hc with hold | hnew
    · exact .inl hold
    · exact .inr (DestroyEvent.taken.inj (List.mem_singleton.mp hnew))
  refine ⟨h.known, h.fresh, h.plain, h.handle, h.past, h.gone, h.covered, ?_, ?_, ?_, h.calls, ?_,
    ?_, ?_⟩
  · intro c
    rw [hrow, hparts]
    exact h.parts c
  · intro c hc
    exact h.removed c (hrow c ▸ hc)
  · intro c
    rw [hrow]
    exact h.once c
  · intro c hc hnone
    rw [hrow]
    exact h.missing c hc hnone
  · intro c hc
    rcases hback c hc with hold | rfl
    · exact h.taken c hold
    · exact hcard
  · intro c hc found hfound hstate
    rcases hback c hc with hold | rfl
    · exact h.finishing c hold found hfound hstate
    · refine hfinish fun heq => ?_
      rw [stateOf, hfound] at heq
      exact hstate (Option.some.inj heq)

/-- A task gets the lock it waits for. -/
theorem advance (h : ArbiterInv trace s) (htask : s.tasks[i]? = some task) {nowMs : Int}
    {emitted : List DestroyEvent} (hnext : s.advance i task nowMs = some (next, emitted)) :
    ArbiterInv (trace ++ emitted) next := by
  have hknown := h.known i task htask
  have hremoves : ¬ task.WillRemove → s.cards task.card ≠ none → s.Removes task →
      s.Relieved i task.card := fun hno _ hyes => absurd hyes.will_remove hno
  -- a task that will remove the card only while it is cancelled stays such a task
  have hstill : ∀ {point}, ¬ task.WillFinish →
      ({ task with point := point } : ArbiterTask).WillRemove → s.cards task.card ≠ none →
      s.Removes task → s.Removes { task with point := point } ∨ s.Relieved i task.card :=
    fun hno hyes _ hbefore => .inl (.inr ⟨(hbefore.resolve_left hno).1, hyes⟩)
  unfold ArbiterDesk.advance at hnext
  cases hpoint : task.point with simp only [hpoint] at hnext
  | checking =>
    have hno : ¬ task.WillRemove := by
      simp [ArbiterTask.WillRemove, ArbiterTask.Finalizing, hpoint]
    have hwatch := h.unwatched task.card htask (by rw [hpoint]; decide)
    cases hstate : s.stateOf task.card with
    | none =>
      rw [hstate] at hnext
      exact silent_answer hnext (h.go_ended htask hwatch (by simp [hpoint]) (hremoves hno))
    | some state =>
      have hcard := h.card_lt hstate
      have halive := h.calls i task htask (.inl hpoint)
      have hgo : ∀ point, point = .takingHandle ∨ point = .requesting →
          ArbiterInv trace (s.goTo i task point) := by
        intro point hnew
        have hnot : ¬ SawCancelling point ∧ point ≠ .forgetting ∧ point ≠ .readingConfig := by
          rcases hnew with rfl | rfl
          all_goals decide
        exact h.go_to htask point (fun _ _ => hcard) (fun heq => absurd heq hwatch)
          (fun hsaw => absurd hsaw hnot.1) (fun heq => absurd heq hnot.2.1)
          (fun _ hyes => absurd hyes.will_remove hno) (by simp [hpoint]) hnot.2.2
          (fun _ => halive)
      rw [hstate] at hnext
      dsimp only at hnext
      split at hnext
      · obtain ⟨rfl, rfl⟩ := answer_inj hnext
        refine (hgo .takingHandle (.inl rfl)).take hcard fun _ => ?_
        exact ⟨i, _, (get_go_to htask).trans (if_pos rfl), rfl, .inr ⟨halive, rfl⟩⟩
      · exact silent_answer hnext (hgo .requesting (.inr rfl))
  | requesting =>
    exact silent_answer hnext (h.request htask hpoint)
  | confirming =>
    have hno : ¬ task.WillFinish := by
      simp [ArbiterTask.WillFinish, ArbiterTask.Finalizing, hpoint]
    have hwatch := h.unwatched task.card htask (by rw [hpoint]; decide)
    have halive := h.calls i task htask (.inr (.inr (.inl hpoint)))
    split at hnext
    · next hstate =>
      obtain ⟨rfl, rfl⟩ := answer_inj hnext
      have hstopping : ArbiterInv trace (s.goTo i task .stopping) := by
        refine h.go_to htask .stopping (fun _ _ => h.card_lt hstate)
          (fun heq => absurd heq hwatch) (fun _ found hfound => ?_) (fun heq => by cases heq)
          (hstill hno (.inr ⟨halive, .inr (.inl rfl)⟩)) (by simp [hpoint]) (by decide)
          (fun _ => halive)
        rw [stateOf, hfound] at hstate
        exact .inl (Option.some.inj hstate)
      exact hstopping.take (h.card_lt hstate) fun hother => absurd hstate hother
    · next hstate =>
      refine silent_answer hnext (h.go_ended htask hwatch (by simp [hpoint]) fun _ hyes => ?_)
      exact absurd (hyes.resolve_left hno).1 hstate
  | stopping =>
    have hno : ¬ task.WillFinish := by
      simp [ArbiterTask.WillFinish, ArbiterTask.Finalizing, hpoint]
    have hwatch := h.unwatched task.card htask (by rw [hpoint]; decide)
    have halive := h.calls i task htask (.inr (.inr (.inr (.inl hpoint))))
    exact silent_answer hnext (h.go_to htask .hanging
      (fun _ _ => hknown (by simp [hpoint]) (by simp [hpoint])) (fun heq => absurd heq hwatch)
      (fun _ => h.past i task htask (.inl hpoint)) (fun heq => by cases heq)
      (hstill hno (.inr ⟨halive, .inr (.inr (.inl rfl))⟩)) (by simp [hpoint]) (by decide)
      (fun _ => halive))
  | hanging =>
    have hno : ¬ task.WillFinish := by
      simp [ArbiterTask.WillFinish, ArbiterTask.Finalizing, hpoint]
    have hwatch := h.unwatched task.card htask (by rw [hpoint]; decide)
    cases hhandle : s.watchdogs task.card with
    | none =>
      rw [hhandle] at hnext
      exact silent_answer hnext (h.hang_ended htask hpoint)
    | some handle =>
      rw [hhandle] at hnext
      refine silent_answer hnext (h.go_ended htask hwatch (by simp [hpoint]) fun _ hyes => ?_)
      obtain ⟨hstate, -⟩ := hyes.resolve_left hno
      -- the watchdog that hangs already removes the card
      obtain ⟨found, hfound, hcard, halive, hwatching⟩ := h.handle _ _ hhandle
      refine ⟨handle, found, hfound, ?_, hcard, .inr ⟨hcard ▸ hstate, .inr ⟨halive, ?_⟩⟩⟩
      · rintro rfl
        exact hwatch hhandle
      · rcases hwatching with heq | heq | heq | heq
        · exact .inr (.inr (.inr (.inl heq)))
        · exact .inr (.inr (.inr (.inr (.inl heq))))
        · obtain ⟨card, hthere, hcancelling⟩ := Option.map_eq_some_iff.mp hstate
          have hterminal := h.gone handle found hfound heq card (hcard ▸ hthere)
          rw [hcancelling] at hterminal
          exact absurd hterminal (by decide)
        · exact .inr (.inr (.inr (.inr (.inr heq))))
  | sleeping =>
    have hno : ¬ task.WillFinish := by
      simp [ArbiterTask.WillFinish, ArbiterTask.Finalizing, hpoint]
    obtain ⟨haborted, hnext⟩ := of_unless hnext
    have halive : task.aborted = false := eq_false_of_ne_true haborted
    exact silent_answer hnext (h.go_to htask .woken
      (fun _ _ => hknown (by simp [hpoint]) (by simp [hpoint])) (fun _ => .inr (.inl rfl))
      (fun _ => h.past i task htask (.inr (.inr (.inl hpoint)))) (fun heq => by cases heq)
      (hstill hno (.inr ⟨halive, .inr (.inr (.inr (.inr (.inl rfl))))⟩)) (by simp [hpoint])
      (by decide) (fun _ => halive))
  | woken =>
    have hno : ¬ task.WillFinish := by
      simp [ArbiterTask.WillFinish, ArbiterTask.Finalizing, hpoint]
    split at hnext
    · refine silent_answer hnext (h.go_to htask .takingHandle
        (fun _ _ => hknown (by simp [hpoint]) (by simp [hpoint]))
        (fun _ => .inr (.inr (.inr rfl))) (fun hsaw => absurd hsaw (by decide))
        (fun heq => by cases heq) (fun _ hyes => .inl (.inl ?_)) (by simp [hpoint]) (by decide)
        (fun hcall => absurd hcall (by decide)))
      obtain hfinal | ⟨halive, -⟩ := hyes.will_remove
      · simp [ArbiterTask.Finalizing, hpoint] at hfinal
      · exact .inr ⟨halive, rfl⟩
    · next hstate =>
      refine silent_answer hnext (h.go_to htask .forgetting
        (fun _ _ => hknown (by simp [hpoint]) (by simp [hpoint]))
        (fun _ => .inr (.inr (.inl rfl))) (fun hsaw => absurd hsaw (by decide))
        (fun _ found hfound => ?_) (fun _ hyes => absurd (hyes.resolve_left hno).1 hstate)
        (by simp [hpoint]) (by decide) (fun hcall => absurd hcall (by decide)))
      refine (h.past i task htask (.inr (.inr (.inr hpoint))) found hfound).resolve_left ?_
      intro heq
      rw [stateOf, hfound] at hstate
      exact hstate (congrArg some heq)
  | forgetting =>
    have hno : ¬ task.WillRemove := by
      simp [ArbiterTask.WillRemove, ArbiterTask.Finalizing, hpoint]
    exact silent_answer hnext ((h.forget task.card).go_ended htask (by simp) (by simp [hpoint])
      (hremoves hno))
  | takingHandle =>
    cases hhandle : s.watchdogs task.card with
    | none =>
      rw [hhandle] at hnext
      exact silent_answer hnext
        (h.go_final htask .readingRow (hknown (by simp [hpoint]) (by simp [hpoint]))
        (by rw [hhandle]; exact fun heq => by cases heq) (by simp [hpoint]) (.inl rfl))
    | some handle =>
      rw [hhandle] at hnext
      exact silent_answer hnext (h.take_handle htask hpoint hhandle)
  | readingRow =>
    exact silent_answer hnext
      (h.go_final htask .resolving (hknown (by simp [hpoint]) (by simp [hpoint]))
      (h.unwatched task.card htask (by rw [hpoint]; decide)) (by simp [hpoint])
      (.inr (.inl rfl)))
  | resolving =>
    exact silent_answer hnext
      (h.go_final htask .removingRow (hknown (by simp [hpoint]) (by simp [hpoint]))
      (h.unwatched task.card htask (by rw [hpoint]; decide)) (by simp [hpoint])
      (.inr (.inr rfl)))
  | removingRow =>
    cases hfound : s.cards task.card with
    | none =>
      rw [hfound] at hnext
      exact silent_answer hnext
        (h.go_ended htask (h.unwatched task.card htask (by rw [hpoint]; decide))
        (by simp [hpoint]) fun hthere _ => absurd hfound hthere)
    | some found =>
      rw [hfound] at hnext
      obtain ⟨rfl, rfl⟩ := answer_inj hnext
      exact h.remove_row htask hpoint hfound
  | readingConfig =>
    obtain ⟨rfl, rfl⟩ := answer_inj hnext
    exact h.remove_parts htask hpoint
  | ended =>
    cases hnext

/-- A task has to wait for a lock: one that was aborted is dropped. -/
theorem wait (h : ArbiterInv trace s) (htask : s.tasks[i]? = some task)
    (hfree : LocksFree trace s (.wait i)) (haborted : task.aborted = true) :
    ArbiterInv trace (s.goTo i task .ended) := by
  simp only [LocksFree, htask] at hfree
  obtain ⟨hold, hcovered⟩ := hfree haborted
  refine h.go_ended htask (fun hhandle => ?_) hold (fun hthere hremoves => ?_)
  · obtain ⟨found, hfound, -, halive, -⟩ := h.handle _ _ hhandle
    obtain rfl := Option.some.inj (htask.symm.trans hfound)
    rw [haborted] at halive
    cases halive
  · have hfinal : task.Finalizing := by
      rcases hremoves with (hfinal | ⟨halive, -⟩) | ⟨-, hfinal | ⟨halive, -⟩⟩
      · exact hfinal
      · rw [haborted] at halive
        cases halive
      · exact hfinal
      · rw [haborted] at halive
        cases halive
    exact (hcovered hfinal).resolve_left hthere

/-- What the desk keeps, it keeps with every step that meets the guard. -/
theorem step {input : ArbiterInput} {emitted : List DestroyEvent} (h : ArbiterInv trace s)
    (hfree : LocksFree trace s input)
    (hnext : ArbiterDesk.step s input = some (next, emitted)) :
    ArbiterInv (trace ++ emitted) next := by
  cases input with simp only [ArbiterDesk.step] at hnext
  | create dto =>
    obtain ⟨hstate, hnext⟩ := of_unless hnext
    exact silent_answer hnext (h.create hstate)
  | event card ev nowMs =>
    obtain ⟨hev, hnext⟩ := of_unless hnext
    exact silent_answer hnext (h.event hev)
  | destroy card =>
    exact silent_answer hnext (h.spawn card .checking (fun heq => absurd rfl heq)
      (fun hsaw => absurd hsaw (by decide)) (by decide) (by decide))
  | advance i nowMs =>
    split at hnext
    · cases hnext
    · next task htask => exact h.advance htask hnext
  | wait i =>
    split at hnext
    · cases hnext
    · next task htask =>
      split at hnext
      · next haborted =>
        exact silent_answer hnext (h.wait htask hfree haborted)
      · exact silent_answer hnext h

/-- What the desk keeps at its start. -/
theorem empty : ArbiterInv [] ArbiterDesk.empty where
  known j task htask := by cases htask
  fresh _ _ := rfl
  plain _ _ hfound := by cases hfound
  handle _ _ hhandle := by cases hhandle
  past j task htask := by cases htask
  gone j task htask := by cases htask
  covered _ hstate := by cases hstate
  parts _ := rfl
  removed _ hcount := by cases hcount
  once _ := Nat.zero_le 1
  calls j task htask := by cases htask
  missing _ hcard := by cases hcard
  taken _ hmem := by cases hmem
  finishing _ hmem := by cases hmem

/-- What the desk keeps makes the arbitration hold. -/
theorem arbitrated (h : ArbiterInv trace s) : Arbitrated trace s := by
  have hended : s.Quiet → ∀ (j : Nat) (task : ArbiterTask), s.tasks[j]? = some task →
      ¬ task.WillRemove := by
    intro hquiet j task htask hremoves
    have hpoint := hquiet task (List.mem_of_getElem? htask)
    simp [ArbiterTask.WillRemove, ArbiterTask.Finalizing, hpoint] at hremoves
  refine ⟨fun card hstate => ?_, fun card => ⟨?_, h.once card⟩, fun hquiet card => ⟨?_, ?_⟩⟩
  · obtain ⟨j, task, htask, hrest⟩ := h.covered card hstate
    exact ⟨task, List.mem_of_getElem? htask, hrest⟩
  · have hparts := h.parts card
    omega
  · intro hstate
    obtain ⟨j, task, htask, -, hremoves⟩ := h.covered card hstate
    exact hended hquiet j task htask hremoves
  · intro htaken
    have hnone : s.cards card = none := by
      by_contra hthere
      obtain ⟨found, hfound⟩ := Option.ne_none_iff_exists'.mp hthere
      by_cases hstate : found.dto.state = "cancelling"
      · obtain ⟨j, task, htask, -, hremoves⟩ := h.covered card (by
          rw [stateOf, hfound]
          exact congrArg some hstate)
        exact hended hquiet j task htask hremoves
      · obtain ⟨j, task, htask, -, hfinishes⟩ := h.finishing card htaken found hfound hstate
        exact hended hquiet j task htask hfinishes.will_remove
    have hrow := h.missing card (h.taken card htaken) hnone
    have honce := h.once card
    have hparts := h.parts card
    have hzero : s.tasks.countP (holdsParts card) = 0 := by
      refine List.countP_eq_zero.mpr fun task htask hholds => ?_
      rw [holdsParts, hquiet task htask, Bool.and_eq_true] at hholds
      cases hholds.2
    omega

end ArbiterInv

/-- How many locks a task still gets at most, with those of the watchdog it may hang. -/
def rank : ArbiterPoint → Nat
  | .checking => 12
  | .requesting => 11
  | .confirming => 10
  | .stopping => 9
  | .hanging => 8
  | .sleeping => 7
  | .woken => 6
  | .takingHandle => 5
  | .readingRow => 4
  | .resolving => 3
  | .removingRow => 2
  | .forgetting | .readingConfig => 1
  | .ended => 0

/-- The locks all tasks still get. -/
def work (s : ArbiterDesk) : Nat := (s.tasks.map fun task => rank task.point).sum

theorem work_go_to (htask : s.tasks[i]? = some task) (point : ArbiterPoint) :
    (s.goTo i task point).work + rank task.point = s.work + rank point :=
  sum_map_set (fun found : ArbiterTask => rank found.point) htask { task with point := point }

theorem work_spawn (s : ArbiterDesk) (card : Nat) (point : ArbiterPoint) :
    (s.spawn card point).work = s.work + rank point := by
  unfold work ArbiterDesk.spawn
  rw [List.map_append, List.sum_append]
  rfl

theorem work_abort (s : ArbiterDesk) (i : Nat) : (s.abort i).work = s.work := by
  unfold ArbiterDesk.abort
  split
  · rfl
  · next task htask =>
    exact Nat.add_right_cancel (sum_map_set (fun found : ArbiterTask => rank found.point) htask
      { task with aborted := true })

/-- A task that has not ended gets its lock, unless it is an aborted sleeper, and there is less to
do afterwards. -/
theorem advance_work (h : ArbiterInv trace s) (htask : s.tasks[i]? = some task)
    (hpoint : task.point ≠ .ended) (hawake : ¬ (task.point = .sleeping ∧ task.aborted = true))
    (nowMs : Int) :
    ∃ next emitted, s.advance i task nowMs = some (next, emitted) ∧ next.work < s.work := by
  have hlower : ∀ point, rank point < rank task.point → (s.goTo i task point).work < s.work := by
    intro point hless
    have hmoved := work_go_to htask point
    omega
  cases heq : task.point with simp only [ArbiterDesk.advance, heq]
  | ended => exact absurd heq hpoint
  | checking =>
    split
    · exact ⟨_, _, rfl, hlower .ended (by rw [heq]; decide)⟩
    · split
      · exact ⟨_, _, rfl, hlower .takingHandle (by rw [heq]; decide)⟩
      · exact ⟨_, _, rfl, hlower .requesting (by rw [heq]; decide)⟩
  | requesting =>
    refine ⟨_, _, rfl, ?_⟩
    have hlower := hlower .confirming (by rw [heq]; decide)
    rcases s.card_apply_cases task.card .cancelRequested nowMs (h.plain task.card) with
      hsame | ⟨found, after, -, -, -, ⟨hset, -, -⟩ | ⟨hev, -, -⟩⟩
    · rw [hsame]
      exact hlower
    · rw [hset]
      exact hlower
    · exact absurd rfl hev
  | confirming =>
    split
    · exact ⟨_, _, rfl, hlower .stopping (by rw [heq]; decide)⟩
    · exact ⟨_, _, rfl, hlower .ended (by rw [heq]; decide)⟩
  | stopping =>
    exact ⟨_, _, rfl, hlower .hanging (by rw [heq]; decide)⟩
  | hanging =>
    split
    · exact ⟨_, _, rfl, hlower .ended (by rw [heq]; decide)⟩
    · refine ⟨_, _, rfl, ?_⟩
      rw [work_spawn]
      have hmoved := work_go_to (s := { s with
        watchdogs := fun id => if id = task.card then some s.tasks.length else s.watchdogs id })
        htask .ended
      rw [heq] at hmoved
      simp only [rank] at hmoved ⊢
      change _ + 8 = s.work + 0 at hmoved
      omega
  | sleeping =>
    have halive : task.aborted = false := eq_false_of_ne_true fun htrue => hawake ⟨heq, htrue⟩
    simp only [halive]
    exact ⟨_, _, rfl, hlower .woken (by rw [heq]; decide)⟩
  | woken =>
    split
    · exact ⟨_, _, rfl, hlower .takingHandle (by rw [heq]; decide)⟩
    · exact ⟨_, _, rfl, hlower .forgetting (by rw [heq]; decide)⟩
  | forgetting =>
    exact ⟨_, _, rfl, hlower .ended (by rw [heq]; decide)⟩
  | takingHandle =>
    split
    · exact ⟨_, _, rfl, hlower .readingRow (by rw [heq]; decide)⟩
    · refine ⟨_, _, rfl, ?_⟩
      rw [work_abort]
      exact hlower .readingRow (by rw [heq]; decide)
  | readingRow =>
    exact ⟨_, _, rfl, hlower .resolving (by rw [heq]; decide)⟩
  | resolving =>
    exact ⟨_, _, rfl, hlower .removingRow (by rw [heq]; decide)⟩
  | removingRow =>
    split
    · exact ⟨_, _, rfl, hlower .ended (by rw [heq]; decide)⟩
    · exact ⟨_, _, rfl, hlower .readingConfig (by rw [heq]; decide)⟩
  | readingConfig =>
    exact ⟨_, _, rfl, hlower .ended (by rw [heq]; decide)⟩

/-- Some task that has not ended gets its lock, or it is an aborted sleeper and is dropped. -/
theorem arbitration_progress (h : ArbiterInv trace s) (hquiet : ¬ s.Quiet) :
    ∃ input next emitted, LocksFree trace s input ∧ step s input = some (next, emitted) ∧
      next.work < s.work := by
  obtain ⟨task, hmem, hpoint⟩ : ∃ task ∈ s.tasks, task.point ≠ .ended := by
    by_contra hnone
    exact hquiet fun task hmem => by_contra fun hended => hnone ⟨task, hmem, hended⟩
  obtain ⟨i, htask⟩ := List.mem_iff_getElem?.mp hmem
  by_cases hdropped : task.point = .sleeping ∧ task.aborted = true
  · refine ⟨.wait i, s.goTo i task .ended, [], ?_, ?_, ?_⟩
    · simp only [LocksFree, htask]
      refine fun _ => ⟨by simp [hdropped.1], fun hfinal => ?_⟩
      simp [ArbiterTask.Finalizing, hdropped.1] at hfinal
    · simp only [step, htask, hdropped.2, if_true]
    · have hmoved := work_go_to htask .ended
      rw [hdropped.1] at hmoved
      simp only [rank] at hmoved
      omega
  · obtain ⟨next, emitted, hnext, hless⟩ := advance_work h htask hpoint hdropped 0
    exact ⟨.advance i 0, next, emitted, trivial, by simp only [step, htask, hnext], hless⟩

/-- A run can always be continued until all tasks have ended. -/
theorem arbitration_ends {inputs : List ArbiterInput} (h : ArbiterInv trace s)
    (hexec : Exec step LocksFree empty inputs trace s) :
    ∃ more full last, Exec step LocksFree empty (inputs ++ more) full last ∧ last.Quiet :=
  hexec.ends (fun h hfree hnext => h.step hfree hnext) arbitration_progress h

/-- A run in which no task that aborted itself has to wait keeps the arbitration, and can go on
until all tasks have ended. -/
theorem arbitration_run {inputs : List ArbiterInput}
    (h : Exec step LocksFree empty inputs trace s) :
    Arbitrated trace s ∧ ∃ more full last, Exec step LocksFree empty (inputs ++ more) full last ∧
      last.Quiet ∧ Arbitrated full last := by
  have hinv : ∀ {inputs trace s}, Exec step LocksFree empty inputs trace s →
      ArbiterInv trace s := by
    intro inputs trace s hexec
    induction hexec with
    | start => exact .empty
    | step _ hfree hnext ih => exact ih.step hfree hnext
  obtain ⟨more, full, last, hlast, hquiet⟩ := arbitration_ends (hinv h) h
  exact ⟨(hinv h).arbitrated, more, full, last, hlast, hquiet, (hinv hlast).arbitrated⟩

theorem relieved_iff {card : Nat} :
    (∃ entry ∈ s.tasks.zipIdx, entry.2 ≠ i ∧ entry.1.card = card ∧ s.Removes entry.1) ↔
      s.Relieved i card :=
  exists_place_iff fun other j => j ≠ i ∧ other.card = card ∧ s.Removes other

instance (s : ArbiterDesk) (i card : Nat) : Decidable (s.Relieved i card) :=
  decidable_of_iff _ relieved_iff

instance (trace : List DestroyEvent) (s : ArbiterDesk) :
    ∀ input, Decidable (LocksFree trace s input)
  | .wait i =>
    match htask : s.tasks[i]? with
    | none => .isTrue (by simp only [LocksFree, htask])
    | some task =>
      have : Decidable (s.cards task.card = none) :=
        decidable_of_iff ((s.cards task.card).isNone = true) Option.isNone_iff_eq_none
      decidable_of_iff (task.aborted = true → task.point ≠ .readingConfig ∧
        (task.Finalizing → s.cards task.card = none ∨ s.Relieved i task.card))
        (by simp only [LocksFree, htask])
  | .create _ | .event _ _ _ | .destroy _ | .advance _ _ => .isTrue trivial

/-- A card that is being transferred, and a call that hangs a watchdog for it, which wakes up and
takes its handle. -/
def sampleDestroy : List ArbiterInput :=
  [.create sampleRow, .destroy 0, .advance 0 1, .advance 0 2, .advance 0 3, .advance 0 4,
    .advance 0 5, .advance 1 6, .advance 1 7, .advance 1 8]

/-- The watchdog aborts itself, has to wait for a lock, and is dropped: the card stays. -/
theorem watchdog_aborts_itself :
    ¬ ∀ inputs trace s, Exec step Guard.free empty inputs trace s → Arbitrated trace s := by
  intro hall
  obtain ⟨trace, last, hexec, hview⟩ := exec_reaches step Guard.free empty
    (sampleDestroy ++ [.wait 1])
    (fun s => (s.stateOf 0, s.tasks.map ArbiterTask.point)) (some "cancelling", [.ended, .ended])
    (by decide +kernel)
  obtain ⟨hstate, hpoints⟩ := Prod.mk.inj hview
  have hquiet : last.Quiet := by
    intro task htask
    have hmem := List.mem_map_of_mem (f := ArbiterTask.point) htask
    rw [hpoints] at hmem
    simpa using hmem
  exact ((hall _ _ _ hexec).quiet hquiet 0).1 hstate

theorem arbitration_run_sample : ∃ trace s,
    Exec step LocksFree empty
      (sampleDestroy ++ [.advance 1 9, .advance 1 10, .advance 1 11, .advance 1 12]) trace s ∧
      Arbitrated trace s := by
  obtain ⟨trace, last, hexec, -⟩ := exec_reaches step LocksFree empty
    (sampleDestroy ++ [.advance 1 9, .advance 1 10, .advance 1 11, .advance 1 12])
    (fun s => (s.stateOf 0, s.tasks.map ArbiterTask.point)) (none, [.ended, .ended])
    (by decide +kernel)
  exact ⟨trace, last, hexec, (arbitration_run hexec).1⟩

end ArbiterDesk

end LocalTrans.Desktop
