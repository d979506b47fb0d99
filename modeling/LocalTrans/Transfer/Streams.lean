import LocalTrans.Foundation.Execution
import Mathlib.Data.List.Perm.Basic
import Mathlib.Logic.Function.Basic

/-!
# Who takes a stream

All receivers of a connection call `accept_uni` on it: the windows of `run_receiver_windowed` and
`recv_small_files_batched`. Each takes the stream that comes next, whatever it was opened for.
`Link` is one connection with its receivers; `clearGuard` says when a receiver may begin to wait for
streams, so that each of them takes only its own.
-/

namespace LocalTrans

open Foundation

/-- What a stream is for: a job whose chunks are fetched, or an offer whose small files are sent. -/
inductive Owner where
  | job (id : Nat)
  | offer (id : Nat)
deriving DecidableEq

/-- A unidirectional stream: one chunk, or the small files of an offer. -/
inductive UniStream where
  | chunk (job chunk : Nat)
  | batch (offer : Nat)
deriving DecidableEq

/-- What a stream was opened for. -/
def UniStream.owner : UniStream → Owner
  | .chunk job _ => .job job
  | .batch offer => .offer offer

/-- The variables of `run_receiver_windowed`: the chunks of the window with their limit in flight,
how many were asked for, the tasks that read accepted streams, and how many tasks have ended. -/
structure ChunkWindow where
  job : Nat
  batch : List Nat
  window : Nat
  sent : Nat
  tasks : List UniStream
  completed : Nat

/-- A receiver: of the chunks of a job, or of the small files of an offer, with the stream it has
accepted. -/
inductive Receiver where
  | chunks (state : ChunkWindow)
  | files (offer : Nat) (accepted : Option UniStream)

namespace Receiver

/-- What a receiver waits for. -/
def owner : Receiver → Owner
  | .chunks state => .job state.job
  | .files offer _ => .offer offer

/-- How many streams it is still to accept; `accepted` is what is being read or has been. -/
def due : Receiver → Nat
  | .chunks state => state.sent - (state.completed + state.tasks.length)
  | .files _ none => 1
  | .files _ (some _) => 0

/-- The receiver after it has accepted a stream, if it waits for one. -/
def take (stream : UniStream) : Receiver → Option Receiver
  | .chunks state =>
    if state.completed + state.tasks.length < state.sent then
      some (.chunks { state with tasks := state.tasks ++ [stream] })
    else none
  | .files offer none => some (.files offer (some stream))
  | .files _ (some _) => none

/-- The counters of a window: no more tasks than requests, and no more requests than chunks. -/
def Counted : Receiver → Prop
  | .chunks state =>
    state.completed + state.tasks.length ≤ state.sent ∧ state.sent ≤ state.batch.length
  | .files _ _ => True

end Receiver

/-- A connection: what was asked for and not opened yet, the streams that were opened and not
accepted yet, the receivers by their handles, and the ids that were given out. -/
structure Link where
  requested : List UniStream
  queue : List UniStream
  receivers : Nat → Option Receiver
  count : Nat
  used : List Owner

/-- A receiver starts, for a job or an accepted offer; a window of chunks begins or asks for its
next chunk; the peer opens a stream; a receiver accepts the next stream; the task of a stream ends; a
receiver has everything, or fails. -/
inductive LinkInput where
  | startJob (job : Nat)
  | acceptOffer (offer : Nat)
  | window (handle : Nat) (batch : List Nat) (window : Nat)
  | fetchReq (handle : Nat)
  | openUni (stream : UniStream)
  | acceptUni (handle : Nat)
  | join (handle i : Nat) (ok : Bool)
  | finish (handle : Nat) (ok : Bool)
  | fail (handle : Nat)

/-- A stream is opened, or accepted by a receiver; a receiver ends. -/
inductive LinkEvent where
  | opened (stream : UniStream)
  | accepted (owner : Owner) (stream : UniStream)
  | finished (owner : Owner)
  | failed (owner : Owner)
deriving DecidableEq

namespace Link

/-- A connection without receivers. -/
def start : Link :=
  { requested := [], queue := [], receivers := fun _ => none, count := 0, used := [] }

/-- Add a receiver, with what it asks for at once. The ids of a peer are given out once. -/
def add (link : Link) (receiver : Receiver) (requested : List UniStream) : Option Link :=
  if receiver.owner ∈ link.used then none
  else some {
    requested := link.requested ++ requested
    queue := link.queue
    receivers := Function.update link.receivers link.count (some receiver)
    count := link.count + 1
    used := receiver.owner :: link.used }

/-- Change a receiver. -/
def set (link : Link) (handle : Nat) (receiver : Option Receiver) : Link :=
  { link with receivers := Function.update link.receivers handle receiver }

/-- One step on the connection. -/
def step : Machine Link LinkInput LinkEvent
  | link, .startJob job =>
    (link.add (.chunks { job, batch := [], window := 1, sent := 0, tasks := [], completed := 0 })
      []).map fun next => (next, [])
  | link, .acceptOffer offer =>
    -- The peer may open the stream as soon as it has the answer.
    (link.add (.files offer none) [.batch offer]).map fun next => (next, [])
  | link, .window handle batch window =>
    match link.receivers handle with
    | some (.chunks state) =>
      if state.completed = state.batch.length ∧ state.tasks = [] then
        let state := { state with batch, window, sent := 0, completed := 0 }
        some (link.set handle (some (.chunks state)), [])
      else none
    | _ => none
  | link, .fetchReq handle =>
    match link.receivers handle with
    | some (.chunks state) =>
      match state.batch[state.sent]? with
      | none => none
      | some chunk =>
        if state.sent - state.completed < state.window then
          let link := link.set handle (some (.chunks { state with sent := state.sent + 1 }))
          some ({ link with requested := link.requested ++ [.chunk state.job chunk] }, [])
        else none
    | _ => none
  | link, .openUni stream =>
    some ({ link with requested := link.requested.erase stream, queue := link.queue ++ [stream] },
      [.opened stream])
  | link, .acceptUni handle =>
    match link.receivers handle, link.queue with
    | some receiver, stream :: queue =>
      match receiver.take stream with
      | none => none
      | some receiver =>
        some ({ link.set handle (some receiver) with queue }, [.accepted receiver.owner stream])
    | _, _ => none
  | link, .join handle i ok =>
    match link.receivers handle with
    | some (.chunks state) =>
      match state.tasks[i]? with
      | none => none
      | some stream =>
        -- `块流不匹配`: the header names another job, or a chunk that is not of the window.
        if ok = true ∧ ∃ chunk ∈ state.batch, stream = .chunk state.job chunk then
          let state := { state with
            tasks := state.tasks.eraseIdx i, completed := state.completed + 1 }
          some (link.set handle (some (.chunks state)), [])
        else some (link.set handle none, [.failed (.job state.job)])
    | _ => none
  | link, .finish handle ok =>
    match link.receivers handle with
    | some (.chunks state) =>
      if state.completed = state.batch.length ∧ state.tasks = [] then
        some (link.set handle none, [if ok then .finished (.job state.job)
          else .failed (.job state.job)])
      else none
    | some (.files offer (some _)) =>
      some (link.set handle none, [if ok then .finished (.offer offer)
        else .failed (.offer offer)])
    | _ => none
  | link, .fail handle =>
    match link.receivers handle with
    | some receiver => some (link.set handle none, [.failed receiver.owner])
    | none => none

/-- The streams that were asked for or opened, and not accepted yet. -/
def inFlight (link : Link) : List UniStream :=
  link.requested ++ link.queue

/-- How many of them are for the given job or offer. -/
def flying (link : Link) (owner : Owner) : Nat :=
  (link.inFlight.map UniStream.owner).count owner

/-- Nothing is in flight but for the given receiver, and no other receiver waits for a stream. -/
def Clear (link : Link) (handle : Nat) (owner : Owner) : Prop :=
  (∀ stream ∈ link.inFlight, stream.owner = owner) ∧
    ∀ other < link.count, other ≠ handle → ∀ receiver ∈ link.receivers other, receiver.due = 0

instance (link : Link) (handle : Nat) (owner : Owner) : Decidable (link.Clear handle owner) :=
  inferInstanceAs (Decidable (_ ∧ _))

end Link

/-- The condition on one step: a receiver asks for a stream only while no other one waits and
nothing is in flight for another, and the peer opens only streams that were asked for. -/
def clearGuard : Guard Link LinkInput LinkEvent :=
  fun _ link input =>
    match input with
    | .fetchReq handle => ∀ receiver ∈ link.receivers handle, link.Clear handle receiver.owner
    | .acceptOffer offer => link.Clear link.count (.offer offer)
    | .openUni stream => stream ∈ link.requested
    | _ => True

instance (trace : List LinkEvent) (link : Link) (input : LinkInput) :
    Decidable (clearGuard trace link input) := by
  unfold clearGuard
  split <;> infer_instance

/-- The streams that were opened, in their order. -/
def openedStreams (trace : List LinkEvent) : List UniStream :=
  trace.filterMap fun
    | .opened stream => some stream
    | _ => none

/-- The streams that were accepted, in their order. -/
def acceptedStreams (trace : List LinkEvent) : List UniStream :=
  trace.filterMap fun
    | .accepted _ stream => some stream
    | _ => none

namespace Link

/-- Every receiver has in flight just what it waits for, and while one waits nothing is in flight for
another. -/
structure Tidy (link : Link) : Prop where
  bound : ∀ handle receiver, link.receivers handle = some receiver → handle < link.count
  used : ∀ handle receiver, link.receivers handle = some receiver → receiver.owner ∈ link.used
  unique : ∀ first second one other, link.receivers first = some one →
    link.receivers second = some other → one.owner = other.owner → first = second
  known : ∀ owner, owner ∉ link.used → link.flying owner = 0
  counted : ∀ handle receiver, link.receivers handle = some receiver → receiver.Counted
  due : ∀ handle receiver, link.receivers handle = some receiver →
    link.flying receiver.owner = receiver.due
  single : ∀ handle receiver, link.receivers handle = some receiver → receiver.due ≠ 0 →
    ∀ owner, owner ≠ receiver.owner → link.flying owner = 0

variable {link next : Link} {handle : Nat} {receiver after : Receiver} {owner : Owner}
  {stream : UniStream} {emitted : List LinkEvent}

/-- What is in flight has an owner that is counted. -/
theorem flying_pos (h : stream ∈ link.inFlight) : 0 < link.flying stream.owner :=
  List.count_pos_iff.mpr (List.mem_map.mpr ⟨stream, h, rfl⟩)

/-- If only the streams of one owner are in flight, there are none of another. -/
theorem flying_eq_zero (h : ∀ stream ∈ link.inFlight, stream.owner = owner) {other : Owner}
    (hother : other ≠ owner) : link.flying other = 0 := by
  refine List.count_eq_zero.mpr fun hmem => ?_
  obtain ⟨stream, hstream, hsame⟩ := List.mem_map.mp hmem
  exact hother (hsame.symm.trans (h stream hstream))

/-- One more stream is asked for. -/
theorem flying_request {requested queue : List UniStream} :
    ((requested ++ [stream] ++ queue).map UniStream.owner).count owner =
      ((requested ++ queue).map UniStream.owner).count owner +
        if stream.owner = owner then 1 else 0 := by
  simp only [List.map_append, List.count_append, List.map_cons, List.map_nil, List.count_cons,
    List.count_nil, beq_iff_eq]
  omega

/-- The next stream is accepted. -/
theorem flying_accept {requested queue : List UniStream} :
    ((requested ++ stream :: queue).map UniStream.owner).count owner =
      ((requested ++ queue).map UniStream.owner).count owner +
        if stream.owner = owner then 1 else 0 := by
  simp only [List.map_append, List.count_append, List.map_cons, List.count_cons, beq_iff_eq]
  omega

/-- A receiver changes, and with it only what is in flight for it. It begins to wait only if the
connection is clear. -/
theorem Tidy.update (h : link.Tidy) (hreceiver : link.receivers handle = some receiver)
    (howner : after.owner = receiver.owner) (hcounted : after.Counted)
    (hreceivers : next.receivers = Function.update link.receivers handle (some after))
    (hcount : next.count = link.count) (hused : next.used = link.used)
    (hown : next.flying receiver.owner = after.due)
    (hothers : ∀ owner, owner ≠ receiver.owner → next.flying owner = link.flying owner)
    (hgrow : after.due ≠ 0 → receiver.due ≠ 0 ∨ link.Clear handle receiver.owner) : next.Tidy := by
  have hold : ∀ other found, next.receivers other = some found →
      other = handle ∧ found = after ∨ other ≠ handle ∧ link.receivers other = some found := by
    intro other found hfound
    rw [hreceivers] at hfound
    by_cases hsame : other = handle
    · subst hsame
      rw [Function.update_self] at hfound
      exact .inl ⟨rfl, (Option.some.inj hfound).symm⟩
    · rw [Function.update_of_ne hsame] at hfound
      exact .inr ⟨hsame, hfound⟩
  refine ⟨?_, ?_, ?_, ?_, ?_, ?_, ?_⟩
  · intro other found hfound
    rw [hcount]
    rcases hold other found hfound with ⟨rfl, -⟩ | ⟨-, hbefore⟩
    · exact h.bound other receiver hreceiver
    · exact h.bound other found hbefore
  · intro other found hfound
    rw [hused]
    rcases hold other found hfound with ⟨-, rfl⟩ | ⟨-, hbefore⟩
    · rw [howner]
      exact h.used handle receiver hreceiver
    · exact h.used other found hbefore
  · intro first second one other hone hother hsame
    rcases hold first one hone with ⟨rfl, rfl⟩ | ⟨hne, hbefore⟩
    · rcases hold second other hother with ⟨rfl, -⟩ | ⟨-, hbefore⟩
      · rfl
      · exact h.unique _ _ _ _ hreceiver hbefore (howner.symm.trans hsame)
    · rcases hold second other hother with ⟨rfl, rfl⟩ | ⟨-, hbefore'⟩
      · exact h.unique _ _ _ _ hbefore hreceiver (hsame.trans howner)
      · exact h.unique _ _ _ _ hbefore hbefore' hsame
  · intro owner hnew
    rw [hused] at hnew
    have hne : owner ≠ receiver.owner := by
      intro hsame
      rw [hsame] at hnew
      exact hnew (h.used handle receiver hreceiver)
    rw [hothers owner hne]
    exact h.known owner hnew
  · intro other found hfound
    rcases hold other found hfound with ⟨-, rfl⟩ | ⟨-, hbefore⟩
    · exact hcounted
    · exact h.counted other found hbefore
  · intro other found hfound
    rcases hold other found hfound with ⟨-, rfl⟩ | ⟨hne, hbefore⟩
    · rw [howner]
      exact hown
    · rw [hothers found.owner fun hsame => hne (h.unique _ _ _ _ hbefore hreceiver hsame)]
      exact h.due other found hbefore
  · intro other found hfound hwaits owner hother
    rcases hold other found hfound with ⟨-, rfl⟩ | ⟨hne, hbefore⟩
    · rw [howner] at hother
      rw [hothers owner hother]
      rcases hgrow hwaits with hwaited | hclear
      · exact h.single handle receiver hreceiver hwaited owner hother
      · exact flying_eq_zero hclear.1 hother
    · -- Another receiver waits, so this one did not and does not begin to.
      have hapart : receiver.owner ≠ found.owner :=
        fun hsame => hne (h.unique _ _ _ _ hbefore hreceiver hsame.symm)
      have hnone := h.single other found hbefore hwaits
      have hidle : receiver.due = 0 := by
        rw [← h.due handle receiver hreceiver]
        exact hnone receiver.owner hapart
      by_cases hsame : owner = receiver.owner
      · rw [hsame, hown]
        by_contra hbegins
        rcases hgrow hbegins with hwaited | hclear
        · exact hwaited hidle
        · exact hwaits (hclear.2 other (h.bound other found hbefore) hne found hbefore)
      · rw [hothers owner hsame]
        exact hnone owner hother

/-- A receiver ends. -/
theorem Tidy.remove (h : link.Tidy) (handle : Nat) : (link.set handle none).Tidy := by
  have hold : ∀ other found, (link.set handle none).receivers other = some found →
      link.receivers other = some found := by
    intro other found hfound
    have hfound : Function.update link.receivers handle none other = some found := hfound
    by_cases hsame : other = handle
    · rw [hsame, Function.update_self] at hfound
      cases hfound
    · rwa [Function.update_of_ne hsame] at hfound
  exact
    { bound := fun other found hfound => h.bound other found (hold other found hfound)
      used := fun other found hfound => h.used other found (hold other found hfound)
      unique := fun first second one other hone hother =>
        h.unique first second one other (hold first one hone) (hold second other hother)
      known := h.known
      counted := fun other found hfound => h.counted other found (hold other found hfound)
      due := fun other found hfound => h.due other found (hold other found hfound)
      single := fun other found hfound => h.single other found (hold other found hfound) }

/-- A receiver starts under a new id, and asks for streams only if the connection is clear. -/
theorem Tidy.add {requested : List UniStream} (h : link.Tidy)
    (hadd : link.add receiver requested = some next) (hcounted : receiver.Counted)
    (hown : (requested.map UniStream.owner).count receiver.owner = receiver.due)
    (hothers : ∀ owner, owner ≠ receiver.owner → (requested.map UniStream.owner).count owner = 0)
    (hgrow : receiver.due ≠ 0 → link.Clear link.count receiver.owner) : next.Tidy := by
  unfold Link.add at hadd
  split at hadd
  · cases hadd
  next hnew =>
  cases hadd
  have hflying : ∀ owner, ((link.requested ++ requested ++ link.queue).map UniStream.owner).count
      owner = link.flying owner + (requested.map UniStream.owner).count owner := by
    intro owner
    show _ = ((link.requested ++ link.queue).map UniStream.owner).count owner + _
    simp only [List.map_append, List.count_append]
    omega
  have hold : ∀ other found,
      Function.update link.receivers link.count (some receiver) other = some found →
      other = link.count ∧ found = receiver ∨
        other ≠ link.count ∧ link.receivers other = some found := by
    intro other found hfound
    by_cases hsame : other = link.count
    · rw [hsame, Function.update_self] at hfound
      exact .inl ⟨hsame, (Option.some.inj hfound).symm⟩
    · rw [Function.update_of_ne hsame] at hfound
      exact .inr ⟨hsame, hfound⟩
  have hapart : ∀ other found, link.receivers other = some found → found.owner ≠ receiver.owner := by
    intro other found hfound hsame
    exact hnew (hsame ▸ h.used other found hfound)
  refine ⟨?_, ?_, ?_, ?_, ?_, ?_, ?_⟩
  · intro other found hfound
    show other < link.count + 1
    rcases hold other found hfound with ⟨rfl, -⟩ | ⟨-, hbefore⟩
    · omega
    · have hlt := h.bound other found hbefore
      omega
  · intro other found hfound
    rcases hold other found hfound with ⟨-, rfl⟩ | ⟨-, hbefore⟩
    · exact List.mem_cons_self ..
    · exact List.mem_cons_of_mem _ (h.used other found hbefore)
  · intro first second one other hone hother hsame
    rcases hold first one hone with ⟨rfl, rfl⟩ | ⟨-, hbefore⟩
    · rcases hold second other hother with ⟨rfl, -⟩ | ⟨-, hbefore⟩
      · rfl
      · exact absurd hsame.symm (hapart second other hbefore)
    · rcases hold second other hother with ⟨rfl, rfl⟩ | ⟨-, hbefore'⟩
      · exact absurd hsame (hapart first one hbefore)
      · exact h.unique _ _ _ _ hbefore hbefore' hsame
  · intro owner hunused
    show ((link.requested ++ requested ++ link.queue).map UniStream.owner).count owner = 0
    rw [hflying, h.known owner fun hmem => hunused (List.mem_cons_of_mem _ hmem),
      hothers owner fun hsame => hunused (hsame ▸ List.mem_cons_self ..)]
  · intro other found hfound
    rcases hold other found hfound with ⟨-, rfl⟩ | ⟨-, hbefore⟩
    · exact hcounted
    · exact h.counted other found hbefore
  · intro other found hfound
    show ((link.requested ++ requested ++ link.queue).map UniStream.owner).count found.owner = _
    rw [hflying]
    rcases hold other found hfound with ⟨-, rfl⟩ | ⟨-, hbefore⟩
    · rw [hown, h.known _ hnew, Nat.zero_add]
    · rw [hothers _ (hapart other found hbefore), Nat.add_zero]
      exact h.due other found hbefore
  · intro other found hfound hwaits owner hother
    show ((link.requested ++ requested ++ link.queue).map UniStream.owner).count owner = 0
    rw [hflying]
    rcases hold other found hfound with ⟨-, rfl⟩ | ⟨hne, hbefore⟩
    · rw [flying_eq_zero (hgrow hwaits).1 hother, hothers owner hother]
    · rw [h.single other found hbefore hwaits owner hother, Nat.zero_add]
      by_cases hsame : owner = receiver.owner
      · rw [hsame, hown]
        by_contra hbegins
        exact hwaits ((hgrow hbegins).2 other (h.bound other found hbefore) hne found hbefore)
      · exact hothers owner hsame

/-- The same receivers, and the same in flight in another order. -/
theorem Tidy.reorder (h : link.Tidy) (hreceivers : next.receivers = link.receivers)
    (hcount : next.count = link.count) (hused : next.used = link.used)
    (hflying : ∀ owner, next.flying owner = link.flying owner) : next.Tidy := by
  constructor
  · rw [hreceivers, hcount]
    exact h.bound
  · rw [hreceivers, hused]
    exact h.used
  · rw [hreceivers]
    exact h.unique
  · intro owner hnew
    rw [hused] at hnew
    rw [hflying]
    exact h.known owner hnew
  · rw [hreceivers]
    exact h.counted
  · intro handle receiver hreceiver
    rw [hreceivers] at hreceiver
    rw [hflying]
    exact h.due handle receiver hreceiver
  · intro handle receiver hreceiver hwaits owner hother
    rw [hreceivers] at hreceiver
    rw [hflying]
    exact h.single handle receiver hreceiver hwaits owner hother

/-- A job or an offer has ended: no receiver is for it, and nothing is in flight for it. -/
structure Ended (link : Link) (owner : Owner) : Prop where
  used : owner ∈ link.used
  gone : ∀ handle receiver, link.receivers handle = some receiver → receiver.owner ≠ owner
  quiet : link.flying owner = 0

/-- What has ended stays so when a receiver for something else changes. -/
theorem Ended.update (h : link.Ended owner) (hreceiver : link.receivers handle = some receiver)
    (howner : after.owner = receiver.owner)
    (hreceivers : next.receivers = Function.update link.receivers handle (some after))
    (hused : next.used = link.used)
    (hothers : ∀ owner, owner ≠ receiver.owner → next.flying owner = link.flying owner) :
    next.Ended owner where
  used := by
    rw [hused]
    exact h.used
  gone other found hfound := by
    rw [hreceivers] at hfound
    by_cases hsame : other = handle
    · rw [hsame, Function.update_self] at hfound
      cases hfound
      rw [howner]
      exact h.gone handle receiver hreceiver
    · rw [Function.update_of_ne hsame] at hfound
      exact h.gone other found hfound
  quiet := by
    rw [hothers owner (h.gone handle receiver hreceiver).symm]
    exact h.quiet

/-- What has ended stays so when a receiver ends. -/
theorem Ended.remove (h : link.Ended owner) (handle : Nat) : (link.set handle none).Ended owner where
  __ := h
  gone other found hfound := by
    have hfound : Function.update link.receivers handle none other = some found := hfound
    by_cases hsame : other = handle
    · rw [hsame, Function.update_self] at hfound
      cases hfound
    · rw [Function.update_of_ne hsame] at hfound
      exact h.gone other found hfound

/-- What has ended stays so when a receiver starts, since its id is new. -/
theorem Ended.add {requested : List UniStream} (h : link.Ended owner)
    (hadd : link.add receiver requested = some next)
    (hothers : ∀ owner, owner ≠ receiver.owner → (requested.map UniStream.owner).count owner = 0) :
    next.Ended owner := by
  unfold Link.add at hadd
  split at hadd
  · cases hadd
  next hnew =>
  cases hadd
  have hapart : owner ≠ receiver.owner := fun hsame => hnew (hsame ▸ h.used)
  refine ⟨List.mem_cons_of_mem _ h.used, ?_, ?_⟩
  · intro other found hfound
    have hfound : Function.update link.receivers link.count (some receiver) other = some found :=
      hfound
    by_cases hsame : other = link.count
    · rw [hsame, Function.update_self] at hfound
      cases hfound
      exact hapart.symm
    · rw [Function.update_of_ne hsame] at hfound
      exact h.gone other found hfound
  · have hnone : ((link.requested ++ link.queue).map UniStream.owner).count owner = 0 := h.quiet
    show ((link.requested ++ requested ++ link.queue).map UniStream.owner).count owner = 0
    simp only [List.map_append, List.count_append] at hnone ⊢
    have hzero := hothers owner hapart
    omega

/-- The counters before a receiver accepts a stream, and after. -/
theorem take_spec (h : receiver.take stream = some after) (hcounted : receiver.Counted) :
    after.owner = receiver.owner ∧ receiver.due = after.due + 1 ∧ after.Counted := by
  cases receiver with
  | chunks state =>
    obtain ⟨hless, h⟩ := of_when h
    cases h
    refine ⟨rfl, ?_, ?_⟩
    · simp only [Receiver.due, List.length_append, List.length_singleton]
      omega
    · simp only [Receiver.Counted, List.length_append, List.length_singleton] at hcounted ⊢
      omega
  | files offer accepted =>
    cases accepted with
    | none =>
      cases h
      exact ⟨rfl, rfl, trivial⟩
    | some found => cases h

/-- What one step does to a tidy connection. -/
structure Moved (link next : Link) (emitted : List LinkEvent) : Prop where
  tidy : next.Tidy
  own : ∀ owner stream, .accepted owner stream ∈ emitted → stream.owner = owner
  flow : link.queue ++ openedStreams emitted = acceptedStreams emitted ++ next.queue
  still : ∀ owner, link.Ended owner → next.Ended owner
  ends : ∀ owner, .finished owner ∈ emitted → next.Ended owner

/-- A receiver ends in a way that is no success. -/
theorem moved_failed (h : link.Tidy) (handle : Nat) (owner : Owner) :
    Moved link (link.set handle none) [.failed owner] where
  tidy := h.remove handle
  own := by simp
  flow := by
    show link.queue ++ [] = [] ++ link.queue
    rw [List.append_nil, List.nil_append]
  still _ hended := hended.remove handle
  ends := by simp

/-- A receiver that waits for nothing ends, and nothing is in flight for it. -/
theorem moved_finished (h : link.Tidy) (hreceiver : link.receivers handle = some receiver)
    (hidle : receiver.due = 0) (ok : Bool) :
    Moved link (link.set handle none)
      [if ok then .finished receiver.owner else .failed receiver.owner] := by
  have hended : (link.set handle none).Ended receiver.owner := by
    refine ⟨h.used handle receiver hreceiver, ?_, ?_⟩
    · intro other found hfound hsame
      have hfound : Function.update link.receivers handle none other = some found := hfound
      by_cases hsameHandle : other = handle
      · rw [hsameHandle, Function.update_self] at hfound
        cases hfound
      · rw [Function.update_of_ne hsameHandle] at hfound
        exact hsameHandle (h.unique _ _ _ _ hfound hreceiver hsame)
    · show link.flying receiver.owner = 0
      rw [h.due handle receiver hreceiver, hidle]
  cases ok with
  | false => exact moved_failed h handle receiver.owner
  | true =>
    refine ⟨h.remove handle, by simp, ?_, fun _ hbefore => hbefore.remove handle, ?_⟩
    · show link.queue ++ [] = [] ++ link.queue
      rw [List.append_nil, List.nil_append]
    · intro owner hmem
      have hsame : owner = receiver.owner := by simpa using hmem
      rw [hsame]
      exact hended

/-- A receiver changes, and no stream is opened or accepted. -/
theorem moved_silent (h : link.Tidy) (hreceiver : link.receivers handle = some receiver)
    (howner : after.owner = receiver.owner) (hcounted : after.Counted)
    (hsame : after.due = receiver.due) : Moved link (link.set handle (some after)) [] := by
  have hflying : ∀ owner, (link.set handle (some after)).flying owner = link.flying owner :=
    fun _ => rfl
  refine ⟨?_, by simp, ?_, ?_, by simp⟩
  · refine h.update hreceiver howner hcounted rfl rfl rfl ?_ (fun owner _ => hflying owner) ?_
    · rw [hflying, h.due handle receiver hreceiver, hsame]
    · intro hwaits
      rw [hsame] at hwaits
      exact .inl hwaits
  · show link.queue ++ [] = [] ++ link.queue
    rw [List.append_nil, List.nil_append]
  · intro owner hended
    exact hended.update hreceiver howner rfl rfl fun owner _ => hflying owner

/-- A receiver of chunks asks for the next chunk. -/
theorem moved_fetch {trace : List LinkEvent} (h : link.Tidy)
    (hguard : clearGuard trace link (.fetchReq handle))
    (hstep : Link.step link (.fetchReq handle) = some (next, emitted)) :
    Moved link next emitted := by
  unfold Link.step at hstep
  dsimp only at hstep
  split at hstep
  · next state hreceiver =>
    split at hstep
    · cases hstep
    next chunk hchunk =>
    obtain ⟨-, hstep⟩ := of_when hstep
    cases hstep
    have hclear : link.Clear handle (.job state.job) := hguard _ hreceiver
    have hcounted := h.counted handle _ hreceiver
    have hdue := h.due handle _ hreceiver
    obtain ⟨hlt, -⟩ := List.getElem?_eq_some_iff.mp hchunk
    have hflying : ∀ owner,
        ((link.requested ++ [UniStream.chunk state.job chunk] ++ link.queue).map
          UniStream.owner).count
          owner = link.flying owner + if Owner.job state.job = owner then 1 else 0 :=
      fun _ => flying_request
    have hothers : ∀ owner, owner ≠ .job state.job →
        ((link.requested ++ [UniStream.chunk state.job chunk] ++ link.queue).map
          UniStream.owner).count
          owner = link.flying owner := by
      intro owner hother
      rw [hflying, if_neg (Ne.symm hother), Nat.add_zero]
    refine ⟨?_, by simp, ?_, ?_, by simp⟩
    · have hsame : (Receiver.chunks { state with sent := state.sent + 1 }).owner =
          (Receiver.chunks state).owner := rfl
      refine h.update hreceiver hsame ?_ rfl rfl rfl ?_ hothers fun _ => .inr hclear
      · simp only [Receiver.Counted] at hcounted ⊢
        omega
      · show ((link.requested ++ [UniStream.chunk state.job chunk] ++ link.queue).map
          UniStream.owner).count (.job state.job) = _
        rw [hflying, if_pos rfl]
        simp only [Receiver.Counted] at hcounted
        simp only [Receiver.owner, Receiver.due] at hdue ⊢
        omega
    · show link.queue ++ [] = [] ++ link.queue
      rw [List.append_nil, List.nil_append]
    · intro owner hended
      have hsame : (Receiver.chunks { state with sent := state.sent + 1 }).owner =
          (Receiver.chunks state).owner := rfl
      exact hended.update hreceiver hsame rfl rfl hothers
  · cases hstep

/-- The peer opens a stream that was asked for. -/
theorem moved_open (h : link.Tidy) (hmem : stream ∈ link.requested)
    (hstep : Link.step link (.openUni stream) = some (next, emitted)) : Moved link next emitted := by
  cases hstep
  have hperm : (link.requested.erase stream ++ (link.queue ++ [stream])).Perm
      (link.requested ++ link.queue) := by
    have herase : link.requested.Perm (stream :: link.requested.erase stream) :=
      List.perm_cons_erase hmem
    have hmoved : (link.requested.erase stream ++ (link.queue ++ [stream])).Perm
        (stream :: link.requested.erase stream ++ link.queue) := by
      rw [← List.append_assoc]
      exact List.perm_append_singleton ..
    exact hmoved.trans (herase.symm.append_right _)
  have hflying : ∀ owner, ((link.requested.erase stream ++
      (link.queue ++ [stream])).map UniStream.owner).count owner = link.flying owner :=
    fun owner => (hperm.map UniStream.owner).count_eq owner
  refine ⟨h.reorder rfl rfl rfl hflying, by simp, rfl, ?_, by simp⟩
  intro owner hended
  exact ⟨hended.used, hended.gone, (hflying owner).trans hended.quiet⟩

/-- A receiver accepts the next stream: it is its own. -/
theorem moved_accept (h : link.Tidy)
    (hstep : Link.step link (.acceptUni handle) = some (next, emitted)) :
    Moved link next emitted := by
  unfold Link.step at hstep
  dsimp only at hstep
  split at hstep
  · next receiver stream queue hreceiver hqueue =>
    split at hstep
    · cases hstep
    · next after htake =>
      cases hstep
      obtain ⟨howner, hdue, hcounted⟩ := take_spec htake (h.counted handle receiver hreceiver)
      have hwaits : receiver.due ≠ 0 := by omega
      have hflying : ∀ owner, link.flying owner =
          ((link.requested ++ queue).map UniStream.owner).count owner +
            if stream.owner = owner then 1 else 0 := by
        intro owner
        show ((link.requested ++ link.queue).map UniStream.owner).count owner = _
        rw [hqueue]
        exact flying_accept
      have hown : stream.owner = receiver.owner := by
        -- While this receiver waits, nothing is in flight for another.
        by_contra hother
        have hnone := h.single handle receiver hreceiver hwaits stream.owner hother
        rw [hflying, if_pos rfl] at hnone
        omega
      have hothers : ∀ owner, owner ≠ receiver.owner →
          ((link.requested ++ queue).map UniStream.owner).count owner = link.flying owner := by
        intro owner hother
        rw [hflying, hown, if_neg (Ne.symm hother), Nat.add_zero]
      refine ⟨?_, ?_, ?_, ?_, by simp⟩
      · refine h.update hreceiver howner hcounted rfl rfl rfl ?_ hothers fun _ => .inl hwaits
        show ((link.requested ++ queue).map UniStream.owner).count receiver.owner = _
        have hbefore := h.due handle receiver hreceiver
        rw [hflying, hown, if_pos rfl] at hbefore
        omega
      · intro owner found hmem
        cases List.mem_singleton.mp hmem
        rw [hown, howner]
      · show link.queue ++ [] = [stream] ++ queue
        rw [hqueue, List.append_nil]
        rfl
      · intro owner hended
        exact hended.update hreceiver howner rfl rfl hothers
  · cases hstep

/-- A receiver starts. -/
theorem moved_start {requested : List UniStream} (h : link.Tidy)
    (hadd : link.add receiver requested = some next) (hcounted : receiver.Counted)
    (hown : (requested.map UniStream.owner).count receiver.owner = receiver.due)
    (hothers : ∀ owner, owner ≠ receiver.owner → (requested.map UniStream.owner).count owner = 0)
    (hgrow : receiver.due ≠ 0 → link.Clear link.count receiver.owner) : Moved link next [] := by
  have hqueue : next.queue = link.queue := by
    obtain ⟨-, hadd⟩ := of_unless hadd
    cases hadd
    rfl
  refine ⟨h.add hadd hcounted hown hothers hgrow, by simp, ?_, ?_, by simp⟩
  · show link.queue ++ [] = [] ++ next.queue
    rw [hqueue, List.append_nil, List.nil_append]
  · intro owner hended
    exact hended.add hadd hothers

/-- One step. -/
theorem step_moved {trace : List LinkEvent} {input : LinkInput} (h : link.Tidy)
    (hguard : clearGuard trace link input) (hstep : Link.step link input = some (next, emitted)) :
    Moved link next emitted := by
  cases input with
  | startJob job =>
    obtain ⟨added, hadd, hnext⟩ := Option.map_eq_some_iff.mp hstep
    cases hnext
    refine moved_start h hadd ⟨Nat.le_refl _, Nat.le_refl _⟩ rfl (fun _ _ => rfl) ?_
    intro hwaits
    exact absurd rfl hwaits
  | acceptOffer offer =>
    obtain ⟨added, hadd, hnext⟩ := Option.map_eq_some_iff.mp hstep
    cases hnext
    refine moved_start h hadd trivial ?_ ?_ fun _ => hguard
    · show List.count (Owner.offer offer) [.offer offer] = 1
      simp
    · intro owner hother
      show List.count owner [.offer offer] = 0
      exact List.count_eq_zero.mpr fun hmem => hother (List.mem_singleton.mp hmem)
  | window handle batch window =>
    unfold Link.step at hstep
    dsimp only at hstep
    split at hstep
    · next state hreceiver =>
      obtain ⟨hended, hstep⟩ := of_when hstep
      cases hstep
      obtain ⟨hall, hnone⟩ := hended
      have hcounted := h.counted handle _ hreceiver
      simp only [Receiver.Counted, hnone, List.length_nil] at hcounted
      refine moved_silent h hreceiver rfl ?_ ?_
      · simp only [Receiver.Counted, hnone, List.length_nil]
        omega
      · simp only [Receiver.due, hnone, List.length_nil]
        omega
    · cases hstep
  | fetchReq handle => exact moved_fetch h hguard hstep
  | openUni stream => exact moved_open h hguard hstep
  | acceptUni handle => exact moved_accept h hstep
  | join handle i ok =>
    unfold Link.step at hstep
    dsimp only at hstep
    split at hstep
    · next state hreceiver =>
      split at hstep
      · cases hstep
      next stream hstream =>
      obtain ⟨hlt, -⟩ := List.getElem?_eq_some_iff.mp hstream
      have hlength : (state.tasks.eraseIdx i).length = state.tasks.length - 1 :=
        List.length_eraseIdx_of_lt hlt
      split at hstep
      · cases hstep
        have hcounted := h.counted handle _ hreceiver
        simp only [Receiver.Counted] at hcounted
        refine moved_silent h hreceiver rfl ?_ ?_
        · simp only [Receiver.Counted, hlength]
          omega
        · simp only [Receiver.due, hlength]
          omega
      · cases hstep
        exact moved_failed h handle _
    · cases hstep
  | finish handle ok =>
    unfold Link.step at hstep
    dsimp only at hstep
    split at hstep
    · next state hreceiver =>
      obtain ⟨hended, hstep⟩ := of_when hstep
      cases hstep
      obtain ⟨hall, hnone⟩ := hended
      have hcounted := h.counted handle _ hreceiver
      simp only [Receiver.Counted, hnone, List.length_nil] at hcounted
      refine moved_finished h hreceiver ?_ ok
      simp only [Receiver.due, hnone, List.length_nil]
      omega
    · next offer accepted hreceiver =>
      cases hstep
      exact moved_finished h hreceiver rfl ok
    · cases hstep
  | fail handle =>
    unfold Link.step at hstep
    dsimp only at hstep
    split at hstep
    · cases hstep
      exact moved_failed h handle _
    · cases hstep

/-- The connection, and what has happened on it. -/
structure Orderly (trace : List LinkEvent) (link : Link) : Prop where
  tidy : link.Tidy
  own : ∀ owner stream, .accepted owner stream ∈ trace → stream.owner = owner
  flow : openedStreams trace = acceptedStreams trace ++ link.queue
  ended : ∀ owner, .finished owner ∈ trace → link.Ended owner

/-- A connection without receivers is tidy. -/
theorem start_tidy : start.Tidy where
  bound _ _ hreceiver := by cases hreceiver
  used _ _ hreceiver := by cases hreceiver
  unique _ _ _ _ hone := by cases hone
  known _ _ := rfl
  counted _ _ hreceiver := by cases hreceiver
  due _ _ hreceiver := by cases hreceiver
  single _ _ hreceiver := by cases hreceiver

end Link

/-- In a run whose steps all meet the condition, every stream that a receiver accepts was opened for
it; the streams that were opened are accepted in their order, and those that were not yet are waiting;
and when a job or an offer has been received completely, no stream for it is waiting or to come. -/
theorem streams_reach_their_receiver {inputs : List LinkInput} {trace : List LinkEvent} {link : Link}
    (h : Exec Link.step clearGuard Link.start inputs trace link) :
    (∀ owner stream, .accepted owner stream ∈ trace → stream.owner = owner) ∧
      openedStreams trace = acceptedStreams trace ++ link.queue ∧
      ∀ owner, .finished owner ∈ trace → ∀ stream ∈ link.inFlight, stream.owner ≠ owner := by
  suffices hinv : Link.Orderly trace link by
    refine ⟨hinv.own, hinv.flow, fun owner hfinished stream hmem hsame => ?_⟩
    have hpos := Link.flying_pos hmem
    rw [hsame, (hinv.ended owner hfinished).quiet] at hpos
    omega
  refine h.invariant ?_ ?_
  · exact ⟨Link.start_tidy, by simp, rfl, by simp⟩
  · intro trace link input next emitted hinv hguard hstep
    have hmoved := Link.step_moved hinv.tidy hguard hstep
    refine ⟨hmoved.tidy, ?_, ?_, ?_⟩
    · intro owner stream hmem
      rcases List.mem_append.mp hmem with hold | hnew
      · exact hinv.own owner stream hold
      · exact hmoved.own owner stream hnew
    · have hopened : openedStreams (trace ++ emitted) =
          openedStreams trace ++ openedStreams emitted := List.filterMap_append
      have haccepted : acceptedStreams (trace ++ emitted) =
          acceptedStreams trace ++ acceptedStreams emitted := List.filterMap_append
      rw [hopened, haccepted, hinv.flow, List.append_assoc, List.append_assoc, hmoved.flow]
    · intro owner hmem
      rcases List.mem_append.mp hmem with hold | hnew
      · exact hmoved.still owner (hinv.ended owner hold)
      · exact hmoved.ends owner hnew

/-- A chunk of job 1 is pulled, and then the small files of offer 7 are received. -/
def oneAfterTheOther : List LinkInput :=
  [.startJob 1, .window 0 [0] 1, .fetchReq 0, .openUni (.chunk 1 0), .acceptUni 0, .join 0 0 true,
    .finish 0 true, .acceptOffer 7, .openUni (.batch 7), .acceptUni 1, .finish 1 true]

/-- The offer is accepted while the chunk is on its way, and its stream is opened first. -/
def offerBetween : List LinkInput :=
  [.startJob 1, .window 0 [0] 1, .fetchReq 0, .acceptOffer 7, .openUni (.batch 7), .acceptUni 0,
    .join 0 0 true]

/-- Both receivers have accepted their own streams. -/
theorem own_streams_in_turn :
    ∃ trace link, Exec Link.step clearGuard Link.start oneAfterTheOther trace link ∧
      acceptedStreams trace = [.chunk 1 0, .batch 7] ∧
      ∀ owner stream, .accepted owner stream ∈ trace → stream.owner = owner := by
  obtain ⟨link, hexec⟩ := exec_of_run Link.step clearGuard Link.start oneAfterTheOther (by decide)
  exact ⟨_, link, hexec, by decide, (streams_reach_their_receiver hexec).1⟩

/-- The receiver of the chunk takes the stream of the offer, and fails on it. -/
theorem foreign_stream_accepted :
    ¬ ∀ (inputs : List LinkInput) (trace : List LinkEvent) (link : Link),
      Exec Link.step Guard.free Link.start inputs trace link →
      ∀ owner stream, .accepted owner stream ∈ trace → stream.owner = owner := by
  intro hall
  obtain ⟨link, hexec⟩ := exec_of_run Link.step Guard.free Link.start offerBetween (by decide)
  have htaken : .accepted (.job 1) (.batch 7) ∈
      Machine.history Link.step Guard.free Link.start offerBetween := by decide
  exact absurd (hall _ _ _ hexec _ _ htaken) (by decide)

end LocalTrans
