import LocalTrans.Foundation.Execution
import LocalTrans.Relay.Messages

/-!
# The background task of a relay client

`RelayClient::connect` dials until the relay has registered the client and spawns `run_background`,
which sends a ping every 15 seconds and handles what the relay pushes, each message on a stream of
its own, until the connection is lost. Then it dials again. `RelayClient.step` is the task with its
connection; `registered_once_is_served` says when a registered client has a task that serves its
connection, and that a client that is shut down while it does not dial stays away.
-/

namespace LocalTrans.Relay

open Foundation

/-- `RelayClientStatus`. -/
inductive RelayClientStatus where
  | connecting
  | registered
  | reconnecting
deriving DecidableEq

/-- Where the task is: in `do_connect` or in the pause after it failed, for the first time or again;
in the loop that pings and receives; or at its end. -/
inductive TaskPhase where
  | dialing (first : Bool)
  | waiting (first : Bool)
  | selecting
  | ended
deriving DecidableEq

/-- A stream that the relay opened for one message: its frame, and how much of it has arrived. -/
structure PushStream where
  frame : List UInt8
  arrived : Nat
deriving DecidableEq

/-- A client: its status, connection and `shutdown` flag; the streams that were opened on the
connection, how many of them `accept_uni` has returned, and the one that `recv_uni` reads. The
connections are numbered as they are made. -/
structure RelayClient where
  status : RelayClientStatus
  conn : Option Nat
  up : Bool
  shutdown : Bool
  phase : TaskPhase
  streams : List PushStream
  accepted : Nat
  reader : Option Nat
  dials : Nat

/-- `do_connect` returns, or the pause after it ends; the relay pushes a message, and some of its
bytes arrive; the connection is lost; the ping is due, and is sent or not; `recv_uni` is polled;
`shutdown` is called, and closes the connection after a while. -/
inductive ClientInput where
  | dialed
  | dialFailed
  | wake
  | push (msg : RelayMsg)
  | arrive (stream count : Nat)
  | lost
  | tick (pinged : Bool)
  | poll
  | shutdown
  | close
deriving DecidableEq

/-- The client is registered; a message was pushed on a connection, has arrived whole, and is given
to `handle_push`; a ping was sent; `shutdown` was called. -/
inductive ClientEvent where
  | registered (conn : Nat)
  | pushed (conn stream : Nat) (msg : RelayMsg)
  | complete (conn stream : Nat)
  | handled (conn stream : Nat) (msg : RelayMsg)
  | pinged (conn : Nat)
  | stopped
deriving DecidableEq

namespace RelayClient

/-- `connect` is called. -/
def start : RelayClient :=
  { status := .connecting, conn := none, up := false, shutdown := false, phase := .dialing true
    streams := [], accepted := 0, reader := none, dials := 0 }

/-- The end of the receiving loop: `on_disconnect`, and the first look at the flag. -/
def leave (s : RelayClient) : RelayClient :=
  { s with
    status := .reconnecting, conn := none, up := false, streams := [], accepted := 0, reader := none
    phase := if s.shutdown then .ended else .dialing false }

/-- `do_connect` has succeeded. The task that `connect` spawns enters its loop; the one that dialed
again has none to go back to, and ends. -/
def register (s : RelayClient) (first : Bool) : RelayClient :=
  { s with
    status := .registered, conn := some s.dials, up := true, streams := [], accepted := 0
    reader := none, dials := s.dials + 1, phase := if first then .selecting else .ended }

/-- The stream that `recv_uni` reads: the one it has accepted, or else the next, which is open as
soon as something of it or of a later one has arrived. -/
def next (s : RelayClient) : Option Nat :=
  s.reader.or (if (s.streams.drop s.accepted).any fun stream => 0 < stream.arrived then
    some s.accepted else none)

/-- `accept_uni` has returned a stream. -/
def accept (s : RelayClient) (i : Nat) : RelayClient :=
  { s with reader := some i, accepted := max s.accepted (i + 1) }

/-- What has arrived on a stream. -/
def received (s : RelayClient) (i : Nat) : List UInt8 :=
  (s.streams[i]?.map fun stream => stream.frame.take stream.arrived).getD []

variable (fromJson : List UInt8 → Except String RelayMsg)

/-- `recv_uni` is polled on a connection, and what it returns is handled. -/
def recvUni (s : RelayClient) (conn : Nat) : RelayClient × List ClientEvent :=
  match s.next with
  | none => (if s.up then s else s.leave, [])
  | some i =>
    match readUni fromJson (s.received i) with
    | .item msg _ => ({ s.accept i with reader := none }, [.handled conn i msg])
    | .incomplete => (if s.up then s.accept i else s.leave, [])
    | .broken => (s.leave, [])

/-- One step. When the ping is due, the `recv_uni` of this round is dropped with the stream it has
accepted. -/
def step : Machine RelayClient ClientInput ClientEvent
  | s, .dialed =>
    match s.phase with
    | .dialing first => some (s.register first, [.registered s.dials])
    | _ => none
  | s, .dialFailed =>
    match s.phase with
    | .dialing first => some ({ s with
        status := if first then .reconnecting else s.status, phase := .waiting first }, [])
    | _ => none
  | s, .wake =>
    match s.phase with
    | .waiting first =>
      if first = false ∧ s.shutdown then some ({ s with phase := .ended }, [])
      else some ({ s with phase := .dialing first }, [])
    | _ => none
  | s, .push msg =>
    match s.conn, encodeRelayMsg msg with
    | some conn, .ok frame =>
      if s.up then
        some ({ s with streams := s.streams ++ [{ frame, arrived := 0 }] },
          [.pushed conn s.streams.length msg])
      else none
    | _, _ => none
  | s, .arrive i count =>
    match s.conn, s.streams[i]? with
    | some conn, some stream =>
      if s.up ∧ stream.arrived < stream.frame.length then
        let arrived := min (stream.arrived + count) stream.frame.length
        some ({ s with streams := s.streams.set i { stream with arrived } },
          if arrived = stream.frame.length then [.complete conn i] else [])
      else none
    | _, _ => none
  | s, .lost => if s.conn.isSome then some ({ s with up := false }, []) else none
  | s, .tick pinged =>
    match s.phase, s.conn with
    | .selecting, some conn =>
      if pinged ∧ s.up then some ({ s with reader := none }, [.pinged conn])
      else some (s.leave, [])
    | .selecting, none => some (s.leave, [])
    | _, _ => none
  | s, .poll =>
    match s.phase, s.conn with
    | .selecting, some conn => some (s.recvUni fromJson conn)
    | .selecting, none => some (s.leave, [])
    | _, _ => none
  | s, .shutdown =>
    match s.phase with
    | .dialing true | .waiting true => none
    | _ => some ({ s with shutdown := true }, [.stopped])
  | s, .close =>
    if s.shutdown ∧ s.conn.isSome then some ({ s with up := false }, []) else none

/-- A registered client has a connection and a task that runs, can ping on the connection, and handles
the message that it reads from it. -/
def Served (s : RelayClient) : Prop :=
  s.status = .registered → ∃ conn, s.conn = some conn ∧
    (step fromJson s .poll).isSome = true ∧
    (s.up = true → ∃ next, step fromJson s (.tick true) = some (next, [.pinged conn])) ∧
    ∀ i msg rest, s.next = some i → readUni fromJson (s.received i) = .item msg rest →
      ∃ next, step fromJson s .poll = some (next, [.handled conn i msg])

end RelayClient

/-- The client does not register again after `shutdown`. -/
def NeverAgain (trace : List ClientEvent) : Prop :=
  EachEvent (fun before event => ∀ conn, event = .registered conn → .stopped ∉ before) trace

/-- The condition on one step: `shutdown` is not called while the client dials. -/
def quietShutdown : Guard RelayClient ClientInput ClientEvent :=
  fun _ s input => input = .shutdown → s.phase ≠ .dialing false
deriving Decidable

namespace RelayClient

variable {fromJson : List UInt8 → Except String RelayMsg} {s next : RelayClient}
  {input : ClientInput} {inputs : List ClientInput} {trace emitted : List ClientEvent}

/-- What a step does to the task: it leaves it where it is, ends its loop, or ends a dial or a
pause. -/
inductive TaskMove (s : RelayClient) : ClientInput → RelayClient → Prop where
  | stay {input : ClientInput} {next : RelayClient} (hinput : input ≠ .dialed)
      (dials : next.dials = s.dials) (conn : next.conn = s.conn) (status : next.status = s.status)
      (phase : next.phase = s.phase) (flag : s.shutdown = true → next.shutdown = true) :
      TaskMove s input next
  | left {input : ClientInput} (hinput : input ≠ .dialed) (hphase : s.phase = .selecting) :
      TaskMove s input s.leave
  | registered (first : Bool) (hphase : s.phase = .dialing first) :
      TaskMove s .dialed (s.register first)
  | failed (first : Bool) (hphase : s.phase = .dialing first) :
      TaskMove s .dialFailed { s with
        status := if first then .reconnecting else s.status, phase := .waiting first }
  | woke (first : Bool) (hphase : s.phase = .waiting first) :
      TaskMove s .wake { s with
        phase := if first = false ∧ s.shutdown then .ended else .dialing first }

theorem recv_uni_move (hphase : s.phase = .selecting) {conn : Nat} :
    TaskMove s .poll (s.recvUni fromJson conn).1 := by
  unfold recvUni
  split
  · dsimp only
    split
    · exact .stay (by simp) rfl rfl rfl rfl id
    · exact .left (by simp) hphase
  · split
    · exact .stay (by simp) rfl rfl rfl rfl id
    · dsimp only
      split
      · exact .stay (by simp) rfl rfl rfl rfl id
      · exact .left (by simp) hphase
    · exact .left (by simp) hphase

theorem step_move (h : step fromJson s input = some (next, emitted)) : TaskMove s input next := by
  cases input with simp only [step] at h
  | dialed =>
    split at h
    · next first hphase =>
      obtain ⟨rfl, -⟩ := answer_inj h
      exact .registered first hphase
    · cases h
  | dialFailed =>
    split at h
    · next first hphase =>
      obtain ⟨rfl, -⟩ := answer_inj h
      exact .failed first hphase
    · cases h
  | wake =>
    split at h
    · next first hphase =>
      have hwoke := TaskMove.woke first hphase
      split at h
      · next hstop =>
        obtain ⟨rfl, -⟩ := answer_inj h
        simpa only [if_pos hstop] using hwoke
      · next hgo =>
        obtain ⟨rfl, -⟩ := answer_inj h
        simpa only [if_neg hgo] using hwoke
    · cases h
  | push msg =>
    split at h
    · split at h
      · obtain ⟨rfl, -⟩ := answer_inj h
        exact .stay (by simp) rfl rfl rfl rfl id
      · cases h
    · cases h
  | arrive i count =>
    split at h
    · split at h
      · obtain ⟨rfl, -⟩ := answer_inj h
        exact .stay (by simp) rfl rfl rfl rfl id
      · cases h
    · cases h
  | lost | close =>
    obtain ⟨-, rfl, -⟩ := when_answer h
    exact .stay (by simp) rfl rfl rfl rfl id
  | tick pinged =>
    split at h
    · next hphase _ =>
      split at h
      · obtain ⟨rfl, -⟩ := answer_inj h
        exact .stay (by simp) rfl rfl rfl rfl id
      · obtain ⟨rfl, -⟩ := answer_inj h
        exact .left (by simp) hphase
    · next hphase _ =>
      obtain ⟨rfl, -⟩ := answer_inj h
      exact .left (by simp) hphase
    · cases h
  | poll =>
    split at h
    · next hphase _ =>
      obtain ⟨rfl, -⟩ := answer_inj h
      exact recv_uni_move hphase
    · next hphase _ =>
      obtain ⟨rfl, -⟩ := answer_inj h
      exact .left (by simp) hphase
    · cases h
  | shutdown =>
    split at h
    · cases h
    · cases h
    · obtain ⟨rfl, -⟩ := answer_inj h
      exact .stay (by simp) rfl rfl rfl rfl fun _ => rfl

/-- How often a client has registered, and where its task is then. -/
inductive Stage (s : RelayClient) : Prop where
  | first (dials : s.dials = 0) (status : s.status ≠ .registered)
      (phase : s.phase = .dialing true ∨ s.phase = .waiting true)
  | serving (dials : s.dials = 1) (conn : s.conn = some 0) (phase : s.phase = .selecting)
  | away (dials : s.dials = 1) (status : s.status = .reconnecting)
      (phase : s.phase = .dialing false ∨ s.phase = .waiting false ∨ s.phase = .ended)
  | again (dials : s.dials = 2) (status : s.status = .registered) (phase : s.phase = .ended)

theorem Stage.move (h : s.Stage) (hmove : TaskMove s input next) :
    next.Stage ∧ next.dials = s.dials + if input = .dialed then 1 else 0 := by
  cases hmove with
  | stay hinput dials conn status phase flag =>
    rw [if_neg hinput]
    refine ⟨?_, dials⟩
    cases h with
    | first hdials hstatus hphase =>
      exact .first (dials.trans hdials) (status ▸ hstatus) (phase ▸ hphase)
    | serving hdials hconn hphase =>
      exact .serving (dials.trans hdials) (conn.trans hconn) (phase.trans hphase)
    | away hdials hstatus hphase =>
      exact .away (dials.trans hdials) (status.trans hstatus) (phase ▸ hphase)
    | again hdials hstatus hphase =>
      exact .again (dials.trans hdials) (status.trans hstatus) (phase.trans hphase)
  | left hinput hphase =>
    rw [if_neg hinput]
    refine ⟨?_, rfl⟩
    cases h with
    | serving hdials hconn hphase =>
      refine .away hdials rfl ?_
      cases hstop : s.shutdown <;> simp [leave, hstop]
    | first hdials hstatus hother => simp [hphase] at hother
    | away hdials hstatus hother => simp [hphase] at hother
    | again hdials hstatus hother => simp [hphase] at hother
  | registered first hphase =>
    refine ⟨?_, rfl⟩
    cases h with
    | first hdials hstatus hfirst =>
      obtain rfl : first = true := by simpa [hphase] using hfirst
      exact .serving (congrArg (· + 1) hdials) (congrArg some hdials) rfl
    | away hdials hstatus haway =>
      obtain rfl : first = false := by simpa [hphase] using haway
      exact .again (congrArg (· + 1) hdials) rfl rfl
    | serving hdials hconn hother => simp [hphase] at hother
    | again hdials hstatus hother => simp [hphase] at hother
  | failed first hphase =>
    refine ⟨?_, rfl⟩
    cases h with
    | first hdials hstatus hfirst =>
      obtain rfl : first = true := by simpa [hphase] using hfirst
      exact .first hdials (by simp) (.inr rfl)
    | away hdials hstatus haway =>
      obtain rfl : first = false := by simpa [hphase] using haway
      exact .away hdials (by simpa using hstatus) (.inr (.inl rfl))
    | serving hdials hconn hother => simp [hphase] at hother
    | again hdials hstatus hother => simp [hphase] at hother
  | woke first hphase =>
    refine ⟨?_, rfl⟩
    cases h with
    | first hdials hstatus hfirst =>
      obtain rfl : first = true := by simpa [hphase] using hfirst
      exact .first hdials hstatus (.inl (by simp))
    | away hdials hstatus haway =>
      obtain rfl : first = false := by simpa [hphase] using haway
      refine .away hdials hstatus ?_
      cases s.shutdown <;> simp
    | serving hdials hconn hother => simp [hphase] at hother
    | again hdials hstatus hother => simp [hphase] at hother

theorem start_stage : start.Stage :=
  .first rfl (by decide) (.inl rfl)

/-- The stage after a run, and how often it has registered. -/
theorem stage_of_exec (h : Exec (step fromJson) Guard.free start inputs trace s) :
    s.Stage ∧ s.dials = inputs.count .dialed := by
  induction h with
  | start => exact ⟨start_stage, rfl⟩
  | @step inputs trace s next input emitted _ _ hnext ih =>
    obtain ⟨hstage, hdials⟩ := ih.1.move (step_move hnext)
    refine ⟨hstage, ?_⟩
    rw [hdials, ih.2, List.count_append, List.count_singleton]
    simp only [beq_iff_eq]

/-- A task in its loop serves its connection. -/
theorem served_of_selecting {conn : Nat} (hconn : s.conn = some conn) (hphase : s.phase = .selecting) :
    s.Served fromJson := by
  intro _
  have hpoll : step fromJson s .poll = some (s.recvUni fromJson conn) := by
    simp only [step, hphase, hconn]
  refine ⟨conn, hconn, by rw [hpoll]; rfl, ?_, ?_⟩
  · intro hup
    exact ⟨{ s with reader := none }, by simp only [step, hphase, hconn, hup, and_self, if_true]⟩
  · intro i msg rest hnext hread
    refine ⟨{ s.accept i with reader := none }, ?_⟩
    rw [hpoll, recvUni, hnext]
    dsimp only
    rw [hread]

/-- Served is a client that has registered at most once. -/
theorem Stage.served_iff (h : s.Stage) : s.Served fromJson ↔ s.dials ≤ 1 := by
  cases h with
  | first hdials hstatus hphase =>
    exact ⟨fun _ => by omega, fun _ hregistered => absurd hregistered hstatus⟩
  | serving hdials hconn hphase =>
    exact ⟨fun _ => by omega, fun _ => served_of_selecting hconn hphase⟩
  | away hdials hstatus hphase =>
    refine ⟨fun _ => by omega, fun _ hregistered => ?_⟩
    rw [hstatus] at hregistered
    cases hregistered
  | again hdials hstatus hphase =>
    refine ⟨fun hserved => ?_, fun hle => by omega⟩
    -- The task has ended, so `recv_uni` is not polled.
    obtain ⟨conn, -, hpolled, -⟩ := hserved hstatus
    simp [step, hphase] at hpolled

/-- A client whose `shutdown` was called while it did not dial. -/
structure Stopped (s : RelayClient) : Prop where
  flag : s.shutdown = true
  phase : s.phase = .selecting ∨ s.phase = .waiting false ∨ s.phase = .ended

theorem Stopped.move (h : s.Stopped) (hmove : TaskMove s input next) : next.Stopped := by
  obtain ⟨hflag, hphase⟩ := h
  cases hmove with
  | stay hinput dials conn status phase flag => exact ⟨flag hflag, phase ▸ hphase⟩
  | left hinput hselecting => exact ⟨hflag, .inr (.inr (by simp [leave, hflag]))⟩
  | registered first hdialing | failed first hdialing => simp [hdialing] at hphase
  | woke first hwaiting =>
    obtain rfl : first = false := by simpa [hwaiting] using hphase
    exact ⟨hflag, .inr (.inr (by simp [hflag]))⟩

/-- `shutdown` is called on a client that `connect` has returned. -/
theorem stopped_of_shutdown (hquiet : s.phase ≠ .dialing false)
    (h : step fromJson s .shutdown = some (next, emitted)) : next.Stopped := by
  simp only [step] at h
  split at h
  · cases h
  · cases h
  · next hfirst hwait =>
    obtain ⟨rfl, -⟩ := answer_inj h
    refine ⟨rfl, ?_⟩
    show s.phase = .selecting ∨ s.phase = .waiting false ∨ s.phase = .ended
    cases hphase : s.phase with
    | selecting => exact .inl rfl
    | ended => exact .inr (.inr rfl)
    | dialing first =>
      cases first with
      | true => exact absurd hphase hfirst
      | false => exact absurd hphase hquiet
    | waiting first =>
      cases first with
      | true => exact absurd hphase hwait
      | false => exact .inr (.inl rfl)

/-- An event that neither registers nor stops. -/
def Neutral (event : ClientEvent) : Prop :=
  (∀ conn, event ≠ .registered conn) ∧ event ≠ .stopped

/-- Only the end of a dial registers, and only `shutdown` stops. -/
theorem step_events (h : step fromJson s input = some (next, emitted)) :
    (∀ event ∈ emitted, Neutral event) ∨
      (∃ first, s.phase = .dialing first ∧ emitted = [.registered s.dials]) ∨
      (input = .shutdown ∧ emitted = [.stopped]) := by
  have hnone : emitted = [] → ∀ event ∈ emitted, Neutral event := by
    rintro rfl
    simp
  have hone : ∀ event, Neutral event → emitted = [event] → ∀ found ∈ emitted, Neutral found := by
    rintro event hneutral rfl found hmem
    rw [List.mem_singleton.mp hmem]
    exact hneutral
  cases input with
  | dialed =>
    simp only [step] at h
    split at h
    · next first hphase =>
      exact .inr (.inl ⟨first, hphase, (congrArg Prod.snd (Option.some.inj h)).symm⟩)
    · cases h
  | shutdown =>
    simp only [step] at h
    split at h
    · cases h
    · cases h
    · exact .inr (.inr ⟨rfl, (congrArg Prod.snd (Option.some.inj h)).symm⟩)
  | poll =>
    left
    simp only [step] at h
    split at h
    · next conn _ _ =>
      have hemitted : emitted = (s.recvUni fromJson conn).2 :=
        (congrArg Prod.snd (Option.some.inj h)).symm
      unfold recvUni at hemitted
      split at hemitted
      · exact hnone hemitted
      · split at hemitted
        · exact hone _ ⟨by simp, by simp⟩ hemitted
        · exact hnone hemitted
        · exact hnone hemitted
    · exact hnone (congrArg Prod.snd (Option.some.inj h)).symm
    · cases h
  | arrive i count =>
    left
    simp only [step] at h
    split at h
    · obtain ⟨-, h⟩ := of_when h
      have hemitted := (congrArg Prod.snd (Option.some.inj h)).symm
      dsimp only at hemitted
      split at hemitted
      · exact hone _ ⟨by simp, by simp⟩ hemitted
      · exact hnone hemitted
    · cases h
  | push msg =>
    left
    simp only [step] at h
    split at h
    · split at h
      · exact hone _ ⟨by simp, by simp⟩ (congrArg Prod.snd (Option.some.inj h)).symm
      · cases h
    · cases h
  | tick pinged =>
    left
    simp only [step] at h
    split at h
    · split at h
      · exact hone _ ⟨by simp, by simp⟩ (congrArg Prod.snd (Option.some.inj h)).symm
      · exact hnone (congrArg Prod.snd (Option.some.inj h)).symm
    · exact hnone (congrArg Prod.snd (Option.some.inj h)).symm
    · cases h
  | dialFailed =>
    left
    simp only [step] at h
    split at h
    · exact hnone (congrArg Prod.snd (Option.some.inj h)).symm
    · cases h
  | wake =>
    left
    simp only [step] at h
    split at h
    · split at h
      · exact hnone (congrArg Prod.snd (Option.some.inj h)).symm
      · exact hnone (congrArg Prod.snd (Option.some.inj h)).symm
    · cases h
  | lost | close =>
    left
    simp only [step] at h
    obtain ⟨-, h⟩ := of_when h
    exact hnone (congrArg Prod.snd (Option.some.inj h)).symm

/-- What `shutdown` has stopped stays away. -/
structure StaysAway (trace : List ClientEvent) (s : RelayClient) : Prop where
  never : NeverAgain trace
  stopped : .stopped ∈ trace → s.Stopped

theorem StaysAway.step (h : StaysAway trace s) (hguard : quietShutdown trace s input)
    (hstep : step fromJson s input = some (next, emitted)) : StaysAway (trace ++ emitted) next := by
  have hkept : .stopped ∈ trace → next.Stopped := fun hmem => (h.stopped hmem).move (step_move hstep)
  rcases step_events hstep with hneutral | ⟨first, hphase, rfl⟩ | ⟨rfl, rfl⟩
  · refine ⟨each_event_append.mpr ⟨h.never, ?_⟩, fun hmem => ?_⟩
    · rintro before event after rfl conn rfl
      exact absurd rfl ((hneutral (.registered conn) (by simp)).1 conn)
    · rcases List.mem_append.mp hmem with hold | hnew
      · exact hkept hold
      · exact absurd rfl (hneutral .stopped hnew).2
  · refine ⟨each_event_append.mpr ⟨h.never, each_event_singleton.mpr ?_⟩, fun hmem => ?_⟩
    · intro conn _ hstopped
      have hwhere := (h.stopped (by simpa using hstopped)).phase
      simp [hphase] at hwhere
    · exact hkept (by simpa using hmem)
  · refine ⟨each_event_append.mpr ⟨h.never, each_event_singleton.mpr ?_⟩, fun _ => ?_⟩
    · intro conn hregistered
      cases hregistered
    · exact stopped_of_shutdown (hguard rfl) hstep

/-- A dial that is under way when `shutdown` is called can still succeed. -/
theorem dialing_registers (trace : List ClientEvent) (h : s.phase = .dialing false) :
    ∃ last, Machine.run (RelayClient.step fromJson) Guard.free trace s [.shutdown, .dialed] =
      some (last, trace ++ [.stopped] ++ [.registered s.dials]) := by
  have hshutdown : RelayClient.step fromJson s .shutdown =
      some ({ s with shutdown := true }, [.stopped]) := by
    simp only [RelayClient.step, h]
  have hdialed : RelayClient.step fromJson { s with shutdown := true } .dialed =
      some (register { s with shutdown := true } false, [.registered s.dials]) := by
    simp only [RelayClient.step, h]
  refine ⟨register { s with shutdown := true } false, ?_⟩
  simp only [Machine.run, Guard.free, if_true, hshutdown, hdialed]

end RelayClient

/-- After any run, a registered client is served if and only if it has registered once. A client whose
`shutdown` is called while it does not dial never registers again, and one that dials then can. -/
theorem registered_once_is_served {fromJson : List UInt8 → Except String RelayMsg}
    {inputs : List ClientInput} {trace : List ClientEvent} {s : RelayClient}
    (h : Exec (RelayClient.step fromJson) Guard.free .start inputs trace s) :
    (s.Served fromJson ↔ inputs.count .dialed ≤ 1) ∧
      (Exec (RelayClient.step fromJson) quietShutdown .start inputs trace s → NeverAgain trace) ∧
      (s.phase = .dialing false → ∃ trace' last,
        Exec (RelayClient.step fromJson) Guard.free .start (inputs ++ [.shutdown, .dialed])
          trace' last ∧ ¬ NeverAgain trace') := by
  obtain ⟨hstage, hdials⟩ := RelayClient.stage_of_exec h
  refine ⟨hdials ▸ hstage.served_iff, fun hquiet => ?_, fun hdialing => ?_⟩
  · suffices haway : RelayClient.StaysAway trace s from haway.never
    refine hquiet.invariant ⟨each_event_nil, by simp⟩ ?_
    intro trace s input next emitted hinv hguard hstep
    exact hinv.step hguard hstep
  · obtain ⟨last, hrun⟩ := RelayClient.dialing_registers trace hdialing
    refine ⟨_, last, h.append_run hrun, fun hnever => ?_⟩
    exact hnever (trace ++ [.stopped]) (.registered s.dials) [] rfl s.dials rfl (by simp)

/-- The first dial fails and the second registers; a ping is sent. -/
def registeredAtSecondDial : List ClientInput :=
  [.dialFailed, .wake, .dialed, .tick true]

/-- The connection is lost, and the task dials again. -/
def registeredAgain : List ClientInput :=
  [.dialed, .lost, .poll, .dialed]

/-- A parser that accepts nothing. -/
def noJson (_ : List UInt8) : Except String RelayMsg :=
  .error "expected value"

/-- A client that has registered once, after a dial that failed, is served. -/
theorem served_after_first_registration :
    ∃ trace s, Exec (RelayClient.step noJson) Guard.free .start registeredAtSecondDial trace s ∧
      s.status = .registered ∧ s.Served noJson ∧ NeverAgain trace := by
  have hrun : (Machine.run (RelayClient.step noJson) quietShutdown [] .start
      registeredAtSecondDial).map (fun result => result.1.status) = some .registered := by decide
  obtain ⟨⟨s, trace⟩, hrun, hstatus⟩ := Option.map_eq_some_iff.mp hrun
  have hquiet := Exec.start.append_run hrun
  have hserved := registered_once_is_served hquiet.toFree
  exact ⟨trace, s, hquiet.toFree, hstatus, hserved.1.mpr (by decide), hserved.2.1 hquiet⟩

/-- A client that has dialed again after a loss is registered, and nothing runs. -/
theorem unserved_after_reconnect :
    ¬ ∀ (fromJson : List UInt8 → Except String RelayMsg) (inputs : List ClientInput)
      (trace : List ClientEvent) (s : RelayClient),
      Exec (RelayClient.step fromJson) Guard.free .start inputs trace s →
      s.Served fromJson ∧ NeverAgain trace := by
  intro hall
  have hrun : (Machine.run (RelayClient.step noJson) Guard.free [] .start
      registeredAgain).map (fun result => (result.1.status, result.1.phase)) =
        some (.registered, .ended) := by decide
  obtain ⟨⟨s, trace⟩, hrun, hviews⟩ := Option.map_eq_some_iff.mp hrun
  obtain ⟨hstatus, hphase⟩ := Prod.mk.inj hviews
  obtain ⟨hserved, -⟩ := hall noJson _ trace s (Exec.start.append_run hrun)
  obtain ⟨conn, -, hpolled, -⟩ := hserved hstatus
  have hended : RelayClient.step noJson s .poll = none := by
    simp only [RelayClient.step, show s.phase = .ended from hphase]
  rw [hended] at hpolled
  cases hpolled

end LocalTrans.Relay
