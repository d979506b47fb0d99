import LocalTrans.Session.Control

/-!
# The session manager

The rest of `session.rs`: the table of outstanding RPCs, the queue to the RPC router, and what a
control loop does with the messages it passes on. `SessionManager.step` runs a step of the
sessions together with this routing. `Exec.toCore` projects a run of the session manager to a
run of its sessions, so what is proved of every run of the sessions holds in the whole engine.
-/

namespace LocalTrans

open Foundation

/-- A waiting RPC: the peer it was sent to and the numbered request. The table of the source
holds only the sending half of the waiter's channel, under the message id. -/
structure RpcCall where
  peer : Fingerprint
  request : ControlMsg
deriving DecidableEq

/-- `pending_rpcs` and `NEXT_MSG_ID`. A call in `unsent` is registered, and `send_ctrl` is still
to be called for it. -/
structure RpcTable where
  pending : Nat → Option RpcCall
  unsent : Nat → Option RpcCall
  nextMsgId : Nat

/-- The kinds of messages the arms of `ctrl_loop` tell apart: requests for the RPC router,
responses to RPCs, signals for waiting pushes, notifications, and the messages that the sessions
handle themselves or ignore. -/
inductive CtrlArm where
  | request
  | response
  | signal
  | notification
  | session
deriving DecidableEq

/-- The arm of `ctrl_loop` a message takes. -/
def ctrlArm : ControlMsg → CtrlArm
  | .listReq .. | .sharesReq .. | .metaReq .. | .fetchReq .. | .offerReq .. | .bitmapReq ..
  | .transferCtl .. | .recvProgress .. | .recvAck .. | .shareRename .. | .shareDelete ..
  | .shareMkdir .. => .request
  | .sharesResp .. | .listResp .. | .metaResp .. | .shareOpResult .. => .response
  | .offerResp .. | .bitmapResp .. | .jobDone .. | .jobFailed .. => .signal
  | .sharesChanged .. => .notification
  | _ => .session

/-- What happens to RPCs. -/
inductive RpcEvent where
  | registered (msgId : Nat) (call : RpcCall)
  | failed (msgId : Nat) (error : SessionError)
  | cancelled (msgId : Nat)
  | completed (msgId : Nat) (sender : Fingerprint) (response : ControlMsg)
  | unclaimed (sender : Fingerprint) (response : ControlMsg)
deriving DecidableEq

/-- The history of the engine: sessions, RPCs, and messages passed on to the RPC router, to the
waiting pushes and to the shell. -/
inductive Event where
  | core (event : CoreEvent)
  | rpc (event : RpcEvent)
  | forwarded (peer : Fingerprint) (msg : ControlMsg)
  | dropped (peer : Fingerprint) (msg : ControlMsg)
  | signalled (peer : Fingerprint) (msg : ControlMsg)
  | notified (peer : Fingerprint) (msg : ControlMsg)
deriving DecidableEq

/-- The session events of a history. -/
def coreEvents (trace : List Event) : List CoreEvent :=
  trace.filterMap fun
    | .core event => some event
    | _ => none

/-- What the engine can be asked to do. -/
inductive Input where
  | core (input : CoreInput)
  | sendRpc (peer : Fingerprint) (msg : ControlMsg)
  | dispatchRpc (msgId : Nat)
  | cancelRpc (msgId : Nat)
  | takeInbound
deriving DecidableEq

/-- `SessionManager`, with the messages waiting for the RPC router. -/
structure SessionManager extends SessionCore where
  rpcs : RpcTable
  inboundCtrl : List (Fingerprint × ControlMsg)

namespace RpcTable

/-- `pending_rpcs_new`; the first message id is 1. -/
def new : RpcTable := { pending := fun _ => none, unsent := fun _ => none, nextMsgId := 1 }

/-- `register_pending_rpc` and `set_req_msg_id`: the first half of `send_rpc`. -/
def register (rpcs : RpcTable) (peer : Fingerprint) (msg : ControlMsg) : RpcTable × RpcEvent :=
  let id := rpcs.nextMsgId
  let call : RpcCall := { peer, request := setReqMsgId id msg }
  ({ pending := Function.update rpcs.pending id (some call)
     unsent := Function.update rpcs.unsent id (some call)
     nextMsgId := id + 1 }, .registered id call)

/-- The call has been handed to `send_ctrl`. -/
def dispatched (rpcs : RpcTable) (id : Nat) : RpcTable :=
  { rpcs with unsent := Function.update rpcs.unsent id none }

/-- Take an entry out of the table of waiting calls. -/
def withdraw (rpcs : RpcTable) (id : Nat) : RpcTable :=
  { rpcs with pending := Function.update rpcs.pending id none }

/-- The response arm of the control loop: whoever waits under the id of the response gets it. -/
def respond (rpcs : RpcTable) (sender : Fingerprint) (response : ControlMsg) :
    RpcTable × RpcEvent :=
  let id := respMsgId response
  match rpcs.pending id with
  | some _ => (rpcs.withdraw id, .completed id sender response)
  | none => (rpcs, .unclaimed sender response)

end RpcTable

namespace SessionManager

/-- `SessionManager::spawn`. -/
def spawn (config : Config) (trust : TrustStore) : SessionManager :=
  { SessionCore.spawn config trust with rpcs := .new, inboundCtrl := [] }

/-- `inbound_ctrl.try_send`: the queue holds 128 messages, a message that does not fit is lost. -/
def tryForward (sm : SessionManager) (peer : Fingerprint) (msg : ControlMsg) :
    SessionManager × List Event :=
  if sm.inboundCtrl.length < 128 then
    ({ sm with inboundCtrl := sm.inboundCtrl ++ [(peer, msg)] }, [.forwarded peer msg])
  else (sm, [.dropped peer msg])

/-- The arms of `ctrl_loop` that pass a message on. -/
def route (sm : SessionManager) (peer : Fingerprint) (msg : ControlMsg) :
    SessionManager × List Event :=
  match ctrlArm msg with
  | .request => sm.tryForward peer msg
  | .response =>
    let (rpcs, event) := sm.rpcs.respond peer msg
    ({ sm with rpcs }, [.rpc event])
  | .signal => (sm, [.signalled peer msg])
  | .notification => (sm, [.notified peer msg])
  | .session => (sm, [])

/-- Routing leaves the sessions alone. -/
@[simp] theorem route_core (sm : SessionManager) (peer : Fingerprint) (msg : ControlMsg) :
    (sm.route peer msg).1.toSessionCore = sm.toSessionCore := by
  unfold route tryForward
  split
  · split <;> rfl
  all_goals rfl

/-- Routing adds nothing to the history of the sessions. -/
@[simp] theorem core_events_route (sm : SessionManager) (peer : Fingerprint) (msg : ControlMsg) :
    coreEvents (sm.route peer msg).2 = [] := by
  unfold route tryForward
  split
  · split <;> rfl
  all_goals rfl

/-- A message that is no response leaves the RPCs alone. -/
theorem route_other (sm : SessionManager) (peer : Fingerprint) {msg : ControlMsg}
    (h : ctrlArm msg ≠ .response) :
    (sm.route peer msg).1.rpcs = sm.rpcs ∧ ∀ event, .rpc event ∉ (sm.route peer msg).2 := by
  unfold route tryForward
  cases harm : ctrlArm msg with
  | request =>
    dsimp only
    split <;> exact ⟨rfl, by simp⟩
  | response => exact absurd harm h
  | signal | notification | session => exact ⟨rfl, by simp⟩

/-- A response goes to the call that waits for it. -/
theorem route_response (sm : SessionManager) (peer : Fingerprint) {msg : ControlMsg}
    (h : ctrlArm msg = .response) :
    (sm.route peer msg).1.rpcs = (sm.rpcs.respond peer msg).1 ∧
      (sm.route peer msg).2 = [.rpc (sm.rpcs.respond peer msg).2] := by
  unfold route
  rw [h]
  exact ⟨rfl, rfl⟩

variable (hashCode : String → Digest)

/-- A step of the sessions; a delivered message is passed on from there. -/
def stepCore (sm : SessionManager) (input : CoreInput) : Option (SessionManager × List Event) :=
  match sm.toSessionCore.step hashCode input with
  | none => none
  | some (core, events) =>
    let next := { sm with toSessionCore := core }
    match input with
    | .deliver conn msg =>
      match sm.loops conn with
      | some loop =>
        let (routed, passed) := next.route loop.peer msg
        some (routed, events.map .core ++ passed)
      | none => none
    | _ => some (next, events.map .core)

/-- The second half of `send_rpc`: queue the request, or withdraw the registration. -/
def dispatchRpc (sm : SessionManager) (id : Nat) (call : RpcCall) :
    SessionManager × List Event :=
  match sm.sendCtrl call.peer call.request with
  | .ok core => ({ sm with toSessionCore := core, rpcs := sm.rpcs.dispatched id }, [])
  | .error error =>
    ({ sm with rpcs := (sm.rpcs.dispatched id).withdraw id }, [.rpc (.failed id error)])

/-- One step of the engine. -/
def step (sm : SessionManager) : Input → Option (SessionManager × List Event)
  | .core input => sm.stepCore hashCode input
  | .sendRpc peer msg =>
    let (rpcs, event) := sm.rpcs.register peer msg
    some ({ sm with rpcs }, [.rpc event])
  | .dispatchRpc id => (sm.rpcs.unsent id).map (sm.dispatchRpc id)
  | .cancelRpc id => some ({ sm with rpcs := sm.rpcs.withdraw id }, [.rpc (.cancelled id)])
  | .takeInbound => some ({ sm with inboundCtrl := sm.inboundCtrl.tail }, [])

/-- The session events of a history are those of its parts. -/
@[simp] theorem core_events_append (before after : List Event) :
    coreEvents (before ++ after) = coreEvents before ++ coreEvents after :=
  List.filterMap_append

/-- The session events among tagged session events are all of them. -/
@[simp] theorem core_events_map (events : List CoreEvent) :
    coreEvents (events.map .core) = events := by
  induction events with
  | nil => rfl
  | cons event rest ih => simp [coreEvents]

/-- A step of the sessions inside the engine is that step. -/
theorem step_core_spec {sm next : SessionManager} {input : CoreInput} {emitted : List Event}
    (h : sm.stepCore hashCode input = some (next, emitted)) :
    sm.toSessionCore.step hashCode input = some (next.toSessionCore, coreEvents emitted) := by
  unfold stepCore at h
  split at h
  · cases h
  · next core events hcore =>
    rw [hcore]
    split at h
    · split at h
      · simp only [Option.some.injEq, Prod.mk.injEq] at h
        obtain ⟨rfl, rfl⟩ := h
        simp
      · cases h
    · cases h
      simp

/-- A guard on the steps of the sessions, put on the steps of the engine. -/
def coreGuard (guard : Guard SessionCore CoreInput CoreEvent) :
    Guard SessionManager Input Event :=
  fun trace sm input =>
    match input with
    | .core input => guard (coreEvents trace) sm.toSessionCore input
    | _ => True

instance {guard : Guard SessionCore CoreInput CoreEvent}
    [∀ trace core input, Decidable (guard trace core input)] (trace : List Event)
    (sm : SessionManager) (input : Input) : Decidable (coreGuard guard trace sm input) :=
  match input with
  | .core input => inferInstanceAs (Decidable (guard (coreEvents trace) sm.toSessionCore input))
  | .sendRpc _ _ | .dispatchRpc _ | .cancelRpc _ | .takeInbound => .isTrue trivial

/-- A run of the engine is, seen from the sessions, a run of the sessions. -/
theorem exec_to_core {guard : Guard SessionCore CoreInput CoreEvent} {first last : SessionManager}
    {inputs : List Input} {trace : List Event}
    (hsends : ∀ trace core peer msg, guard trace core (.sendCtrl peer msg))
    (h : Exec (step hashCode) (coreGuard guard) first inputs trace last) :
    ∃ coreInputs, Exec (SessionCore.step hashCode) guard first.toSessionCore coreInputs
      (coreEvents trace) last.toSessionCore := by
  refine h.project rfl core_events_append ?_
  intro trace sm input next emitted hguard hstep
  cases input with
  | core input => exact .inr ⟨input, hguard, step_core_spec hashCode hstep⟩
  | sendRpc peer msg =>
    cases hstep
    exact .inl ⟨rfl, rfl⟩
  | dispatchRpc id =>
    obtain ⟨call, -, hcall⟩ := Option.map_eq_some_iff.mp hstep
    unfold dispatchRpc at hcall
    split at hcall
    · next core hsent =>
      cases hcall
      exact .inr ⟨.sendCtrl call.peer call.request, hsends _ _ _ _, by
        simp [SessionCore.step, hsent, coreEvents]⟩
    · cases hcall
      exact .inl ⟨rfl, rfl⟩
  | cancelRpc id =>
    cases hstep
    exact .inl ⟨rfl, rfl⟩
  | takeInbound =>
    cases hstep
    exact .inl ⟨rfl, rfl⟩

end SessionManager

/-- Settings with a gate of one minute. -/
def sampleConfig : Config :=
  { deviceName := "desk", consentTimeoutSecs := 60, offerTimeoutSecs := 60 }

/-- A hash that tells codes apart. -/
def sampleHash (code : String) : Digest :=
  BitVec.ofNat 256 (code.toList.foldl (fun value digit => value * 128 + digit.toNat) 1)

end LocalTrans
