import LocalTrans.Foundation.Execution
import LocalTrans.Pairing
import Mathlib.Logic.Function.Basic

/-!
# Sessions, the consent gate and the control loops

The part of `session.rs` that decides who is trusted. A state holds the trust store, the session
table, the running control loops, the grants in progress and the consent timers. Every stretch of
code between two waits (a critical section, a send, a received message) is one step, so the
machine interleaves the tasks of the session manager as the scheduler may. Errors of the network
and expired send timeouts are inputs. The byte buffer of a control stream is not modelled: a
control loop is handed one decoded message at a time.
-/

namespace LocalTrans

/-- `Connection::stable_id`. -/
abbrev ConnId := Nat

/-- `Config`: the settings the session manager reads. -/
structure Config where
  deviceName : String
  consentTimeoutSecs : Nat
  offerTimeoutSecs : Nat
deriving DecidableEq

/-- `SessionManager::consent_timeout`: the configured seconds, clamped to 1 and 600. -/
def Config.consentTimeout (config : Config) : Nat :=
  max 1 (min config.consentTimeoutSecs 600)

/-- `SessionManager::offer_timeout_secs`: clamped likewise. -/
def Config.offerTimeout (config : Config) : Nat :=
  max 1 (min config.offerTimeoutSecs 600)

/-- `ConsentState`: the gate an incoming pairing has to pass. -/
inductive ConsentState where
  | awaitingConsent (deadline : Nat) (pendingCode : Option String)
  | granted (pendingCode : Option String)
  | initiator
deriving DecidableEq

/-- `Session`: one entry of the session table. -/
structure Session where
  connId : ConnId
  pairing : Option PairingMachine
  peerName : Option String
  consent : ConsentState
  generation : Nat
deriving DecidableEq

/-- `PairOutcome`: the verdict on a submitted code. -/
inductive PairOutcome where
  | mismatch
  | failedOut
  | matched
  | notPairing
deriving DecidableEq

/-- The critical sections of `complete_pairing`: the check that the peer is not trusted yet, the
look-up of its name, and the write to the trust store. -/
inductive CompleteStage where
  | check
  | take
  | store (peerName : String)
deriving DecidableEq

/-- Where a control loop is. `completing` and `failing` are inside the handling of a message;
`completing` returns to the drain of the buffer when `drained` is set. `closing` and `leaving`
are the two critical sections after the loop. -/
inductive LoopStage where
  | reading
  | draining
  | completing (drained : Bool) (stage : CompleteStage)
  | failing
  | closing
  | leaving (consent : ConsentState) (wasTrusted : Bool)
deriving DecidableEq

/-- `ctrl_loop`: the task of one connection, with the queue behind `ctrl_send`. -/
structure CtrlLoop where
  peer : Fingerprint
  stage : LoopStage
  outbox : List ControlMsg
  failed : Bool
  terminalResultSent : Bool
deriving DecidableEq

/-- A connection between the TLS handshake and its session: it waits for the first message, or
it is in the table and `SessionUp` is still to be reported. -/
inductive HandshakeStage where
  | awaitingHello
  | announcing (peerName : String)
deriving DecidableEq

/-- `handle_incoming` and `post_handshake`, with the answer of the trust check. -/
structure Handshake where
  peer : Fingerprint
  dialed : Bool
  trusted : Bool
  stage : HandshakeStage
deriving DecidableEq

/-- Where a `grant_consent` call is, from the send of `ConsentGrant` to the verdict on a code
that came before the consent. -/
inductive GrantStage where
  | sending
  | releasing
  | judging (pendingCode : String)
  | failing
  | completing (stage : CompleteStage)
deriving DecidableEq

/-- `grant_consent` after its first critical section. -/
structure GrantTask where
  peer : Fingerprint
  conn : ConnId
  code : String
  stage : GrantStage
deriving DecidableEq

/-- The task that closes a session whose consent does not come in time. -/
structure ConsentTimer where
  peer : Fingerprint
  generation : Nat
  deadline : Nat
deriving DecidableEq

/-- `SessionError`, and the texts of its pairing errors. -/
inductive SessionError where
  | pairing (text : String)
  | cooldown (secs : Nat)
  | timedOut
  | reset
deriving DecidableEq

/-- `SessionEvent`: what the shell is told. -/
inductive SessionEvent where
  | pairingConsentNeeded (fingerprint : Fingerprint) (name : String)
  | pairingCodeShown (fingerprint : Fingerprint) (ownCode : String)
  | pairingWaitConsent (fingerprint : Fingerprint) (name : String)
  | pairingCodeEntry (fingerprint : Fingerprint) (name : String)
  | pairingResult (fingerprint : Fingerprint) (ok : Bool) (reason : Option String)
  | sessionUp (fingerprint : Fingerprint) (name : String) (conn : ConnId)
  | sessionDown (fingerprint : Fingerprint)
  | trustBroken (fingerprint : Fingerprint) (peerName : Option String)
deriving DecidableEq

/-- What a step leaves in the history: what the local user did, what the loops received and
decided, and what went to the shell and to the peers. -/
inductive CoreEvent where
  | consentGranted (peer : Fingerprint) (generation : Nat) (code : String)
  | consentDenied (peer : Fingerprint) (generation : Nat)
  | waitCancelled (peer : Fingerprint) (generation : Nat)
  | codeEntered (peer : Fingerprint) (conn : ConnId) (code : String)
  | received (peer : Fingerprint) (conn : ConnId) (msg : ControlMsg)
  | codeJudged (peer : Fingerprint) (generation : Nat) (code : String) (outcome : PairOutcome)
  | stashJudged (peer : Fingerprint) (generation : Nat) (code : String) (outcome : PairOutcome)
  | trusted (peer : Fingerprint)
  | untrusted (peer : Fingerprint)
  | ui (event : SessionEvent)
  | rejected (peer : Fingerprint) (error : SessionError)
  | sent (conn : ConnId) (msg : ControlMsg)
  | closed (conn : ConnId)
deriving DecidableEq

/-- What can happen next: a connection, a received message, progress of a task, an action of
the local user, or the passing of time. -/
inductive CoreInput where
  | accept (peer : Fingerprint)
  | dial (peer : Fingerprint) (address : String)
  | hello (conn : ConnId) (name : String)
  | handshakeFailed (conn : ConnId)
  | announce (conn : ConnId)
  | deliver (conn : ConnId) (msg : ControlMsg)
  | malformed (conn : ConnId)
  | streamEnd (conn : ConnId)
  | drain (conn : ConnId) (msg : ControlMsg)
  | drainEnd (conn : ConnId)
  | forward (conn : ConnId) (ok : Bool)
  | advance (conn : ConnId)
  | consentTimeout (timer : ConsentTimer)
  | grantConsent (peer : Fingerprint) (drawn : Nat)
  | advanceGrant (task : Nat)
  | denyConsent (peer : Fingerprint)
  | cancelWait (peer : Fingerprint)
  | submitPairCode (peer : Fingerprint) (code : String)
  | sendCtrl (peer : Fingerprint) (msg : ControlMsg)
  | disconnect (peer : Fingerprint)
  | shutdownAll
  | removeTrust (peer : Fingerprint)
  | setPerms (peer : Fingerprint) (perms : Perms)
  | saveSettings (config : Config)
  | tick (secs : Nat)
deriving DecidableEq

/-- The state behind a `SessionManager` that the pairing of peers depends on. -/
structure SessionCore where
  config : Config
  trust : TrustStore
  sessions : Fingerprint → Option Session
  generationCounter : Nat
  cooldown : Fingerprint → Option Nat
  handshakes : ConnId → Option Handshake
  nextConn : ConnId
  loops : ConnId → Option CtrlLoop
  grants : Nat → Option GrantTask
  nextGrant : Nat
  timers : List ConsentTimer
  now : Nat

/-- The answer of a step: the next state and what happened. -/
abbrev CoreStep := SessionCore × List CoreEvent

namespace SessionCore

/-- `SessionManager::spawn`: no session yet. -/
def spawn (config : Config) (trust : TrustStore) : SessionCore where
  config := config
  trust := trust
  sessions := fun _ => none
  generationCounter := 0
  cooldown := fun _ => none
  handshakes := fun _ => none
  nextConn := 0
  loops := fun _ => none
  grants := fun _ => none
  nextGrant := 0
  timers := []
  now := 0

/-- Write one entry of the session table. -/
def setSession (core : SessionCore) (peer : Fingerprint) (session : Option Session) :
    SessionCore :=
  { core with sessions := Function.update core.sessions peer session }

/-- Write the state of one control loop. -/
def setLoop (core : SessionCore) (conn : ConnId) (loop : Option CtrlLoop) : SessionCore :=
  { core with loops := Function.update core.loops conn loop }

/-- Write the state of one `grant_consent` call. -/
def setGrant (core : SessionCore) (task : Nat) (grant : Option GrantTask) : SessionCore :=
  { core with grants := Function.update core.grants task grant }

/-- Write the state of one handshake. -/
def setHandshake (core : SessionCore) (conn : ConnId) (handshake : Option Handshake) :
    SessionCore :=
  { core with handshakes := Function.update core.handshakes conn handshake }

/-- `ctrl_send.send`: append to the queue of a control loop. The queue holds 32 messages, a full
one lets the send time out, and the queue of a loop that is gone is closed. -/
def queueCtrl (core : SessionCore) (conn : ConnId) (msg : ControlMsg) :
    Except SessionError SessionCore :=
  match core.loops conn with
  | none => .error .reset
  | some loop =>
    if loop.outbox.length < 32 then
      .ok (core.setLoop conn (some { loop with outbox := loop.outbox ++ [msg] }))
    else .error .timedOut

/-- The texts `session.rs` gives the failures of a send during pairing. -/
def sendFailure : SessionError → SessionError
  | .timedOut => .pairing "控制流发送超时"
  | .reset => .pairing "控制流已关闭"
  | error => error

/-- `record_cooldown`: expired entries are dropped on the way. -/
def recordCooldown (core : SessionCore) (peer : Fingerprint) : SessionCore :=
  { core with
    cooldown := Function.update
      (fun other => (core.cooldown other).filter (core.now < ·)) peer
      (some (core.now + cooldownSecs)) }

/-- The cooldown check of both handshakes: the seconds a peer still has to wait. -/
def cooldownRemaining (core : SessionCore) (peer : Fingerprint) : Option Nat :=
  match core.cooldown peer with
  | some expires => if core.now < expires then some (expires - core.now) else none
  | none => none

/-- The beginning of `handle_incoming` and of `post_handshake`: refuse a peer in its cooldown,
look up its trust, and wait for its `Hello`. -/
def openHandshake (core : SessionCore) (peer : Fingerprint) (dialed : Bool)
    (address : String) : CoreStep :=
  let conn := core.nextConn
  let fresh := { core with
    nextConn := conn + 1
    cooldown := fun other => (core.cooldown other).filter (core.now < ·) }
  match core.cooldownRemaining peer with
  | some remaining => (fresh, [.closed conn, .rejected peer (.cooldown remaining)])
  | none =>
    let trusted := core.trust.isTrusted peer
    (fresh.setHandshake conn (some { peer, dialed, trusted, stage := .awaitingHello }),
      if dialed && !trusted then [.ui (.pairingWaitConsent peer address)] else [])

/-- `insert_session_and_spawn`, after the exchange of `Hello`: an untrusted peer that connected
to us has to wait for consent, every other session starts as the initiator's. -/
def insertSession (core : SessionCore) (conn : ConnId) (handshake : Handshake)
    (name : String) : CoreStep :=
  let peer := handshake.peer
  let deadline := core.now + core.config.consentTimeout
  let gated := !handshake.dialed && !handshake.trusted
  let session : Session :=
    { connId := conn, pairing := none, peerName := some name
      consent := if gated then .awaitingConsent deadline none else .initiator
      generation := core.generationCounter }
  let loop : CtrlLoop :=
    { peer, stage := .reading, outbox := [], failed := false, terminalResultSent := false }
  let spawned := (core.setSession peer (some session)).setLoop conn (some loop)
  ({ spawned with
      generationCounter := core.generationCounter + 1
      timers :=
        if gated then { peer, generation := core.generationCounter, deadline } :: core.timers
        else core.timers
      handshakes := Function.update core.handshakes conn
        (if handshake.trusted then some { handshake with stage := .announcing name }
          else none) },
    if gated then [.ui (.pairingConsentNeeded peer name)] else [])

/-- `disconnect`: forget the session, say goodbye as far as the queue allows, and close. -/
def disconnect (core : SessionCore) (peer : Fingerprint) : CoreStep :=
  match core.sessions peer with
  | none => (core, [])
  | some session =>
    let removed := core.setSession peer none
    ((removed.queueCtrl session.connId .goodbye).toOption.getD removed,
      [.closed session.connId])

/-- `shutdown_all`: forget every session and say goodbye on its connection. -/
def shutdownAll (core : SessionCore) : SessionCore :=
  { core with
    sessions := fun _ => none
    loops := fun conn => (core.loops conn).map fun loop =>
      if (core.sessions loop.peer).any (fun session => session.connId == conn) &&
          loop.outbox.length < 32 then
        { loop with outbox := loop.outbox ++ [.goodbye] }
      else loop }

/-- One critical section of `complete_pairing`, and the one that follows. The name in the trust
store is the session's, or made of the first bytes of the fingerprint. -/
def completePairing (core : SessionCore) (peer : Fingerprint) (conn : ConnId) :
    CompleteStage → CoreStep × Option CompleteStage
  | .check => ((core, []), if core.trust.isTrusted peer then none else some .take)
  | .take =>
    match core.sessions peer with
    | some session =>
      ((core.setSession peer (some { session with pairing := none }), []),
        some (.store (session.peerName.getD "")))
    | none => ((core, []), some (.store ("device-" ++ hexEncode (peer.extractLsb' 224 32))))
  | .store name =>
    let entry : TrustedPeer :=
      { fingerprint := peer, name, aliasName := "", pairedAt := core.now, perms := .default }
    (({ core with trust := core.trust.upsert entry },
      [.trusted peer, .ui (.sessionUp peer name conn), .ui (.pairingResult peer true none)]),
      none)

/-- `complete_pairing` leaves loops and grants alone. -/
theorem complete_pairing_kept (core : SessionCore) (peer : Fingerprint) (conn : ConnId)
    (stage : CompleteStage) :
    (core.completePairing peer conn stage).1.1.loops = core.loops ∧
      (core.completePairing peer conn stage).1.1.grants = core.grants := by
  cases stage with
  | check | store name => exact ⟨rfl, rfl⟩
  | take => cases hsession : core.sessions peer <;> simp [completePairing, hsession, setSession]

section Judge

variable (hashCode : String → Digest)

/-- `judge_code` on a session: without a pairing machine there is nothing to judge. -/
def judgeCode (session : Session) (code : String) : Session × PairOutcome :=
  match session.pairing with
  | none => (session, .notPairing)
  | some machine =>
    let (next, ok) := machine.submitRemote hashCode code
    ({ session with pairing := some next },
      if ok then .matched else if next.failedOut then .failedOut else .mismatch)

/-- The `PairCodeSubmit` arm of the control loop: judge the code if consent is given, and keep
it if consent is still to come. -/
def pairCodeSubmit (core : SessionCore) (conn : ConnId) (loop : CtrlLoop) (code : String) :
    CoreStep :=
  match core.sessions loop.peer with
  | none => (core, [])
  | some session =>
    match session.consent with
    | .initiator => (core, [])
    | .awaitingConsent deadline _ =>
      (core.setSession loop.peer
        (some { session with consent := .awaitingConsent deadline (some code) }), [])
    | .granted _ =>
      let (next, outcome) := judgeCode hashCode session code
      let judged := core.setSession loop.peer (some next)
      let verdict := CoreEvent.codeJudged loop.peer session.generation code outcome
      match outcome with
      | .matched =>
        (judged.setLoop conn (some { loop with
            stage := .completing false .check, terminalResultSent := true }),
          [verdict, .sent conn (.pairResult true)])
      | .failedOut =>
        (judged.setLoop conn (some { loop with
            stage := .failing, failed := true, terminalResultSent := true }), [verdict])
      | .mismatch => (judged, [verdict, .sent conn (.pairResult false)])
      | .notPairing => (judged, [verdict])

end Judge

/-- The `PairResult` arms. A positive answer goes straight to the check of `complete_pairing`;
`drained` says whether the loop is emptying its buffer after the end of the stream. -/
def pairResult (core : SessionCore) (conn : ConnId) (loop : CtrlLoop) (drained ok : Bool) :
    CoreStep :=
  if ok then
    (core.setLoop conn (some { loop with
      stage := if core.trust.isTrusted loop.peer then loop.stage else .completing drained .take
      terminalResultSent := true }), [])
  else
    (core.setLoop conn (some { loop with terminalResultSent := true }),
      [.ui (.pairingResult loop.peer false (some "配对码不匹配"))])

/-- Report the end of a pairing and leave the loop in the given stage. -/
def pairingEnded (core : SessionCore) (conn : ConnId) (loop : CtrlLoop) (stage : LoopStage)
    (reason : String) : CoreStep :=
  (core.setLoop conn (some { loop with stage, terminalResultSent := true }),
    [.ui (.pairingResult loop.peer false (some reason))])

variable (hashCode : String → Digest)

/-- `ctrl_loop`: what one received message does here. Requests, responses, signals and
notifications are passed on and leave the sessions alone. -/
def handleMsg (core : SessionCore) (conn : ConnId) (loop : CtrlLoop) : ControlMsg → CoreStep
  | .pairCodeSubmit code => core.pairCodeSubmit hashCode conn loop code
  | .pairResult ok => core.pairResult conn loop false ok
  | .consentGrant name => (core, [.ui (.pairingCodeEntry loop.peer name)])
  | .consentDeny => core.pairingEnded conn loop .closing "对方拒绝连接"
  | .consentCancel => core.pairingEnded conn loop .closing "对方已结束等待"
  | .goodbye => (core.setLoop conn (some { loop with stage := .closing }), [])
  | .trustBroken =>
    ({ core.setLoop conn (some { loop with stage := .closing }) with
        trust := core.trust.remove loop.peer },
      [.untrusted loop.peer, .ui (.trustBroken loop.peer
        ((core.sessions loop.peer).bind Session.peerName))])
  | _ => (core, [])

/-- The arms of the two loops that empty the buffer once the stream has ended. -/
def drainMsg (core : SessionCore) (conn : ConnId) (loop : CtrlLoop) : ControlMsg → CoreStep
  | .pairResult ok => core.pairResult conn loop true ok
  | .consentDeny => core.pairingEnded conn loop .draining "对方拒绝连接"
  | .consentCancel => core.pairingEnded conn loop .draining "对方已结束等待"
  | _ => (core, [])

/-- The end of `ctrl_loop`: remove the session unless a newer connection has replaced it, and
report. The initiator of an unfinished pairing is told that the connection is gone. -/
def leave (core : SessionCore) (conn : ConnId) (loop : CtrlLoop) (consent : ConsentState)
    (wasTrusted : Bool) : CoreStep :=
  let ended := core.setLoop conn none
  let closed := if loop.failed then [CoreEvent.closed conn] else []
  if (core.sessions loop.peer).any (fun session => session.connId != conn) then (ended, closed)
  else
    (ended.setSession loop.peer none,
      .ui (.sessionDown loop.peer) :: closed ++
        if consent = .initiator ∧ !wasTrusted ∧ !loop.terminalResultSent then
          [.ui (.pairingResult loop.peer false (some "连接已断开"))]
        else [])

/-- The next critical section of a control loop that is not waiting for the network. -/
def advanceLoop (core : SessionCore) (conn : ConnId) (loop : CtrlLoop) : Option CoreStep :=
  match loop.stage with
  | .reading | .draining => none
  | .completing drained stage =>
    let ((next, events), following) := core.completePairing loop.peer conn stage
    some (next.setLoop conn (some { loop with
      stage := match following with
        | some stage => .completing drained stage
        | none => if drained then .draining else .reading }), events)
  | .failing =>
    some ((core.recordCooldown loop.peer).setLoop conn (some { loop with stage := .closing }),
      [.sent conn (.pairResult false),
        .ui (.pairingResult loop.peer false (some "配对码错误超过 3 次"))])
  | .closing =>
    let seen := match core.sessions loop.peer with
      | some session => (session.consent, core.trust.isTrusted loop.peer)
      | none => (.initiator, false)
    some (core.setLoop conn (some { loop with stage := .leaving seen.1 seen.2 }), [])
  | .leaving consent wasTrusted => some (core.leave conn loop consent wasTrusted)

/-- `grant_consent`, first critical section: draw a code, keep its hash, and open the gate. -/
def grantConsent (core : SessionCore) (peer : Fingerprint) (drawn : Nat) : CoreStep :=
  match core.sessions peer with
  | none => (core, [.rejected peer (.pairing "会话不存在")])
  | some session =>
    match session.consent with
    | .awaitingConsent _ pendingCode =>
      let code := generatePairCode drawn
      let granted := core.setSession peer (some { session with
        pairing := some (.new (hashCode code)), consent := .granted pendingCode })
      ({ granted.setGrant core.nextGrant
          (some { peer, conn := session.connId, code, stage := .sending }) with
          nextGrant := core.nextGrant + 1 },
        [.consentGranted peer session.generation code])
    | _ => (core, [.rejected peer (.pairing "会话不处于待同意状态")])

/-- The later critical sections of `grant_consent` and `try_release_pending`. -/
def advanceGrantTask (core : SessionCore) (task : Nat) (grant : GrantTask) : CoreStep :=
  let peer := grant.peer
  match grant.stage with
  | .sending =>
    match core.queueCtrl grant.conn (.consentGrant core.config.deviceName) with
    | .ok next =>
      (next.setGrant task (some { grant with stage := .releasing }),
        [.ui (.pairingCodeShown peer grant.code)])
    | .error error => (core.setGrant task none, [.rejected peer (sendFailure error)])
  | .releasing =>
    match core.sessions peer with
    | some session =>
      match session.consent with
      | .granted (some code) =>
        ((core.setSession peer (some { session with consent := .granted none })).setGrant
          task (some { grant with stage := .judging code }), [])
      | _ => (core.setGrant task none, [])
    | none => (core.setGrant task none, [])
  | .judging code =>
    match core.sessions peer with
    | none => (core.setGrant task none, [])
    | some session =>
      let (next, outcome) := judgeCode hashCode session code
      let judged := core.setSession peer (some next)
      let verdict := CoreEvent.stashJudged peer session.generation code outcome
      match outcome with
      | .matched => (judged.setGrant task (some { grant with stage := .completing .check }),
          [verdict])
      | .failedOut => (judged.setGrant task (some { grant with stage := .failing }), [verdict])
      | .mismatch => (judged.setGrant task none,
          [verdict, .ui (.pairingResult peer false (some "配对码不匹配"))])
      | .notPairing => (judged.setGrant task none, [verdict])
  | .failing =>
    let (ended, events) := (core.recordCooldown peer).disconnect peer
    (ended.setGrant task none,
      .ui (.pairingResult peer false (some "配对码错误超过 3 次")) :: events)
  | .completing stage =>
    let ((next, events), following) := core.completePairing peer grant.conn stage
    (next.setGrant task (following.map fun stage => { grant with stage := .completing stage }),
      events)

/-- `deny_consent`: the session stays until the peer hears of the refusal. -/
def denyConsent (core : SessionCore) (peer : Fingerprint) : CoreStep :=
  match core.sessions peer with
  | none => (core, [.rejected peer (.pairing "会话不存在")])
  | some session =>
    match session.consent with
    | .awaitingConsent _ _ =>
      let denied := CoreEvent.consentDenied peer session.generation
      match core.queueCtrl session.connId .consentDeny with
      | .ok next =>
        (next, [denied, .ui (.pairingResult peer false (some "已拒绝对方连接"))])
      | .error error => (core, [denied, .rejected peer (sendFailure error)])
    | _ => (core, [.rejected peer (.pairing "会话不处于待同意状态")])

/-- `cancel_wait`: the session, its gate and its pairing machine stay as they are. -/
def cancelWait (core : SessionCore) (peer : Fingerprint) : CoreStep :=
  match core.sessions peer with
  | none => (core, [.rejected peer (.pairing "会话不存在")])
  | some session =>
    match session.consent with
    | .granted _ =>
      let cancelled := CoreEvent.waitCancelled peer session.generation
      match core.queueCtrl session.connId .consentCancel with
      | .ok next =>
        (next, [cancelled, .ui (.pairingResult peer false (some "已结束等待"))])
      | .error error => (core, [cancelled, .rejected peer (sendFailure error)])
    | _ => (core, [.rejected peer (.pairing "会话不处于已同意状态")])

/-- `submit_pair_code`: only the initiator of a pairing has a code to enter. -/
def submitPairCode (core : SessionCore) (peer : Fingerprint) (code : String) : CoreStep :=
  match core.sessions peer with
  | none => (core, [.rejected peer (.pairing "会话不存在")])
  | some session =>
    match session.consent with
    | .initiator =>
      match core.queueCtrl session.connId (.pairCodeSubmit code) with
      | .ok next => (next, [.codeEntered peer session.connId code])
      | .error error => (core, [.rejected peer (sendFailure error)])
    | _ => (core, [.rejected peer (.pairing "本机为接受方,无输码入口")])

/-- `send_ctrl`: queue a message for a peer. -/
def sendCtrl (core : SessionCore) (peer : Fingerprint) (msg : ControlMsg) :
    Except SessionError SessionCore :=
  match core.sessions peer with
  | none => .error .reset
  | some session => core.queueCtrl session.connId msg

/-- The consent timer: close the session if it still waits and is of the same generation. -/
def consentTimeout (core : SessionCore) (timer : ConsentTimer) : CoreStep :=
  let fired := { core with timers := core.timers.erase timer }
  match core.sessions timer.peer with
  | none => (fired, [])
  | some session =>
    match session.consent with
    | .awaitingConsent _ _ =>
      if session.generation = timer.generation then
        (fired.setSession timer.peer none,
          [.closed session.connId,
            .ui (.pairingResult timer.peer false (some "同意超时"))])
      else (fired, [])
    | _ => (fired, [])

/-- The outgoing branch of the control loop: the next queued message is sent, or the send fails
and the loop ends. -/
def forward (core : SessionCore) (conn : ConnId) (loop : CtrlLoop) (ok : Bool) :
    Option CoreStep :=
  match loop.outbox with
  | [] => none
  | msg :: rest =>
    some (if ok then
      (core.setLoop conn (some { loop with outbox := rest }), [.sent conn msg])
    else (core.setLoop conn (some { loop with outbox := rest, stage := .closing }), []))

/-- Run a step of a control loop that is in the given stage. -/
def atStage (core : SessionCore) (conn : ConnId) (stage : LoopStage)
    (run : CtrlLoop → Option CoreStep) : Option CoreStep :=
  match core.loops conn with
  | some loop => if loop.stage = stage then run loop else none
  | none => none

/-- What a step at a given stage of a control loop does. -/
theorem at_stage_some {core : SessionCore} {conn : ConnId} {stage : LoopStage}
    {run : CtrlLoop → Option CoreStep} {result : CoreStep}
    (h : core.atStage conn stage run = some result) :
    ∃ loop, core.loops conn = some loop ∧ loop.stage = stage ∧ run loop = some result := by
  unfold atStage at h
  split at h
  · next loop hloop =>
    split at h
    · next hstage => exact ⟨loop, hloop, hstage, h⟩
    · cases h
  · cases h

/-- One step of the session manager. -/
def step (core : SessionCore) : CoreInput → Option CoreStep
  | .accept peer => some (core.openHandshake peer false "")
  | .dial peer address => some (core.openHandshake peer true address)
  | .hello conn name =>
    match core.handshakes conn with
    | some handshake =>
      if handshake.stage = .awaitingHello then some (core.insertSession conn handshake name)
      else none
    | none => none
  | .handshakeFailed conn => some (core.setHandshake conn none, [])
  | .announce conn =>
    match core.handshakes conn with
    | some { peer, stage := .announcing name, .. } =>
      some (core.setHandshake conn none, [.ui (.sessionUp peer name conn)])
    | _ => none
  | .deliver conn msg => core.atStage conn .reading fun loop =>
    let (next, events) := core.handleMsg hashCode conn loop msg
    some (next, .received loop.peer conn msg :: events)
  | .malformed conn =>
    match core.loops conn with
    | some loop =>
      if loop.stage = .reading ∨ loop.stage = .draining then
        some (core.setLoop conn (some { loop with stage := .closing }), [])
      else none
    | none => none
  | .streamEnd conn => core.atStage conn .reading fun loop =>
    some (core.setLoop conn (some { loop with stage := .draining }), [])
  | .drain conn msg => core.atStage conn .draining fun loop =>
    let (next, events) := core.drainMsg conn loop msg
    some (next, .received loop.peer conn msg :: events)
  | .drainEnd conn => core.atStage conn .draining fun loop =>
    some (core.setLoop conn (some { loop with stage := .closing }), [])
  | .forward conn ok => core.atStage conn .reading fun loop => core.forward conn loop ok
  | .advance conn => (core.loops conn).bind (core.advanceLoop conn)
  | .consentTimeout timer =>
    if timer ∈ core.timers ∧ timer.deadline ≤ core.now then some (core.consentTimeout timer)
    else none
  | .grantConsent peer drawn => some (core.grantConsent hashCode peer drawn)
  | .advanceGrant task => (core.grants task).map (core.advanceGrantTask hashCode task)
  | .denyConsent peer => some (core.denyConsent peer)
  | .cancelWait peer => some (core.cancelWait peer)
  | .submitPairCode peer code => some (core.submitPairCode peer code)
  | .sendCtrl peer msg =>
    match core.sendCtrl peer msg with
    | .ok next => some (next, [])
    | .error error => some (core, [.rejected peer error])
  | .disconnect peer => some (core.disconnect peer)
  | .shutdownAll => some (core.shutdownAll, [])
  | .removeTrust peer => some ({ core with trust := core.trust.remove peer }, [.untrusted peer])
  | .setPerms peer perms => some ({ core with trust := core.trust.setPerms peer perms }, [])
  | .saveSettings config => some ({ core with config }, [])
  | .tick secs => some ({ core with now := core.now + secs }, [])

end SessionCore

end LocalTrans
