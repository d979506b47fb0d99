import LocalTrans.Session.Trust
import LocalTrans.Session.Turns

/-!
# What a step does to a pairing

`Move` lists what a step of the sessions can do to the pairings in progress: a connection opens, a
session is entered, a consent is given, a code is judged, an answer comes in, a completion or a
failure takes its next critical section, a control loop ends, or the step is calm. `step_move` says
so once for all inputs of `SessionCore.step`, and what holds over the runs of a pairing is a case
analysis over the moves.
-/

namespace LocalTrans

/-- The message answers a submitted code. -/
def ControlMsg.isPairResult : ControlMsg → Bool
  | .pairResult _ => true
  | _ => false

/-- What a caller of `send_ctrl` sends. -/
def CoreInput.calls : CoreInput → List ControlMsg
  | .sendCtrl _ msg => [msg]
  | _ => []

/-- The gate of the session is open. -/
def Session.Granted (session : Session) : Prop :=
  ∃ pending, session.consent = .granted pending

/-- The loop still serves its peer. -/
def LoopStage.Serving : LoopStage → Prop
  | .reading | .draining | .completing .. => True
  | _ => False

/-- A code that came before the consent may still be judged. -/
def GrantStage.Waiting : GrantStage → Prop
  | .sending | .releasing | .judging _ => True
  | _ => False

/-- The session is the same connection's, with the same gate and code. -/
structure Session.Continues (after before : Session) : Prop where
  connId : after.connId = before.connId
  generation : after.generation = before.generation
  pairing : after.pairing = before.pairing ∨ after.pairing = none
  granted : after.Granted ↔ before.Granted

/-- The loop has neither begun nor ended a completion or a failure, and queued no answer to a code
beyond those in `calls`. -/
structure CtrlLoop.Continues (calls : List ControlMsg) (after before : CtrlLoop) : Prop where
  peer : after.peer = before.peer
  failed : after.failed = before.failed
  serving : after.stage.Serving → before.stage.Serving
  completing : ∀ drained stage,
    after.stage = .completing drained stage ↔ before.stage = .completing drained stage
  failing : after.stage = .failing ↔ before.stage = .failing
  outbox : ∀ msg ∈ after.outbox, msg ∈ before.outbox ∨ msg.isPairResult = false ∨ msg ∈ calls

/-- The grant is the same connection's, and has not begun a completion. -/
structure GrantTask.Continues (after before : GrantTask) : Prop where
  peer : after.peer = before.peer
  conn : after.conn = before.conn
  waiting : after.stage.Waiting → before.stage.Waiting
  completing : ∀ stage, after.stage = .completing stage ↔ before.stage = .completing stage

/-- An event that says nothing of a message, a verdict or a success. -/
def CoreEvent.Plain : CoreEvent → Prop
  | .received .. | .codeJudged .. | .stashJudged .. | .ui (.pairingResult _ true _) => False
  | _ => True

/-- An event of this side alone: nothing is received, judged or sent. -/
def CoreEvent.Local : CoreEvent → Prop
  | .received .. | .codeJudged .. | .stashJudged .. | .sent .. => False
  | _ => True

/-- The loop after the verdict on a code. -/
def CtrlLoop.judged (loop : CtrlLoop) : PairOutcome → CtrlLoop
  | .matched => { loop with stage := .completing false .check, terminalResultSent := true }
  | .failedOut => { loop with stage := .failing, failed := true, terminalResultSent := true }
  | .mismatch | .notPairing => loop

/-- What the loop sends along with the verdict. -/
def PairOutcome.replies (conn : ConnId) : PairOutcome → List CoreEvent
  | .matched => [.sent conn (.pairResult true)]
  | .mismatch => [.sent conn (.pairResult false)]
  | .failedOut | .notPairing => []

/-- The grant after the verdict on a code that came before the consent. -/
def GrantTask.judged (grant : GrantTask) : PairOutcome → Option GrantTask
  | .matched => some { grant with stage := .completing .check }
  | .failedOut => some { grant with stage := .failing }
  | .mismatch | .notPairing => none

/-- What the grant reports along with the verdict: the peer hears nothing. -/
def PairOutcome.reports (peer : Fingerprint) : PairOutcome → List CoreEvent
  | .mismatch => [.ui (.pairingResult peer false (some "配对码不匹配"))]
  | .matched | .failedOut | .notPairing => []

/-- The loop after a critical section of `complete_pairing`. -/
def CtrlLoop.settled (loop : CtrlLoop) (drained : Bool) (following : Option CompleteStage) :
    CtrlLoop :=
  { loop with
    stage := match following with
      | some stage => .completing drained stage
      | none => if drained then .draining else .reading }

/-- The grant after a critical section of `complete_pairing`. -/
def GrantTask.settled (grant : GrantTask) (following : Option CompleteStage) : Option GrantTask :=
  following.map fun stage => { grant with stage := .completing stage }

namespace SessionCore

/-- Sessions, loops and grants go on or end, and only the peers in `lost` lose their trust. -/
structure Continues (calls : List ControlMsg) (lost : Fingerprint → Prop)
    (core next : SessionCore) : Prop where
  sessions : ∀ peer session, next.sessions peer = some session →
    ∃ before, core.sessions peer = some before ∧ session.Continues before
  began : ∀ conn loop, next.loops conn = some loop →
    ∃ before, core.loops conn = some before ∧ loop.Continues calls before
  runs : ∀ conn loop, core.loops conn = some loop →
    ∃ after, next.loops conn = some after ∧ after.Continues calls loop
  grants : ∀ task grant, next.grants task = some grant →
    ∃ before, core.grants task = some before ∧ grant.Continues before
  completing : ∀ task grant stage, core.grants task = some grant →
    grant.stage = .completing stage → ∃ after, next.grants task = some after ∧ after.Continues grant
  handshakes : ∀ conn handshake, next.handshakes conn = some handshake →
    ∃ before, core.handshakes conn = some before ∧ before.peer = handshake.peer
  counters : next.generationCounter = core.generationCounter ∧ next.nextConn = core.nextConn ∧
    next.nextGrant = core.nextGrant
  trust : ∀ peer, core.trust.isTrusted peer = true → next.trust.isTrusted peer = true ∨ lost peer

/-- A step on which all pairings go on or end, nothing is received or judged, and only what was
queued is sent. -/
structure Calm (core : SessionCore) (calls : List ControlMsg) (next : SessionCore)
    (events : List CoreEvent) : Prop where
  continues : Continues calls (fun peer => .untrusted peer ∈ events) core next
  plain : ∀ event ∈ events, event.Plain
  sent : ∀ conn msg, .sent conn msg ∈ events → ∃ loop, core.loops conn = some loop ∧
    msg ∈ loop.outbox

/-- The moves of a pairing. -/
inductive Move (hashCode : String → Digest) (core : SessionCore) : CoreInput → CoreStep → Prop where
  | calm {input : CoreInput} {next : SessionCore} {events : List CoreEvent}
      (h : core.Calm input.calls next events) : Move hashCode core input (next, events)
  | heard {input : CoreInput} {conn : ConnId} {msg : ControlMsg} {loop : CtrlLoop}
      {next : SessionCore} {events : List CoreEvent}
      (hinput : input = .deliver conn msg ∨ input = .drain conn msg)
      (hmsg : msg ≠ .pairResult true) (hloop : core.loops conn = some loop)
      (h : core.Calm [] next events) :
      Move hashCode core input (next, .received loop.peer conn msg :: events)
  | opened {input : CoreInput} {peer : Fingerprint} {dialed : Bool} {address : String}
      (hinput : input = .accept peer ∨ input = .dial peer address) :
      Move hashCode core input (core.openHandshake peer dialed address)
  | entered {conn : ConnId} {name : String} {handshake : Handshake}
      (hhandshake : core.handshakes conn = some handshake)
      (hstage : handshake.stage = .awaitingHello) :
      Move hashCode core (.hello conn name) (core.insertSession conn handshake name)
  | granted {peer : Fingerprint} {drawn deadline : Nat} {pendingCode : Option String}
      {session : Session} (hsession : core.sessions peer = some session)
      (hconsent : session.consent = .awaitingConsent deadline pendingCode) :
      Move hashCode core (.grantConsent peer drawn) (core.grantConsent hashCode peer drawn)
  | judged {conn : ConnId} {code : String} {loop : CtrlLoop} {session : Session}
      (hloop : core.loops conn = some loop) (hstage : loop.stage = .reading)
      (hsession : core.sessions loop.peer = some session) (hgranted : session.Granted) :
      Move hashCode core (.deliver conn (.pairCodeSubmit code))
        ((core.setSession loop.peer (some (judgeCode hashCode session code).1)).setLoop conn
            (some (loop.judged (judgeCode hashCode session code).2)),
          .received loop.peer conn (.pairCodeSubmit code) ::
            .codeJudged loop.peer session.generation code (judgeCode hashCode session code).2 ::
            (judgeCode hashCode session code).2.replies conn)
  | released {task : Nat} {code : String} {grant : GrantTask} {session : Session}
      (hgrant : core.grants task = some grant) (hstage : grant.stage = .judging code)
      (hsession : core.sessions grant.peer = some session) :
      Move hashCode core (.advanceGrant task)
        ((core.setSession grant.peer (some (judgeCode hashCode session code).1)).setGrant task
            (grant.judged (judgeCode hashCode session code).2),
          .stashJudged grant.peer session.generation code (judgeCode hashCode session code).2 ::
            (judgeCode hashCode session code).2.reports grant.peer)
  | confirmed {input : CoreInput} {conn : ConnId} {loop : CtrlLoop} {drained : Bool}
      (hinput : input = .deliver conn (.pairResult true) ∨ input = .drain conn (.pairResult true))
      (hloop : core.loops conn = some loop)
      (hstage : loop.stage = .reading ∨ loop.stage = .draining) :
      Move hashCode core input
        ((core.pairResult conn loop drained true).1, [.received loop.peer conn (.pairResult true)])
  | completed {conn : ConnId} {loop : CtrlLoop} {drained : Bool} {stage : CompleteStage}
      (hloop : core.loops conn = some loop) (hstage : loop.stage = .completing drained stage) :
      Move hashCode core (.advance conn)
        ((core.completePairing loop.peer conn stage).1.1.setLoop conn
            (some (loop.settled drained (core.completePairing loop.peer conn stage).2)),
          (core.completePairing loop.peer conn stage).1.2)
  | settled {task : Nat} {grant : GrantTask} {stage : CompleteStage}
      (hgrant : core.grants task = some grant) (hstage : grant.stage = .completing stage) :
      Move hashCode core (.advanceGrant task)
        ((core.completePairing grant.peer grant.conn stage).1.1.setGrant task
            (grant.settled (core.completePairing grant.peer grant.conn stage).2),
          (core.completePairing grant.peer grant.conn stage).1.2)
  | gaveUp {conn : ConnId} {loop : CtrlLoop} (hloop : core.loops conn = some loop)
      (hstage : loop.stage = .failing) :
      Move hashCode core (.advance conn)
        ((core.recordCooldown loop.peer).setLoop conn (some { loop with stage := .closing }),
          [.sent conn (.pairResult false),
            .ui (.pairingResult loop.peer false (some "配对码错误超过 3 次"))])
  | left {conn : ConnId} {loop : CtrlLoop} {consent : ConsentState} {wasTrusted : Bool}
      (hloop : core.loops conn = some loop) (hstage : loop.stage = .leaving consent wasTrusted) :
      Move hashCode core (.advance conn) (core.leave conn loop consent wasTrusted)

variable {calls : List ControlMsg} {lost : Fingerprint → Prop} {core mid next : SessionCore}
  {peer : Fingerprint} {conn : ConnId} {task : Nat} {loop after : CtrlLoop}
  {session newer : Session} {grant : GrantTask} {events : List CoreEvent}

theorem session_continues_self (session : Session) : session.Continues session :=
  ⟨rfl, rfl, .inl rfl, Iff.rfl⟩

theorem loop_continues_self (loop : CtrlLoop) : loop.Continues calls loop :=
  ⟨rfl, rfl, id, fun _ _ => Iff.rfl, Iff.rfl, fun _ h => .inl h⟩

theorem grant_continues_self (grant : GrantTask) : grant.Continues grant :=
  ⟨rfl, rfl, id, fun _ => Iff.rfl⟩

theorem session_continues_trans {last : Session} (h : newer.Continues session)
    (h' : last.Continues newer) : last.Continues session := by
  refine ⟨h'.connId.trans h.connId, h'.generation.trans h.generation, ?_, h'.granted.trans h.granted⟩
  rcases h'.pairing with hsame | hnone
  · rw [hsame]
    exact h.pairing
  · exact .inr hnone

theorem loop_continues_trans {last : CtrlLoop} (h : after.Continues calls loop)
    (h' : last.Continues calls after) : last.Continues calls loop := by
  refine ⟨h'.peer.trans h.peer, h'.failed.trans h.failed, fun hserving => h.serving (h'.serving hserving),
    fun drained stage => (h'.completing drained stage).trans (h.completing drained stage),
    h'.failing.trans h.failing, fun msg hmem => ?_⟩
  rcases h'.outbox msg hmem with hqueued | hother
  · exact h.outbox msg hqueued
  · exact .inr hother

theorem grant_continues_trans {mid last : GrantTask} (h : mid.Continues grant)
    (h' : last.Continues mid) : last.Continues grant :=
  ⟨h'.peer.trans h.peer, h'.conn.trans h.conn, fun hwaiting => h.waiting (h'.waiting hwaiting),
    fun stage => (h'.completing stage).trans (h.completing stage)⟩

/-- Where what matters is unchanged, everything goes on. -/
theorem continues_of_eq (hsessions : next.sessions = core.sessions) (hloops : next.loops = core.loops)
    (hgrants : next.grants = core.grants) (hhandshakes : next.handshakes = core.handshakes)
    (hcounters : next.generationCounter = core.generationCounter ∧ next.nextConn = core.nextConn ∧
      next.nextGrant = core.nextGrant)
    (htrust : ∀ peer, core.trust.isTrusted peer = true →
      next.trust.isTrusted peer = true ∨ lost peer) : Continues calls lost core next := by
  refine ⟨?_, ?_, ?_, ?_, ?_, ?_, hcounters, htrust⟩
  · intro peer session h
    exact ⟨session, hsessions ▸ h, session_continues_self session⟩
  · intro conn loop h
    exact ⟨loop, hloops ▸ h, loop_continues_self loop⟩
  · intro conn loop h
    exact ⟨loop, hloops.symm ▸ h, loop_continues_self loop⟩
  · intro task grant h
    exact ⟨grant, hgrants ▸ h, grant_continues_self grant⟩
  · intro task grant stage h _
    exact ⟨grant, hgrants.symm ▸ h, grant_continues_self grant⟩
  · intro conn handshake h
    exact ⟨handshake, hhandshakes ▸ h, rfl⟩

theorem Continues.refl (calls : List ControlMsg) (lost : Fingerprint → Prop) (core : SessionCore) :
    Continues calls lost core core :=
  continues_of_eq rfl rfl rfl rfl ⟨rfl, rfl, rfl⟩ fun _ h => .inl h

theorem Continues.trans (hfirst : Continues calls lost core mid)
    (hsecond : Continues calls lost mid next) : Continues calls lost core next := by
  refine ⟨?_, ?_, ?_, ?_, ?_, ?_, ?_, ?_⟩
  · intro peer session h
    obtain ⟨between, hbetween, hlater⟩ := hsecond.sessions peer session h
    obtain ⟨before, hbefore, hearlier⟩ := hfirst.sessions peer between hbetween
    exact ⟨before, hbefore, session_continues_trans hearlier hlater⟩
  · intro conn loop h
    obtain ⟨between, hbetween, hlater⟩ := hsecond.began conn loop h
    obtain ⟨before, hbefore, hearlier⟩ := hfirst.began conn between hbetween
    exact ⟨before, hbefore, loop_continues_trans hearlier hlater⟩
  · intro conn loop h
    obtain ⟨between, hbetween, hearlier⟩ := hfirst.runs conn loop h
    obtain ⟨after, hafter, hlater⟩ := hsecond.runs conn between hbetween
    exact ⟨after, hafter, loop_continues_trans hearlier hlater⟩
  · intro task grant h
    obtain ⟨between, hbetween, hlater⟩ := hsecond.grants task grant h
    obtain ⟨before, hbefore, hearlier⟩ := hfirst.grants task between hbetween
    exact ⟨before, hbefore, grant_continues_trans hearlier hlater⟩
  · intro task grant stage h hstage
    obtain ⟨between, hbetween, hearlier⟩ := hfirst.completing task grant stage h hstage
    obtain ⟨after, hafter, hlater⟩ :=
      hsecond.completing task between stage hbetween ((hearlier.completing stage).mpr hstage)
    exact ⟨after, hafter, grant_continues_trans hearlier hlater⟩
  · intro conn handshake h
    obtain ⟨between, hbetween, hlater⟩ := hsecond.handshakes conn handshake h
    obtain ⟨before, hbefore, hearlier⟩ := hfirst.handshakes conn between hbetween
    exact ⟨before, hbefore, hearlier.trans hlater⟩
  · obtain ⟨hgeneration, hconn, hgrant⟩ := hfirst.counters
    obtain ⟨hgeneration', hconn', hgrant'⟩ := hsecond.counters
    exact ⟨hgeneration'.trans hgeneration, hconn'.trans hconn, hgrant'.trans hgrant⟩
  · intro peer h
    rcases hfirst.trust peer h with hkept | hlost
    · exact hsecond.trust peer hkept
    · exact .inr hlost

/-- A control loop goes on. -/
theorem continues_set_loop (h : core.loops conn = some loop) (hloop : after.Continues calls loop) :
    Continues calls lost core (core.setLoop conn (some after)) := by
  refine { Continues.refl calls lost core with began := ?_, runs := ?_ }
  · intro other found hfound
    by_cases hsame : other = conn
    · subst hsame
      obtain rfl : after = found := by simpa [setLoop] using hfound
      exact ⟨loop, h, hloop⟩
    · exact ⟨found, by simpa [setLoop, Function.update_of_ne hsame] using hfound,
        loop_continues_self found⟩
  · intro other found hfound
    by_cases hsame : other = conn
    · subst hsame
      obtain rfl : loop = found := Option.some.inj (h.symm.trans hfound)
      exact ⟨after, by simp [setLoop], hloop⟩
    · exact ⟨found, by simpa [setLoop, Function.update_of_ne hsame] using hfound,
        loop_continues_self found⟩

/-- A session of the table goes on, or leaves it. -/
theorem continues_set_session {written : Option Session}
    (h : ∀ newer, written = some newer → ∃ session, core.sessions peer = some session ∧
      newer.Continues session) :
    Continues calls lost core (core.setSession peer written) := by
  refine { Continues.refl calls lost core with sessions := ?_ }
  intro other found hfound
  by_cases hsame : other = peer
  · subst hsame
    exact h found (by simpa [setSession] using hfound)
  · exact ⟨found, by simpa [setSession, Function.update_of_ne hsame] using hfound,
      session_continues_self found⟩

/-- A grant that completes nothing goes on, or ends. -/
theorem continues_set_grant {written : Option GrantTask} (hgrant : core.grants task = some grant)
    (hstage : ∀ stage, grant.stage ≠ .completing stage)
    (h : ∀ later, written = some later → later.Continues grant) :
    Continues calls lost core (core.setGrant task written) := by
  refine { Continues.refl calls lost core with grants := ?_, completing := ?_ }
  · intro other found hfound
    by_cases hsame : other = task
    · subst hsame
      exact ⟨grant, hgrant, h found (by simpa [setGrant] using hfound)⟩
    · exact ⟨found, by simpa [setGrant, Function.update_of_ne hsame] using hfound,
        grant_continues_self found⟩
  · intro other found stage hfound hcompleting
    have hsame : other ≠ task := by
      rintro rfl
      obtain rfl := Option.some.inj (hgrant.symm.trans hfound)
      exact hstage stage hcompleting
    exact ⟨found, by simpa [setGrant, Function.update_of_ne hsame] using hfound,
      grant_continues_self found⟩

/-- A handshake ends. -/
theorem continues_end_handshake : Continues calls lost core (core.setHandshake conn none) := by
  refine { Continues.refl calls lost core with handshakes := ?_ }
  intro other found hfound
  by_cases hsame : other = conn
  · subst hsame
    simp [setHandshake] at hfound
  · exact ⟨found, by simpa [setHandshake, Function.update_of_ne hsame] using hfound, rfl⟩

/-- A critical section of a completion takes at most the machine of the session. -/
theorem complete_pairing_continues {stage : CompleteStage} :
    Continues calls lost core (core.completePairing peer conn stage).1.1 := by
  cases stage with
  | check => exact .refl calls lost core
  | take =>
    cases hsession : core.sessions peer with
    | none =>
      simp only [completePairing, hsession]
      exact .refl calls lost core
    | some session =>
      simp only [completePairing, hsession]
      refine continues_set_session ?_
      rintro newer ⟨⟩
      exact ⟨session, hsession, rfl, rfl, .inr rfl, Iff.rfl⟩
  | store name =>
    refine continues_of_eq rfl rfl rfl rfl ⟨rfl, rfl, rfl⟩ fun other htrusted => .inl ?_
    exact TrustStore.is_trusted_of_upsert (.inl htrusted)

/-- A connection that opens leaves the sessions, the loops and the grants alone. -/
theorem open_handshake_rest (core : SessionCore) (peer : Fingerprint) (dialed : Bool)
    (address : String) :
    (core.openHandshake peer dialed address).1.sessions = core.sessions ∧
      (core.openHandshake peer dialed address).1.loops = core.loops ∧
      (core.openHandshake peer dialed address).1.grants = core.grants ∧
      (core.openHandshake peer dialed address).1.generationCounter = core.generationCounter := by
  unfold openHandshake
  dsimp only
  split <;> exact ⟨rfl, rfl, rfl, rfl⟩

/-- A message is queued behind the others. -/
theorem loop_continues_queued {msg : ControlMsg} (hmsg : msg.isPairResult = false ∨ msg ∈ calls) :
    CtrlLoop.Continues calls { loop with outbox := loop.outbox ++ [msg] } loop := by
  refine ⟨rfl, rfl, id, fun _ _ => Iff.rfl, Iff.rfl, fun other hmem => ?_⟩
  rcases List.mem_append.mp hmem with hbefore | hnew
  · exact .inl hbefore
  · obtain rfl := List.mem_singleton.mp hnew
    exact .inr hmsg

theorem queue_ctrl_continues {msg : ControlMsg} (h : core.queueCtrl conn msg = .ok next)
    (hmsg : msg.isPairResult = false ∨ msg ∈ calls) : Continues calls lost core next := by
  unfold queueCtrl at h
  split at h
  · cases h
  · next loop hloop =>
    split at h
    · obtain rfl := Except.ok.inj h
      exact continues_set_loop hloop (loop_continues_queued hmsg)
    · cases h

theorem queue_best_effort_continues {msg : ControlMsg} (hmsg : msg.isPairResult = false) :
    Continues calls lost core ((core.queueCtrl conn msg).toOption.getD core) := by
  cases hqueue : core.queueCtrl conn msg with
  | ok next => exact queue_ctrl_continues hqueue (.inl hmsg)
  | error error => exact .refl calls lost core

theorem disconnect_continues : Continues calls lost core (core.disconnect peer).1 := by
  unfold disconnect
  split
  · exact .refl calls lost core
  · have hremoved : Continues calls lost core (core.setSession peer none) :=
      continues_set_session (by simp)
    exact hremoved.trans (queue_best_effort_continues rfl)

theorem disconnect_grants : (core.disconnect peer).1.grants = core.grants := by
  unfold disconnect
  split
  · rfl
  · next session _ =>
    dsimp only
    cases hqueue : (core.setSession peer none).queueCtrl session.connId .goodbye with
    | ok next => exact (queue_ctrl_grants hqueue).trans rfl
    | error error => rfl

theorem shutdown_all_continues : Continues calls lost core core.shutdownAll := by
  have hgoodbye : ∀ conn (loop : CtrlLoop), CtrlLoop.Continues calls
      (if (core.sessions loop.peer).any (fun session => session.connId == conn) &&
          loop.outbox.length < 32 then
        { loop with outbox := loop.outbox ++ [.goodbye] }
      else loop) loop := by
    intro conn loop
    split
    · exact loop_continues_queued (.inl rfl)
    · exact loop_continues_self loop
  refine { Continues.refl calls lost core with sessions := ?_, began := ?_, runs := ?_ }
  · intro peer session h
    cases h
  · intro conn loop h
    obtain ⟨before, hbefore, rfl⟩ := Option.map_eq_some_iff.mp h
    exact ⟨before, hbefore, hgoodbye conn before⟩
  · intro conn loop h
    exact ⟨_, Option.map_eq_some_iff.mpr ⟨loop, h, rfl⟩, hgoodbye conn loop⟩

variable {stage : LoopStage} {result : CoreStep}

/-- A step on which everything goes on, and whose events say nothing of pairings. -/
theorem Continues.calm (h : Continues calls (fun peer => .untrusted peer ∈ events) core next)
    (hplain : ∀ event ∈ events, event.Plain) (hsent : ∀ conn msg, .sent conn msg ∉ events) :
    core.Calm calls next events :=
  ⟨h, hplain, fun conn msg hmem => absurd hmem (hsent conn msg)⟩

theorem calm_rejected {error : SessionError} : core.Calm calls core [.rejected peer error] :=
  (Continues.refl calls _ core).calm (by simp [CoreEvent.Plain]) (by simp)

theorem calm_idle : core.Calm calls core [] :=
  (Continues.refl calls _ core).calm (by simp) (by simp)

/-- A loop whose stage changes without a completion or a failure. -/
theorem loop_continues_stage {sent : Bool} (hserving : stage.Serving → loop.stage.Serving)
    (hcompleting : ∀ drained following,
      stage = .completing drained following ↔ loop.stage = .completing drained following)
    (hfailing : stage = .failing ↔ loop.stage = .failing) :
    CtrlLoop.Continues calls { loop with stage, terminalResultSent := sent } loop :=
  ⟨rfl, rfl, hserving, hcompleting, hfailing, fun _ hmem => .inl hmem⟩

/-- A loop that is read from may be drained, or closed. -/
theorem loop_continues_serving {sent : Bool}
    (hbefore : loop.stage = .reading ∨ loop.stage = .draining)
    (hafter : stage = .reading ∨ stage = .draining ∨ stage = .closing) :
    CtrlLoop.Continues calls { loop with stage, terminalResultSent := sent } loop := by
  refine loop_continues_stage ?_ ?_ ?_
  · intro _
    rcases hbefore with hbefore | hbefore <;> simp [hbefore, LoopStage.Serving]
  · rcases hbefore with hbefore | hbefore <;> rcases hafter with rfl | rfl | rfl <;> simp [hbefore]
  · rcases hbefore with hbefore | hbefore <;> rcases hafter with rfl | rfl | rfl <;> simp [hbefore]

theorem disconnect_events : ∀ event ∈ (core.disconnect peer).2, ∃ conn, event = .closed conn := by
  unfold disconnect
  split <;> simp

theorem disconnect_calm :
    core.Calm calls (core.disconnect peer).1 (core.disconnect peer).2 := by
  refine disconnect_continues.calm ?_ ?_
  · intro event hmem
    obtain ⟨conn, rfl⟩ := disconnect_events event hmem
    trivial
  · intro conn msg hmem
    obtain ⟨other, hother⟩ := disconnect_events _ hmem
    cases hother

/-- A call of the user that queues one message of its own. -/
theorem send_calm {msg : ControlMsg} {told : List CoreEvent}
    {refused : SessionError → List CoreEvent} (hresult : result = match core.queueCtrl conn msg with
      | .ok next => (next, told)
      | .error error => (core, refused error)) (hmsg : msg.isPairResult = false)
    (htold : ∀ event ∈ told, event.Plain ∧ ∀ conn msg, event ≠ .sent conn msg)

    (hrefused : ∀ error, ∀ event ∈ refused error, event.Plain ∧ ∀ conn msg, event ≠ .sent conn msg) :
    core.Calm calls result.1 result.2 := by
  subst hresult
  split
  · next next hqueue =>
    exact (queue_ctrl_continues hqueue (.inl hmsg)).calm (fun event hmem => (htold event hmem).1)
      fun conn msg hmem => (htold _ hmem).2 conn msg rfl
  · next error _ =>
    exact (Continues.refl calls _ core).calm (fun event hmem => (hrefused error event hmem).1)
      fun conn msg hmem => (hrefused error _ hmem).2 conn msg rfl

theorem deny_consent_calm :
    core.Calm calls (core.denyConsent peer).1 (core.denyConsent peer).2 := by
  unfold denyConsent
  split
  · exact calm_rejected
  · split
    · exact send_calm rfl rfl (by simp [CoreEvent.Plain]) (by simp [CoreEvent.Plain])
    · exact calm_rejected

theorem cancel_wait_calm : core.Calm calls (core.cancelWait peer).1 (core.cancelWait peer).2 := by
  unfold cancelWait
  split
  · exact calm_rejected
  · split
    · exact send_calm rfl rfl (by simp [CoreEvent.Plain]) (by simp [CoreEvent.Plain])
    · exact calm_rejected

theorem submit_pair_code_calm {code : String} :
    core.Calm calls (core.submitPairCode peer code).1 (core.submitPairCode peer code).2 := by
  unfold submitPairCode
  split
  · exact calm_rejected
  · split
    · exact send_calm rfl rfl (by simp [CoreEvent.Plain]) (by simp [CoreEvent.Plain])
    · exact calm_rejected

theorem send_ctrl_calm {msg : ControlMsg} (h : core.sendCtrl peer msg = .ok next) :
    core.Calm [msg] next [] := by
  unfold sendCtrl at h
  split at h
  · cases h
  · exact (queue_ctrl_continues h (.inr (by simp))).calm (by simp) (by simp)

theorem consent_timeout_calm {timer : ConsentTimer} :
    core.Calm calls (core.consentTimeout timer).1 (core.consentTimeout timer).2 := by
  have hfired : ∀ lost, Continues calls lost core { core with timers := core.timers.erase timer } :=
    fun lost => continues_of_eq rfl rfl rfl rfl ⟨rfl, rfl, rfl⟩ fun _ h => .inl h
  unfold consentTimeout
  dsimp only
  split
  · exact (hfired _).calm (by simp) (by simp)
  · split
    · split
      · exact ((hfired _).trans (continues_set_session (by simp))).calm (by simp [CoreEvent.Plain])
          (by simp)
      · exact (hfired _).calm (by simp) (by simp)
    · exact (hfired _).calm (by simp) (by simp)

theorem forward_calm {ok : Bool} (hloop : core.loops conn = some loop)
    (hstage : loop.stage = .reading) (h : core.forward conn loop ok = some result) :
    core.Calm calls result.1 result.2 := by
  unfold forward at h
  split at h
  · cases h
  · next msg rest houtbox =>
    obtain rfl := Option.some.inj h
    have hrest : ∀ other ∈ rest, other ∈ loop.outbox := by
      intro other hmem
      rw [houtbox]
      exact List.mem_cons_of_mem _ hmem
    split
    · refine ⟨continues_set_loop hloop ?_, by simp [CoreEvent.Plain], ?_⟩
      · exact ⟨rfl, rfl, id, fun _ _ => Iff.rfl, Iff.rfl, fun other hmem => .inl (hrest other hmem)⟩
      · intro other given hmem
        obtain ⟨rfl, rfl⟩ : other = conn ∧ given = msg := by simpa using hmem
        exact ⟨loop, hloop, by simp [houtbox]⟩
    · refine (continues_set_loop hloop ?_).calm (by simp) (by simp)
      refine ⟨rfl, rfl, fun h => absurd h id, ?_, ?_, fun other hmem => .inl (hrest other hmem)⟩
      · simp [hstage]
      · simp [hstage]

theorem pairing_ended_calm {reason : String} (hloop : core.loops conn = some loop)
    (hbefore : loop.stage = .reading ∨ loop.stage = .draining)
    (hafter : stage = .reading ∨ stage = .draining ∨ stage = .closing) :
    core.Calm calls (core.pairingEnded conn loop stage reason).1
      (core.pairingEnded conn loop stage reason).2 := by
  unfold pairingEnded
  exact (continues_set_loop hloop (loop_continues_serving hbefore hafter)).calm
    (by simp [CoreEvent.Plain]) (by simp)

/-- A negative answer is reported, and the loop reads on. -/
theorem pair_result_calm {drained : Bool} (hloop : core.loops conn = some loop) :
    core.Calm calls (core.pairResult conn loop drained false).1
      (core.pairResult conn loop drained false).2 := by
  have hsame : CtrlLoop.Continues calls { loop with terminalResultSent := true } loop :=
    ⟨rfl, rfl, id, fun _ _ => Iff.rfl, Iff.rfl, fun _ hmem => .inl hmem⟩
  exact (continues_set_loop hloop hsame).calm (by simp [pairResult, CoreEvent.Plain])
    (by simp [pairResult])

section Local

variable {hashCode : String → Digest} {outcome : PairOutcome}

theorem reports_local : ∀ event ∈ outcome.reports peer, event.Local := by
  cases outcome <;> simp [PairOutcome.reports, CoreEvent.Local]

theorem open_handshake_local {dialed : Bool} {address : String} :
    ∀ event ∈ (core.openHandshake peer dialed address).2, event.Local := by
  unfold openHandshake
  dsimp only
  split
  · simp [CoreEvent.Local]
  · dsimp only
    split <;> simp [CoreEvent.Local]

theorem insert_session_local {handshake : Handshake} {name : String} :
    ∀ event ∈ (core.insertSession conn handshake name).2, event.Local := by
  unfold insertSession
  dsimp only
  split <;> simp [CoreEvent.Local]

theorem grant_consent_local {drawn : Nat} :
    ∀ event ∈ (core.grantConsent hashCode peer drawn).2, event.Local := by
  unfold grantConsent
  split
  · simp [CoreEvent.Local]
  · split <;> simp [CoreEvent.Local]

theorem complete_pairing_local {stage : CompleteStage} :
    ∀ event ∈ (core.completePairing peer conn stage).1.2, event.Local := by
  cases stage with
  | check => simp [completePairing]
  | take => cases hsession : core.sessions peer <;> simp [completePairing, hsession]
  | store name => simp [completePairing, CoreEvent.Local]

theorem leave_local {consent : ConsentState} {wasTrusted : Bool} :
    ∀ event ∈ (core.leave conn loop consent wasTrusted).2, event.Local := by
  unfold leave
  dsimp only
  split
  · dsimp only
    split <;> simp [CoreEvent.Local]
  · dsimp only
    split <;> split <;> simp [CoreEvent.Local]

end Local

section Move

variable {hashCode : String → Digest} {msg : ControlMsg} {code : String}

/-- The other names of the loop that goes on. -/
theorem set_loop_self (h : core.loops conn = some loop) : core.setLoop conn (some loop) = core := by
  unfold setLoop
  rw [← h, Function.update_eq_self]

/-- With the gate open the code is judged, and the verdict goes out with its answer. -/
theorem pair_code_submit_granted (hloop : core.loops conn = some loop)
    (hsession : core.sessions loop.peer = some session) (hgranted : session.Granted) :
    core.pairCodeSubmit hashCode conn loop code =
      ((core.setSession loop.peer (some (judgeCode hashCode session code).1)).setLoop conn
          (some (loop.judged (judgeCode hashCode session code).2)),
        .codeJudged loop.peer session.generation code (judgeCode hashCode session code).2 ::
          (judgeCode hashCode session code).2.replies conn) := by
  obtain ⟨pending, hconsent⟩ := hgranted
  have hthere : (core.setSession loop.peer
      (some (judgeCode hashCode session code).1)).loops conn = some loop := hloop
  simp only [pairCodeSubmit, hsession, hconsent]
  cases houtcome : (judgeCode hashCode session code).2 with
  | matched | failedOut => rfl
  | mismatch | notPairing => simp [CtrlLoop.judged, PairOutcome.replies, set_loop_self hthere]

/-- A submitted code is judged, or it is kept or ignored. -/
theorem pair_code_submit_move (hloop : core.loops conn = some loop)
    (hstage : loop.stage = .reading) :
    Move hashCode core (.deliver conn (.pairCodeSubmit code))
      ((core.pairCodeSubmit hashCode conn loop code).1,
        .received loop.peer conn (.pairCodeSubmit code) ::
          (core.pairCodeSubmit hashCode conn loop code).2) := by
  by_cases hjudged : ∃ session, core.sessions loop.peer = some session ∧ session.Granted
  · obtain ⟨session, hsession, hgranted⟩ := hjudged
    rw [pair_code_submit_granted hloop hsession hgranted]
    exact .judged hloop hstage hsession hgranted
  · refine .heard (.inl rfl) (by simp) hloop ?_
    unfold pairCodeSubmit
    split
    · exact calm_idle
    · next session hsession =>
      split
      · exact calm_idle
      · next deadline pendingCode hconsent =>
        refine (continues_set_session ?_).calm (by simp) (by simp)
        rintro newer ⟨⟩
        exact ⟨session, hsession, rfl, rfl, .inl rfl, by simp [Session.Granted, hconsent]⟩
      · next pendingCode hconsent =>
        exact absurd ⟨session, hsession, pendingCode, hconsent⟩ hjudged

/-- A delivered message. -/
theorem handle_msg_move (hloop : core.loops conn = some loop) (hstage : loop.stage = .reading) :
    Move hashCode core (.deliver conn msg) ((core.handleMsg hashCode conn loop msg).1,
      .received loop.peer conn msg :: (core.handleMsg hashCode conn loop msg).2) := by
  cases msg with
  | pairCodeSubmit code => exact pair_code_submit_move hloop hstage
  | pairResult ok =>
    cases ok with
    | true =>
      have hsilent : (core.pairResult conn loop false true).2 = [] := rfl
      simp only [handleMsg, hsilent]
      exact .confirmed (.inl rfl) hloop (.inl hstage)
    | false => exact .heard (.inl rfl) (by simp) hloop (pair_result_calm hloop)
  | consentGrant name =>
    refine .heard (.inl rfl) (by simp) hloop ?_
    exact (Continues.refl [] _ core).calm (by simp [handleMsg, CoreEvent.Plain])
      (by simp [handleMsg])
  | consentDeny | consentCancel =>
    refine .heard (.inl rfl) (by simp) hloop ?_
    exact pairing_ended_calm hloop (.inl hstage) (.inr (.inr rfl))
  | goodbye =>
    refine .heard (.inl rfl) (by simp) hloop ?_
    exact (continues_set_loop hloop (loop_continues_serving (.inl hstage) (.inr (.inr rfl)))).calm
      (by simp [handleMsg]) (by simp [handleMsg])
  | trustBroken =>
    refine .heard (.inl rfl) (by simp) hloop
      ⟨?_, by simp [handleMsg, CoreEvent.Plain], by simp [handleMsg]⟩
    have hclosing : CtrlLoop.Continues [] { loop with stage := .closing } loop :=
      loop_continues_serving (.inl hstage) (.inr (.inr rfl))
    refine Continues.trans (continues_set_loop hloop hclosing) ?_
    refine continues_of_eq rfl rfl rfl rfl ⟨rfl, rfl, rfl⟩ fun other htrusted => ?_
    by_cases hsame : other = loop.peer
    · exact .inr (by simp [hsame, handleMsg])
    · exact .inl (TrustStore.is_trusted_remove_of_ne hsame htrusted)
  | _ => exact .heard (.inl rfl) (by simp) hloop calm_idle

/-- A message found in the buffer after the end of the stream. -/
theorem drain_msg_move (hloop : core.loops conn = some loop) (hstage : loop.stage = .draining) :
    Move hashCode core (.drain conn msg) ((core.drainMsg conn loop msg).1,
      .received loop.peer conn msg :: (core.drainMsg conn loop msg).2) := by
  cases msg with
  | pairResult ok =>
    cases ok with
    | true =>
      have hsilent : (core.pairResult conn loop true true).2 = [] := rfl
      simp only [drainMsg, hsilent]
      exact .confirmed (.inr rfl) hloop (.inr hstage)
    | false => exact .heard (.inr rfl) (by simp) hloop (pair_result_calm hloop)
  | consentDeny | consentCancel =>
    refine .heard (.inr rfl) (by simp) hloop ?_
    exact pairing_ended_calm hloop (.inr hstage) (.inr (.inl rfl))
  | _ => exact .heard (.inr rfl) (by simp) hloop calm_idle

/-- The next critical section of a control loop. -/
theorem advance_loop_move (hloop : core.loops conn = some loop)
    (h : core.advanceLoop conn loop = some result) : Move hashCode core (.advance conn) result := by
  unfold advanceLoop at h
  split at h
  · cases h
  · cases h
  · next drained stage hstage =>
    obtain rfl := Option.some.inj h
    exact .completed hloop hstage
  · next hstage =>
    obtain rfl := Option.some.inj h
    exact .gaveUp hloop hstage
  · next hstage =>
    obtain rfl := Option.some.inj h
    refine .calm ((continues_set_loop hloop ?_).calm (by simp) (by simp))
    exact ⟨rfl, rfl, fun h => absurd h id, by simp [hstage], by simp [hstage], fun _ hmem => .inl hmem⟩
  · next consent wasTrusted hstage =>
    obtain rfl := Option.some.inj h
    exact .left hloop hstage

/-- The next critical section of a grant. -/
theorem advance_grant_move (hgrant : core.grants task = some grant) :
    Move hashCode core (.advanceGrant task) (core.advanceGrantTask hashCode task grant) := by
  have hended : ∀ lost, (∀ stage, grant.stage ≠ .completing stage) →
      Continues [] lost core (core.setGrant task none) :=
    fun lost hstage => continues_set_grant hgrant hstage (by simp)
  cases hstage : grant.stage with
  | sending =>
    simp only [advanceGrantTask, hstage]
    split
    · next queued hqueue =>
      have hthere : queued.grants task = some grant := by rw [queue_ctrl_grants hqueue, hgrant]
      refine .calm (Continues.calm ((queue_ctrl_continues hqueue (.inl rfl)).trans
        (continues_set_grant hthere (by simp [hstage]) ?_)) (by simp [CoreEvent.Plain]) (by simp))
      rintro later ⟨⟩
      exact ⟨rfl, rfl, by simp [hstage, GrantStage.Waiting], by simp [hstage]⟩
    · exact .calm ((hended _ (by simp [hstage])).calm (by simp [CoreEvent.Plain]) (by simp))
  | releasing =>
    have hover : Move hashCode core (.advanceGrant task) (core.setGrant task none, []) :=
      .calm ((hended _ (by simp [hstage])).calm (by simp) (by simp))
    simp only [advanceGrantTask, hstage]
    split
    · next session hsession =>
      split
      · next code hconsent =>
        have hthere : (core.setSession grant.peer (some { session with
            consent := .granted none })).grants task = some grant := hgrant
        refine .calm (Continues.calm (Continues.trans (continues_set_session ?_)
          (continues_set_grant hthere (by simp [hstage]) ?_)) (by simp) (by simp))
        · rintro newer ⟨⟩
          exact ⟨session, hsession, rfl, rfl, .inl rfl, by simp [Session.Granted, hconsent]⟩
        · rintro later ⟨⟩
          exact ⟨rfl, rfl, by simp [hstage, GrantStage.Waiting], by simp [hstage]⟩
      · exact hover
    · exact hover
  | judging code =>
    cases hsession : core.sessions grant.peer with
    | none =>
      simp only [advanceGrantTask, hstage, hsession]
      exact .calm ((hended _ (by simp [hstage])).calm (by simp) (by simp))
    | some session =>
      have hverdict : core.advanceGrantTask hashCode task grant =
          ((core.setSession grant.peer (some (judgeCode hashCode session code).1)).setGrant task
              (grant.judged (judgeCode hashCode session code).2),
            .stashJudged grant.peer session.generation code
              (judgeCode hashCode session code).2 ::
                (judgeCode hashCode session code).2.reports grant.peer) := by
        simp only [advanceGrantTask, hstage, hsession]
        cases houtcome : (judgeCode hashCode session code).2 <;> rfl
      rw [hverdict]
      exact .released hgrant hstage hsession
  | failing =>
    have hcooled : ∀ lost, Continues [] lost core (core.recordCooldown grant.peer) :=
      fun lost => continues_of_eq rfl rfl rfl rfl ⟨rfl, rfl, rfl⟩ fun _ h => .inl h
    have hthere : ((core.recordCooldown grant.peer).disconnect grant.peer).1.grants task =
        some grant := by rw [disconnect_grants]; exact hgrant
    simp only [advanceGrantTask, hstage]
    refine .calm (Continues.calm (((hcooled _).trans disconnect_continues).trans
      (continues_set_grant hthere (by simp [hstage]) (by simp))) ?_ ?_)
    · intro event hmem
      rcases List.mem_cons.mp hmem with rfl | hmem
      · simp [CoreEvent.Plain]
      · obtain ⟨conn, rfl⟩ := disconnect_events event hmem
        trivial
    · intro conn msg hmem
      obtain ⟨other, hother⟩ := disconnect_events _ (List.mem_of_ne_of_mem (by simp) hmem)
      cases hother
  | completing stage =>
    simp only [advanceGrantTask, hstage]
    exact .settled hgrant hstage

/-- A consent opens the gate of a session that waits for it. -/
theorem grant_consent_move {drawn : Nat} :
    Move hashCode core (.grantConsent peer drawn) (core.grantConsent hashCode peer drawn) := by
  cases hsession : core.sessions peer with
  | none =>
    simp only [grantConsent, hsession]
    exact .calm calm_rejected
  | some session =>
    cases hconsent : session.consent with
    | awaitingConsent deadline pendingCode => exact .granted hsession hconsent
    | granted _ | initiator =>
      simp only [grantConsent, hsession, hconsent]
      exact .calm calm_rejected

/-- A change of the stage of a loop that is read from is calm. -/
theorem set_stage_calm (hloop : core.loops conn = some loop)
    (hbefore : loop.stage = .reading ∨ loop.stage = .draining)
    (hafter : stage = .reading ∨ stage = .draining ∨ stage = .closing) :
    core.Calm calls (core.setLoop conn (some { loop with stage })) [] :=
  (continues_set_loop hloop (loop_continues_serving hbefore hafter)).calm (by simp) (by simp)

/-- A change that pairings do not depend on is calm. -/
theorem calm_of_eq (hsessions : next.sessions = core.sessions) (hloops : next.loops = core.loops)
    (hgrants : next.grants = core.grants) (hhandshakes : next.handshakes = core.handshakes)
    (hcounters : next.generationCounter = core.generationCounter ∧ next.nextConn = core.nextConn ∧
      next.nextGrant = core.nextGrant)
    (htrust : ∀ peer, next.trust.isTrusted peer = core.trust.isTrusted peer) :
    core.Calm calls next [] :=
  (continues_of_eq hsessions hloops hgrants hhandshakes hcounters fun peer h =>
    .inl ((htrust peer).trans h)).calm (by simp) (by simp)

end Move

/-- The sessions begin with nothing to keep together. -/
theorem wired_spawn (config : Config) (trust : TrustStore) : (spawn config trust).Wired := by
  refine ⟨?_, ?_, ?_, ?_⟩
  · intro conn handshake h
    cases h
  · intro peer session h
    cases h
  · intro conn loop h
    cases h
  · intro task grant h
    cases h

/-- Every step of the sessions is one of the moves. -/
theorem step_move (hashCode : String → Digest) {core : SessionCore} {input : CoreInput}
    (h : core.step hashCode input = some result) : Move hashCode core input result := by
  cases input with
  | accept peer =>
    obtain rfl := Option.some.inj h
    exact .opened (.inl rfl)
  | dial peer address =>
    obtain rfl := Option.some.inj h
    exact .opened (.inr rfl)
  | hello conn name =>
    simp only [step] at h
    split at h
    · next handshake hhandshake =>
      split at h
      · next hstage =>
        obtain rfl := Option.some.inj h
        exact .entered hhandshake hstage
      · cases h
    · cases h
  | handshakeFailed conn =>
    obtain rfl := Option.some.inj h
    exact .calm (continues_end_handshake.calm (by simp) (by simp))
  | announce conn =>
    simp only [step] at h
    split at h
    · obtain rfl := Option.some.inj h
      exact .calm (continues_end_handshake.calm (by simp [CoreEvent.Plain]) (by simp))
    · cases h
  | deliver conn msg =>
    obtain ⟨loop, hloop, hstage, hrun⟩ := at_stage_some h
    obtain rfl := Option.some.inj hrun
    exact handle_msg_move hloop hstage
  | malformed conn =>
    simp only [step] at h
    split at h
    · next loop hloop =>
      split at h
      · next hstage =>
        obtain rfl := Option.some.inj h
        exact .calm (set_stage_calm hloop hstage (.inr (.inr rfl)))
      · cases h
    · cases h
  | streamEnd conn =>
    obtain ⟨loop, hloop, hstage, hrun⟩ := at_stage_some h
    obtain rfl := Option.some.inj hrun
    exact .calm (set_stage_calm hloop (.inl hstage) (.inr (.inl rfl)))
  | drain conn msg =>
    obtain ⟨loop, hloop, hstage, hrun⟩ := at_stage_some h
    obtain rfl := Option.some.inj hrun
    exact drain_msg_move hloop hstage
  | drainEnd conn =>
    obtain ⟨loop, hloop, hstage, hrun⟩ := at_stage_some h
    obtain rfl := Option.some.inj hrun
    exact .calm (set_stage_calm hloop (.inr hstage) (.inr (.inr rfl)))
  | forward conn ok =>
    obtain ⟨loop, hloop, hstage, hrun⟩ := at_stage_some h
    exact .calm (forward_calm hloop hstage hrun)
  | advance conn =>
    obtain ⟨loop, hloop, hrun⟩ := Option.bind_eq_some_iff.mp h
    exact advance_loop_move hloop hrun
  | consentTimeout timer =>
    simp only [step] at h
    split at h
    · obtain rfl := Option.some.inj h
      exact .calm consent_timeout_calm
    · cases h
  | grantConsent peer drawn =>
    obtain rfl := Option.some.inj h
    exact grant_consent_move
  | advanceGrant task =>
    obtain ⟨grant, hgrant, rfl⟩ := Option.map_eq_some_iff.mp h
    exact advance_grant_move hgrant
  | denyConsent peer =>
    obtain rfl := Option.some.inj h
    exact .calm deny_consent_calm
  | cancelWait peer =>
    obtain rfl := Option.some.inj h
    exact .calm cancel_wait_calm
  | submitPairCode peer code =>
    obtain rfl := Option.some.inj h
    exact .calm submit_pair_code_calm
  | sendCtrl peer msg =>
    simp only [step] at h
    split at h
    · next next hsent =>
      obtain rfl := Option.some.inj h
      exact .calm (send_ctrl_calm hsent)
    · obtain rfl := Option.some.inj h
      exact .calm calm_rejected
  | disconnect peer =>
    obtain rfl := Option.some.inj h
    exact .calm disconnect_calm
  | shutdownAll =>
    obtain rfl := Option.some.inj h
    exact .calm (shutdown_all_continues.calm (by simp) (by simp))
  | removeTrust peer =>
    obtain rfl := Option.some.inj h
    refine .calm ⟨?_, by simp [CoreEvent.Plain], by simp⟩
    refine continues_of_eq rfl rfl rfl rfl ⟨rfl, rfl, rfl⟩ fun other htrusted => ?_
    by_cases hsame : other = peer
    · exact .inr (by simp [hsame])
    · exact .inl (TrustStore.is_trusted_remove_of_ne hsame htrusted)
  | setPerms peer perms =>
    obtain rfl := Option.some.inj h
    exact .calm (calm_of_eq rfl rfl rfl rfl ⟨rfl, rfl, rfl⟩ fun _ => TrustStore.is_trusted_set_perms)
  | saveSettings config | tick secs =>
    obtain rfl := Option.some.inj h
    exact .calm (calm_of_eq rfl rfl rfl rfl ⟨rfl, rfl, rfl⟩ fun _ => rfl)

/-- Every step keeps the table and the loops together. -/
theorem step_wired {hashCode : String → Digest} {core : SessionCore} {input : CoreInput}
    (hwired : core.Wired) (h : core.step hashCode input = some result) : result.1.Wired := by
  by_cases hgrant : ∃ task, input = .advanceGrant task
  · obtain ⟨task, rfl⟩ := hgrant
    obtain ⟨grant, hgrant, rfl⟩ := Option.map_eq_some_iff.mp h
    have hsteady : Steady (fun _ => True) core (core.advanceGrantTask hashCode task grant) :=
      advance_grant_steady hashCode hgrant fun _ _ _ => trivial
    exact hsteady.stays.wired hwired
  · have hown : core.OwnGrant input := by
      cases input with
      | advanceGrant task => exact absurd ⟨task, rfl⟩ hgrant
      | _ => trivial
    rcases step_turn hashCode hown h with
      ⟨conn, handshake, name, rfl, hhandshake, hstage, rfl⟩ |
        ⟨conn, loop, consent, wasTrusted, rfl, hloop, rfl⟩ | hsteady
    · exact insert_session_wired hhandshake hstage hwired
    · exact leave_wired hwired hloop
    · exact hsteady.stays.wired hwired

end SessionCore

end LocalTrans
