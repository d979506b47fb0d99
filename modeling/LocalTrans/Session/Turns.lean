import LocalTrans.Session.Control

/-!
# What a step does to the session table

Every step of the sessions enters a session (`insertSession`), ends a control loop (`leave`), or
is `Steady`: it neither enters a session nor ends a loop, and drops at most the sessions of the
peers it may end. `step_turn` says so once for all inputs of `SessionCore.step`, `Wired` is the
invariant of the table and the loops, and `step_spares` says which sessions a step leaves alone.
-/

namespace LocalTrans

variable {result : CoreStep} {input : CoreInput}

namespace SessionCore

/-- Whether a step may end a session: the end of a control loop that of its connection, a consent
timer that of its generation, a grant that of its connection. A new connection replaces the
session of its peer, and the user ends any. -/
def MayEnd (core : SessionCore) (peer : Fingerprint) (session : Session) : CoreInput → Prop
  | .advance conn => session.connId = conn
  | .consentTimeout timer => timer.peer = peer ∧ session.generation = timer.generation
  | .advanceGrant task => ∃ grant ∈ core.grants task, session.connId = grant.conn
  | .hello conn _ => ∃ handshake ∈ core.handshakes conn, handshake.peer = peer
  | .disconnect other => other = peer
  | .shutdownAll => True
  | _ => False

/-- A session of the same connection and generation is in the table. -/
def Has (core : SessionCore) (peer : Fingerprint) (session : Session) : Prop :=
  ∃ found, core.sessions peer = some found ∧ found.connId = session.connId ∧
    found.generation = session.generation

/-- The handshake of the connection has come to its session. -/
def Born (core : SessionCore) (conn : ConnId) : Prop :=
  conn < core.nextConn ∧ ∀ handshake, core.handshakes conn = some handshake →
    handshake.stage ≠ .awaitingHello

/-- Every session in the table has a running control loop, and connections are numbered in order. -/
structure Wired (core : SessionCore) : Prop where
  handshakes : ∀ conn handshake, core.handshakes conn = some handshake → conn < core.nextConn
  sessions : ∀ peer session, core.sessions peer = some session →
    ∃ loop, core.loops session.connId = some loop ∧ loop.peer = peer
  loops : ∀ conn loop, core.loops conn = some loop → core.Born conn
  grants : ∀ task grant, core.grants task = some grant → core.Born grant.conn

/-- No session is entered between the states, no control loop begins or ends, and only the peers in
`ends` lose their session. -/
structure Stays (ends : Fingerprint → Prop) (core next : SessionCore) : Prop where
  sessions : ∀ peer session, next.sessions peer = some session → core.Has peer session
  kept : ∀ peer session, core.sessions peer = some session → ¬ ends peer → next.Has peer session
  began : ∀ conn loop, next.loops conn = some loop →
    ∃ before, core.loops conn = some before ∧ before.peer = loop.peer
  runs : ∀ conn loop, core.loops conn = some loop →
    ∃ after, next.loops conn = some after ∧ after.peer = loop.peer
  nextConn : core.nextConn ≤ next.nextConn
  handshakes : ∀ conn handshake, next.handshakes conn = some handshake →
    core.handshakes conn = some handshake ∨ core.nextConn ≤ conn ∧ conn < next.nextConn
  grants : ∀ task grant, next.grants task = some grant →
    (∃ before, core.grants task = some before ∧ before.conn = grant.conn) ∨
      ∃ peer session, core.sessions peer = some session ∧ session.connId = grant.conn

/-- The reports of a step: no end of a session, `SessionUp` only for connections that have come to
one, and only connections closed that are new or of a peer in `ends`. -/
structure Reports (ends : Fingerprint → Prop) (core : SessionCore) (events : List CoreEvent) :
    Prop where
  down : ∀ peer, .ui (.sessionDown peer) ∉ events
  up : ∀ peer name conn, .ui (.sessionUp peer name conn) ∈ events →
    (core.loops conn).isSome = true ∨
      (∃ task grant, core.grants task = some grant ∧ grant.conn = conn) ∨
      ∃ handshake, core.handshakes conn = some handshake ∧ handshake.stage ≠ .awaitingHello
  closed : ∀ conn, .closed conn ∈ events → core.nextConn ≤ conn ∨
    ∃ peer session, ends peer ∧ core.sessions peer = some session ∧ session.connId = conn

/-- A step that neither enters a session nor ends a control loop. -/
structure Steady (ends : Fingerprint → Prop) (core : SessionCore) (result : CoreStep) : Prop where
  stays : Stays ends core result.1
  reports : Reports ends core result.2

variable {ends : Fingerprint → Prop} {core mid next : SessionCore} {peer : Fingerprint}
  {conn : ConnId} {task : Nat} {loop after : CtrlLoop} {session newer : Session}
  {events : List CoreEvent}

theorem has_self (h : core.sessions peer = some session) : core.Has peer session :=
  ⟨session, h, rfl, rfl⟩

theorem Has.trans {before : Session} (h : core.Has peer session)
    (hconn : session.connId = before.connId) (hgeneration : session.generation = before.generation) :
    core.Has peer before := by
  obtain ⟨found, hfound, hsame, hsame'⟩ := h
  exact ⟨found, hfound, hsame.trans hconn, hsame'.trans hgeneration⟩

/-- Where what matters is unchanged, nothing is entered and nothing ends. -/
theorem stays_of_eq (hsessions : next.sessions = core.sessions) (hloops : next.loops = core.loops)
    (hconn : next.nextConn = core.nextConn) (hhandshakes : next.handshakes = core.handshakes)
    (hgrants : next.grants = core.grants) : Stays ends core next := by
  refine ⟨?_, ?_, ?_, ?_, Nat.le_of_eq hconn.symm, ?_, ?_⟩
  · intro peer session h
    exact has_self (hsessions ▸ h)
  · intro peer session h _
    exact has_self (hsessions.symm ▸ h)
  · intro conn loop h
    exact ⟨loop, hloops ▸ h, rfl⟩
  · intro conn loop h
    exact ⟨loop, hloops.symm ▸ h, rfl⟩
  · intro conn handshake h
    exact .inl (hhandshakes ▸ h)
  · intro task grant h
    exact .inl ⟨grant, hgrants ▸ h, rfl⟩

theorem Stays.refl (ends : Fingerprint → Prop) (core : SessionCore) : Stays ends core core :=
  stays_of_eq rfl rfl rfl rfl rfl

theorem Stays.trans (hfirst : Stays ends core mid) (hsecond : Stays ends mid next) :
    Stays ends core next := by
  refine ⟨?_, ?_, ?_, ?_, Nat.le_trans hfirst.nextConn hsecond.nextConn, ?_, ?_⟩
  · intro peer session h
    obtain ⟨found, hfound, hconn, hgeneration⟩ := hsecond.sessions peer session h
    exact (hfirst.sessions peer found hfound).trans hconn hgeneration
  · intro peer session h hends
    obtain ⟨found, hfound, hconn, hgeneration⟩ := hfirst.kept peer session h hends
    exact (hsecond.kept peer found hfound hends).trans hconn hgeneration
  · intro conn loop h
    obtain ⟨between, hbetween, hpeer⟩ := hsecond.began conn loop h
    obtain ⟨before, hbefore, hpeer'⟩ := hfirst.began conn between hbetween
    exact ⟨before, hbefore, hpeer'.trans hpeer⟩
  · intro conn loop h
    obtain ⟨between, hbetween, hpeer⟩ := hfirst.runs conn loop h
    obtain ⟨after, hafter, hpeer'⟩ := hsecond.runs conn between hbetween
    exact ⟨after, hafter, hpeer'.trans hpeer⟩
  · intro conn handshake h
    rcases hsecond.handshakes conn handshake h with h | ⟨hlow, hhigh⟩
    · rcases hfirst.handshakes conn handshake h with h | ⟨hlow, hhigh⟩
      · exact .inl h
      · exact .inr ⟨hlow, Nat.lt_of_lt_of_le hhigh hsecond.nextConn⟩
    · exact .inr ⟨Nat.le_trans hfirst.nextConn hlow, hhigh⟩
  · intro task grant h
    rcases hsecond.grants task grant h with ⟨between, hbetween, hconn⟩ | ⟨peer, session, h, hconn⟩
    · rcases hfirst.grants task between hbetween with ⟨before, hbefore, hconn'⟩ |
        ⟨peer, session, h, hconn'⟩
      · exact .inl ⟨before, hbefore, hconn'.trans hconn⟩
      · exact .inr ⟨peer, session, h, hconn'.trans hconn⟩
    · obtain ⟨before, hbefore, hsame, -⟩ := hfirst.sessions peer session h
      exact .inr ⟨peer, before, hbefore, hsame.trans hconn⟩

/-- A change that leaves the session table alone, and what hangs on it. -/
theorem stays_of_sessions (hsessions : next.sessions = core.sessions)
    (hbegan : ∀ conn loop, next.loops conn = some loop →
      ∃ before, core.loops conn = some before ∧ before.peer = loop.peer)
    (hruns : ∀ conn loop, core.loops conn = some loop →
      ∃ after, next.loops conn = some after ∧ after.peer = loop.peer)
    (hconn : core.nextConn ≤ next.nextConn)
    (hhandshakes : ∀ conn handshake, next.handshakes conn = some handshake →
      core.handshakes conn = some handshake ∨ core.nextConn ≤ conn ∧ conn < next.nextConn)
    (hgrants : next.grants = core.grants) : Stays ends core next :=
  ⟨fun _ _ h => has_self (hsessions ▸ h), fun _ _ h _ => has_self (hsessions.symm ▸ h), hbegan, hruns,
    hconn, hhandshakes, fun _ grant h => .inl ⟨grant, hgrants ▸ h, rfl⟩⟩

/-- A control loop goes on. -/
theorem stays_set_loop (h : core.loops conn = some loop) (hpeer : after.peer = loop.peer) :
    Stays ends core (core.setLoop conn (some after)) := by
  refine stays_of_sessions rfl ?_ ?_ (Nat.le_refl _) (fun _ _ h => .inl h) rfl
  · intro other found hfound
    by_cases hsame : other = conn
    · subst hsame
      obtain rfl : after = found := by simpa [setLoop] using hfound
      exact ⟨loop, h, hpeer.symm⟩
    · exact ⟨found, by simpa [setLoop, Function.update_of_ne hsame] using hfound, rfl⟩
  · intro other found hfound
    by_cases hsame : other = conn
    · subst hsame
      obtain rfl : loop = found := Option.some.inj (h.symm.trans hfound)
      exact ⟨after, by simp [setLoop], hpeer⟩
    · exact ⟨found, by simpa [setLoop, Function.update_of_ne hsame] using hfound, rfl⟩

/-- A session changes, and stays the same connection's. -/
theorem stays_set_session (h : core.sessions peer = some session)
    (hconn : newer.connId = session.connId) (hgeneration : newer.generation = session.generation) :
    Stays ends core (core.setSession peer (some newer)) := by
  refine ⟨?_, ?_, fun _ loop h => ⟨loop, h, rfl⟩, fun _ loop h => ⟨loop, h, rfl⟩, Nat.le_refl _,
    fun _ _ h => .inl h, fun _ grant h => .inl ⟨grant, h, rfl⟩⟩
  · intro other found hfound
    by_cases hsame : other = peer
    · subst hsame
      obtain rfl : newer = found := by simpa [setSession] using hfound
      exact ⟨session, h, hconn.symm, hgeneration.symm⟩
    · exact has_self (by simpa [setSession, Function.update_of_ne hsame] using hfound)
  · intro other found hfound _
    by_cases hsame : other = peer
    · subst hsame
      obtain rfl : session = found := Option.some.inj (h.symm.trans hfound)
      exact ⟨newer, by simp [setSession], hconn, hgeneration⟩
    · exact has_self (by simpa [setSession, Function.update_of_ne hsame] using hfound)

/-- A session leaves the table. -/
theorem stays_drop_session (h : ends peer) : Stays ends core (core.setSession peer none) := by
  refine ⟨?_, ?_, fun _ loop h => ⟨loop, h, rfl⟩, fun _ loop h => ⟨loop, h, rfl⟩, Nat.le_refl _,
    fun _ _ h => .inl h, fun _ grant h => .inl ⟨grant, h, rfl⟩⟩
  · intro other found hfound
    by_cases hsame : other = peer
    · subst hsame
      simp [setSession] at hfound
    · exact has_self (by simpa [setSession, Function.update_of_ne hsame] using hfound)
  · intro other found hfound hends
    have hsame : other ≠ peer := fun hsame => hends (hsame ▸ h)
    exact has_self (by simpa [setSession, Function.update_of_ne hsame] using hfound)

/-- A grant goes on or ends, or a new one begins on a session of the table. -/
theorem stays_set_grant {grant : Option GrantTask}
    (h : ∀ new, grant = some new → (∃ before, core.grants task = some before ∧
        before.conn = new.conn) ∨
      ∃ peer session, core.sessions peer = some session ∧ session.connId = new.conn) :
    Stays ends core (core.setGrant task grant) := by
  refine ⟨fun _ _ => has_self, fun _ _ h _ => has_self h, fun _ loop h => ⟨loop, h, rfl⟩,
    fun _ loop h => ⟨loop, h, rfl⟩, Nat.le_refl _, fun _ _ h => .inl h, ?_⟩
  intro other found hfound
  by_cases hsame : other = task
  · subst hsame
    exact h found (by simpa [setGrant] using hfound)
  · exact .inl ⟨found, by simpa [setGrant, Function.update_of_ne hsame] using hfound, rfl⟩

/-- A handshake ends. -/
theorem stays_end_handshake : Stays ends core (core.setHandshake conn none) := by
  refine stays_of_sessions rfl (fun _ loop h => ⟨loop, h, rfl⟩) (fun _ loop h => ⟨loop, h, rfl⟩)
    (Nat.le_refl _) ?_ rfl
  intro other found hfound
  by_cases hsame : other = conn
  · subst hsame
    simp [setHandshake] at hfound
  · exact .inl (by simpa [setHandshake, Function.update_of_ne hsame] using hfound)

variable {msg : ControlMsg}

theorem queue_ctrl_stays (h : core.queueCtrl conn msg = .ok next) : Stays ends core next := by
  unfold queueCtrl at h
  split at h
  · cases h
  · next loop hloop =>
    split at h
    · obtain rfl := Except.ok.inj h
      exact stays_set_loop hloop rfl
    · cases h

/-- An event that is no report on a session and closes no connection. -/
def Silent : CoreEvent → Prop
  | .ui (.sessionUp ..) | .ui (.sessionDown _) | .closed _ => False
  | _ => True

/-- A step that leaves all this alone and reports nothing of it. -/
theorem Stays.steady (h : Stays ends core next) (hevents : ∀ event ∈ events, Silent event) :
    Steady ends core (next, events) :=
  ⟨h, fun _ hmem => hevents _ hmem, fun _ _ _ hmem => absurd (hevents _ hmem) id,
    fun _ hmem => absurd (hevents _ hmem) id⟩

theorem open_handshake_steady {dialed : Bool} {address : String} :
    Steady ends core (core.openHandshake peer dialed address) := by
  unfold openHandshake
  split
  · refine ⟨?_, by simp, by simp, ?_⟩
    · exact stays_of_sessions rfl (fun _ loop h => ⟨loop, h, rfl⟩) (fun _ loop h => ⟨loop, h, rfl⟩)
        (Nat.le_succ _) (fun _ _ h => .inl h) rfl
    · intro conn hmem
      -- The refused connection is the new one.
      obtain rfl : conn = core.nextConn := by simpa using hmem
      exact .inl (Nat.le_refl _)
  · refine Stays.steady ?_ ?_
    · refine stays_of_sessions rfl (fun _ loop h => ⟨loop, h, rfl⟩)
        (fun _ loop h => ⟨loop, h, rfl⟩) (Nat.le_succ _) ?_ rfl
      intro conn handshake h
      by_cases hsame : conn = core.nextConn
      · exact .inr ⟨Nat.le_of_eq hsame.symm, hsame ▸ Nat.lt_succ_self _⟩
      · exact .inl (by simpa [setHandshake, Function.update_of_ne hsame] using h)
    · intro event hmem
      split at hmem <;> simp_all [Silent]

/-- A message that may not fit changes nothing else. -/
theorem queue_best_effort_stays (core : SessionCore) (conn : ConnId) (msg : ControlMsg) :
    Stays ends core ((core.queueCtrl conn msg).toOption.getD core) := by
  cases hqueue : core.queueCtrl conn msg with
  | ok next => exact queue_ctrl_stays hqueue
  | error error => exact Stays.refl ends core

theorem disconnect_steady (hends : ∀ session, core.sessions peer = some session → ends peer) :
    Steady ends core (core.disconnect peer) := by
  unfold disconnect
  split
  · exact (Stays.refl ends core).steady (by simp)
  · next session hsession =>
    refine ⟨?_, by simp, by simp, ?_⟩
    · have hdrop : Stays ends core (core.setSession peer none) :=
        stays_drop_session (hends session hsession)
      exact hdrop.trans (queue_best_effort_stays _ _ _)
    · intro conn hmem
      obtain rfl : conn = session.connId := by simpa using hmem
      exact .inr ⟨peer, session, hends session hsession, hsession, rfl⟩

theorem shutdown_all_steady
    (hends : ∀ peer session, core.sessions peer = some session → ends peer) :
    Steady ends core (core.shutdownAll, []) := by
  refine Stays.steady ⟨?_, ?_, ?_, ?_, Nat.le_refl _, fun _ _ h => .inl h,
    fun _ grant h => .inl ⟨grant, h, rfl⟩⟩ (by simp)
  · intro peer session h
    cases h
  · intro peer session hsession h
    exact absurd (hends peer session hsession) h
  · intro conn loop h
    obtain ⟨before, hbefore, rfl⟩ := Option.map_eq_some_iff.mp h
    exact ⟨before, hbefore, by split <;> rfl⟩
  · intro conn loop h
    refine ⟨_, Option.map_eq_some_iff.mpr ⟨loop, h, rfl⟩, ?_⟩
    split <;> rfl

/-- `complete_pairing` reports the connection it works on. -/
theorem complete_pairing_steady {stage : CompleteStage}
    (hconn : (core.loops conn).isSome = true ∨
      ∃ task grant, core.grants task = some grant ∧ grant.conn = conn) :
    Steady ends core (core.completePairing peer conn stage).1 := by
  cases stage with
  | check => exact (Stays.refl ends core).steady (by simp)
  | take =>
    cases hsession : core.sessions peer with
    | none =>
      simp only [completePairing, hsession]
      exact (Stays.refl ends core).steady (by simp)
    | some session =>
      simp only [completePairing, hsession]
      exact Stays.steady (stays_set_session hsession (by rfl) (by rfl)) (by simp)
  | store name =>
    refine ⟨stays_of_eq rfl rfl rfl rfl rfl, by simp [completePairing], ?_,
      by simp [completePairing]⟩
    intro other given found hmem
    obtain ⟨-, -, rfl⟩ : other = peer ∧ given = name ∧ found = conn := by
      simpa [completePairing] using hmem
    exact hconn.imp_right .inl

/-- `judge_code` keeps the connection of the session. -/
theorem judge_code_kept (hashCode : String → Digest) (session : Session) (code : String) :
    (judgeCode hashCode session code).1.connId = session.connId ∧
      (judgeCode hashCode session code).1.generation = session.generation := by
  unfold judgeCode
  split <;> exact ⟨rfl, rfl⟩

theorem judged_stays (hashCode : String → Digest) (code : String)
    (h : core.sessions peer = some session) :
    Stays ends core (core.setSession peer (some (judgeCode hashCode session code).1)) :=
  stays_set_session h (judge_code_kept hashCode session code).1
    (judge_code_kept hashCode session code).2

theorem pairing_ended_steady {stage : LoopStage} {reason : String}
    (hloop : core.loops conn = some loop) :
    Steady ends core (core.pairingEnded conn loop stage reason) := by
  unfold pairingEnded
  exact Stays.steady (stays_set_loop hloop (by rfl)) (by simp [Silent])

theorem pair_result_steady {drained ok : Bool} (hloop : core.loops conn = some loop) :
    Steady ends core (core.pairResult conn loop drained ok) := by
  unfold pairResult
  split
  · exact Stays.steady (stays_set_loop hloop (by rfl)) (by simp)
  · exact Stays.steady (stays_set_loop hloop (by rfl)) (by simp [Silent])

theorem pair_code_submit_steady (hashCode : String → Digest) {code : String}
    (hloop : core.loops conn = some loop) :
    Steady ends core (core.pairCodeSubmit hashCode conn loop code) := by
  unfold pairCodeSubmit
  split
  · exact (Stays.refl ends core).steady (by simp)
  · next session hsession =>
    split
    · exact (Stays.refl ends core).steady (by simp)
    · exact Stays.steady (stays_set_session hsession (by rfl) (by rfl)) (by simp)
    · have hjudged : Stays ends core
          (core.setSession loop.peer (some (judgeCode hashCode session code).1)) :=
        judged_stays hashCode code hsession
      have hthere : (core.setSession loop.peer
          (some (judgeCode hashCode session code).1)).loops conn = some loop := hloop
      dsimp only
      split
      · exact Stays.steady (hjudged.trans (stays_set_loop hthere (by rfl))) (by simp [Silent])
      · exact Stays.steady (hjudged.trans (stays_set_loop hthere (by rfl))) (by simp [Silent])
      · exact hjudged.steady (by simp [Silent])
      · exact hjudged.steady (by simp [Silent])

theorem handle_msg_steady (hashCode : String → Digest) (hloop : core.loops conn = some loop)
    (msg : ControlMsg) : Steady ends core (core.handleMsg hashCode conn loop msg) := by
  unfold handleMsg
  split
  · exact pair_code_submit_steady hashCode hloop
  · exact pair_result_steady hloop
  · exact (Stays.refl ends core).steady (by simp [Silent])
  · exact pairing_ended_steady hloop
  · exact pairing_ended_steady hloop
  · exact Stays.steady (stays_set_loop hloop (by rfl)) (by simp)
  · have hclosing : Stays ends core (core.setLoop conn (some { loop with stage := .closing })) :=
      stays_set_loop hloop rfl
    exact Stays.steady (hclosing.trans (stays_of_eq rfl rfl rfl rfl rfl)) (by simp [Silent])
  · exact (Stays.refl ends core).steady (by simp)

theorem drain_msg_steady (hloop : core.loops conn = some loop) (msg : ControlMsg) :
    Steady ends core (core.drainMsg conn loop msg) := by
  unfold drainMsg
  split
  · exact pair_result_steady hloop
  · exact pairing_ended_steady hloop
  · exact pairing_ended_steady hloop
  · exact (Stays.refl ends core).steady (by simp)

/-- A received message is noted before what it does. -/
theorem Steady.cons {event : CoreEvent} (h : Steady ends core result) (hquiet : Silent event) :
    Steady ends core (result.1, event :: result.2) := by
  refine ⟨h.stays, ?_, ?_, ?_⟩
  · intro peer hmem
    rcases List.mem_cons.mp hmem with rfl | hmem
    · exact hquiet
    · exact h.reports.down peer hmem
  · intro peer name conn hmem
    rcases List.mem_cons.mp hmem with rfl | hmem
    · exact absurd hquiet id
    · exact h.reports.up peer name conn hmem
  · intro conn hmem
    rcases List.mem_cons.mp hmem with rfl | hmem
    · exact absurd hquiet id
    · exact h.reports.closed conn hmem

/-- A control loop that is not leaving. -/
theorem advance_loop_steady (hloop : core.loops conn = some loop)
    (hstage : ∀ consent wasTrusted, loop.stage ≠ .leaving consent wasTrusted)
    (h : core.advanceLoop conn loop = some result) : Steady ends core result := by
  unfold advanceLoop at h
  split at h
  · cases h
  · cases h
  · next drained stage hcompleting =>
    obtain rfl := Option.some.inj h
    have hdone : Steady ends core (core.completePairing loop.peer conn stage).1 :=
      complete_pairing_steady (.inl (by simp [hloop]))
    have hthere : (core.completePairing loop.peer conn stage).1.1.loops conn = some loop := by
      rw [(complete_pairing_kept core loop.peer conn stage).1, hloop]
    refine ⟨hdone.stays.trans (stays_set_loop hthere ?_), hdone.reports⟩
    rfl
  · obtain rfl := Option.some.inj h
    have hcooled : Stays ends core (core.recordCooldown loop.peer) :=
      stays_of_eq rfl rfl rfl rfl rfl
    have hthere : (core.recordCooldown loop.peer).loops conn = some loop := hloop
    exact Stays.steady (hcooled.trans (stays_set_loop hthere (by rfl))) (by simp [Silent])
  · obtain rfl := Option.some.inj h
    exact Stays.steady (stays_set_loop hloop (by rfl)) (by simp)
  · next consent wasTrusted hleaving => exact absurd hleaving (hstage consent wasTrusted)

theorem grant_consent_steady (hashCode : String → Digest) {drawn : Nat} :
    Steady ends core (core.grantConsent hashCode peer drawn) := by
  unfold grantConsent
  split
  · exact (Stays.refl ends core).steady (by simp [Silent])
  · next session hsession =>
    split
    · next deadline pendingCode hconsent =>
      refine Stays.steady ?_ (by simp [Silent])
      have hgranted : Stays ends core (core.setSession peer (some { session with
          pairing := some (.new (hashCode (generatePairCode drawn)))
          consent := .granted pendingCode })) :=
        stays_set_session hsession rfl rfl
      -- The grant works on the connection of the session it was given for.
      refine hgranted.trans (Stays.trans (stays_set_grant ?_) (stays_of_eq rfl rfl rfl rfl rfl))
      intro new hnew
      refine .inr ⟨peer, _, Function.update_self _ _ _, ?_⟩
      rw [← Option.some.inj hnew]
    · exact (Stays.refl ends core).steady (by simp [Silent])

theorem stays_end_grant : Stays ends core (core.setGrant task none) :=
  stays_set_grant (by simp)

/-- A grant that goes on stays the same connection's. -/
theorem stays_go_grant {grant new : GrantTask} (h : core.grants task = some grant)
    (hconn : new.conn = grant.conn) : Stays ends core (core.setGrant task (some new)) := by
  refine stays_set_grant ?_
  intro found hfound
  obtain rfl := Option.some.inj hfound
  exact .inl ⟨grant, h, hconn.symm⟩

theorem queue_ctrl_grants (h : core.queueCtrl conn msg = .ok next) : next.grants = core.grants := by
  unfold queueCtrl at h
  split at h
  · cases h
  · split at h
    · rw [← Except.ok.inj h]
      rfl
    · cases h

theorem advance_grant_steady (hashCode : String → Digest) {grant : GrantTask}
    (h : core.grants task = some grant) (hends : grant.stage = .failing →
      ∀ session, core.sessions grant.peer = some session → ends grant.peer) :
    Steady ends core (core.advanceGrantTask hashCode task grant) := by
  cases hstage : grant.stage with simp only [advanceGrantTask, hstage]
  | sending =>
    split
    · next queued hqueue =>
      have hthere : queued.grants task = some grant := by rw [queue_ctrl_grants hqueue, h]
      exact Stays.steady ((queue_ctrl_stays hqueue).trans (stays_go_grant hthere (by rfl)))
        (by simp [Silent])
    · exact stays_end_grant.steady (by simp [Silent])
  | releasing =>
    split
    · next session hsession =>
      split
      · next code hconsent =>
        have htaken : Stays ends core
            (core.setSession grant.peer (some { session with consent := .granted none })) :=
          stays_set_session hsession rfl rfl
        have hthere : (core.setSession grant.peer
            (some { session with consent := .granted none })).grants task = some grant := h
        exact Stays.steady (htaken.trans (stays_go_grant hthere (by rfl))) (by simp)
      · exact stays_end_grant.steady (by simp)
    · exact stays_end_grant.steady (by simp)
  | judging code =>
    split
    · exact stays_end_grant.steady (by simp)
    · next session hsession =>
      have hjudged : Stays ends core
          (core.setSession grant.peer (some (judgeCode hashCode session code).1)) :=
        judged_stays hashCode code hsession
      have hthere : (core.setSession grant.peer
          (some (judgeCode hashCode session code).1)).grants task = some grant := h
      split
      · exact Stays.steady (hjudged.trans (stays_go_grant hthere (by rfl))) (by simp [Silent])
      · exact Stays.steady (hjudged.trans (stays_go_grant hthere (by rfl))) (by simp [Silent])
      · exact Stays.steady (hjudged.trans stays_end_grant) (by simp [Silent])
      · exact Stays.steady (hjudged.trans stays_end_grant) (by simp [Silent])
  | failing =>
    have hcooled : Stays ends core (core.recordCooldown grant.peer) :=
      stays_of_eq rfl rfl rfl rfl rfl
    -- The session goes whatever connection it is on.
    have hended : Steady ends (core.recordCooldown grant.peer)
        ((core.recordCooldown grant.peer).disconnect grant.peer) :=
      disconnect_steady (hends hstage)
    have hreports : Reports ends core
        ((core.recordCooldown grant.peer).disconnect grant.peer).2 :=
      ⟨hended.reports.down, hended.reports.up, hended.reports.closed⟩
    have hfailed : Steady ends core
        (((core.recordCooldown grant.peer).disconnect grant.peer).1.setGrant task none,
          ((core.recordCooldown grant.peer).disconnect grant.peer).2) :=
      ⟨(hcooled.trans hended.stays).trans stays_end_grant, hreports⟩
    exact hfailed.cons (by simp [Silent])
  | completing stage =>
    have hdone : Steady ends core (core.completePairing grant.peer grant.conn stage).1 :=
      complete_pairing_steady (.inr ⟨task, grant, h, rfl⟩)
    have hthere : (core.completePairing grant.peer grant.conn stage).1.1.grants task =
        some grant := by
      rw [(complete_pairing_kept core grant.peer grant.conn stage).2, h]
    refine ⟨hdone.stays.trans ?_, hdone.reports⟩
    cases hnext : (core.completePairing grant.peer grant.conn stage).2 with
    | none => exact stays_end_grant
    | some following => exact stays_go_grant hthere rfl

/-- A call of the user that sends one message. -/
theorem send_steady {sent : List CoreEvent} {refused : SessionError → List CoreEvent}
    (hresult : result = match core.queueCtrl conn msg with
      | .ok next => (next, sent)
      | .error error => (core, refused error)) (hsent : ∀ event ∈ sent, Silent event)
    (hrefused : ∀ error, ∀ event ∈ refused error, Silent event) : Steady ends core result := by
  subst hresult
  split
  · next next hqueue => exact (queue_ctrl_stays hqueue).steady hsent
  · next error _ => exact (Stays.refl ends core).steady (hrefused error)

theorem deny_consent_steady : Steady ends core (core.denyConsent peer) := by
  unfold denyConsent
  split
  · exact (Stays.refl ends core).steady (by simp [Silent])
  · split
    · exact send_steady rfl (by simp [Silent]) (by simp [Silent])
    · exact (Stays.refl ends core).steady (by simp [Silent])

theorem cancel_wait_steady : Steady ends core (core.cancelWait peer) := by
  unfold cancelWait
  split
  · exact (Stays.refl ends core).steady (by simp [Silent])
  · split
    · exact send_steady rfl (by simp [Silent]) (by simp [Silent])
    · exact (Stays.refl ends core).steady (by simp [Silent])

theorem submit_pair_code_steady {code : String} :
    Steady ends core (core.submitPairCode peer code) := by
  unfold submitPairCode
  split
  · exact (Stays.refl ends core).steady (by simp [Silent])
  · split
    · exact send_steady rfl (by simp [Silent]) (by simp [Silent])
    · exact (Stays.refl ends core).steady (by simp [Silent])

theorem send_ctrl_steady (h : core.sendCtrl peer msg = .ok next) : Steady ends core (next, []) := by
  unfold sendCtrl at h
  split at h
  · cases h
  · exact (queue_ctrl_stays h).steady (by simp)

theorem consent_timeout_steady {timer : ConsentTimer}
    (hends : ∀ session, core.sessions timer.peer = some session →
      session.generation = timer.generation → ends timer.peer) :
    Steady ends core (core.consentTimeout timer) := by
  have hfired : Stays ends core { core with timers := core.timers.erase timer } :=
    stays_of_eq rfl rfl rfl rfl rfl
  unfold consentTimeout
  dsimp only
  split
  · exact hfired.steady (by simp)
  · next session hsession =>
    split
    · split
      · next hgeneration =>
        have hgone := hends session hsession hgeneration
        refine ⟨hfired.trans (stays_drop_session hgone), by simp, by simp, ?_⟩
        intro conn hmem
        obtain rfl : conn = session.connId := by simpa using hmem
        exact .inr ⟨timer.peer, session, hgone, hsession, rfl⟩
      · exact hfired.steady (by simp)
    · exact hfired.steady (by simp)

theorem forward_steady {ok : Bool} (hloop : core.loops conn = some loop)
    (h : core.forward conn loop ok = some result) : Steady ends core result := by
  unfold forward at h
  split at h
  · cases h
  · obtain rfl := Option.some.inj h
    split
    · exact Stays.steady (stays_set_loop hloop (by rfl)) (by simp [Silent])
    · exact Stays.steady (stays_set_loop hloop (by rfl)) (by simp)

/-- The peers whose session a step may end. -/
def Ending (core : SessionCore) (input : CoreInput) (peer : Fingerprint) : Prop :=
  ∃ session, core.sessions peer = some session ∧ core.MayEnd peer session input

/-- The condition on a grant that failed. -/
def OwnGrant (core : SessionCore) : CoreInput → Prop
  | .advanceGrant task => ∀ grant ∈ core.grants task, grant.stage = .failing →
      ∀ session ∈ core.sessions grant.peer, session.connId = grant.conn
  | _ => True

/-- What a step can be: a session is entered, a control loop ends, or neither. -/
theorem step_turn (hashCode : String → Digest) (hown : core.OwnGrant input)
    (h : core.step hashCode input = some result) :
    (∃ conn handshake name, input = .hello conn name ∧ core.handshakes conn = some handshake ∧
        handshake.stage = .awaitingHello ∧ result = core.insertSession conn handshake name) ∨
      (∃ conn loop consent wasTrusted, input = .advance conn ∧ core.loops conn = some loop ∧
        result = core.leave conn loop consent wasTrusted) ∨
      Steady (core.Ending input) core result := by
  cases input with
  | accept peer | dial peer address =>
    obtain rfl := Option.some.inj h
    exact .inr (.inr open_handshake_steady)
  | hello conn name =>
    simp only [step] at h
    split at h
    · next handshake hhandshake =>
      split at h
      · next hstage =>
        exact .inl ⟨conn, handshake, name, rfl, hhandshake, hstage, (Option.some.inj h).symm⟩
      · cases h
    · cases h
  | handshakeFailed conn =>
    obtain rfl := Option.some.inj h
    exact .inr (.inr (stays_end_handshake.steady (by simp)))
  | announce conn =>
    simp only [step] at h
    split at h
    · next peer dialed trusted name hhandshake =>
      obtain rfl := Option.some.inj h
      refine .inr (.inr ⟨stays_end_handshake, by simp, ?_, by simp⟩)
      intro other given found hmem
      obtain ⟨-, -, rfl⟩ : other = peer ∧ given = name ∧ found = conn := by simpa using hmem
      exact .inr (.inr ⟨_, hhandshake, by simp⟩)
    · cases h
  | deliver conn msg =>
    obtain ⟨loop, hloop, -, hrun⟩ := at_stage_some h
    obtain rfl := Option.some.inj hrun
    exact .inr (.inr ((handle_msg_steady hashCode hloop msg).cons (by simp [Silent])))
  | malformed conn =>
    simp only [step] at h
    split at h
    · next loop hloop =>
      split at h
      · obtain rfl := Option.some.inj h
        exact .inr (.inr (Stays.steady (stays_set_loop hloop (by rfl)) (by simp)))
      · cases h
    · cases h
  | streamEnd conn =>
    obtain ⟨loop, hloop, -, hrun⟩ := at_stage_some h
    obtain rfl := Option.some.inj hrun
    exact .inr (.inr (Stays.steady (stays_set_loop hloop (by rfl)) (by simp)))
  | drain conn msg =>
    obtain ⟨loop, hloop, -, hrun⟩ := at_stage_some h
    obtain rfl := Option.some.inj hrun
    exact .inr (.inr ((drain_msg_steady hloop msg).cons (by simp [Silent])))
  | drainEnd conn =>
    obtain ⟨loop, hloop, -, hrun⟩ := at_stage_some h
    obtain rfl := Option.some.inj hrun
    exact .inr (.inr (Stays.steady (stays_set_loop hloop (by rfl)) (by simp)))
  | forward conn ok =>
    obtain ⟨loop, hloop, -, hrun⟩ := at_stage_some h
    exact .inr (.inr (forward_steady hloop hrun))
  | advance conn =>
    obtain ⟨loop, hloop, hrun⟩ := Option.bind_eq_some_iff.mp h
    by_cases hleaving : ∃ consent wasTrusted, loop.stage = .leaving consent wasTrusted
    · obtain ⟨consent, wasTrusted, hstage⟩ := hleaving
      simp only [advanceLoop, hstage] at hrun
      exact .inr (.inl ⟨conn, loop, consent, wasTrusted, rfl, hloop, (Option.some.inj hrun).symm⟩)
    · refine .inr (.inr (advance_loop_steady hloop ?_ hrun))
      intro consent wasTrusted hstage
      exact hleaving ⟨consent, wasTrusted, hstage⟩
  | consentTimeout timer =>
    simp only [step] at h
    split at h
    · obtain rfl := Option.some.inj h
      refine .inr (.inr (consent_timeout_steady ?_))
      intro session hsession hgeneration
      exact ⟨session, hsession, rfl, hgeneration⟩
    · cases h
  | grantConsent peer drawn =>
    obtain rfl := Option.some.inj h
    exact .inr (.inr (grant_consent_steady hashCode))
  | advanceGrant task =>
    obtain ⟨grant, hgrant, rfl⟩ := Option.map_eq_some_iff.mp h
    refine .inr (.inr (advance_grant_steady hashCode hgrant ?_))
    intro hstage session hsession
    exact ⟨session, hsession, grant, hgrant, hown grant hgrant hstage session hsession⟩
  | denyConsent peer =>
    obtain rfl := Option.some.inj h
    exact .inr (.inr deny_consent_steady)
  | cancelWait peer =>
    obtain rfl := Option.some.inj h
    exact .inr (.inr cancel_wait_steady)
  | submitPairCode peer code =>
    obtain rfl := Option.some.inj h
    exact .inr (.inr submit_pair_code_steady)
  | sendCtrl peer msg =>
    simp only [step] at h
    split at h
    · next next hsent =>
      obtain rfl := Option.some.inj h
      exact .inr (.inr (send_ctrl_steady hsent))
    · obtain rfl := Option.some.inj h
      exact .inr (.inr ((Stays.refl _ core).steady (by simp [Silent])))
  | disconnect peer =>
    obtain rfl := Option.some.inj h
    refine .inr (.inr (disconnect_steady ?_))
    intro session hsession
    exact ⟨session, hsession, rfl⟩
  | shutdownAll =>
    obtain rfl := Option.some.inj h
    refine .inr (.inr (shutdown_all_steady ?_))
    intro peer session hsession
    exact ⟨session, hsession, trivial⟩
  | removeTrust peer =>
    obtain rfl := Option.some.inj h
    exact .inr (.inr (Stays.steady (stays_of_eq rfl rfl rfl rfl rfl) (by simp [Silent])))
  | setPerms peer perms | saveSettings config | tick secs =>
    obtain rfl := Option.some.inj h
    exact .inr (.inr (Stays.steady (stays_of_eq rfl rfl rfl rfl rfl) (by simp)))

/-- A session that a step does not end stays, and its connection is not closed. -/
theorem Steady.spares (h : Steady (core.Ending input) core result) (hwired : core.Wired)
    (hsession : core.sessions peer = some session) (hspared : ¬ core.MayEnd peer session input) :
    result.1.Has peer session ∧ .closed session.connId ∉ result.2 := by
  have hown : ¬ core.Ending input peer := by
    rintro ⟨found, hfound, hends⟩
    obtain rfl : session = found := Option.some.inj (hsession.symm.trans hfound)
    exact hspared hends
  obtain ⟨loop, hloop, hpeer⟩ := hwired.sessions peer session hsession
  refine ⟨h.stays.kept peer session hsession hown, fun hmem => ?_⟩
  rcases h.reports.closed _ hmem with hnew | ⟨other, found, hends, hfound, hconn⟩
  · exact absurd (hwired.loops _ _ hloop).1 (Nat.not_lt.mpr hnew)
  · -- Two peers never share a connection.
    obtain ⟨running, hrunning, hpeer'⟩ := hwired.sessions other found hfound
    rw [hconn, hloop] at hrunning
    obtain rfl := Option.some.inj hrunning
    exact hown ((hpeer'.symm.trans hpeer) ▸ hends)

theorem Stays.born (h : Stays ends core next) (hborn : core.Born conn) : next.Born conn := by
  refine ⟨Nat.lt_of_lt_of_le hborn.1 h.nextConn, fun handshake hhandshake => ?_⟩
  rcases h.handshakes conn handshake hhandshake with hbefore | ⟨hlow, -⟩
  · exact hborn.2 handshake hbefore
  · exact absurd hborn.1 (Nat.not_lt.mpr hlow)

theorem Stays.wired (h : Stays ends core next) (hwired : core.Wired) : next.Wired := by
  refine ⟨?_, ?_, ?_, ?_⟩
  · intro conn handshake hhandshake
    rcases h.handshakes conn handshake hhandshake with hbefore | ⟨-, hhigh⟩
    · exact Nat.lt_of_lt_of_le (hwired.handshakes conn handshake hbefore) h.nextConn
    · exact hhigh
  · intro peer session hsession
    obtain ⟨before, hbefore, hconn, -⟩ := h.sessions peer session hsession
    obtain ⟨loop, hloop, hpeer⟩ := hwired.sessions peer before hbefore
    obtain ⟨after, hafter, hpeer'⟩ := h.runs before.connId loop hloop
    exact ⟨after, hconn ▸ hafter, hpeer'.trans hpeer⟩
  · intro conn loop hloop
    obtain ⟨before, hbefore, -⟩ := h.began conn loop hloop
    exact h.born (hwired.loops conn before hbefore)
  · intro task grant hgrant
    rcases h.grants task grant hgrant with ⟨before, hbefore, hconn⟩ | ⟨peer, session, hfound, hconn⟩
    · exact h.born (hconn ▸ hwired.grants task before hbefore)
    · obtain ⟨loop, hloop, -⟩ := hwired.sessions peer session hfound
      exact h.born (hconn ▸ hwired.loops _ loop hloop)

/-- A report of a session names a connection that has come to one. -/
theorem Reports.born {name : String} (h : Reports ends core events) (hwired : core.Wired)
    (hmem : .ui (.sessionUp peer name conn) ∈ events) : core.Born conn := by
  rcases h.up peer name conn hmem with
    hloop | ⟨task, grant, hgrant, rfl⟩ | ⟨handshake, hfound, hstage⟩
  · obtain ⟨loop, hloop⟩ := Option.isSome_iff_exists.mp hloop
    exact hwired.loops conn loop hloop
  · exact hwired.grants task grant hgrant
  · refine ⟨hwired.handshakes conn handshake hfound, fun other hother => ?_⟩
    obtain rfl := Option.some.inj (hfound.symm.trans hother)
    exact hstage

section Enter

variable {handshake : Handshake} {name : String}

/-- What `insert_session_and_spawn` enters. -/
theorem insert_session_spec (core : SessionCore) (conn : ConnId) (handshake : Handshake)
    (name : String) :
    (∃ session : Session, session.connId = conn ∧
        (core.insertSession conn handshake name).1.sessions =
          Function.update core.sessions handshake.peer (some session)) ∧
      (∃ loop : CtrlLoop, loop.peer = handshake.peer ∧
        (core.insertSession conn handshake name).1.loops =
          Function.update core.loops conn (some loop)) ∧
      ((core.insertSession conn handshake name).1.nextConn = core.nextConn ∧
        (core.insertSession conn handshake name).1.grants = core.grants) ∧
      ∀ event ∈ (core.insertSession conn handshake name).2, Silent event := by
  refine ⟨⟨_, rfl, rfl⟩, ⟨_, rfl, rfl⟩, ⟨rfl, rfl⟩, ?_⟩
  intro event hmem
  simp only [insertSession] at hmem
  split at hmem
  · obtain rfl := List.mem_singleton.mp hmem
    trivial
  · cases hmem

theorem insert_session_born {other : ConnId} (hhandshake : core.handshakes conn = some handshake)
    (hwired : core.Wired) (hborn : core.Born other ∨ other = conn) :
    (core.insertSession conn handshake name).1.Born other := by
  by_cases hsame : other = conn
  · subst hsame
    refine ⟨hwired.handshakes other handshake hhandshake, fun found hfound => ?_⟩
    simp only [insertSession, Function.update_self] at hfound
    split at hfound
    · rw [← Option.some.inj hfound]
      simp
    · cases hfound
  · have hborn := hborn.resolve_right hsame
    refine ⟨hborn.1, fun found hfound => hborn.2 found ?_⟩
    simpa [insertSession, Function.update_of_ne hsame] using hfound

theorem insert_session_wired (hhandshake : core.handshakes conn = some handshake)
    (hstage : handshake.stage = .awaitingHello) (hwired : core.Wired) :
    (core.insertSession conn handshake name).1.Wired := by
  obtain ⟨⟨session, hconn, hsessions⟩, ⟨loop, hpeer, hloops⟩, ⟨hnext, hgrants⟩, -⟩ :=
    insert_session_spec core conn handshake name
  -- The connection had no loop yet: its handshake was still waiting.
  have hfresh : ∀ other running, core.loops other = some running → other ≠ conn := by
    rintro other running hrunning rfl
    exact (hwired.loops other running hrunning).2 handshake hhandshake hstage
  refine ⟨?_, ?_, ?_, ?_⟩
  · intro other found hfound
    rw [hnext]
    by_cases hsame : other = conn
    · exact hsame ▸ hwired.handshakes conn handshake hhandshake
    · exact hwired.handshakes other found
        (by simpa [insertSession, Function.update_of_ne hsame] using hfound)
  · intro other found hfound
    rw [hsessions] at hfound
    rw [hloops]
    by_cases hsame : other = handshake.peer
    · subst hsame
      obtain rfl : session = found := by simpa using hfound
      exact ⟨loop, by rw [hconn, Function.update_self], hpeer⟩
    · rw [Function.update_of_ne hsame] at hfound
      obtain ⟨running, hrunning, hpeer'⟩ := hwired.sessions other found hfound
      exact ⟨running, by rw [Function.update_of_ne (hfresh _ _ hrunning), hrunning], hpeer'⟩
  · intro other found hfound
    rw [hloops] at hfound
    by_cases hsame : other = conn
    · exact insert_session_born hhandshake hwired (.inr hsame)
    · rw [Function.update_of_ne hsame] at hfound
      exact insert_session_born hhandshake hwired (.inl (hwired.loops other found hfound))
  · intro task grant hgrant
    rw [hgrants] at hgrant
    exact insert_session_born hhandshake hwired (.inl (hwired.grants task grant hgrant))

end Enter

section Leave

variable {consent : ConsentState} {wasTrusted : Bool}

/-- A newer connection has replaced the one whose loop ends. -/
def Superseded (core : SessionCore) (conn : ConnId) (loop : CtrlLoop) : Prop :=
  ∃ session, core.sessions loop.peer = some session ∧ session.connId ≠ conn

/-- The loop of a connection that was replaced ends in silence. -/
theorem leave_superseded (h : core.Superseded conn loop) :
    (core.leave conn loop consent wasTrusted).1 = core.setLoop conn none ∧
      ∀ event ∈ (core.leave conn loop consent wasTrusted).2, event = .closed conn := by
  obtain ⟨session, hsession, hother⟩ := h
  have hany : (core.sessions loop.peer).any (fun session => session.connId != conn) = true := by
    simpa [hsession] using hother
  unfold leave
  rw [if_pos hany]
  refine ⟨rfl, fun event hmem => ?_⟩
  split at hmem
  · exact List.mem_singleton.mp hmem
  · cases hmem

/-- The loop of a connection that was not replaced takes its session along and says so. -/
theorem leave_current (h : ¬ core.Superseded conn loop) :
    (core.leave conn loop consent wasTrusted).1 =
        (core.setLoop conn none).setSession loop.peer none ∧
      .ui (.sessionDown loop.peer) ∈ (core.leave conn loop consent wasTrusted).2 ∧
      ∀ event ∈ (core.leave conn loop consent wasTrusted).2,
        event = .ui (.sessionDown loop.peer) ∨ event = .closed conn ∨ Silent event := by
  have hany : ¬ (core.sessions loop.peer).any (fun session => session.connId != conn) = true := by
    intro hany
    obtain ⟨session, hsession, hother⟩ := (Option.any_eq_true _ _).mp hany
    exact h ⟨session, hsession, by simpa using hother⟩
  unfold leave
  rw [if_neg hany]
  refine ⟨rfl, List.mem_cons_self, fun event hmem => ?_⟩
  rcases List.mem_cons.mp hmem with rfl | hmem
  · exact .inl rfl
  · rcases List.mem_append.mp hmem with hmem | hmem
    · split at hmem
      · exact .inr (.inl (List.mem_singleton.mp hmem))
      · cases hmem
    · split at hmem
      · obtain rfl := List.mem_singleton.mp hmem
        exact .inr (.inr trivial)
      · cases hmem

/-- What is left of the table when a loop ends is the sessions of the other connections. -/
theorem leave_sessions (hwired : core.Wired) (hloop : core.loops conn = some loop) :
    (core.leave conn loop consent wasTrusted).1.sessions peer = some session ↔
      core.sessions peer = some session ∧ session.connId ≠ conn := by
  have helsewhere : core.sessions peer = some session → peer ≠ loop.peer →
      session.connId ≠ conn := by
    rintro hsession hother rfl
    obtain ⟨running, hrunning, hpeer⟩ := hwired.sessions peer session hsession
    obtain rfl := Option.some.inj (hloop.symm.trans hrunning)
    exact hother hpeer.symm
  by_cases hover : core.Superseded conn loop
  · rw [(leave_superseded hover).1]
    refine ⟨fun hsession => ⟨hsession, ?_⟩, And.left⟩
    obtain ⟨newer, hnewer, hother⟩ := hover
    by_cases hpeer : peer = loop.peer
    · subst hpeer
      obtain rfl := Option.some.inj (hnewer.symm.trans hsession)
      exact hother
    · exact helsewhere hsession hpeer
  · rw [(leave_current hover).1]
    by_cases hpeer : peer = loop.peer
    · subst hpeer
      simp only [setSession, Function.update_self, reduceCtorEq, false_iff]
      rintro ⟨hsession, hother⟩
      exact hover ⟨session, hsession, hother⟩
    · simp only [setSession, Function.update_of_ne hpeer]
      exact ⟨fun hsession => ⟨hsession, helsewhere hsession hpeer⟩, And.left⟩

/-- Nothing else changes when a loop ends. -/
theorem leave_rest (core : SessionCore) (conn : ConnId) (loop : CtrlLoop) (consent : ConsentState)
    (wasTrusted : Bool) :
    (core.leave conn loop consent wasTrusted).1.loops = Function.update core.loops conn none ∧
      (core.leave conn loop consent wasTrusted).1.nextConn = core.nextConn ∧
      (core.leave conn loop consent wasTrusted).1.handshakes = core.handshakes ∧
      (core.leave conn loop consent wasTrusted).1.grants = core.grants := by
  by_cases hover : core.Superseded conn loop
  · rw [(leave_superseded hover).1]
    exact ⟨rfl, rfl, rfl, rfl⟩
  · rw [(leave_current hover).1]
    exact ⟨rfl, rfl, rfl, rfl⟩

theorem leave_born {other : ConnId} (h : core.Born other) :
    (core.leave conn loop consent wasTrusted).1.Born other := by
  obtain ⟨-, hnext, hhandshakes, -⟩ := leave_rest core conn loop consent wasTrusted
  exact ⟨by rw [hnext]; exact h.1, by rw [hhandshakes]; exact h.2⟩

theorem leave_wired (hwired : core.Wired) (hloop : core.loops conn = some loop) :
    (core.leave conn loop consent wasTrusted).1.Wired := by
  obtain ⟨hloops, hnext, hhandshakes, hgrants⟩ := leave_rest core conn loop consent wasTrusted
  refine ⟨?_, ?_, ?_, ?_⟩
  · rw [hhandshakes, hnext]
    exact hwired.handshakes
  · intro peer session hsession
    obtain ⟨hsession, hother⟩ := (leave_sessions hwired hloop).mp hsession
    rw [hloops, Function.update_of_ne hother]
    exact hwired.sessions peer session hsession
  · intro other running hrunning
    rw [hloops] at hrunning
    by_cases hsame : other = conn
    · simp [hsame] at hrunning
    · rw [Function.update_of_ne hsame] at hrunning
      exact leave_born (hwired.loops other running hrunning)
  · rw [hgrants]
    intro task grant hgrant
    exact leave_born (hwired.grants task grant hgrant)

/-- The end of a loop closes only its own connection, and reports only the end of its own session.
-/
theorem leave_events {event : CoreEvent}
    (hmem : event ∈ (core.leave conn loop consent wasTrusted).2) :
    event = .closed conn ∨ Silent event ∨
      event = .ui (.sessionDown loop.peer) ∧ ¬ core.Superseded conn loop := by
  by_cases hover : core.Superseded conn loop
  · exact .inl ((leave_superseded hover).2 event hmem)
  · rcases (leave_current hover).2.2 event hmem with hdown | hclosed | hquiet
    · exact .inr (.inr ⟨hdown, hover⟩)
    · exact .inl hclosed
    · exact .inr (.inl hquiet)

end Leave

end SessionCore

/-- A step of the sessions removes and closes only a session it may end. -/
theorem step_spares (hashCode : String → Digest) {core : SessionCore} {peer : Fingerprint}
    {session : Session} (hwired : core.Wired) (hown : core.OwnGrant input)
    (h : core.step hashCode input = some result) (hsession : core.sessions peer = some session)
    (hspared : ¬ core.MayEnd peer session input) :
    result.1.Has peer session ∧ .closed session.connId ∉ result.2 := by
  rcases SessionCore.step_turn hashCode hown h with
    ⟨conn, handshake, name, rfl, hhandshake, -, rfl⟩ |
      ⟨conn, loop, consent, wasTrusted, rfl, hloop, rfl⟩ | hsteady
  · obtain ⟨⟨entered, -, hsessions⟩, -, -, hquiet⟩ :=
      SessionCore.insert_session_spec core conn handshake name
    have hother : peer ≠ handshake.peer := by
      rintro rfl
      exact hspared ⟨handshake, hhandshake, rfl⟩
    refine ⟨⟨session, ?_, rfl, rfl⟩, fun hmem => absurd (hquiet _ hmem) id⟩
    rw [hsessions, Function.update_of_ne hother, hsession]
  · have hother : session.connId ≠ conn := hspared
    refine ⟨⟨session, ?_, rfl, rfl⟩, ?_⟩
    · exact (SessionCore.leave_sessions hwired hloop).mpr ⟨hsession, hother⟩
    · intro hmem
      rcases SessionCore.leave_events hmem with hclosed | hquiet | ⟨hdown, -⟩
      · exact hother (by simpa using hclosed)
      · exact absurd hquiet id
      · cases hdown
  · exact hsteady.spares hwired hsession hspared

end LocalTrans
