import LocalTrans.Session.Engine
import LocalTrans.Session.Turns

/-!
# Sessions that replace one another

The tasks of the session manager change the session table under its lock and report afterwards:
`event_tx.send` is awaited when the lock is free again. `Reporter` runs the sessions of `Control`
with the reports that are still to be sent. `reportGuard` says when a report may be sent, so that
`SessionUp` and `SessionDown` agree with the table, and when a consent grant that fails may
disconnect.
-/

namespace LocalTrans

open Foundation

/-- A task that sends its reports in order and waits for each. -/
inductive CoreTask where
  | loop (conn : ConnId)
  | handshake (conn : ConnId)
  | grant (task : Nat)
deriving DecidableEq

/-- The task that takes a step; calls of the user and timers are tasks of their own. -/
def CoreInput.task : CoreInput → Option CoreTask
  | .deliver conn _ | .malformed conn | .streamEnd conn | .drain conn _ | .drainEnd conn
  | .forward conn _ | .advance conn => some (.loop conn)
  | .hello conn _ | .announce conn | .handshakeFailed conn => some (.handshake conn)
  | .advanceGrant task => some (.grant task)
  | _ => none

/-- The sessions, and the reports that are to be sent, oldest first. -/
structure Reporter where
  core : SessionCore
  pending : List (Option CoreTask × SessionEvent)

/-- A step of the sessions, or a report is sent. -/
inductive ReporterInput where
  | core (input : CoreInput)
  | send (i : Nat)
deriving DecidableEq

/-- The reports among the events of a step. -/
def uiEvents (events : List CoreEvent) : List SessionEvent :=
  events.filterMap fun
    | .ui event => some event
    | _ => none

/-- The other events of a step. -/
def coreActions (events : List CoreEvent) : List CoreEvent :=
  events.filter fun
    | .ui _ => false
    | _ => true

namespace Reporter

/-- `SessionManager::spawn`: nothing to report. -/
def spawn (config : Config) (trust : TrustStore) : Reporter :=
  { core := .spawn config trust, pending := [] }

variable (hashCode : String → Digest)

/-- One step: a task with reports to send takes no other step, and sends them in order. -/
def step : Machine Reporter ReporterInput CoreEvent
  | state, .core input =>
    if input.task.isSome ∧ ∃ report ∈ state.pending, report.1 = input.task then none
    else
      (state.core.step hashCode input).map fun (next, events) =>
        ({ core := next
           pending := state.pending ++ (uiEvents events).map fun event => (input.task, event) },
          coreActions events)
  | state, .send i =>
    match state.pending[i]? with
    | none => none
    | some (task, event) =>
      if task.isSome ∧ ∃ report ∈ state.pending.take i, report.1 = task then none
      else some ({ state with pending := state.pending.eraseIdx i }, [.ui event])

/-- A `SessionDown` of the peer is still to be sent. -/
def DownPending (state : Reporter) (peer : Fingerprint) : Prop :=
  ∃ report ∈ state.pending, report.2 = .sessionDown peer
deriving Decidable

end Reporter

/-- The condition on one step: `SessionUp` is sent only while no `SessionDown` of the peer is
still to be sent, and while the loop of its connection runs or the peer has a session; and a grant
whose code was refused three times disconnects only its own connection. -/
def reportGuard : Guard Reporter ReporterInput CoreEvent :=
  fun _ state input =>
    match input with
    | .send i =>
      match state.pending[i]? with
      | some (_, .sessionUp peer _ conn) =>
        ¬ state.DownPending peer ∧
          ((state.core.loops conn).any (fun loop => loop.peer == peer) = true ∨
            (state.core.sessions peer).isSome = true)
      | _ => True
    | .core (.advanceGrant task) =>
      ∀ grant ∈ state.core.grants task, grant.stage = .failing →
        ∀ session ∈ state.core.sessions grant.peer, session.connId = grant.conn
    | _ => True

instance (trace : List CoreEvent) (state : Reporter) (input : ReporterInput) :
    Decidable (reportGuard trace state input) := by
  unfold reportGuard
  split
  · split <;> infer_instance
  · infer_instance
  · infer_instance

/-- The reports on the sessions of a peer, `true` for `SessionUp`. -/
def sessionReports (trace : List CoreEvent) (peer : Fingerprint) : List Bool :=
  trace.filterMap fun
    | .ui (.sessionUp other _ _) => if other = peer then some true else none
    | .ui (.sessionDown other) => if other = peer then some false else none
    | _ => none

/-- `SessionUp` was sent for a connection of the peer. -/
def ReportedUp (trace : List CoreEvent) (peer : Fingerprint) (conn : ConnId) : Prop :=
  ∃ name, .ui (.sessionUp peer name conn) ∈ trace

/-- `SessionUp` and `SessionDown` so far, and those still to be sent, against the sessions. -/
structure Reporter.Agrees (trace : List CoreEvent) (state : Reporter) : Prop where
  wired : state.core.Wired
  sent : ∀ peer name conn, .ui (.sessionUp peer name conn) ∈ trace → state.core.Born conn
  queued : ∀ report ∈ state.pending, ∀ peer name conn, report.2 = .sessionUp peer name conn →
    state.core.Born conn
  down : ∀ peer session, state.DownPending peer → state.core.sessions peer = some session →
    ¬ ReportedUp trace peer session.connId
  live : ∀ peer session, state.core.sessions peer = some session →
    ReportedUp trace peer session.connId → (sessionReports trace peer).getLast? = some true
  gone : ∀ peer, (sessionReports trace peer).getLast? = some true →
    (state.core.sessions peer).isSome ∨ state.DownPending peer ∨
      ∃ conn loop, state.core.loops conn = some loop ∧ loop.peer = peer

section Sending

variable {trace : List CoreEvent} {peer other : Fingerprint} {conn : ConnId} {name : String}
  {event : SessionEvent}

theorem session_reports_append (before after : List CoreEvent) :
    sessionReports (before ++ after) peer =
      sessionReports before peer ++ sessionReports after peer :=
  List.filterMap_append

/-- What a step does besides reporting says nothing of sessions. -/
theorem session_reports_actions (events : List CoreEvent) :
    sessionReports (trace ++ coreActions events) peer = sessionReports trace peer := by
  rw [session_reports_append]
  have hnone : sessionReports (coreActions events) peer = [] := by
    refine List.filterMap_eq_nil_iff.mpr fun event hmem => ?_
    have hkept := (List.mem_filter.mp hmem).2
    cases event <;> simp_all
  rw [hnone, List.append_nil]

theorem announced_actions (events : List CoreEvent) :
    ReportedUp (trace ++ coreActions events) peer conn ↔ ReportedUp trace peer conn := by
  have hnone : ∀ name, .ui (.sessionUp peer name conn) ∉ coreActions events := by
    intro name hmem
    simp [coreActions] at hmem
  simp [ReportedUp, hnone]

theorem announced_send : ReportedUp (trace ++ [.ui event]) peer conn ↔
    ReportedUp trace peer conn ∨ ∃ name, event = .sessionUp peer name conn := by
  constructor
  · rintro ⟨name, hmem⟩
    rcases List.mem_append.mp hmem with hmem | hmem
    · exact .inl ⟨name, hmem⟩
    · exact .inr ⟨name, by simpa using (List.mem_singleton.mp hmem).symm⟩
  · rintro (⟨name, hmem⟩ | ⟨name, rfl⟩)
    · exact ⟨name, List.mem_append_left _ hmem⟩
    · exact ⟨name, by simp⟩

theorem session_reports_up (h : event = .sessionUp peer name conn) :
    (sessionReports (trace ++ [.ui event]) peer).getLast? = some true := by
  subst h
  simp [sessionReports]

theorem session_reports_down :
    (sessionReports (trace ++ [.ui (.sessionDown peer)]) peer).getLast? = some false := by
  simp [sessionReports]

/-- A report that is not about a session of the peer. -/
theorem session_reports_other (hup : ∀ name conn, event ≠ .sessionUp peer name conn)
    (hdown : event ≠ .sessionDown peer) :
    sessionReports (trace ++ [.ui event]) peer = sessionReports trace peer := by
  rw [session_reports_append]
  cases event with
  | sessionUp found given other =>
    have hother : found ≠ peer := by
      rintro rfl
      exact hup given other rfl
    simp [sessionReports, hother]
  | sessionDown found =>
    have hother : found ≠ peer := by
      rintro rfl
      exact hdown rfl
    simp [sessionReports, hother]
  | _ => simp [sessionReports]

end Sending

/-- The state after a step of the sessions. -/
def Reporter.after (state : Reporter) (task : Option CoreTask) (next : SessionCore)
    (events : List CoreEvent) : Reporter :=
  { core := next, pending := state.pending ++ (uiEvents events).map fun event => (task, event) }

theorem own_grant {trace : List CoreEvent} {state : Reporter} {input : CoreInput}
    (h : reportGuard trace state (.core input)) : state.core.OwnGrant input := by
  cases input with
  | advanceGrant task => exact h
  | _ => trivial

namespace Reporter.Agrees

open SessionCore

variable {hashCode : String → Digest} {trace : List CoreEvent} {state : Reporter}
  {next : SessionCore} {events : List CoreEvent} {task : Option CoreTask} {i : Nat}
  {event : SessionEvent}

theorem spawned (config : Config) (trust : TrustStore) : Agrees [] (.spawn config trust) := by
  refine ⟨⟨?_, ?_, ?_, ?_⟩, ?_, ?_, ?_, ?_, ?_⟩
  · intro conn handshake h
    cases h
  · intro peer session h
    cases h
  · intro conn loop h
    cases h
  · intro task grant h
    cases h
  · intro peer name conn h
    cases h
  · intro report h
    cases h
  · intro peer session _ h
    cases h
  · intro peer session h
    cases h
  · intro peer h
    cases h

/-- A report that was not the one sent is still to be sent. -/
theorem still_pending {state : Reporter} {peer : Fingerprint}
    (hreport : state.pending[i]? = some (task, event))
    (hother : event ≠ .sessionDown peer) (h : state.DownPending peer) :
    Reporter.DownPending { state with pending := state.pending.eraseIdx i } peer := by
  obtain ⟨report, hmem, hdown⟩ := h
  obtain ⟨j, hj⟩ := List.mem_iff_getElem?.mp hmem
  refine ⟨report, List.mem_eraseIdx_iff_getElem?.mpr ⟨j, ?_, hj⟩, hdown⟩
  rintro rfl
  rw [hreport] at hj
  obtain rfl := Option.some.inj hj
  exact hother hdown

/-- A report is sent. -/
theorem send (h : Agrees trace state) (hreport : state.pending[i]? = some (task, event))
    (hguard : reportGuard trace state (.send i)) :
    Agrees (trace ++ [.ui event]) { state with pending := state.pending.eraseIdx i } := by
  have hqueued : (task, event) ∈ state.pending := List.mem_of_getElem? hreport
  have hfewer : ∀ peer,
      Reporter.DownPending { state with pending := state.pending.eraseIdx i } peer →
        state.DownPending peer := by
    rintro peer ⟨report, hmem, hdown⟩
    exact ⟨report, List.mem_of_mem_eraseIdx hmem, hdown⟩
  have hup : ∀ peer name conn, event = .sessionUp peer name conn → ¬ state.DownPending peer ∧
      ((state.core.loops conn).any (fun loop => loop.peer == peer) = true ∨
        (state.core.sessions peer).isSome = true) := by
    rintro peer name conn rfl
    simpa [reportGuard, hreport] using hguard
  refine ⟨h.wired, ?_, ?_, ?_, ?_, ?_⟩
  · intro peer name conn hmem
    rcases List.mem_append.mp hmem with hmem | hmem
    · exact h.sent peer name conn hmem
    · obtain rfl : SessionEvent.sessionUp peer name conn = event := by simpa using hmem
      exact h.queued _ hqueued peer name conn rfl
  · intro report hmem peer name conn hreport
    exact h.queued report (List.mem_of_mem_eraseIdx hmem) peer name conn hreport
  · intro peer session hdown hsession hannounced
    rcases announced_send.mp hannounced with hbefore | ⟨name, hsent⟩
    · exact h.down peer session (hfewer peer hdown) hsession hbefore
    · exact (hup peer name _ hsent).1 (hfewer peer hdown)
  · intro peer session hsession hannounced
    by_cases hsent : ∃ name conn, event = .sessionUp peer name conn
    · obtain ⟨name, conn, hsent⟩ := hsent
      exact session_reports_up hsent
    · have hsent : ∀ name conn, event ≠ .sessionUp peer name conn := by simpa using hsent
      have hbefore : ReportedUp trace peer session.connId :=
        (announced_send.mp hannounced).resolve_right fun ⟨name, hname⟩ => hsent name _ hname
      by_cases hdown : event = .sessionDown peer
      · exact absurd hbefore (h.down peer session ⟨_, hqueued, hdown⟩ hsession)
      · rw [session_reports_other hsent hdown]
        exact h.live peer session hsession hbefore
  · intro peer hlast
    by_cases hdown : event = .sessionDown peer
    · rw [hdown, session_reports_down] at hlast
      cases hlast
    · by_cases hsent : ∃ name conn, event = .sessionUp peer name conn
      · obtain ⟨name, conn, hsent⟩ := hsent
        rcases (hup peer name conn hsent).2 with hloop | hsession
        · obtain ⟨loop, hloop, hpeer⟩ := (Option.any_eq_true _ _).mp hloop
          exact .inr (.inr ⟨conn, loop, hloop, by simpa using hpeer⟩)
        · exact .inl hsession
      · have hsent : ∀ name conn, event ≠ .sessionUp peer name conn := by simpa using hsent
        rw [session_reports_other hsent hdown] at hlast
        exact (h.gone peer hlast).imp_right (.imp_left (still_pending hreport hdown))

theorem mem_ui_events {events : List CoreEvent} : event ∈ uiEvents events ↔ .ui event ∈ events := by
  simp only [uiEvents, List.mem_filterMap]
  constructor
  · rintro ⟨found, hmem, hfound⟩
    cases found <;> simp_all
  · exact fun hmem => ⟨_, hmem, rfl⟩

theorem mem_after {report : Option CoreTask × SessionEvent}
    (h : report ∈ (after state task next events).pending) :
    report ∈ state.pending ∨ .ui report.2 ∈ events := by
  rcases List.mem_append.mp h with h | h
  · exact .inl h
  · obtain ⟨event, hmem, rfl⟩ := List.mem_map.mp h
    exact .inr (mem_ui_events.mp hmem)

theorem down_pending_after {peer : Fingerprint} :
    (after state task next events).DownPending peer ↔
      state.DownPending peer ∨ .ui (.sessionDown peer) ∈ events := by
  constructor
  · rintro ⟨report, hmem, hdown⟩
    rcases mem_after hmem with hmem | hmem
    · exact .inl ⟨report, hmem, hdown⟩
    · exact .inr (hdown ▸ hmem)
  · rintro (⟨report, hmem, hdown⟩ | hmem)
    · exact ⟨report, List.mem_append_left _ hmem, hdown⟩
    · refine ⟨(task, _), List.mem_append_right _ ?_, rfl⟩
      exact List.mem_map.mpr ⟨_, mem_ui_events.mpr hmem, rfl⟩

/-- A step of the sessions keeps the agreement where it enters only new connections and ends a
session with a report. -/
theorem core_step (h : Agrees trace state) (hwired : next.Wired)
    (hborn : ∀ conn, state.core.Born conn → next.Born conn)
    (hup : ∀ peer name conn, .ui (.sessionUp peer name conn) ∈ events → next.Born conn)
    (hdown : ∀ peer, .ui (.sessionDown peer) ∈ events → next.sessions peer = none)
    (hold : ∀ peer session, next.sessions peer = some session →
      state.core.Has peer session ∨ ¬ ReportedUp trace peer session.connId)
    (hgone : ∀ peer, (state.core.sessions peer).isSome = true ∨
        (∃ conn loop, state.core.loops conn = some loop ∧ loop.peer = peer) →
      (next.sessions peer).isSome = true ∨ .ui (.sessionDown peer) ∈ events ∨
        ∃ conn loop, next.loops conn = some loop ∧ loop.peer = peer) :
    Agrees (trace ++ coreActions events) (after state task next events) := by
  refine ⟨hwired, ?_, ?_, ?_, ?_, ?_⟩
  · intro peer name conn hmem
    rcases List.mem_append.mp hmem with hmem | hmem
    · exact hborn conn (h.sent peer name conn hmem)
    · simp [coreActions] at hmem
  · intro report hmem peer name conn hreport
    rcases mem_after hmem with hmem | hmem
    · exact hborn conn (h.queued report hmem peer name conn hreport)
    · exact hup peer name conn (hreport ▸ hmem)
  · intro peer session hpending hsession
    rw [announced_actions]
    rcases down_pending_after.mp hpending with hpending | hmem
    · rcases hold peer session hsession with ⟨before, hbefore, hconn, -⟩ | hnew
      · exact hconn ▸ h.down peer before hpending hbefore
      · exact hnew
    · cases (hdown peer hmem).symm.trans hsession
  · intro peer session hsession
    rw [announced_actions, session_reports_actions]
    intro hannounced
    rcases hold peer session hsession with ⟨before, hbefore, hconn, -⟩ | hnew
    · exact h.live peer before hbefore (hconn ▸ hannounced)
    · exact absurd hannounced hnew
  · intro peer hlast
    rw [session_reports_actions] at hlast
    rw [down_pending_after]
    have hcases : (next.sessions peer).isSome = true ∨ state.DownPending peer ∨
        .ui (.sessionDown peer) ∈ events ∨
          ∃ conn loop, next.loops conn = some loop ∧ loop.peer = peer := by
      rcases h.gone peer hlast with hsession | hpending | hloop
      · exact (hgone peer (.inl hsession)).imp_right .inr
      · exact .inr (.inl hpending)
      · exact (hgone peer (.inr hloop)).imp_right .inr
    exact hcases.imp_right fun hrest => by rwa [or_assoc]

/-- A step that enters no session and ends no loop. -/
theorem steady {ends : Fingerprint → Prop} (h : Agrees trace state)
    (hsteady : Steady ends state.core (next, events)) :
    Agrees (trace ++ coreActions events) (after state task next events) := by
  refine h.core_step (hsteady.stays.wired h.wired) (fun _ => hsteady.stays.born) ?_ ?_ ?_ ?_
  · intro peer name conn hmem
    exact hsteady.stays.born (hsteady.reports.born h.wired hmem)
  · intro peer hmem
    exact absurd hmem (hsteady.reports.down peer)
  · intro peer session hsession
    exact .inl (hsteady.stays.sessions peer session hsession)
  · intro peer hbefore
    -- Where a session is gone, the loop of its connection still runs and will report it.
    have hloop : ∃ conn loop, state.core.loops conn = some loop ∧ loop.peer = peer := by
      rcases hbefore with hsession | hloop
      · obtain ⟨session, hsession⟩ := Option.isSome_iff_exists.mp hsession
        obtain ⟨loop, hloop, hpeer⟩ := h.wired.sessions peer session hsession
        exact ⟨session.connId, loop, hloop, hpeer⟩
      · exact hloop
    obtain ⟨conn, loop, hloop, hpeer⟩ := hloop
    obtain ⟨running, hrunning, hpeer'⟩ := hsteady.stays.runs conn loop hloop
    exact .inr (.inr ⟨conn, running, hrunning, hpeer'.trans hpeer⟩)

/-- A new connection takes the place of whatever session its peer had. -/
theorem enter {conn : ConnId} {handshake : Handshake} {name : String} (h : Agrees trace state)
    (hhandshake : state.core.handshakes conn = some handshake)
    (hstage : handshake.stage = .awaitingHello) :
    Agrees (trace ++ coreActions (state.core.insertSession conn handshake name).2)
      (after state task (state.core.insertSession conn handshake name).1
        (state.core.insertSession conn handshake name).2) := by
  obtain ⟨⟨entered, hconn, hsessions⟩, ⟨loop, hpeer, hloops⟩, -, hquiet⟩ :=
    insert_session_spec state.core conn handshake name
  have hunseen : ∀ peer, ¬ ReportedUp trace peer conn := by
    rintro peer ⟨given, hmem⟩
    exact (h.sent peer given conn hmem).2 handshake hhandshake hstage
  refine h.core_step (insert_session_wired hhandshake hstage h.wired)
    (fun _ hborn => insert_session_born hhandshake h.wired (.inl hborn)) ?_ ?_ ?_ ?_
  · intro peer given other hmem
    exact absurd (hquiet _ hmem) id
  · intro peer hmem
    exact absurd (hquiet _ hmem) id
  · intro peer session hsession
    rw [hsessions] at hsession
    by_cases hsame : peer = handshake.peer
    · subst hsame
      obtain rfl : entered = session := by simpa using hsession
      exact .inr (hconn ▸ hunseen _)
    · rw [Function.update_of_ne hsame] at hsession
      exact .inl (has_self hsession)
  · intro peer hbefore
    rw [hsessions, hloops]
    by_cases hsame : peer = handshake.peer
    · exact .inl (by simp [hsame])
    · rw [Function.update_of_ne hsame]
      refine hbefore.imp_right fun ⟨other, running, hrunning, hpeer'⟩ =>
        .inr ⟨other, running, ?_, hpeer'⟩
      have hother : other ≠ conn := by
        rintro rfl
        exact (h.wired.loops other running hrunning).2 handshake hhandshake hstage
      rw [Function.update_of_ne hother, hrunning]

/-- A control loop ends: in silence where a newer connection has taken over, else with its
session. -/
theorem leave {conn : ConnId} {loop : CtrlLoop} {consent : ConsentState} {wasTrusted : Bool}
    (h : Agrees trace state) (hloop : state.core.loops conn = some loop) :
    Agrees (trace ++ coreActions (state.core.leave conn loop consent wasTrusted).2)
      (after state task (state.core.leave conn loop consent wasTrusted).1
        (state.core.leave conn loop consent wasTrusted).2) := by
  obtain ⟨hloops, -⟩ := leave_rest state.core conn loop consent wasTrusted
  have hsessions : ∀ peer session,
      (state.core.leave conn loop consent wasTrusted).1.sessions peer = some session ↔
        state.core.sessions peer = some session ∧ session.connId ≠ conn :=
    fun _ _ => leave_sessions h.wired hloop
  refine h.core_step (leave_wired h.wired hloop) (fun _ => leave_born) ?_ ?_ ?_ ?_
  · intro peer name other hmem
    rcases leave_events hmem with hclosed | hquiet | ⟨hdown, -⟩
    · cases hclosed
    · exact absurd hquiet id
    · cases hdown
  · intro peer hmem
    rcases leave_events hmem with hclosed | hquiet | ⟨hdown, hover⟩
    · cases hclosed
    · exact absurd hquiet id
    · obtain rfl : peer = loop.peer := by simpa using hdown
      refine Option.eq_none_iff_forall_ne_some.mpr fun session hsession => hover ?_
      obtain ⟨hsession, hother⟩ := (hsessions _ session).mp hsession
      exact ⟨session, hsession, hother⟩
  · intro peer session hsession
    exact .inl (has_self ((hsessions peer session).mp hsession).1)
  · intro peer hbefore
    -- Either the session stays, or another loop of the peer runs, or this loop reports the end.
    by_cases hpeer : peer = loop.peer
    · subst hpeer
      by_cases hover : state.core.Superseded conn loop
      · obtain ⟨newer, hnewer, hother⟩ := hover
        have hkept := (hsessions _ newer).mpr ⟨hnewer, hother⟩
        exact .inl (by rw [hkept]; rfl)
      · exact .inr (.inl (leave_current hover).2.1)
    · rcases hbefore with hsession | ⟨other, running, hrunning, hpeer'⟩
      · obtain ⟨session, hsession⟩ := Option.isSome_iff_exists.mp hsession
        obtain ⟨running, hrunning, hpeer'⟩ := h.wired.sessions peer session hsession
        have hother : session.connId ≠ conn := by
          rintro rfl
          obtain rfl := Option.some.inj (hloop.symm.trans hrunning)
          exact hpeer hpeer'.symm
        have hkept := (hsessions peer session).mpr ⟨hsession, hother⟩
        exact .inl (by rw [hkept]; rfl)
      · have hother : other ≠ conn := by
          rintro rfl
          obtain rfl := Option.some.inj (hloop.symm.trans hrunning)
          exact hpeer hpeer'.symm
        exact .inr (.inr ⟨other, running, by rw [hloops, Function.update_of_ne hother, hrunning],
          hpeer'⟩)

/-- Every step that meets the condition keeps the agreement. -/
theorem step (h : Agrees trace state) {input : ReporterInput} {after : Reporter}
    {emitted : List CoreEvent} (hguard : reportGuard trace state input)
    (hstep : Reporter.step hashCode state input = some (after, emitted)) :
    Agrees (trace ++ emitted) after := by
  cases input with
  | core input =>
    simp only [Reporter.step] at hstep
    obtain ⟨-, hstep⟩ := of_unless hstep
    obtain ⟨⟨next, events⟩, hcore, hresult⟩ := Option.map_eq_some_iff.mp hstep
    obtain ⟨rfl, rfl⟩ := Prod.mk.inj hresult
    rcases step_turn hashCode (own_grant hguard) hcore with
      ⟨conn, handshake, name, -, hhandshake, hstage, hnext⟩ |
        ⟨conn, loop, consent, wasTrusted, -, hloop, hnext⟩ | hsteady
    · obtain rfl : next = _ := congrArg Prod.fst hnext
      obtain rfl : events = _ := congrArg Prod.snd hnext
      exact h.enter hhandshake hstage
    · obtain rfl : next = _ := congrArg Prod.fst hnext
      obtain rfl : events = _ := congrArg Prod.snd hnext
      exact h.leave hloop
    · exact h.steady hsteady
  | send i =>
    simp only [Reporter.step] at hstep
    split at hstep
    · cases hstep
    · next task event hreport =>
      obtain ⟨-, rfl, rfl⟩ := unless_answer hstep
      exact h.send hreport hguard

end Reporter.Agrees

/-- In every run in which reports are sent as `reportGuard` says: a step that ends older
connections leaves every other session in the table and its connection open, and the reports agree
with the table. The last report on a peer whose session was announced is `SessionUp`; and where
the last report is `SessionUp`, the peer has a session, or `SessionDown` is on its way, at the
latest when its loop ends. -/
theorem newer_sessions_survive (hashCode : String → Digest) (config : Config) (trust : TrustStore)
    {inputs : List ReporterInput} {trace : List CoreEvent} {state : Reporter}
    (h : Exec (Reporter.step hashCode) reportGuard (.spawn config trust) inputs trace state) :
    (∀ peer session input next emitted, state.core.sessions peer = some session →
        reportGuard trace state input →
        Reporter.step hashCode state input = some (next, emitted) →
        (∀ coreInput, input = .core coreInput → ¬ state.core.MayEnd peer session coreInput) →
        next.core.Has peer session ∧ .closed session.connId ∉ emitted) ∧
      (∀ peer session, state.core.sessions peer = some session →
        ReportedUp trace peer session.connId → (sessionReports trace peer).getLast? = some true) ∧
      ∀ peer, (sessionReports trace peer).getLast? = some true →
        (state.core.sessions peer).isSome ∨ state.DownPending peer ∨
          ∃ conn loop, state.core.loops conn = some loop ∧ loop.peer = peer := by
  have hagrees : Reporter.Agrees trace state := by
    refine h.invariant (.spawned config trust) ?_
    intro trace state input next emitted hinv hguard hstep
    exact hinv.step hguard hstep
  refine ⟨?_, hagrees.live, hagrees.gone⟩
  intro peer session input next emitted hsession hguard hstep hspared
  cases input with
  | core input =>
    simp only [Reporter.step] at hstep
    obtain ⟨-, hstep⟩ := of_unless hstep
    obtain ⟨⟨core, events⟩, hcore, hresult⟩ := Option.map_eq_some_iff.mp hstep
    obtain ⟨rfl, rfl⟩ := Prod.mk.inj hresult
    obtain ⟨hhas, hopen⟩ := step_spares hashCode hagrees.wired
      (own_grant hguard) hcore hsession (hspared input rfl)
    exact ⟨hhas, fun hmem => hopen (List.mem_of_mem_filter hmem)⟩
  | send i =>
    simp only [Reporter.step] at hstep
    split at hstep
    · cases hstep
    · split at hstep
      · cases hstep
      · obtain ⟨rfl, rfl⟩ := answer_inj hstep
        exact ⟨SessionCore.has_self hsession, by simp⟩

/-- Two devices that trust each other already. -/
def pairedStore : TrustStore :=
  ⟨[{ fingerprint := 7, name := "laptop", aliasName := "", pairedAt := 0, perms := .default }]⟩

/-- The device of the samples reconnects: its first connection says goodbye and its loop ends, and
the second is in the table before the end of the first is reported. -/
def reconnect : List ReporterInput :=
  [.core (.accept 7), .core (.hello 0 "laptop"), .core (.announce 0), .send 0,
    .core (.deliver 0 .goodbye), .core (.advance 0), .core (.advance 0), .core (.accept 7),
    .core (.hello 1 "laptop"), .core (.announce 1)]

/-- The session of the second connection. -/
def secondSession : Session :=
  { connId := 1, pairing := none, peerName := some "laptop", consent := .initiator
    generation := 1 }

/-- Sent in order, the reports agree with the second session. -/
theorem reconnect_reported : ∃ trace state,
    Exec (Reporter.step sampleHash) reportGuard (.spawn sampleConfig pairedStore)
      (reconnect ++ [.send 0, .send 0]) trace state ∧
    state.core.sessions 7 = some secondSession ∧
    sessionReports trace 7 = [true, false, true] ∧
    (sessionReports trace 7).getLast? = some true := by
  have hview : (Machine.run (Reporter.step sampleHash) reportGuard []
      (.spawn sampleConfig pairedStore) (reconnect ++ [.send 0, .send 0])).map
        (fun result => (result.1.core.sessions 7, result.2)) = some (some secondSession,
      [.ui (.sessionUp 7 "laptop" 0), .received 7 0 .goodbye, .ui (.sessionDown 7),
        .ui (.sessionUp 7 "laptop" 1)]) := by decide
  obtain ⟨⟨state, trace⟩, hrun, hseen⟩ := Option.map_eq_some_iff.mp hview
  obtain ⟨hsession, rfl⟩ := Prod.mk.inj hseen
  have hexec := Exec.start.append_run hrun
  exact ⟨_, state, hexec, hsession, by decide,
    (newer_sessions_survive sampleHash sampleConfig pairedStore hexec).2.1 7 secondSession hsession
      ⟨"laptop", by simp [secondSession]⟩⟩

/-- Sent late, the end of the first session is reported while the second is live. -/
theorem stale_down_reported : ¬ ∀ (hashCode : String → Digest) (config : Config)
    (trust : TrustStore) (inputs : List ReporterInput) (trace : List CoreEvent) (state : Reporter),
    Exec (Reporter.step hashCode) Guard.free (.spawn config trust) inputs trace state →
      ∀ peer session, state.core.sessions peer = some session →
        ReportedUp trace peer session.connId → (sessionReports trace peer).getLast? = some true := by
  intro hclaim
  have hview : (Machine.run (Reporter.step sampleHash) Guard.free []
      (.spawn sampleConfig pairedStore) (reconnect ++ [.send 1, .send 0])).map
        (fun result => (result.1.core.sessions 7, result.2)) = some (some secondSession,
      [.ui (.sessionUp 7 "laptop" 0), .received 7 0 .goodbye, .ui (.sessionUp 7 "laptop" 1),
        .ui (.sessionDown 7)]) := by decide
  obtain ⟨⟨state, trace⟩, hrun, hseen⟩ := Option.map_eq_some_iff.mp hview
  obtain ⟨hsession, rfl⟩ := Prod.mk.inj hseen
  have hlast := hclaim sampleHash sampleConfig pairedStore _ _ _ (Exec.start.append_run hrun) 7
    secondSession hsession ⟨"laptop", by simp [secondSession]⟩
  exact absurd hlast (by decide)

end LocalTrans
