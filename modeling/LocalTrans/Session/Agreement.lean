import LocalTrans.Session.Answers

/-!
# What completes a pairing

What makes a side complete a pairing is a positive answer of the peer or a code of the peer that
matched (`Confirms`); from then on the peer is trusted, or lost its trust since, or the completion is
still in progress (`Settled`). `Kept` says so of every run, and that a code that matched was answered
in one go.
-/

namespace LocalTrans

open Foundation

/-- The event completes a pairing with the peer on this side. -/
def CoreEvent.Confirms (peer : Fingerprint) : CoreEvent → Prop
  | .received other _ (.pairResult true) => other = peer
  | .codeJudged other _ _ .matched | .stashJudged other _ _ .matched => other = peer
  | _ => False

/-- What surrounds a positive answer and a code that matched: the code came in, was judged and
answered in one go. -/
def Exchanged (before : List CoreEvent) (event : CoreEvent) (after : List CoreEvent) : Prop :=
  (∀ conn, event = .sent conn (.pairResult true) → ∃ start peer generation code,
    before = start ++ [.received peer conn (.pairCodeSubmit code),
      .codeJudged peer generation code .matched]) ∧
  ∀ peer generation code, event = .codeJudged peer generation code .matched →
    ∃ conn start rest, before = start ++ [.received peer conn (.pairCodeSubmit code)] ∧
      after = .sent conn (.pairResult true) :: rest

namespace SessionCore

/-- The peer is trusted, or was removed since, or its completion is in progress. -/
def Settled (core : SessionCore) (peer : Fingerprint) (after : List CoreEvent) : Prop :=
  core.trust.isTrusted peer = true ∨ .untrusted peer ∈ after ∨ core.Completing peer

/-- What holds of the completions after every step. -/
structure Kept (trace : List CoreEvent) (core : SessionCore) : Prop where
  numbered : ∀ task grant, core.grants task = some grant → task < core.nextGrant
  settled : Throughout (fun _ event after => ∀ peer, event.Confirms peer → core.Settled peer after)
    trace
  origin : ∀ peer, core.Completing peer → ∃ event ∈ trace, event.Confirms peer
  reported : ∀ peer, .ui (.pairingResult peer true none) ∈ trace →
    ∃ event ∈ trace, event.Confirms peer
  exchanged : Throughout Exchanged trace

section Completing

variable {hashCode : String → Digest} {calls : List ControlMsg} {lost : Fingerprint → Prop}
  {core next : SessionCore} {peer other : Fingerprint} {conn : ConnId} {task : Nat}
  {loop written : CtrlLoop} {grant : GrantTask}

/-- Where everything goes on, the same completions are in progress. -/
theorem Continues.completing_iff (h : Continues calls lost core next) :
    next.Completing peer ↔ core.Completing peer := by
  constructor
  · rintro (⟨conn, loop, drained, stage, hloop, rfl, hstage⟩ | ⟨task, grant, stage, hgrant, rfl, hstage⟩)
    · obtain ⟨before, hbefore, hsame⟩ := h.began conn loop hloop
      exact .inl ⟨conn, before, drained, stage, hbefore, hsame.peer.symm,
        (hsame.completing drained stage).mp hstage⟩
    · obtain ⟨before, hbefore, hsame⟩ := h.grants task grant hgrant
      exact .inr ⟨task, before, stage, hbefore, hsame.peer.symm, (hsame.completing stage).mp hstage⟩
  · rintro (⟨conn, loop, drained, stage, hloop, rfl, hstage⟩ | ⟨task, grant, stage, hgrant, rfl, hstage⟩)
    · obtain ⟨after, hafter, hsame⟩ := h.runs conn loop hloop
      exact .inl ⟨conn, after, drained, stage, hafter, hsame.peer,
        (hsame.completing drained stage).mpr hstage⟩
    · obtain ⟨after, hafter, hsame⟩ := h.completing task grant stage hgrant hstage
      exact .inr ⟨task, after, stage, hafter, hsame.peer, (hsame.completing stage).mpr hstage⟩

/-- Only the loops and the grants matter. -/
theorem completing_of_eq (hloops : next.loops = core.loops) (hgrants : next.grants = core.grants) :
    next.Completing peer ↔ core.Completing peer := by
  simp only [Completing, hloops, hgrants]

/-- A loop that completes nothing is written. -/
theorem completing_kept_loop (hloop : ∀ loop, core.loops conn = some loop →
      ∀ drained stage, loop.stage ≠ .completing drained stage) (h : core.Completing peer) :
    (core.setLoop conn (some written)).Completing peer := by
  rcases h with ⟨on, running, drained, stage, hrunning, rfl, hstage⟩ | hgrant
  · have hne : on ≠ conn := by
      rintro rfl
      exact hloop running hrunning drained stage hstage
    exact .inl ⟨on, running, drained, stage,
      by simpa [setLoop, Function.update_of_ne hne] using hrunning, rfl, hstage⟩
  · exact .inr hgrant

/-- A grant that completes nothing is written. -/
theorem completing_kept_grant {later : Option GrantTask} (hgrant : ∀ grant,
      core.grants task = some grant → ∀ stage, grant.stage ≠ .completing stage)
    (h : core.Completing peer) : (core.setGrant task later).Completing peer := by
  rcases h with hloop | ⟨place, running, stage, hrunning, rfl, hstage⟩
  · exact .inl hloop
  · have hne : place ≠ task := by
      rintro rfl
      exact hgrant running hrunning stage hstage
    exact .inr ⟨place, running, stage,
      by simpa [setGrant, Function.update_of_ne hne] using hrunning, rfl, hstage⟩

/-- The grant that is written may be completing now. -/
theorem completing_set_grant {later : Option GrantTask}
    (h : (core.setGrant task later).Completing peer) :
    core.Completing peer ∨ ∃ written, later = some written ∧ written.peer = peer ∧
      ∃ stage, written.stage = .completing stage := by
  rcases h with hloop | ⟨place, running, stage, hrunning, hpeer, hstage⟩
  · exact .inl (.inl hloop)
  · by_cases hsame : place = task
    · subst hsame
      exact .inr ⟨running, by simpa [setGrant] using hrunning, hpeer, stage, hstage⟩
    · exact .inl (.inr ⟨place, running, stage,
        by simpa [setGrant, Function.update_of_ne hsame] using hrunning, hpeer, hstage⟩)

/-- A critical section of a completion leads to another one, or the peer is trusted. -/
theorem complete_pairing_progress {stage : CompleteStage}
    (h : (core.completePairing peer conn stage).2 = none) :
    (core.completePairing peer conn stage).1.1.trust.isTrusted peer = true := by
  cases stage with
  | check =>
    cases htrusted : core.trust.isTrusted peer with
    | true => exact htrusted
    | false => simp [completePairing, htrusted] at h
  | take => cases hsession : core.sessions peer <;> simp [completePairing, hsession] at h
  | store name => exact TrustStore.is_trusted_of_upsert (.inr rfl)

/-- A completion reports only the success of its own peer. -/
theorem complete_pairing_reports {stage : CompleteStage}
    (hmem : .ui (.pairingResult other true none) ∈ (core.completePairing peer conn stage).1.2) :
    other = peer := by
  cases stage with
  | check => simp [completePairing] at hmem
  | take => cases hsession : core.sessions peer <;> simp [completePairing, hsession] at hmem
  | store name => simpa [completePairing] using hmem

end Completing

section Moves

variable {hashCode : String → Digest} {core : SessionCore} {input : CoreInput} {result : CoreStep}
  {peer : Fingerprint} {conn : ConnId} {written : CtrlLoop} {event : CoreEvent}

/-- The loop that is written may be completing now, and no other is that was not. -/
theorem completing_of_set_loop (h : (core.setLoop conn (some written)).Completing peer) :
    core.Completing peer ∨ written.peer = peer ∧
      ∃ drained stage, written.stage = .completing drained stage := by
  rcases h with ⟨on, running, drained, stage, hrunning, rfl, hstage⟩ | hgrant
  · rcases set_loop_some.mp hrunning with ⟨-, rfl⟩ | ⟨-, hbefore⟩
    · exact .inr ⟨rfl, drained, stage, hstage⟩
    · exact .inl (.inl ⟨on, running, drained, stage, hbefore, rfl, hstage⟩)
  · exact .inl (.inr hgrant)

/-- The trust store and what completes after a connection opens, a session is entered, a consent is
given or a loop ends. -/
theorem open_handshake_trust (core : SessionCore) (peer : Fingerprint) (dialed : Bool)
    (address : String) : (core.openHandshake peer dialed address).1.trust = core.trust := by
  unfold openHandshake
  dsimp only
  split <;> rfl

theorem leave_trust (core : SessionCore) (conn : ConnId) (loop : CtrlLoop) (consent : ConsentState)
    (wasTrusted : Bool) : (core.leave conn loop consent wasTrusted).1.trust = core.trust := by
  unfold leave
  dsimp only
  split <;> rfl

/-- A loop that completes goes on until the peer is trusted. -/
theorem completed_holds {loop : CtrlLoop} {drained : Bool} {stage : CompleteStage}
    (hloop : core.loops conn = some loop)
    (hheld : core.trust.isTrusted peer = true ∨ core.Completing peer) :
    let done := core.completePairing loop.peer conn stage
    let next := done.1.1.setLoop conn (some (loop.settled drained done.2))
    next.trust.isTrusted peer = true ∨ next.Completing peer := by
  intro done next
  have hkept : Continues [] (fun _ => False) core done.1.1 := complete_pairing_continues
  have hloops : done.1.1.loops = core.loops := (complete_pairing_kept core loop.peer conn stage).1
  have hgrants : done.1.1.grants = core.grants := (complete_pairing_kept core loop.peer conn stage).2
  rcases hheld with htrusted | ⟨on, running, drained', stage', hrunning, rfl, hcompletes⟩ | hgrant
  · exact .inl ((hkept.trust peer htrusted).resolve_right id)
  · by_cases hsame : on = conn
    · subst hsame
      obtain rfl := Option.some.inj (hloop.symm.trans hrunning)
      cases hnext : done.2 with
      | none => exact .inl (complete_pairing_progress hnext)
      | some following =>
        refine .inr (.inl ⟨on, _, drained, following, Function.update_self _ _ _, rfl, ?_⟩)
        simp only [CtrlLoop.settled, hnext]
    · refine .inr (.inl ⟨on, running, drained', stage', ?_, rfl, hcompletes⟩)
      show Function.update done.1.1.loops conn _ on = some running
      rw [Function.update_of_ne hsame, hloops, hrunning]
  · refine .inr (.inr ?_)
    show ∃ task grant stage, done.1.1.grants task = some grant ∧ _
    rw [hgrants]
    exact hgrant

/-- So does a grant. -/
theorem settled_holds {task : Nat} {grant : GrantTask} {stage : CompleteStage}
    (hgrant : core.grants task = some grant)
    (hheld : core.trust.isTrusted peer = true ∨ core.Completing peer) :
    let done := core.completePairing grant.peer grant.conn stage
    let next := done.1.1.setGrant task (grant.settled done.2)
    next.trust.isTrusted peer = true ∨ next.Completing peer := by
  intro done next
  have hkept : Continues [] (fun _ => False) core done.1.1 := complete_pairing_continues
  have hloops : done.1.1.loops = core.loops :=
    (complete_pairing_kept core grant.peer grant.conn stage).1
  have hgrants : done.1.1.grants = core.grants :=
    (complete_pairing_kept core grant.peer grant.conn stage).2
  rcases hheld with htrusted | hloop | ⟨place, running, stage', hrunning, rfl, hcompletes⟩
  · exact .inl ((hkept.trust peer htrusted).resolve_right id)
  · refine .inr (.inl ?_)
    show ∃ conn loop drained stage, done.1.1.loops conn = some loop ∧ _
    rw [hloops]
    exact hloop
  · by_cases hsame : place = task
    · subst hsame
      obtain rfl := Option.some.inj (hgrant.symm.trans hrunning)
      cases hnext : done.2 with
      | none => exact .inl (complete_pairing_progress hnext)
      | some following =>
        refine .inr (.inr ⟨place, { grant with stage := .completing following }, following, ?_,
          rfl, rfl⟩)
        show Function.update done.1.1.grants place (grant.settled done.2) place = _
        rw [Function.update_self, hnext]
        rfl
    · refine .inr (.inr ⟨place, running, stage', ?_, rfl, hcompletes⟩)
      show Function.update done.1.1.grants task _ place = some running
      rw [Function.update_of_ne hsame, hgrants, hrunning]

/-- A step keeps a trusted peer trusted unless it says otherwise, and a completion in progress until
the peer is trusted. -/
theorem move_holds (h : Move hashCode core input result) (hwired : core.Wired)
    (hnumbered : ∀ task grant, core.grants task = some grant → task < core.nextGrant)
    (hheld : core.trust.isTrusted peer = true ∨ core.Completing peer) :
    result.1.Settled peer result.2 := by
  cases h with
  | calm hcalm =>
    rcases hheld with htrusted | hcompleting
    · exact (hcalm.continues.trust peer htrusted).imp_right .inl
    · exact .inr (.inr (hcalm.continues.completing_iff.mpr hcompleting))
  | heard _ _ _ hcalm =>
    rcases hheld with htrusted | hcompleting
    · exact (hcalm.continues.trust peer htrusted).imp_right fun hlost =>
        .inl (List.mem_cons_of_mem _ hlost)
    · exact .inr (.inr (hcalm.continues.completing_iff.mpr hcompleting))
  | @opened _ opener dialed address _ =>
    obtain ⟨-, hloops, hgrants, -⟩ := open_handshake_rest core opener dialed address
    rcases hheld with htrusted | hcompleting
    · exact .inl ((open_handshake_trust core opener dialed address) ▸ htrusted)
    · exact .inr (.inr ((completing_of_eq hloops hgrants).mpr hcompleting))
  | @entered conn name handshake hhandshake hstage =>
    refine hheld.imp id fun hcompleting => .inr ?_
    -- The connection had no loop yet.
    have hidle : ∀ loop, core.loops conn = some loop →
        ∀ drained stage, loop.stage ≠ .completing drained stage := fun loop hloop =>
      absurd hstage ((hwired.loops conn loop hloop).2 handshake hhandshake)
    exact (completing_of_eq rfl rfl).mp (completing_kept_loop hidle hcompleting)
  | granted hsession hconsent =>
    refine hheld.imp (fun htrusted => ?_) fun hcompleting => .inr ?_
    · simp only [grantConsent, hsession, hconsent]
      exact htrusted
    · simp only [grantConsent, hsession, hconsent]
      have hfree : ∀ grant, core.grants core.nextGrant = some grant →
          ∀ stage, grant.stage ≠ .completing stage := fun grant hgrant =>
        absurd (hnumbered core.nextGrant grant hgrant) (Nat.lt_irrefl _)
      exact (completing_of_eq rfl rfl).mp (completing_kept_grant hfree hcompleting)
  | @judged conn code loop session hloop hstage _ _ =>
    refine hheld.imp id fun hcompleting => .inr (completing_kept_loop ?_ hcompleting)
    intro running hrunning drained stage
    obtain rfl := Option.some.inj (hloop.symm.trans hrunning)
    simp [hstage]
  | @released task code grant session hgrant hstage _ =>
    refine hheld.imp id fun hcompleting => .inr (completing_kept_grant ?_ hcompleting)
    intro running hrunning stage
    obtain rfl := Option.some.inj (hgrant.symm.trans hrunning)
    simp [hstage]
  | confirmed _ hloop hstage =>
    refine hheld.imp id fun hcompleting => .inr (completing_kept_loop ?_ hcompleting)
    intro running hrunning drained stage
    obtain rfl := Option.some.inj (hloop.symm.trans hrunning)
    rcases hstage with hstage | hstage <;> simp [hstage]
  | completed hloop _ => exact (completed_holds hloop hheld).imp_right .inr
  | settled hgrant _ => exact (settled_holds hgrant hheld).imp_right .inr
  | gaveUp hloop hstage =>
    refine hheld.imp id fun hcompleting => .inr (completing_kept_loop ?_ hcompleting)
    intro running hrunning drained stage
    obtain rfl := Option.some.inj (hloop.symm.trans hrunning)
    simp [hstage]
  | @left conn loop consent wasTrusted hloop hstage =>
    obtain ⟨hloops, -, -, hgrants⟩ := leave_rest core conn loop consent wasTrusted
    refine hheld.imp (fun htrusted => ?_) fun hcompleting => .inr ?_
    · rw [leave_trust]
      exact htrusted
    · rcases hcompleting with ⟨on, running, drained, stage, hrunning, rfl, hcompletes⟩ | hgrant
      · have hne : on ≠ conn := by
          rintro rfl
          obtain rfl := Option.some.inj (hloop.symm.trans hrunning)
          simp [hstage] at hcompletes
        exact .inl ⟨on, running, drained, stage,
          by rw [hloops, Function.update_of_ne hne, hrunning], rfl, hcompletes⟩
      · exact .inr (by simpa only [hgrants] using hgrant)

/-- Events of this side alone, and those of a calm step, complete nothing. -/
theorem not_confirms_of_local (h : event.Local) : ¬ event.Confirms peer := by
  cases event with
  | received | codeJudged | stashJudged => exact absurd h id
  | _ => exact id

theorem not_confirms_of_plain (h : event.Plain) : ¬ event.Confirms peer := by
  cases event with
  | received | codeJudged | stashJudged => exact absurd h id
  | _ => exact id

theorem not_confirms_replies {outcome : PairOutcome} (hmem : event ∈ outcome.replies conn) :
    ¬ event.Confirms peer := by
  cases outcome with
  | matched | mismatch =>
    obtain rfl := List.mem_singleton.mp hmem
    exact id
  | failedOut | notPairing => cases hmem

/-- What completes a pairing has begun a completion, or finds the peer trusted. -/
theorem move_confirms (h : Move hashCode core input result) (hmem : event ∈ result.2)
    (hconfirms : event.Confirms peer) :
    result.1.trust.isTrusted peer = true ∨ result.1.Completing peer := by
  cases h with
  | calm hcalm => exact absurd hconfirms (not_confirms_of_plain (hcalm.plain event hmem))
  | @heard _ conn msg loop next events _ hmsg _ hcalm =>
    rcases List.mem_cons.mp hmem with rfl | hmem
    · cases msg with
      | pairResult ok =>
        cases ok with
        | true => exact absurd rfl hmsg
        | false => exact absurd hconfirms id
      | _ => exact absurd hconfirms id
    · exact absurd hconfirms (not_confirms_of_plain (hcalm.plain event hmem))
  | opened _ => exact absurd hconfirms (not_confirms_of_local (open_handshake_local event hmem))
  | entered _ _ => exact absurd hconfirms (not_confirms_of_local (insert_session_local event hmem))
  | granted _ _ => exact absurd hconfirms (not_confirms_of_local (grant_consent_local event hmem))
  | @judged conn code loop session hloop _ _ _ =>
    rcases List.mem_cons.mp hmem with rfl | hmem
    · exact absurd hconfirms id
    · rcases List.mem_cons.mp hmem with rfl | hmem
      · cases houtcome : (judgeCode hashCode session code).2 with
        | matched =>
          rw [houtcome] at hconfirms
          refine .inr (.inl ⟨conn, loop.judged .matched, false, .check, ?_, hconfirms, rfl⟩)
          simp [setLoop]
        | mismatch | failedOut | notPairing =>
          rw [houtcome] at hconfirms
          exact absurd hconfirms id
      · exact absurd hconfirms (not_confirms_replies hmem)
  | @released task code grant session hgrant _ _ =>
    rcases List.mem_cons.mp hmem with rfl | hmem
    · cases houtcome : (judgeCode hashCode session code).2 with
      | matched =>
        rw [houtcome] at hconfirms
        refine .inr (.inr ⟨task, { grant with stage := .completing .check }, .check, ?_,
          hconfirms, rfl⟩)
        simp [setGrant, GrantTask.judged]
      | mismatch | failedOut | notPairing =>
        rw [houtcome] at hconfirms
        exact absurd hconfirms id
    · exact absurd hconfirms (not_confirms_of_local (reports_local event hmem))
  | @confirmed _ conn loop drained _ hloop _ =>
    obtain rfl := List.mem_singleton.mp hmem
    obtain rfl : loop.peer = peer := hconfirms
    cases htrusted : core.trust.isTrusted loop.peer with
    | true => exact .inl htrusted
    | false =>
      refine .inr (.inl ⟨conn, _, drained, .take, Function.update_self _ _ _, rfl, ?_⟩)
      simp [htrusted]
  | completed _ _ => exact absurd hconfirms (not_confirms_of_local (complete_pairing_local event hmem))
  | settled _ _ => exact absurd hconfirms (not_confirms_of_local (complete_pairing_local event hmem))
  | gaveUp _ _ =>
    rcases List.mem_cons.mp hmem with rfl | hmem
    · exact absurd hconfirms id
    · obtain rfl := List.mem_singleton.mp hmem
      exact absurd hconfirms id
  | left _ _ => exact absurd hconfirms (not_confirms_of_local (leave_local event hmem))

/-- A completion that is in progress was so before, or begins with what completes the pairing. -/
theorem move_origin (h : Move hashCode core input result) (hcompleting : result.1.Completing peer) :
    core.Completing peer ∨ ∃ event ∈ result.2, event.Confirms peer := by
  cases h with
  | calm hcalm => exact .inl (hcalm.continues.completing_iff.mp hcompleting)
  | heard _ _ _ hcalm => exact .inl (hcalm.continues.completing_iff.mp hcompleting)
  | @opened _ opener dialed address _ =>
    obtain ⟨-, hloops, hgrants, -⟩ := open_handshake_rest core opener dialed address
    exact .inl ((completing_of_eq hloops hgrants).mp hcompleting)
  | @entered conn name handshake _ _ =>
    have hset := (completing_of_eq (by rfl) (by rfl)).mp hcompleting
    rcases completing_of_set_loop hset with hbefore | ⟨-, drained, stage, hstage⟩
    · exact .inl hbefore
    · cases hstage
  | @granted other drawn deadline pendingCode session hsession hconsent =>
    simp only [grantConsent, hsession, hconsent] at hcompleting
    have hset : (core.setGrant core.nextGrant (some
        ⟨other, session.connId, generatePairCode drawn, .sending⟩)).Completing peer := hcompleting
    rcases completing_set_grant hset with hbefore | ⟨written, hwritten, -, stage, hstage⟩
    · exact .inl hbefore
    · obtain rfl := Option.some.inj hwritten
      cases hstage
  | @judged conn code loop session hloop hstage _ _ =>
    rcases completing_of_set_loop hcompleting with hbefore | ⟨hpeer, drained, stage, hcompletes⟩
    · exact .inl hbefore
    · cases houtcome : (judgeCode hashCode session code).2 with
      | matched =>
        rw [houtcome] at hpeer
        exact .inr ⟨_, List.mem_cons_of_mem _ List.mem_cons_self, hpeer⟩
      | failedOut =>
        rw [houtcome] at hcompletes
        cases hcompletes
      | mismatch | notPairing =>
        rw [houtcome] at hcompletes
        cases hstage.symm.trans hcompletes
  | @released task code grant session hgrant _ _ =>
    rcases completing_set_grant hcompleting with hbefore | ⟨written, hwritten, hpeer, stage, hcompletes⟩
    · exact .inl hbefore
    · cases houtcome : (judgeCode hashCode session code).2 with
      | matched =>
        rw [houtcome] at hwritten
        obtain rfl := Option.some.inj hwritten
        exact .inr ⟨_, List.mem_cons_self, hpeer⟩
      | failedOut =>
        rw [houtcome] at hwritten
        obtain rfl := Option.some.inj hwritten
        cases hcompletes
      | mismatch | notPairing =>
        rw [houtcome] at hwritten
        cases hwritten
  | confirmed _ _ _ =>
    rcases completing_of_set_loop hcompleting with hbefore | ⟨hpeer, -⟩
    · exact .inl hbefore
    · exact .inr ⟨_, List.mem_singleton_self _, hpeer⟩
  | @completed conn loop drained stage hloop hstage =>
    have hkept : Continues [] (fun _ => False) core
        (core.completePairing loop.peer conn stage).1.1 := complete_pairing_continues
    rcases completing_of_set_loop hcompleting with hbefore | ⟨hpeer, -⟩
    · exact .inl (hkept.completing_iff.mp hbefore)
    · exact .inl (.inl ⟨conn, loop, drained, stage, hloop, hpeer, hstage⟩)
  | @settled task grant stage hgrant hstage =>
    have hkept : Continues [] (fun _ => False) core
        (core.completePairing grant.peer grant.conn stage).1.1 := complete_pairing_continues
    rcases completing_set_grant hcompleting with hbefore | ⟨written, hwritten, hpeer, -⟩
    · exact .inl (hkept.completing_iff.mp hbefore)
    · obtain ⟨following, -, rfl⟩ := Option.map_eq_some_iff.mp hwritten
      exact .inl (.inr ⟨task, grant, stage, hgrant, hpeer, hstage⟩)
  | gaveUp _ _ =>
    rcases completing_of_set_loop hcompleting with hbefore | ⟨-, drained, stage, hcompletes⟩
    · exact .inl ((completing_of_eq (by rfl) (by rfl)).mp hbefore)
    · cases hcompletes
  | @left conn loop consent wasTrusted _ _ =>
    obtain ⟨hloops, -, -, hgrants⟩ := leave_rest core conn loop consent wasTrusted
    rcases hcompleting with ⟨on, running, drained, stage, hrunning, rfl, hstage⟩ | hgrant
    · rw [hloops] at hrunning
      by_cases hsame : on = conn
      · simp [hsame] at hrunning
      · rw [Function.update_of_ne hsame] at hrunning
        exact .inl (.inl ⟨on, running, drained, stage, hrunning, rfl, hstage⟩)
    · exact .inl (.inr (by simpa only [hgrants] using hgrant))

/-- Only a completion reports a success. -/
theorem move_reports (h : Move hashCode core input result)
    (hmem : .ui (.pairingResult peer true none) ∈ result.2) : core.Completing peer := by
  cases h with
  | calm hcalm => exact absurd (hcalm.plain _ hmem) id
  | heard _ _ _ hcalm =>
    exact absurd (hcalm.plain _ (List.mem_of_ne_of_mem (by simp) hmem)) id
  | opened _ =>
    unfold openHandshake at hmem
    dsimp only at hmem
    split at hmem
    · simp at hmem
    · dsimp only at hmem
      split at hmem <;> simp at hmem
  | entered _ _ =>
    unfold insertSession at hmem
    dsimp only at hmem
    split at hmem <;> simp at hmem
  | granted hsession hconsent => simp [grantConsent, hsession, hconsent] at hmem
  | @judged conn code loop session _ _ _ _ =>
    cases houtcome : (judgeCode hashCode session code).2 <;>
      simp [houtcome, PairOutcome.replies] at hmem
  | @released task code grant session _ _ _ =>
    cases houtcome : (judgeCode hashCode session code).2 <;>
      simp [houtcome, PairOutcome.reports] at hmem
  | confirmed _ _ _ => simp at hmem
  | @completed conn loop drained stage hloop hstage =>
    rw [complete_pairing_reports hmem]
    exact .inl ⟨conn, loop, drained, stage, hloop, rfl, hstage⟩
  | @settled task grant stage hgrant hstage =>
    rw [complete_pairing_reports hmem]
    exact .inr ⟨task, grant, stage, hgrant, rfl, hstage⟩
  | gaveUp _ _ => simp at hmem
  | left _ _ =>
    unfold leave at hmem
    dsimp only at hmem
    split at hmem
    · dsimp only at hmem
      split at hmem <;> simp at hmem
    · dsimp only at hmem
      split at hmem <;> split at hmem <;> simp at hmem

/-- A code that matches is answered in one go, and nothing else is a positive answer. -/
theorem move_exchanged {trace : List CoreEvent} (h : Move hashCode core input result)
    (houtbox : ∀ conn loop, core.loops conn = some loop → ∀ msg ∈ loop.outbox,
      msg.isPairResult = false) :
    Throughout (fun between => Exchanged (trace ++ between)) result.2 := by
  -- Where nothing is judged or answered there is nothing to show.
  have hsilent : ∀ events : List CoreEvent, (∀ event ∈ events, event.NotJudged) →
      (∀ conn, .sent conn (.pairResult true) ∉ events) →
      Throughout (fun between => Exchanged (trace ++ between)) events := by
    intro events hjudged hsent between event rest hsplit
    refine ⟨fun conn hevent => ?_, fun peer generation code hevent => ?_⟩
    · exact absurd (by simp [hsplit, hevent]) (hsent conn)
    · have hmem : event ∈ events := by simp [hsplit]
      exact absurd (hjudged event hmem) (by rw [hevent]; exact id)
  have hlocal : ∀ events : List CoreEvent, (∀ event ∈ events, event.Local) →
      Throughout (fun between => Exchanged (trace ++ between)) events :=
    fun events hevents => hsilent events (local_unanswered hevents).1
      fun conn hmem => absurd (hevents _ hmem) id
  have hcalmly : ∀ {calls next} (events : List CoreEvent), core.Calm calls next events →
      (∀ event ∈ events, event.NotJudged) ∧ ∀ conn, .sent conn (.pairResult true) ∉ events := by
    intro calls next events hcalm
    refine ⟨(calm_unanswered hcalm houtbox).1, fun conn hmem => ?_⟩
    obtain ⟨loop, hloop, hqueued⟩ := hcalm.sent conn _ hmem
    cases houtbox conn loop hloop _ hqueued
  cases h with
  | calm hcalm => exact hsilent _ (hcalmly _ hcalm).1 (hcalmly _ hcalm).2
  | heard _ _ _ hcalm =>
    obtain ⟨hjudged, hsent⟩ := hcalmly _ hcalm
    refine hsilent _ ?_ fun conn hmem => hsent conn (List.mem_of_ne_of_mem (by simp) hmem)
    intro event hmem
    rcases List.mem_cons.mp hmem with rfl | hmem
    · trivial
    · exact hjudged event hmem
  | opened _ => exact hlocal _ open_handshake_local
  | entered _ _ => exact hlocal _ insert_session_local
  | granted _ _ => exact hlocal _ grant_consent_local
  | @judged conn code loop session _ _ _ _ =>
    refine throughout_cons.mpr ⟨by simp [Exchanged], throughout_cons.mpr ⟨?_, ?_⟩⟩
    · refine ⟨by simp, fun peer generation given hevent => ?_⟩
      obtain ⟨rfl, rfl, rfl, hout⟩ : loop.peer = peer ∧ session.generation = generation ∧
          code = given ∧ (judgeCode hashCode session code).2 = .matched := by
        simpa using hevent
      exact ⟨conn, trace, [], rfl, by rw [hout]; rfl⟩
    · cases houtcome : (judgeCode hashCode session code).2 with
      | matched =>
        refine throughout_cons.mpr ⟨⟨fun on hon => ?_, by simp⟩, throughout_nil⟩
        obtain rfl : conn = on := by simpa using hon
        exact ⟨trace, loop.peer, session.generation, code, rfl⟩
      | mismatch => exact throughout_cons.mpr ⟨by simp [Exchanged], throughout_nil⟩
      | failedOut | notPairing => exact throughout_nil
  | released _ _ _ =>
    refine throughout_cons.mpr ⟨by simp [Exchanged], ?_⟩
    intro between event rest hsplit
    have hmem : event ∈ between ++ event :: rest := by simp
    have hevent : event.Local := reports_local event (hsplit ▸ hmem)
    refine ⟨fun conn hsent => ?_, fun peer generation code hjudged => ?_⟩
    · rw [hsent] at hevent
      exact absurd hevent id
    · rw [hjudged] at hevent
      exact absurd hevent id
  | confirmed _ _ _ => exact hsilent _ (by simp [CoreEvent.NotJudged]) (by simp)
  | completed _ _ => exact hlocal _ complete_pairing_local
  | settled _ _ => exact hlocal _ complete_pairing_local
  | gaveUp _ _ => exact hsilent _ (by simp [CoreEvent.NotJudged]) (by simp)
  | left _ _ => exact hlocal _ leave_local

/-- The grants stay below the next one. -/
theorem move_numbered (h : Move hashCode core input result)
    (hnumbered : ∀ task grant, core.grants task = some grant → task < core.nextGrant) :
    ∀ task grant, result.1.grants task = some grant → task < result.1.nextGrant := by
  have hcontinues : ∀ {calls lost next}, Continues calls lost core next →
      ∀ task grant, next.grants task = some grant → task < next.nextGrant := by
    intro calls lost next hgoes task grant hgrant
    obtain ⟨before, hbefore, -⟩ := hgoes.grants task grant hgrant
    rw [hgoes.counters.2.2]
    exact hnumbered task before hbefore
  -- A grant is written in its own place.
  have hwritten : ∀ {place : Nat} {running : GrantTask} {later : Option GrantTask},
      core.grants place = some running → ∀ task grant,
        Function.update core.grants place later task = some grant → task < core.nextGrant := by
    intro place running later hrunning task grant hgrant
    by_cases hsame : task = place
    · exact hsame ▸ hnumbered place running hrunning
    · exact hnumbered task grant (by simpa [Function.update_of_ne hsame] using hgrant)
  cases h with
  | calm hcalm => exact hcontinues hcalm.continues
  | heard _ _ _ hcalm => exact hcontinues hcalm.continues
  | @opened _ opener dialed address _ =>
    rw [(open_handshake_rest core opener dialed address).2.2.1]
    unfold openHandshake
    dsimp only
    split <;> exact hnumbered
  | granted hsession hconsent =>
    simp only [grantConsent, hsession, hconsent]
    intro task grant hgrant
    by_cases hsame : task = core.nextGrant
    · exact hsame ▸ Nat.lt_succ_self _
    · have hold : core.grants task = some grant := by
        simpa [setGrant, setSession, Function.update_of_ne hsame] using hgrant
      exact Nat.lt_succ_of_lt (hnumbered task grant hold)
  | released hgrant _ _ => exact hwritten hgrant
  | @completed conn loop drained stage _ _ =>
    have hkept : Continues [] (fun _ => False) core
        (core.completePairing loop.peer conn stage).1.1 := complete_pairing_continues
    intro task grant hgrant
    exact hcontinues hkept task grant hgrant
  | @settled task grant stage hgrant _ =>
    have hkept : Continues [] (fun _ => False) core
        (core.completePairing grant.peer grant.conn stage).1.1 := complete_pairing_continues
    obtain ⟨-, -, hnext⟩ := hkept.counters
    show ∀ place running, Function.update
      (core.completePairing grant.peer grant.conn stage).1.1.grants task _ place = some running →
        place < (core.completePairing grant.peer grant.conn stage).1.1.nextGrant
    rw [(complete_pairing_kept core grant.peer grant.conn stage).2, hnext]
    exact hwritten hgrant
  | @left conn loop consent wasTrusted _ _ =>
    rw [(leave_rest core conn loop consent wasTrusted).2.2.2]
    unfold leave
    dsimp only
    split <;> exact hnumbered
  | entered _ _ | judged _ _ _ _ | confirmed _ _ _ | gaveUp _ _ => exact hnumbered

end Moves

section Kept

variable {hashCode : String → Digest} {core : SessionCore} {input : CoreInput} {result : CoreStep}
  {trace : List CoreEvent}

/-- Every step keeps the completions and what is said of them. -/
theorem Kept.step (h : Kept trace core) (hanswered : Answered trace core)
    (hstep : core.step hashCode input = some result) : Kept (trace ++ result.2) result.1 := by
  have hmove := step_move hashCode hstep
  refine ⟨move_numbered hmove h.numbered, ?_, ?_, ?_, ?_⟩
  · refine h.settled.append ?_ ?_
    · intro start event rest hsettled peer hconfirms
      rcases hsettled peer hconfirms with htrusted | huntrusted | hcompleting
      · rcases move_holds hmove hanswered.wired h.numbered (.inl htrusted) with
          hnow | hlost | hstill
        · exact .inl hnow
        · exact .inr (.inl (List.mem_append_right _ hlost))
        · exact .inr (.inr hstill)
      · exact .inr (.inl (List.mem_append_left _ huntrusted))
      · rcases move_holds hmove hanswered.wired h.numbered (.inr hcompleting) with
          hnow | hlost | hstill
        · exact .inl hnow
        · exact .inr (.inl (List.mem_append_right _ hlost))
        · exact .inr (.inr hstill)
    · intro between event rest hsplit peer hconfirms
      exact (move_confirms hmove (by simp [hsplit]) hconfirms).imp_right .inr
  · intro peer hcompleting
    rcases move_origin hmove hcompleting with hbefore | ⟨event, hmem, hconfirms⟩
    · obtain ⟨event, hmem, hconfirms⟩ := h.origin peer hbefore
      exact ⟨event, List.mem_append_left _ hmem, hconfirms⟩
    · exact ⟨event, List.mem_append_right _ hmem, hconfirms⟩
  · intro peer hmem
    rcases List.mem_append.mp hmem with hbefore | hnow
    · obtain ⟨event, hmem, hconfirms⟩ := h.reported peer hbefore
      exact ⟨event, List.mem_append_left _ hmem, hconfirms⟩
    · obtain ⟨event, hmem, hconfirms⟩ := h.origin peer (move_reports hmove hnow)
      exact ⟨event, List.mem_append_left _ hmem, hconfirms⟩
  · refine h.exchanged.append ?_ (move_exchanged hmove hanswered.outbox)
    rintro start event rest ⟨hsent, hjudged⟩
    refine ⟨hsent, fun peer generation code hevent => ?_⟩
    obtain ⟨conn, before, after, hbefore, hafter⟩ := hjudged peer generation code hevent
    exact ⟨conn, before, after ++ result.2, hbefore, by simp [hafter]⟩

/-- The sessions begin with nothing to complete. -/
theorem kept_spawn (config : Config) (trust : TrustStore) : Kept [] (spawn config trust) := by
  refine ⟨?_, throughout_nil, ?_, ?_, throughout_nil⟩
  · intro task grant h
    cases h
  · rintro peer (⟨conn, loop, drained, stage, hloop, -⟩ | ⟨task, grant, stage, hgrant, -⟩)
    · cases hloop
    · cases hgrant
  · intro peer hmem
    cases hmem

/-- The invariants of a run whose callers answer no code. -/
theorem kept_run {config : Config} {trust : TrustStore} {inputs : List CoreInput}
    {last : SessionCore}
    (h : Exec (SessionCore.step hashCode) plainCalls (spawn config trust) inputs trace last) :
    Answered trace last ∧ Kept trace last := by
  induction h with
  | start => exact ⟨answered_spawn config trust, kept_spawn config trust⟩
  | step _ hguard hnext ih => exact ⟨ih.1.step hguard hnext, ih.2.step ih.1 hnext⟩

end Kept

end SessionCore

end LocalTrans
