import LocalTrans.Session.Moves

/-!
# Answers to a pairing code

`verdictsOn` lists the verdicts on the codes that a connection brought, `answersOn` the answers that
went out on it. `Answered` keeps the two equal but for the answer that a loop which gives up still
owes, and `TornDown` follows that loop to its end.
-/

namespace LocalTrans

open Foundation

/-- The answer that belongs to a verdict. -/
def PairOutcome.answer : PairOutcome → Option Bool
  | .matched => some true
  | .mismatch | .failedOut => some false
  | .notPairing => none

/-- The answer that an event sends on a connection. -/
def CoreEvent.answerOn (conn : ConnId) : CoreEvent → Option Bool
  | .sent on (.pairResult ok) => if on = conn then some ok else none
  | _ => none

section Histories

variable (conn : ConnId)

/-- The verdicts on the codes that came in on a connection, as the answers that belong to them. -/
def verdictsOn : List CoreEvent → List Bool
  | .received _ on (.pairCodeSubmit _) :: .codeJudged _ _ _ outcome :: rest =>
    (if on = conn then outcome.answer.toList else []) ++ verdictsOn rest
  | _ :: rest => verdictsOn rest
  | [] => []

/-- The answers that went out on a connection. -/
def answersOn (trace : List CoreEvent) : List Bool :=
  trace.filterMap (CoreEvent.answerOn conn)

end Histories

/-- An event that is no verdict of a control loop. -/
def CoreEvent.NotJudged : CoreEvent → Prop
  | .codeJudged .. => False
  | _ => True

section Histories

variable {conn : ConnId} {before after trace : List CoreEvent}

@[simp] theorem answers_on_append :
    answersOn conn (before ++ after) = answersOn conn before ++ answersOn conn after := by
  simp [answersOn]

@[simp] theorem answers_on_cons {event : CoreEvent} :
    answersOn conn (event :: trace) = (event.answerOn conn).toList ++ answersOn conn trace := by
  unfold answersOn
  rw [List.filterMap_cons]
  cases event.answerOn conn <;> rfl

@[simp] theorem answers_on_nil : answersOn conn [] = [] := rfl

/-- A history that does not begin with a verdict adds its own. -/
theorem verdicts_on_append (h : ∀ event ∈ after.head?, event.NotJudged) :
    verdictsOn conn (before ++ after) = verdictsOn conn before ++ verdictsOn conn after := by
  fun_induction verdictsOn conn before with
  | case1 peer on code peer' generation code' outcome rest ih =>
    simp [verdictsOn, ih]
  | case2 event rest hother ih =>
    rw [List.cons_append, verdictsOn]
    · exact ih
    · intro peer on code peer' generation code' outcome tail hevent htail
      cases rest with
      | nil =>
        obtain rfl : after = _ := htail
        exact h (.codeJudged peer' generation code' outcome) (by simp)
      | cons next others =>
        obtain ⟨rfl, -⟩ : next = _ ∧ others ++ after = tail := by simpa using htail
        exact hother peer on code peer' generation code' outcome others hevent rfl
  | case3 => rfl

theorem verdicts_on_silent (h : ∀ event ∈ trace, event.NotJudged) : verdictsOn conn trace = [] := by
  fun_induction verdictsOn conn trace with
  | case1 peer on code peer' generation code' outcome rest ih =>
    exact absurd (h (.codeJudged peer' generation code' outcome) (by simp)) id
  | case2 event rest hother ih => exact ih fun other hmem => h other (by simp [hmem])
  | case3 => rfl

end Histories

namespace SessionCore

/-- The answer that a loop which gives up still owes. -/
def pendingAnswer (core : SessionCore) (conn : ConnId) : List Bool :=
  match core.loops conn with
  | some loop => if loop.stage = .failing then [false] else []
  | none => []

/-- The condition on the callers of `send_ctrl`: none of them answers a code. -/
def plainCalls : Guard SessionCore CoreInput CoreEvent := fun _ _ input =>
  (input.calls.all fun msg => !msg.isPairResult) = true
deriving Decidable

/-- The loop that gave up is on its way to its end, or it has closed its connection and no session
is on it. -/
def TornDown (core : SessionCore) (peer : Fingerprint) (conn : ConnId) (after : List CoreEvent) :
    Prop :=
  (∃ loop, core.loops conn = some loop ∧ loop.peer = peer ∧ loop.failed = true ∧
      ¬ loop.stage.Serving) ∨
    .closed conn ∈ after ∧ core.loops conn = none ∧ core.Born conn

/-- A code that fails the pairing out came in on a connection that is torn down. -/
def FailsOut (core : SessionCore) (before : List CoreEvent) (event : CoreEvent)
    (after : List CoreEvent) : Prop :=
  ∀ peer generation code, event = .codeJudged peer generation code .failedOut →
    ∃ conn, before.getLast? = some (.received peer conn (.pairCodeSubmit code)) ∧
      core.TornDown peer conn after

/-- What holds of the answers after every step. -/
structure Answered (trace : List CoreEvent) (core : SessionCore) : Prop where
  wired : core.Wired
  outbox : ∀ conn loop, core.loops conn = some loop → ∀ msg ∈ loop.outbox,
    msg.isPairResult = false
  answered : ∀ conn, verdictsOn conn trace = answersOn conn trace ++ core.pendingAnswer conn
  torn : Throughout core.FailsOut trace

section Loops

variable {hashCode : String → Digest} {calls : List ControlMsg} {lost : Fingerprint → Prop}
  {core next : SessionCore} {input : CoreInput} {result : CoreStep} {peer : Fingerprint}
  {conn other : ConnId} {loop written found : CtrlLoop} {after : List CoreEvent}

/-- What runs after one loop was written. -/
theorem set_loop_some : (core.setLoop conn (some written)).loops other = some found ↔
    other = conn ∧ written = found ∨ other ≠ conn ∧ core.loops other = some found := by
  by_cases hsame : other = conn
  · subst hsame
    simp [setLoop]
  · simp [setLoop, hsame]

theorem pending_set_loop : (core.setLoop conn (some written)).pendingAnswer other =
    if other = conn then if written.stage = .failing then [false] else []
    else core.pendingAnswer other := by
  by_cases hsame : other = conn
  · subst hsame
    simp [pendingAnswer, setLoop]
  · simp [pendingAnswer, setLoop, hsame]

theorem pending_of_loop (h : core.loops conn = some loop) :
    core.pendingAnswer conn = if loop.stage = .failing then [false] else [] := by
  simp only [pendingAnswer, h]

/-- Where the loops go on, the same answers are owed. -/
theorem Continues.pending (h : Continues calls lost core next) :
    next.pendingAnswer conn = core.pendingAnswer conn := by
  cases hloop : core.loops conn with
  | some loop =>
    obtain ⟨later, hlater, hsame⟩ := h.runs conn loop hloop
    rw [pending_of_loop hlater, pending_of_loop hloop]
    exact if_congr hsame.failing rfl rfl
  | none =>
    have hnone : next.loops conn = none := by
      by_contra hsome
      obtain ⟨found, hfound⟩ := Option.ne_none_iff_exists'.mp hsome
      obtain ⟨before, hbefore, -⟩ := h.began conn found hfound
      rw [hloop] at hbefore
      cases hbefore
    simp only [pendingAnswer, hloop, hnone]

/-- A loop that neither gives up nor gave up is written. -/
theorem pending_set_loop_same (hloop : core.loops conn = some loop)
    (hbefore : loop.stage ≠ .failing) (hafter : written.stage ≠ .failing) :
    (core.setLoop conn (some written)).pendingAnswer other = core.pendingAnswer other := by
  rw [pending_set_loop]
  split
  · next hsame => simp [hsame, pending_of_loop hloop, hbefore]
  · rfl

/-- A loop that runs after a move ran before, or begins on a connection that waited for it. What it
has queued was queued before, is no answer, or was handed in by a caller. -/
theorem move_loops (h : Move hashCode core input result)
    (hfound : result.1.loops other = some found) :
    (∃ before, core.loops other = some before ∧ found.peer = before.peer ∧
      ∀ msg ∈ found.outbox, msg ∈ before.outbox ∨ msg.isPairResult = false ∨ msg ∈ input.calls) ∨
      ∃ handshake, core.handshakes other = some handshake ∧ found.peer = handshake.peer ∧
        found.outbox = [] := by
  have hkept : ∀ running, core.loops other = some running → running = found →
      ∃ before, core.loops other = some before ∧ found.peer = before.peer ∧
        ∀ msg ∈ found.outbox, msg ∈ before.outbox ∨ msg.isPairResult = false ∨
          msg ∈ input.calls := by
    rintro running hrunning rfl
    exact ⟨running, hrunning, rfl, fun _ hmem => .inl hmem⟩
  -- A loop that was written with the peer and the queue it had.
  have hwritten : ∀ {place : ConnId} {running written : CtrlLoop},
      core.loops place = some running → written.peer = running.peer →
      written.outbox = running.outbox →
      (core.setLoop place (some written)).loops other = some found →
      ∃ before, core.loops other = some before ∧ found.peer = before.peer ∧
        ∀ msg ∈ found.outbox, msg ∈ before.outbox ∨ msg.isPairResult = false ∨
          msg ∈ input.calls := by
    intro place running written hrunning hpeer hqueue hset
    rcases set_loop_some.mp hset with ⟨rfl, rfl⟩ | ⟨-, hbefore⟩
    · exact ⟨running, hrunning, hpeer, fun _ hmem => .inl (hqueue ▸ hmem)⟩
    · exact hkept found hbefore rfl
  cases h with
  | calm hcalm =>
    obtain ⟨before, hbefore, hsame⟩ := hcalm.continues.began other found hfound
    exact .inl ⟨before, hbefore, hsame.peer, hsame.outbox⟩
  | heard _ _ _ hcalm =>
    obtain ⟨before, hbefore, hsame⟩ := hcalm.continues.began other found hfound
    refine .inl ⟨before, hbefore, hsame.peer, fun msg hmem => ?_⟩
    exact (hsame.outbox msg hmem).imp_right fun hrest => .inl (hrest.resolve_right (by simp))
  | @opened _ peer dialed address _ =>
    rw [(open_handshake_rest core peer dialed address).2.1] at hfound
    exact .inl (hkept found hfound rfl)
  | @entered conn name handshake hhandshake hstage =>
    rcases set_loop_some.mp hfound with ⟨rfl, rfl⟩ | ⟨-, hbefore⟩
    · exact .inr ⟨handshake, hhandshake, rfl, rfl⟩
    · exact .inl (hkept found hbefore rfl)
  | granted hsession hconsent =>
    simp only [grantConsent, hsession, hconsent] at hfound
    exact .inl (hkept found hfound rfl)
  | @judged conn code loop session hloop _ _ _ =>
    have hpeer : (loop.judged (judgeCode hashCode session code).2).peer = loop.peer := by
      cases (judgeCode hashCode session code).2 <;> rfl
    have hqueue : (loop.judged (judgeCode hashCode session code).2).outbox = loop.outbox := by
      cases (judgeCode hashCode session code).2 <;> rfl
    exact .inl (hwritten hloop hpeer hqueue hfound)
  | released _ _ _ => exact .inl (hkept found hfound rfl)
  | confirmed _ hloop _ => exact .inl (hwritten hloop (by rfl) (by rfl) hfound)
  | @completed conn loop drained stage hloop _ =>
    rcases set_loop_some.mp hfound with ⟨rfl, rfl⟩ | ⟨-, hbefore⟩
    · exact .inl ⟨loop, hloop, rfl, fun _ hmem => .inl hmem⟩
    · rw [(complete_pairing_kept core loop.peer conn stage).1] at hbefore
      exact .inl (hkept found hbefore rfl)
  | @settled task grant stage _ _ =>
    have hsame := (complete_pairing_kept core grant.peer grant.conn stage).1
    exact .inl (hkept found (hsame ▸ hfound) rfl)
  | gaveUp hloop _ => exact .inl (hwritten hloop (by rfl) (by rfl) hfound)
  | @left conn loop consent wasTrusted _ _ =>
    rw [(leave_rest core conn loop consent wasTrusted).1] at hfound
    by_cases hsame : other = conn
    · simp [hsame] at hfound
    · rw [Function.update_of_ne hsame] at hfound
      exact .inl (hkept found hfound rfl)

end Loops

section Answers

variable {hashCode : String → Digest} {core : SessionCore} {input : CoreInput} {result : CoreStep}
  {trace events : List CoreEvent} {conn : ConnId} {loop : CtrlLoop}

/-- Events of this side alone neither judge nor answer a submitted code. -/
theorem local_unanswered (h : ∀ event ∈ events, event.Local) :
    (∀ event ∈ events, event.NotJudged) ∧ ∀ conn, answersOn conn events = [] := by
  refine ⟨?_, ?_⟩
  · intro event hmem
    have hlocal := h event hmem
    cases event with
    | codeJudged => exact absurd hlocal id
    | _ => trivial
  · intro conn
    refine List.filterMap_eq_nil_iff.mpr fun event hmem => ?_
    have hlocal := h event hmem
    cases event with
    | sent => exact absurd hlocal id
    | _ => rfl

/-- So do the events of a calm step, as no loop has queued an answer. -/
theorem calm_unanswered {calls : List ControlMsg} {next : SessionCore}
    (h : core.Calm calls next events)
    (houtbox : ∀ conn loop, core.loops conn = some loop → ∀ msg ∈ loop.outbox,
      msg.isPairResult = false) :
    (∀ event ∈ events, event.NotJudged) ∧ ∀ conn, answersOn conn events = [] := by
  refine ⟨?_, ?_⟩
  · intro event hmem
    have hplain := h.plain event hmem
    cases event with
    | codeJudged => exact absurd hplain id
    | _ => trivial
  · intro conn
    refine List.filterMap_eq_nil_iff.mpr fun event hmem => ?_
    cases event with
    | sent on msg =>
      obtain ⟨loop, hloop, hqueued⟩ := h.sent on msg hmem
      have hplain := houtbox on loop hloop msg hqueued
      cases msg with
      | pairResult ok => cases hplain
      | _ => rfl
    | _ => rfl

/-- A step on which no code is judged or answered keeps what is owed. -/
theorem Answered.unanswered (h : Answered trace core)
    (hevents : (∀ event ∈ events, event.NotJudged) ∧ ∀ conn, answersOn conn events = [])
    {next : SessionCore} (hpending : next.pendingAnswer conn = core.pendingAnswer conn) :
    verdictsOn conn (trace ++ events) =
      answersOn conn (trace ++ events) ++ next.pendingAnswer conn := by
  have hhead : ∀ event ∈ events.head?, event.NotJudged :=
    fun event hmem => hevents.1 event (List.mem_of_mem_head? hmem)
  rw [verdicts_on_append hhead, verdicts_on_silent hevents.1, answers_on_append, hevents.2,
    hpending, h.answered]
  simp

/-- Every verdict of a loop goes out with its answer, or leaves it to the end of the loop. -/
theorem Answered.verdict {session : Session} {code : String} (h : Answered trace core)
    (hloop : core.loops conn = some loop) (hstage : loop.stage = .reading) (other : ConnId) :
    let outcome := (judgeCode hashCode session code).2
    let events := CoreEvent.received loop.peer conn (.pairCodeSubmit code) ::
      .codeJudged loop.peer session.generation code outcome :: outcome.replies conn
    verdictsOn other (trace ++ events) = answersOn other (trace ++ events) ++
      ((core.setSession loop.peer (some (judgeCode hashCode session code).1)).setLoop conn
        (some (loop.judged outcome))).pendingAnswer other := by
  intro outcome events
  have hsame : ∀ on, (core.setSession loop.peer
      (some (judgeCode hashCode session code).1)).pendingAnswer on = core.pendingAnswer on :=
    fun _ => rfl
  have hhead : ∀ event ∈ events.head?, event.NotJudged := by
    intro event hmem
    obtain rfl : CoreEvent.received loop.peer conn (.pairCodeSubmit code) = event := by
      simpa [events] using hmem
    trivial
  have hnone : core.pendingAnswer conn = [] := by
    rw [pending_of_loop hloop, if_neg (by simp [hstage])]
  have hreplies : verdictsOn other (outcome.replies conn) = [] := by
    cases outcome <;> rfl
  rw [verdicts_on_append hhead, answers_on_append, h.answered, pending_set_loop, hsame]
  by_cases hon : other = conn
  · subst hon
    rw [hnone]
    simp only [events, verdictsOn, hreplies, List.append_nil, if_true]
    cases outcome <;>
      simp [PairOutcome.answer, PairOutcome.replies, CtrlLoop.judged, CoreEvent.answerOn, hstage]
  · have hon' : conn ≠ other := fun hsame => hon hsame.symm
    simp only [events, verdictsOn, hreplies, if_neg hon, if_neg hon']
    cases outcome <;> simp [PairOutcome.replies, CoreEvent.answerOn, hon']

/-- Every step whose caller answers no code keeps what is owed. -/
theorem Answered.next (h : Answered trace core) (hstep : core.step hashCode input = some result) :
    ∀ conn, verdictsOn conn (trace ++ result.2) =
      answersOn conn (trace ++ result.2) ++ result.1.pendingAnswer conn := by
  intro on
  cases step_move hashCode hstep with
  | calm hcalm =>
    exact h.unanswered (calm_unanswered hcalm h.outbox) hcalm.continues.pending
  | @heard _ conn msg loop next events _ hmsg _ hcalm =>
    obtain ⟨hjudged, hanswers⟩ := calm_unanswered hcalm h.outbox
    refine h.unanswered ⟨?_, fun conn => ?_⟩ hcalm.continues.pending
    · intro event hmem
      rcases List.mem_cons.mp hmem with rfl | hmem
      · trivial
      · exact hjudged event hmem
    · simpa [CoreEvent.answerOn] using hanswers conn
  | @opened _ peer dialed address _ =>
    refine h.unanswered (local_unanswered open_handshake_local) ?_
    simp only [pendingAnswer, (open_handshake_rest core peer dialed address).2.1]
  | @entered conn name handshake hhandshake hstage =>
    refine h.unanswered (local_unanswered insert_session_local) ?_
    -- The connection had no loop yet, and its new one has nothing to answer.
    have hnone : core.loops conn = none := by
      by_contra hsome
      obtain ⟨running, hrunning⟩ := Option.ne_none_iff_exists'.mp hsome
      exact (h.wired.loops conn running hrunning).2 handshake hhandshake hstage
    by_cases hon : on = conn
    · subst hon
      simp [pendingAnswer, hnone, insertSession, setLoop]
    · simp [pendingAnswer, insertSession, setLoop, setSession, hon]
  | granted hsession hconsent =>
    refine h.unanswered (local_unanswered grant_consent_local) ?_
    simp only [grantConsent, hsession, hconsent]
    rfl
  | judged hloop hstage _ _ => exact h.verdict hloop hstage on
  | @released task code grant session _ _ _ =>
    have hreports : ∀ event ∈ (judgeCode hashCode session code).2.reports grant.peer,
        event.Local := reports_local
    obtain ⟨hjudged, hanswers⟩ := local_unanswered hreports
    refine h.unanswered ⟨?_, fun conn => ?_⟩ rfl
    · intro event hmem
      rcases List.mem_cons.mp hmem with rfl | hmem
      · trivial
      · exact hjudged event hmem
    · simpa [CoreEvent.answerOn] using hanswers conn
  | confirmed _ hloop hstage =>
    refine h.unanswered ⟨by simp [CoreEvent.NotJudged], fun _ => rfl⟩ ?_
    refine pending_set_loop_same hloop (by rcases hstage with hstage | hstage <;> simp [hstage]) ?_
    dsimp only
    split <;> rcases hstage with hstage | hstage <;> simp [hstage]
  | @completed conn loop drained stage hloop hstage =>
    refine h.unanswered (local_unanswered complete_pairing_local) ?_
    have hthere := (complete_pairing_kept core loop.peer conn stage).1
    rw [pending_set_loop_same (hthere ▸ hloop) (by simp [hstage])]
    · simp only [pendingAnswer, hthere]
    · unfold CtrlLoop.settled
      dsimp only
      split
      · simp
      · split <;> simp
  | @settled task grant stage _ _ =>
    refine h.unanswered (local_unanswered complete_pairing_local) ?_
    have hthere := (complete_pairing_kept core grant.peer grant.conn stage).1
    show (core.completePairing grant.peer grant.conn stage).1.1.pendingAnswer on = _
    simp only [pendingAnswer, hthere]
  | @gaveUp conn loop hloop hstage =>
    have hsame : (core.recordCooldown loop.peer).pendingAnswer on = core.pendingAnswer on := rfl
    rw [verdicts_on_append (by simp [CoreEvent.NotJudged]), answers_on_append, h.answered,
      pending_set_loop, hsame]
    by_cases hon : on = conn
    · subst hon
      simp [pending_of_loop hloop, hstage, verdictsOn, CoreEvent.answerOn]
    · have hon' : conn ≠ on := fun hsame => hon hsame.symm
      simp [hon, hon', verdictsOn, CoreEvent.answerOn]
  | @left conn loop consent wasTrusted hloop hstage =>
    refine h.unanswered (local_unanswered leave_local) ?_
    have hloops := (leave_rest core conn loop consent wasTrusted).1
    by_cases hon : on = conn
    · subst hon
      simp [pendingAnswer, hloops, hloop, hstage]
    · simp [pendingAnswer, hloops, hon]

end Answers

section Torn

variable {hashCode : String → Digest} {core next : SessionCore} {input : CoreInput}
  {result : CoreStep} {trace after : List CoreEvent} {peer : Fingerprint} {conn other : ConnId}
  {loop written : CtrlLoop}

/-- A connection that has come to its session never waits for one again. -/
theorem step_born (hwired : core.Wired) (h : core.step hashCode input = some result)
    (hborn : core.Born conn) : result.1.Born conn := by
  by_cases hgrant : ∃ task, input = .advanceGrant task
  · obtain ⟨task, rfl⟩ := hgrant
    obtain ⟨grant, hgrant, rfl⟩ := Option.map_eq_some_iff.mp h
    have hsteady : Steady (fun _ => True) core (core.advanceGrantTask hashCode task grant) :=
      advance_grant_steady hashCode hgrant fun _ _ _ => trivial
    exact hsteady.stays.born hborn
  · have hown : core.OwnGrant input := by
      cases input with
      | advanceGrant task => exact absurd ⟨task, rfl⟩ hgrant
      | _ => trivial
    rcases step_turn hashCode hown h with
      ⟨conn, handshake, name, rfl, hhandshake, -, rfl⟩ | ⟨conn, loop, consent, wasTrusted, rfl, -, rfl⟩ |
        hsteady
    · exact insert_session_born hhandshake hwired (.inl hborn)
    · exact leave_born hborn
    · exact hsteady.stays.born hborn

/-- A loop that gave up closes its connection as it ends. -/
theorem leave_closes {consent : ConsentState} {wasTrusted : Bool} (h : loop.failed = true) :
    .closed conn ∈ (core.leave conn loop consent wasTrusted).2 := by
  unfold leave
  rw [if_pos h]
  split <;> simp

/-- The loops that gave up go on to their end, and a connection without a loop gets none. -/
theorem TornDown.of_loops (h : core.TornDown peer conn after) {emitted : List CoreEvent}
    (hborn : core.Born conn → next.Born conn)
    (hnone : core.loops conn = none → core.Born conn → next.loops conn = none)
    (hruns : ∀ loop, core.loops conn = some loop → loop.failed = true → ¬ loop.stage.Serving →
      (∃ later, next.loops conn = some later ∧ later.peer = loop.peer ∧ later.failed = true ∧
        ¬ later.stage.Serving) ∨ .closed conn ∈ emitted ∧ next.loops conn = none ∧ core.Born conn) :
    next.TornDown peer conn (after ++ emitted) := by
  rcases h with ⟨loop, hloop, rfl, hfailed, hover⟩ | ⟨hclosed, hgone, hold⟩
  · rcases hruns loop hloop hfailed hover with ⟨later, hlater, hpeer, hstill⟩ | ⟨hclosed, hgone, hold⟩
    · exact .inl ⟨later, hlater, hpeer, hstill⟩
    · exact .inr ⟨by simp [hclosed], hgone, hborn hold⟩
  · exact .inr ⟨by simp [hclosed], hnone hgone hold, hborn hold⟩

/-- Every step takes a loop that gave up nearer to its end. -/
theorem TornDown.step (h : core.TornDown peer conn after) (hwired : core.Wired)
    (hstep : core.step hashCode input = some result) :
    result.1.TornDown peer conn (after ++ result.2) := by
  have hborn : core.Born conn → result.1.Born conn := step_born hwired hstep
  -- Where the loops go on, this one does.
  have hcontinues : ∀ {calls lost}, Continues calls lost core result.1 →
      result.1.TornDown peer conn (after ++ result.2) := by
    intro calls lost hgoes
    refine h.of_loops hborn (fun hgone _ => ?_) ?_
    · by_contra hsome
      obtain ⟨found, hfound⟩ := Option.ne_none_iff_exists'.mp hsome
      obtain ⟨before, hbefore, -⟩ := hgoes.began conn found hfound
      rw [hgone] at hbefore
      cases hbefore
    · intro loop hloop hfailed hover
      obtain ⟨later, hlater, hsame⟩ := hgoes.runs conn loop hloop
      exact .inl ⟨later, hlater, hsame.peer, hsame.failed.trans hfailed,
        fun hserves => hover (hsame.serving hserves)⟩
  have hsame : result.1.loops = core.loops → result.1.TornDown peer conn (after ++ result.2) := by
    intro hloops
    refine h.of_loops hborn (fun hgone _ => hloops ▸ hgone) fun loop hloop hfailed hover => ?_
    exact .inl ⟨loop, hloops ▸ hloop, rfl, hfailed, hover⟩
  -- Where one loop is written, it is another one, or this one on its way.
  have hwritten : ∀ {place : ConnId} {running written : CtrlLoop},
      core.loops place = some running →
      result.1.loops = Function.update core.loops place (some written) →
      (running.stage.Serving ∨ written.peer = running.peer ∧ written.failed = running.failed ∧
        ¬ written.stage.Serving) → result.1.TornDown peer conn (after ++ result.2) := by
    intro place running written hrunning hloops hgoes
    refine h.of_loops hborn (fun hgone _ => ?_) fun loop hloop hfailed hover => ?_
    · have hne : conn ≠ place := by
        rintro rfl
        rw [hgone] at hrunning
        cases hrunning
      rw [hloops, Function.update_of_ne hne, hgone]
    · by_cases hplace : conn = place
      · subst hplace
        obtain rfl := Option.some.inj (hloop.symm.trans hrunning)
        obtain ⟨hpeer, hsameFailed, hdone⟩ := hgoes.resolve_left hover
        exact .inl ⟨written, by rw [hloops, Function.update_self], hpeer, hsameFailed.trans hfailed,
          hdone⟩
      · exact .inl ⟨loop, by rw [hloops, Function.update_of_ne hplace, hloop], rfl, hfailed, hover⟩
  cases step_move hashCode hstep with
  | calm hcalm => exact hcontinues hcalm.continues
  | heard _ _ _ hcalm => exact hcontinues hcalm.continues
  | @opened _ opener dialed address _ => exact hsame (open_handshake_rest core opener dialed address).2.1
  | @entered place name handshake hhandshake hstage =>
    obtain ⟨-, ⟨entered, -, hloops⟩, -, -⟩ := insert_session_spec core place handshake name
    have hunborn : ¬ core.Born place := fun hold => hold.2 handshake hhandshake hstage
    refine h.of_loops hborn (fun hgone hold => ?_) fun loop hloop hfailed hover => ?_
    · have hne : conn ≠ place := by
        rintro rfl
        exact hunborn hold
      rw [hloops, Function.update_of_ne hne, hgone]
    · have hne : conn ≠ place := by
        rintro rfl
        exact hunborn (hwired.loops conn loop hloop)
      exact .inl ⟨loop, by rw [hloops, Function.update_of_ne hne, hloop], rfl, hfailed, hover⟩
  | granted hsession hconsent =>
    refine hsame ?_
    simp only [grantConsent, hsession, hconsent]
    rfl
  | judged hloop hstage _ _ => exact hwritten hloop rfl (.inl (by simp [hstage, LoopStage.Serving]))
  | released _ _ _ => exact hsame rfl
  | confirmed _ hloop hstage =>
    refine hwritten hloop rfl (.inl ?_)
    rcases hstage with hstage | hstage <;> simp [hstage, LoopStage.Serving]
  | @completed place loop drained stage hloop hstage =>
    have hloops : ((core.completePairing loop.peer place stage).1.1.setLoop place
        (some (loop.settled drained (core.completePairing loop.peer place stage).2))).loops =
          Function.update core.loops place
            (some (loop.settled drained (core.completePairing loop.peer place stage).2)) := by
      rw [← (complete_pairing_kept core loop.peer place stage).1]
      rfl
    exact hwritten hloop hloops (.inl (by simp [hstage, LoopStage.Serving]))
  | @settled task grant stage _ _ =>
    exact hsame (complete_pairing_kept core grant.peer grant.conn stage).1
  | gaveUp hloop hstage => exact hwritten hloop rfl (.inr ⟨rfl, rfl, id⟩)
  | @left place leaver consent wasTrusted hleaver hstage =>
    have hloops := (leave_rest core place leaver consent wasTrusted).1
    refine h.of_loops hborn (fun hgone _ => ?_) fun loop hloop hfailed hover => ?_
    · rw [hloops]
      by_cases hplace : conn = place
      · simp [hplace]
      · rw [Function.update_of_ne hplace, hgone]
    · by_cases hplace : conn = place
      · subst hplace
        obtain rfl := Option.some.inj (hloop.symm.trans hleaver)
        exact .inr ⟨leave_closes hfailed, by simp [hloops], hwired.loops conn loop hloop⟩
      · exact .inl ⟨loop, by rw [hloops, Function.update_of_ne hplace, hloop], rfl, hfailed, hover⟩

end Torn

section Runs

variable {hashCode : String → Digest} {core : SessionCore} {input : CoreInput} {result : CoreStep}
  {trace : List CoreEvent}

/-- Events without a verdict of a loop fail nothing out. -/
theorem fails_out_silent {next : SessionCore} {events : List CoreEvent}
    (h : ∀ event ∈ events, event.NotJudged) :
    Throughout (fun between => next.FailsOut (trace ++ between)) events := by
  intro between event rest hsplit peer generation code hevent
  subst hevent
  exact absurd (h (.codeJudged peer generation code .failedOut) (by simp [hsplit])) id

/-- What fails the pairing out is the verdict of a loop that gives up. -/
theorem step_fails_out (hstep : core.step hashCode input = some result) :
    Throughout (fun between => result.1.FailsOut (trace ++ between)) result.2 := by
  have hlocal : ∀ {events : List CoreEvent}, (∀ event ∈ events, event.Local) →
      Throughout (fun between => result.1.FailsOut (trace ++ between)) events :=
    fun h => fails_out_silent (local_unanswered h).1
  have hplain : ∀ {events : List CoreEvent}, (∀ event ∈ events, event.Plain) →
      ∀ event ∈ events, event.NotJudged := by
    intro events h event hmem
    have hplain := h event hmem
    cases event with
    | codeJudged => exact absurd hplain id
    | _ => trivial
  cases step_move hashCode hstep with
  | calm hcalm => exact fails_out_silent (hplain hcalm.plain)
  | heard _ _ _ hcalm =>
    refine fails_out_silent fun event hmem => ?_
    rcases List.mem_cons.mp hmem with rfl | hmem
    · trivial
    · exact hplain hcalm.plain event hmem
  | opened _ => exact hlocal open_handshake_local
  | entered _ _ => exact hlocal insert_session_local
  | granted _ _ => exact hlocal grant_consent_local
  | @judged conn code loop session hloop hstage _ _ =>
    refine throughout_cons.mpr ⟨by simp [FailsOut], throughout_cons.mpr ⟨?_, ?_⟩⟩
    · intro peer generation given hevent
      obtain ⟨rfl, rfl, rfl, hout⟩ : loop.peer = peer ∧ session.generation = generation ∧
          code = given ∧ (judgeCode hashCode session code).2 = .failedOut := by
        simpa using hevent
      refine ⟨conn, by simp, .inl ⟨loop.judged .failedOut, ?_, rfl, rfl, id⟩⟩
      simp [setLoop, hout]
    · intro between event rest hsplit peer generation given hevent
      subst hevent
      cases houtcome : (judgeCode hashCode session code).2 <;>
        simp [houtcome, PairOutcome.replies, List.singleton_eq_append_iff] at hsplit
  | released _ _ _ =>
    refine fails_out_silent fun event hmem => ?_
    rcases List.mem_cons.mp hmem with rfl | hmem
    · trivial
    · exact (local_unanswered reports_local).1 event hmem
  | confirmed _ _ _ => exact fails_out_silent (by simp [CoreEvent.NotJudged])
  | completed _ _ => exact hlocal complete_pairing_local
  | settled _ _ => exact hlocal complete_pairing_local
  | gaveUp _ _ => exact fails_out_silent (by simp [CoreEvent.NotJudged])
  | left _ _ => exact hlocal leave_local

/-- Every step whose caller answers no code keeps the invariant. -/
theorem Answered.step (h : Answered trace core) (hguard : plainCalls trace core input)
    (hstep : core.step hashCode input = some result) : Answered (trace ++ result.2) result.1 := by
  refine ⟨step_wired h.wired hstep, ?_, h.next hstep, ?_⟩
  · intro conn loop hloop msg hmem
    rcases move_loops (step_move hashCode hstep) hloop with
      ⟨before, hbefore, -, hqueue⟩ | ⟨-, -, -, hempty⟩
    · rcases hqueue msg hmem with hqueued | hplain | hcall
      · exact h.outbox conn before hbefore msg hqueued
      · exact hplain
      · simpa using List.all_eq_true.mp hguard msg hcall
    · simp [hempty] at hmem
  · refine h.torn.append ?_ (step_fails_out hstep)
    intro start event rest hfails peer generation code hevent
    obtain ⟨conn, hlast, htorn⟩ := hfails peer generation code hevent
    exact ⟨conn, hlast, htorn.step h.wired hstep⟩

/-- The sessions begin with nothing owed. -/
theorem answered_spawn (config : Config) (trust : TrustStore) :
    Answered [] (spawn config trust) := by
  refine ⟨wired_spawn config trust, ?_, fun conn => rfl, throughout_nil⟩
  intro conn loop h
  cases h

/-- A loop that gives up is never kept from its next step, which starts the cooldown of the peer,
sends the negative answer and closes. -/
theorem failing_loop_next {conn : ConnId} {loop : CtrlLoop} (hloop : core.loops conn = some loop)
    (hstage : loop.stage = .failing) :
    ∃ next events, core.step hashCode (.advance conn) = some (next, events) ∧
      next.cooldown loop.peer = some (core.now + cooldownSecs) ∧
      .sent conn (.pairResult false) ∈ events ∧
      next.loops conn = some { loop with stage := .closing } := by
  have hstep : core.step hashCode (.advance conn) = some
      ((core.recordCooldown loop.peer).setLoop conn (some { loop with stage := .closing }),
        [.sent conn (.pairResult false),
          .ui (.pairingResult loop.peer false (some "配对码错误超过 3 次"))]) := by
    simp only [step, hloop, Option.bind_some, advanceLoop, hstage]
  refine ⟨_, _, hstep, ?_, by simp, by simp [setLoop]⟩
  simp [setLoop, recordCooldown]

/-- A queued message changes neither the sessions nor the cooldowns. -/
theorem queue_ctrl_rest {next : SessionCore} {conn : ConnId} {msg : ControlMsg}
    (h : core.queueCtrl conn msg = .ok next) :
    next.sessions = core.sessions ∧ next.cooldown = core.cooldown := by
  unfold queueCtrl at h
  split at h
  · cases h
  · split at h
    · obtain rfl := Except.ok.inj h
      exact ⟨rfl, rfl⟩
    · cases h

/-- A disconnected peer has no session, and its connection is closed. -/
theorem disconnect_spec (core : SessionCore) (peer : Fingerprint) :
    (core.disconnect peer).1.sessions peer = none ∧
      (core.disconnect peer).1.cooldown = core.cooldown ∧
      ∀ session, core.sessions peer = some session →
        .closed session.connId ∈ (core.disconnect peer).2 := by
  unfold disconnect
  split
  · next hnone => exact ⟨hnone, rfl, fun session hsession => by simp [hnone] at hsession⟩
  · next session hsession =>
    refine ⟨?_, ?_, fun found hfound => by simp [Option.some.inj (hsession.symm.trans hfound)]⟩
    all_goals
      dsimp only
      cases hqueue : (core.setSession peer none).queueCtrl session.connId .goodbye with
      | ok next =>
        obtain ⟨hsessions, hcooldown⟩ := queue_ctrl_rest hqueue
        simp [Except.toOption, hsessions, hcooldown, setSession]
      | error error => simp [Except.toOption, setSession]

/-- Nor is a grant that failed: its next step starts the cooldown and disconnects the peer. -/
theorem failing_grant_next {task : Nat} {grant : GrantTask} (hgrant : core.grants task = some grant)
    (hstage : grant.stage = .failing) :
    ∃ next events, core.step hashCode (.advanceGrant task) = some (next, events) ∧
      next.cooldown grant.peer = some (core.now + cooldownSecs) ∧
      next.sessions grant.peer = none ∧
      ∀ session, core.sessions grant.peer = some session → .closed session.connId ∈ events := by
  obtain ⟨hgone, hcooldown, hclosed⟩ := disconnect_spec (core.recordCooldown grant.peer) grant.peer
  have hstep : core.step hashCode (.advanceGrant task) = some
      (((core.recordCooldown grant.peer).disconnect grant.peer).1.setGrant task none,
        .ui (.pairingResult grant.peer false (some "配对码错误超过 3 次")) ::
          ((core.recordCooldown grant.peer).disconnect grant.peer).2) := by
    simp only [step, hgrant, Option.map_some, advanceGrantTask, hstage]
  refine ⟨_, _, hstep, ?_, hgone, fun session hsession => ?_⟩
  · show ((core.recordCooldown grant.peer).disconnect grant.peer).1.cooldown grant.peer = _
    rw [hcooldown]
    simp [recordCooldown]
  · exact List.mem_cons_of_mem _ (hclosed session hsession)

end Runs

end SessionCore

end LocalTrans
