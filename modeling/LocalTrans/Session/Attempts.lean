import LocalTrans.Session.Moves

/-!
# Attempts at a pairing code

A code is judged by the control loop that received it, or, where it came before the consent, by the
grant. `wrongSubmitted` and `wrongReleased` count the wrong codes of a session on the two paths.
`Tally` ties the counts to the counter of the pairing machine: where the tasks of the session's own
connection judge, a loop judges at most three wrong codes and a grant at most one, and the third in
all fails the pairing out on either path.
-/

namespace LocalTrans

open Foundation

/-- The verdict counts as a failure. -/
def PairOutcome.wrong : PairOutcome → Bool
  | .mismatch | .failedOut => true
  | .matched | .notPairing => false

/-- The session and the outcome of a verdict, on either path. -/
def CoreEvent.verdict : CoreEvent → Option (Nat × PairOutcome)
  | .codeJudged _ generation _ outcome | .stashJudged _ generation _ outcome =>
    some (generation, outcome)
  | _ => none

/-- A wrong code of the session, judged by a control loop. -/
def CoreEvent.isWrongSubmitted (generation : Nat) : CoreEvent → Bool
  | .codeJudged _ of _ outcome => of == generation && outcome.wrong
  | _ => false

/-- A wrong code of the session, judged by a grant. -/
def CoreEvent.isWrongReleased (generation : Nat) : CoreEvent → Bool
  | .stashJudged _ of _ outcome => of == generation && outcome.wrong
  | _ => false

section Histories

variable (generation : Nat)

/-- The wrong codes of a session that its control loops judged. -/
def wrongSubmitted (trace : List CoreEvent) : Nat :=
  trace.countP (CoreEvent.isWrongSubmitted generation)

/-- The wrong codes of a session that came before the consent. -/
def wrongReleased (trace : List CoreEvent) : Nat :=
  trace.countP (CoreEvent.isWrongReleased generation)

/-- A wrong code fails the pairing out exactly if it is the third of its session, or a later one. -/
def ThirdFails (trace : List CoreEvent) : Prop :=
  EachEvent (fun before event => ∀ generation outcome,
    event.verdict = some (generation, outcome) → outcome.wrong = true →
    (outcome = .failedOut ↔
      2 ≤ wrongSubmitted generation before + wrongReleased generation before)) trace

end Histories

section Counts

variable {generation : Nat} {before after trace : List CoreEvent}

@[simp] theorem wrong_submitted_append : wrongSubmitted generation (before ++ after) =
    wrongSubmitted generation before + wrongSubmitted generation after := by
  simp [wrongSubmitted]

@[simp] theorem wrong_released_append : wrongReleased generation (before ++ after) =
    wrongReleased generation before + wrongReleased generation after := by
  simp [wrongReleased]

/-- Where nothing is judged, nothing is counted. -/
theorem wrongs_of_silent (h : ∀ event ∈ trace, event.verdict = none) :
    (∀ generation, wrongSubmitted generation trace = 0) ∧
      ∀ generation, wrongReleased generation trace = 0 := by
  refine ⟨?_, ?_⟩
  all_goals
    intro generation
    refine List.countP_eq_zero.mpr fun event hmem => ?_
    have hsilent := h event hmem
    cases event <;> simp_all [CoreEvent.verdict, CoreEvent.isWrongSubmitted,
      CoreEvent.isWrongReleased]

theorem third_fails_silent (h : ThirdFails before) (hsilent : ∀ event ∈ after, event.verdict = none) :
    ThirdFails (before ++ after) := by
  refine each_event_append.mpr ⟨h, ?_⟩
  intro between event rest hsplit generation outcome hverdict
  rw [hsilent event (by simp [hsplit])] at hverdict
  cases hverdict

end Counts

namespace PairingMachine

/-- A wrong code adds one to the failures. -/
theorem submit_remote_fails {hashCode : String → Digest} {machine : PairingMachine} {code : String}
    (hwrong : (submitRemote hashCode machine code).2 = false) :
    (submitRemote hashCode machine code).1.fails = machine.fails + 1 := by
  unfold submitRemote at hwrong ⊢
  split
  · next hverify => simp [hverify] at hwrong
  · rfl

/-- The right code leaves the failures as they are. -/
theorem submit_remote_keeps {hashCode : String → Digest} {machine : PairingMachine} {code : String}
    (hright : (submitRemote hashCode machine code).2 = true) :
    (submitRemote hashCode machine code).1.fails = machine.fails := by
  unfold submitRemote at hright ⊢
  split
  · rfl
  · next hverify => simp [hverify] at hright

end PairingMachine

namespace SessionCore

variable {hashCode : String → Digest}

/-- A verdict adds what is wrong to the failures of the machine, and fails the pairing out from the
third failure on, as long as the counter does not wrap. -/
theorem judge_code_spec (hashCode : String → Digest) (code : String) {session : Session}
    {machine : PairingMachine}
    (hmachine : session.pairing = some machine) (hsmall : machine.fails.toNat < 255) :
    ∃ next, (judgeCode hashCode session code).1 = { session with pairing := some next } ∧
      next.fails.toNat =
        machine.fails.toNat + ((judgeCode hashCode session code).2.wrong).toNat ∧
      ((judgeCode hashCode session code).2.wrong = true →
        ((judgeCode hashCode session code).2 = .failedOut ↔ 2 ≤ machine.fails.toNat)) := by
  have hresult : judgeCode hashCode session code =
      ({ session with pairing := some (machine.submitRemote hashCode code).1 },
        if (machine.submitRemote hashCode code).2 then .matched
        else if (machine.submitRemote hashCode code).1.failedOut then .failedOut else .mismatch) := by
    simp only [judgeCode, hmachine]
  rw [hresult]
  refine ⟨_, rfl, ?_⟩
  cases haccepted : (machine.submitRemote hashCode code).2 with
  | true => simp [PairingMachine.submit_remote_keeps haccepted, PairOutcome.wrong]
  | false =>
    have hfails := PairingMachine.submit_remote_fails haccepted
    have hsum : (machine.fails + 1).toNat = machine.fails.toNat + 1 := by
      rw [UInt8.toNat_add]
      exact Nat.mod_eq_of_lt (by simp; omega)
    have hout : (machine.submitRemote hashCode code).1.failedOut = true ↔
        2 ≤ machine.fails.toNat := by
      unfold PairingMachine.failedOut
      rw [hfails, decide_eq_true_iff, UInt8.le_iff_toNat_le, hsum]
      simp
    simp only [hfails, hsum]
    by_cases hthird : (machine.submitRemote hashCode code).1.failedOut = true
    · simp [hthird, PairOutcome.wrong, hout.mp hthird]
    · have hfew : machine.fails.toNat < 2 := Nat.lt_of_not_le fun h => hthird (hout.mpr h)
      simp [hthird, PairOutcome.wrong, hfew]

/-- Without a machine nothing is judged. -/
theorem judge_code_none {session : Session} {code : String} (hmachine : session.pairing = none) :
    judgeCode hashCode session code = (session, .notPairing) := by
  simp only [judgeCode, hmachine]

/-- No session, loop or grant is new, none serves or waits again, and none was given up. -/
structure Tame (core next : SessionCore) : Prop where
  sessions : ∀ peer session, next.sessions peer = some session →
    ∃ before, core.sessions peer = some before ∧ session.Continues before
  loops : ∀ conn loop, next.loops conn = some loop → ∃ before, core.loops conn = some before ∧
    loop.failed = before.failed ∧ (loop.stage.Serving → before.stage.Serving)
  grants : ∀ task grant, next.grants task = some grant →
    ∃ before, core.grants task = some before ∧ grant.conn = before.conn ∧
      (grant.stage.Waiting → before.stage.Waiting)
  counter : next.generationCounter = core.generationCounter

/-- The condition on who judges a code: the loop and the grant of the session's own connection. -/
def ownTask : Guard SessionCore CoreInput CoreEvent := fun _ core input =>
  (match input with
    | .deliver conn (.pairCodeSubmit _) => (core.loops conn).all fun loop =>
      (core.sessions loop.peer).all fun session =>
        match session.consent with
        | .granted _ => session.connId == conn
        | _ => true
    | .advanceGrant task => (core.grants task).all fun grant =>
      match grant.stage with
      | .judging _ => (core.sessions grant.peer).all fun session => session.connId == grant.conn
      | _ => true
    | _ => true) = true
deriving Decidable

/-- What holds of the wrong codes after every step, where `submitted` and `released` count them by
session: at most three were judged by the loop and one by the grant, the machine counts both, a
loop that was not given up has seen at most two, a grant that waits has judged none, and a gate that
is still closed has seen no code. -/
structure Tally (submitted released : Nat → Nat) (core : SessionCore) : Prop where
  bounded : ∀ generation, submitted generation ≤ 3 ∧ released generation ≤ 1
  fresh : ∀ generation, core.generationCounter ≤ generation →
    submitted generation = 0 ∧ released generation = 0
  numbered : ∀ peer session, core.sessions peer = some session →
    session.generation < core.generationCounter
  apart : ∀ peer other session session', core.sessions peer = some session →
    core.sessions other = some session' → session.generation = session'.generation → peer = other
  counted : ∀ peer session machine, core.sessions peer = some session →
    session.pairing = some machine →
    machine.fails.toNat = submitted session.generation + released session.generation
  gated : ∀ peer session, core.sessions peer = some session → ¬ session.Granted →
    (submitted session.generation = 0 ∧ released session.generation = 0) ∧
      ∀ task grant, core.grants task = some grant → grant.conn ≠ session.connId
  serving : ∀ peer session loop, core.sessions peer = some session →
    core.loops session.connId = some loop → loop.failed = false →
    submitted session.generation ≤ 2
  waiting : ∀ peer session task grant, core.sessions peer = some session →
    core.grants task = some grant → grant.conn = session.connId → grant.stage.Waiting →
    released session.generation = 0
  single : ∀ task task' grant grant', core.grants task = some grant →
    core.grants task' = some grant' → grant.conn = grant'.conn → task = task'
  failed : ∀ conn loop, core.loops conn = some loop → loop.failed = true → ¬ loop.stage.Serving

/-- The counts after a verdict on a session. -/
def bump (counts : Nat → Nat) (generation : Nat) (outcome : PairOutcome) : Nat → Nat :=
  fun other => counts other + (generation == other && outcome.wrong).toNat

section Tame

variable {core next : SessionCore} {calls : List ControlMsg} {lost : Fingerprint → Prop}
  {peer : Fingerprint} {conn : ConnId} {task : Nat} {loop after : CtrlLoop} {grant : GrantTask}

theorem Continues.tame (h : Continues calls lost core next) : Tame core next := by
  refine ⟨h.sessions, ?_, ?_, h.counters.1⟩
  · intro conn loop hloop
    obtain ⟨before, hbefore, hsame⟩ := h.began conn loop hloop
    exact ⟨before, hbefore, hsame.failed, hsame.serving⟩
  · intro task grant hgrant
    obtain ⟨before, hbefore, hsame⟩ := h.grants task grant hgrant
    exact ⟨before, hbefore, hsame.conn, hsame.waiting⟩

theorem Tame.refl (core : SessionCore) : Tame core core :=
  (Continues.refl [] (fun _ => False) core).tame

/-- A session is written back as it was. -/
theorem tame_set_session_self {session : Session} (h : core.sessions peer = some session) :
    Tame core (core.setSession peer (some session)) := by
  have hsame : core.setSession peer (some session) = core := by
    unfold setSession
    rw [← h, Function.update_eq_self]
  rw [hsame]
  exact .refl core

theorem complete_pairing_tame {stage : CompleteStage} :
    Tame core (core.completePairing peer conn stage).1.1 := by
  have hkept : Continues [] (fun _ => False) core (core.completePairing peer conn stage).1.1 :=
    complete_pairing_continues
  exact hkept.tame

/-- A loop that serves or ends after it did. -/
theorem Tame.set_loop (h : Tame core next) (hloop : next.loops conn = some loop)
    (hfailed : after.failed = loop.failed) (hserving : after.stage.Serving → loop.stage.Serving) :
    Tame core (next.setLoop conn (some after)) := by
  refine ⟨h.sessions, ?_, h.grants, h.counter⟩
  intro other found hfound
  by_cases hsame : other = conn
  · subst hsame
    obtain rfl : after = found := by simpa [setLoop] using hfound
    obtain ⟨before, hbefore, hfailed', hserving'⟩ := h.loops other loop hloop
    exact ⟨before, hbefore, hfailed.trans hfailed', fun hserves => hserving' (hserving hserves)⟩
  · exact h.loops other found (by simpa [setLoop, Function.update_of_ne hsame] using hfound)

/-- A grant that waits for nothing any more. -/
theorem Tame.set_grant (h : Tame core next) (hgrant : next.grants task = some grant)
    {written : Option GrantTask}
    (hwritten : ∀ later, written = some later → later.conn = grant.conn ∧ ¬ later.stage.Waiting) :
    Tame core (next.setGrant task written) := by
  refine ⟨h.sessions, h.loops, ?_, h.counter⟩
  intro other found hfound
  by_cases hsame : other = task
  · subst hsame
    obtain ⟨hconn, hdone⟩ := hwritten found (by simpa [setGrant] using hfound)
    obtain ⟨before, hbefore, hconn', -⟩ := h.grants other grant hgrant
    exact ⟨before, hbefore, hconn.trans hconn', fun hwaits => absurd hwaits hdone⟩
  · exact h.grants other found (by simpa [setGrant, Function.update_of_ne hsame] using hfound)

theorem open_handshake_tame {dialed : Bool} {address : String} :
    Tame core (core.openHandshake peer dialed address).1 := by
  obtain ⟨hsessions, hloops, hgrants, hcounter⟩ := open_handshake_rest core peer dialed address
  refine ⟨?_, ?_, ?_, hcounter⟩
  · rw [hsessions]
    exact (Tame.refl core).sessions
  · rw [hloops]
    exact (Tame.refl core).loops
  · rw [hgrants]
    exact (Tame.refl core).grants

theorem leave_tame {consent : ConsentState} {wasTrusted : Bool} :
    Tame core (core.leave conn loop consent wasTrusted).1 := by
  have hended : Tame core (core.setLoop conn none) := by
    refine { Tame.refl core with loops := ?_ }
    intro other found hfound
    by_cases hsame : other = conn
    · simp [setLoop, hsame] at hfound
    · exact ⟨found, by simpa [setLoop, Function.update_of_ne hsame] using hfound, rfl, id⟩
  unfold leave
  dsimp only
  split
  · exact hended
  · refine { hended with sessions := ?_ }
    intro other found hfound
    by_cases hsame : other = loop.peer
    · simp [setSession, hsame] at hfound
    · exact ⟨found, by simpa [setSession, setLoop, Function.update_of_ne hsame] using hfound,
        session_continues_self found⟩

end Tame

section Tally

variable {submitted released : Nat → Nat} {core next : SessionCore} {peer : Fingerprint}
  {conn : ConnId} {task : Nat} {loop : CtrlLoop} {grant : GrantTask} {session : Session}
  {outcome : PairOutcome} {code : String}

theorem bump_of_ne {counts : Nat → Nat} {generation other : Nat} (h : generation ≠ other) :
    bump counts generation outcome other = counts other := by
  simp [bump, h]

theorem bump_self {counts : Nat → Nat} {generation : Nat} :
    bump counts generation outcome generation = counts generation + outcome.wrong.toNat := by
  simp [bump]

theorem bump_not_pairing {counts : Nat → Nat} {generation : Nat} :
    bump counts generation .notPairing = counts := by
  funext other
  simp [bump, PairOutcome.wrong]

/-- What is in the table after one entry was written. -/
theorem set_session_some {written found : Session} {other : Fingerprint} :
    (core.setSession peer (some written)).sessions other = some found ↔
      other = peer ∧ written = found ∨ other ≠ peer ∧ core.sessions other = some found := by
  by_cases hsame : other = peer
  · subst hsame
    simp [setSession]
  · simp [setSession, hsame]

/-- A step on which nothing is new keeps the tally. -/
theorem Tally.tame (h : Tally submitted released core) (htame : Tame core next) :
    Tally submitted released next := by
  refine ⟨h.bounded, ?_, ?_, ?_, ?_, ?_, ?_, ?_, ?_, ?_⟩
  · rw [htame.counter]
    exact h.fresh
  · intro peer session hsession
    obtain ⟨before, hbefore, hsame⟩ := htame.sessions peer session hsession
    rw [htame.counter, hsame.generation]
    exact h.numbered peer before hbefore
  · intro peer other session session' hsession hsession' hgeneration
    obtain ⟨before, hbefore, hsame⟩ := htame.sessions peer session hsession
    obtain ⟨before', hbefore', hsame'⟩ := htame.sessions other session' hsession'
    refine h.apart peer other before before' hbefore hbefore' ?_
    rw [← hsame.generation, ← hsame'.generation, hgeneration]
  · intro peer session machine hsession hmachine
    obtain ⟨before, hbefore, hsame⟩ := htame.sessions peer session hsession
    rw [hsame.generation]
    refine h.counted peer before machine hbefore ?_
    rcases hsame.pairing with hkept | hnone
    · rw [← hkept, hmachine]
    · rw [hnone] at hmachine
      cases hmachine
  · intro peer session hsession hclosed
    obtain ⟨before, hbefore, hsame⟩ := htame.sessions peer session hsession
    obtain ⟨hnone, hgrants⟩ := h.gated peer before hbefore fun hopen =>
      hclosed (hsame.granted.mpr hopen)
    rw [hsame.generation, hsame.connId]
    refine ⟨hnone, fun task grant hgrant => ?_⟩
    obtain ⟨earlier, hearlier, hconn, -⟩ := htame.grants task grant hgrant
    rw [hconn]
    exact hgrants task earlier hearlier
  · intro peer session loop hsession hloop hfailed
    obtain ⟨before, hbefore, hsame⟩ := htame.sessions peer session hsession
    obtain ⟨earlier, hearlier, hfailed', -⟩ := htame.loops session.connId loop hloop
    rw [hsame.generation]
    exact h.serving peer before earlier hbefore (hsame.connId ▸ hearlier) (hfailed' ▸ hfailed)
  · intro peer session task grant hsession hgrant hconn hwaits
    obtain ⟨before, hbefore, hsame⟩ := htame.sessions peer session hsession
    obtain ⟨earlier, hearlier, hconn', hwaited⟩ := htame.grants task grant hgrant
    rw [hsame.generation]
    refine h.waiting peer before task earlier hbefore hearlier ?_ (hwaited hwaits)
    rw [← hconn', hconn, hsame.connId]
  · intro task task' grant grant' hgrant hgrant' hconn
    obtain ⟨before, hbefore, hsame, -⟩ := htame.grants task grant hgrant
    obtain ⟨before', hbefore', hsame', -⟩ := htame.grants task' grant' hgrant'
    exact h.single task task' before before' hbefore hbefore' (by rw [← hsame, ← hsame', hconn])
  · intro conn loop hloop hfailed hserves
    obtain ⟨before, hbefore, hsame, hserved⟩ := htame.loops conn loop hloop
    exact h.failed conn before hbefore (hsame ▸ hfailed) (hserved hserves)

/-- Rewriting a session leaves the generations as they were. -/
theorem Tally.rewritten {sessions : Fingerprint → Option Session}
    (h : Tally submitted released core) (hsession : core.sessions peer = some session)
    (written : Session)
    (hgeneration : written.generation = session.generation)
    (hsessions : ∀ other found, sessions other = some found ↔
      other = peer ∧ written = found ∨ other ≠ peer ∧ core.sessions other = some found) :
    (∀ other found, sessions other = some found → found.generation < core.generationCounter) ∧
      ∀ other other' found found', sessions other = some found → sessions other' = some found' →
        found.generation = found'.generation → other = other' := by
  have hbefore : ∀ other found, sessions other = some found →
      ∃ before, core.sessions other = some before ∧ found.generation = before.generation := by
    intro other found hfound
    rcases (hsessions other found).mp hfound with ⟨rfl, rfl⟩ | ⟨-, hkept⟩
    · exact ⟨session, hsession, hgeneration⟩
    · exact ⟨found, hkept, rfl⟩
  refine ⟨?_, ?_⟩
  · intro other found hfound
    obtain ⟨before, hkept, hsame⟩ := hbefore other found hfound
    rw [hsame]
    exact h.numbered other before hkept
  · intro other other' found found' hfound hfound' hsame
    obtain ⟨before, hkept, hgeneration⟩ := hbefore other found hfound
    obtain ⟨before', hkept', hgeneration'⟩ := hbefore other' found' hfound'
    exact h.apart other other' before before' hkept hkept' (by rw [← hgeneration, ← hgeneration', hsame])

/-- A session is entered on a connection that had neither a loop nor a grant. -/
theorem Tally.entered {handshake : Handshake} {name : String} (h : Tally submitted released core)
    (hwired : core.Wired) (hhandshake : core.handshakes conn = some handshake)
    (hstage : handshake.stage = .awaitingHello) :
    Tally submitted released (core.insertSession conn handshake name).1 := by
  obtain ⟨session, hconn, hgeneration, hpairing, hsessions⟩ :
      ∃ session : Session, session.connId = conn ∧ session.generation = core.generationCounter ∧
        session.pairing = none ∧ ∀ other found,
          (core.insertSession conn handshake name).1.sessions other = some found ↔
            other = handshake.peer ∧ session = found ∨
              other ≠ handshake.peer ∧ core.sessions other = some found :=
    ⟨_, rfl, rfl, rfl, fun _ _ => set_session_some⟩
  obtain ⟨loop, hserves, hloops⟩ : ∃ loop : CtrlLoop, loop.failed = false ∧
      (core.insertSession conn handshake name).1.loops =
        Function.update core.loops conn (some loop) := ⟨_, rfl, rfl⟩
  have hcounter : (core.insertSession conn handshake name).1.generationCounter =
      core.generationCounter + 1 := rfl
  have hgrants : (core.insertSession conn handshake name).1.grants = core.grants := rfl
  have hunborn : ¬ core.Born conn := fun hborn => hborn.2 handshake hhandshake hstage
  have hnew := h.fresh core.generationCounter (Nat.le_refl _)
  -- The sessions of the others are on other connections.
  have hother : ∀ other found, core.sessions other = some found → found.connId ≠ conn := by
    rintro other found hfound rfl
    obtain ⟨running, hrunning, -⟩ := hwired.sessions other found hfound
    exact hunborn (hwired.loops _ running hrunning)
  refine ⟨h.bounded, ?_, ?_, ?_, ?_, ?_, ?_, ?_, ?_, ?_⟩
  · rw [hcounter]
    exact fun generation hle => h.fresh generation (Nat.le_of_succ_le hle)
  · intro other found hfound
    rw [hcounter]
    rcases (hsessions other found).mp hfound with ⟨-, rfl⟩ | ⟨-, hbefore⟩
    · rw [hgeneration]
      exact Nat.lt_succ_self _
    · exact Nat.lt_succ_of_lt (h.numbered other found hbefore)
  · intro other other' found found' hfound hfound' hsame
    rcases (hsessions other found).mp hfound with ⟨rfl, rfl⟩ | ⟨-, hbefore⟩
    · rcases (hsessions other' found').mp hfound' with ⟨rfl, -⟩ | ⟨-, hbefore'⟩
      · rfl
      · have hlt := h.numbered other' found' hbefore'
        omega
    · rcases (hsessions other' found').mp hfound' with ⟨rfl, rfl⟩ | ⟨-, hbefore'⟩
      · have hlt := h.numbered other found hbefore
        omega
      · exact h.apart other other' found found' hbefore hbefore' hsame
  · intro other found machine hfound hmachine
    rcases (hsessions other found).mp hfound with ⟨-, rfl⟩ | ⟨-, hbefore⟩
    · rw [hpairing] at hmachine
      cases hmachine
    · exact h.counted other found machine hbefore hmachine
  · intro other found hfound hclosed
    rcases (hsessions other found).mp hfound with ⟨-, rfl⟩ | ⟨-, hbefore⟩
    · rw [hgeneration, hconn]
      refine ⟨hnew, fun task grant hgrant hsame => ?_⟩
      exact hunborn (hsame ▸ hwired.grants task grant (hgrants ▸ hgrant))
    · exact h.gated other found hbefore hclosed
  · intro other found running hfound hrunning hfailed
    rw [hloops] at hrunning
    rcases (hsessions other found).mp hfound with ⟨-, rfl⟩ | ⟨-, hbefore⟩
    · rw [hgeneration, hnew.1]
      exact Nat.zero_le 2
    · rw [Function.update_of_ne (hother other found hbefore)] at hrunning
      exact h.serving other found running hbefore hrunning hfailed
  · intro other found task grant hfound hgrant hsame hwaits
    rcases (hsessions other found).mp hfound with ⟨-, rfl⟩ | ⟨-, hbefore⟩
    · rw [hgeneration]
      exact hnew.2
    · exact h.waiting other found task grant hbefore hgrant hsame hwaits
  · exact h.single
  · intro other running hrunning hfailed
    rw [hloops] at hrunning
    by_cases hsame : other = conn
    · subst hsame
      obtain rfl : loop = running := by simpa using hrunning
      rw [hserves] at hfailed
      cases hfailed
    · rw [Function.update_of_ne hsame] at hrunning
      exact h.failed other running hrunning hfailed

/-- A consent draws a code that nobody has tried, and begins the only grant of its connection. -/
theorem Tally.granted {drawn deadline : Nat} {pendingCode : Option String}
    (h : Tally submitted released core) (hwired : core.Wired)
    (hsession : core.sessions peer = some session)
    (hconsent : session.consent = .awaitingConsent deadline pendingCode) :
    Tally submitted released (core.grantConsent hashCode peer drawn).1 := by
  have hclosed : ¬ session.Granted := by simp [Session.Granted, hconsent]
  obtain ⟨hnone, hunused⟩ := h.gated peer session hsession hclosed
  obtain ⟨granted, hconn, hgeneration, hmachine, hopen, hsessions⟩ :
      ∃ granted : Session, granted.connId = session.connId ∧
        granted.generation = session.generation ∧
        granted.pairing = some (.new (hashCode (generatePairCode drawn))) ∧ granted.Granted ∧
        ∀ other found, (core.grantConsent hashCode peer drawn).1.sessions other = some found ↔
          other = peer ∧ granted = found ∨ other ≠ peer ∧ core.sessions other = some found := by
    simp only [grantConsent, hsession, hconsent]
    exact ⟨{ session with
        pairing := some (.new (hashCode (generatePairCode drawn)))
        consent := .granted pendingCode },
      rfl, rfl, rfl, ⟨pendingCode, rfl⟩, fun _ _ => set_session_some⟩
  obtain ⟨grant, hgrantConn, hgrants⟩ : ∃ grant : GrantTask, grant.conn = session.connId ∧
      (core.grantConsent hashCode peer drawn).1.grants =
        Function.update core.grants core.nextGrant (some grant) := by
    simp only [grantConsent, hsession, hconsent]
    exact ⟨_, rfl, rfl⟩
  have hloops : (core.grantConsent hashCode peer drawn).1.loops = core.loops := by
    simp only [grantConsent, hsession, hconsent]
    rfl
  have hcounter : (core.grantConsent hashCode peer drawn).1.generationCounter =
      core.generationCounter := by
    simp only [grantConsent, hsession, hconsent]
    rfl
  -- Only this session is on the connection of the new grant.
  have hother : ∀ other found, core.sessions other = some found → other ≠ peer →
      found.connId ≠ session.connId := by
    intro other found hfound hne hsame
    obtain ⟨running, hrunning, hpeer⟩ := hwired.sessions other found hfound
    obtain ⟨running', hrunning', hpeer'⟩ := hwired.sessions peer session hsession
    rw [hsame, hrunning'] at hrunning
    obtain rfl := Option.some.inj hrunning
    exact hne (hpeer.symm.trans hpeer')
  refine ⟨h.bounded, ?_, ?_, ?_, ?_, ?_, ?_, ?_, ?_, ?_⟩
  · rw [hcounter]
    exact h.fresh
  · rw [hcounter]
    exact (h.rewritten hsession granted hgeneration hsessions).1
  · exact (h.rewritten hsession granted hgeneration hsessions).2
  · intro other found machine hfound hfoundMachine
    rcases (hsessions other found).mp hfound with ⟨-, rfl⟩ | ⟨-, hbefore⟩
    · obtain rfl := Option.some.inj (hmachine.symm.trans hfoundMachine)
      rw [hgeneration, hnone.1, hnone.2]
      rfl
    · exact h.counted other found machine hbefore hfoundMachine
  · intro other found hfound hshut
    rcases (hsessions other found).mp hfound with ⟨-, rfl⟩ | ⟨hne, hbefore⟩
    · exact absurd hopen hshut
    · obtain ⟨hzero, hfree⟩ := h.gated other found hbefore hshut
      refine ⟨hzero, fun task running hrunning => ?_⟩
      rw [hgrants] at hrunning
      by_cases hsame : task = core.nextGrant
      · subst hsame
        obtain rfl : grant = running := by simpa using hrunning
        rw [hgrantConn]
        exact (hother other found hbefore hne).symm
      · rw [Function.update_of_ne hsame] at hrunning
        exact hfree task running hrunning
  · intro other found running hfound hrunning hfailed
    rw [hloops] at hrunning
    rcases (hsessions other found).mp hfound with ⟨-, rfl⟩ | ⟨-, hbefore⟩
    · rw [hgeneration, hnone.1]
      exact Nat.zero_le 2
    · exact h.serving other found running hbefore hrunning hfailed
  · intro other found task running hfound hrunning hsame hwaits
    rcases (hsessions other found).mp hfound with ⟨-, rfl⟩ | ⟨hne, hbefore⟩
    · rw [hgeneration]
      exact hnone.2
    · rw [hgrants] at hrunning
      by_cases hnew : task = core.nextGrant
      · subst hnew
        obtain rfl : grant = running := by simpa using hrunning
        exact absurd (hsame.symm.trans hgrantConn) (hother other found hbefore hne)
      · rw [Function.update_of_ne hnew] at hrunning
        exact h.waiting other found task running hbefore hrunning hsame hwaits
  · -- No other grant is on the connection of the new one.
    have hfree : ∀ task running, core.grants task = some running → running.conn ≠ grant.conn := by
      intro task running hrunning
      rw [hgrantConn]
      exact hunused task running hrunning
    intro task task' running running' hrunning hrunning' hsame
    rw [hgrants] at hrunning hrunning'
    by_cases hnew : task = core.nextGrant
    · subst hnew
      obtain rfl : grant = running := by simpa using hrunning
      by_cases hnew' : task' = core.nextGrant
      · exact hnew'.symm
      · rw [Function.update_of_ne hnew'] at hrunning'
        exact absurd hsame.symm (hfree task' running' hrunning')
    · rw [Function.update_of_ne hnew] at hrunning
      by_cases hnew' : task' = core.nextGrant
      · subst hnew'
        obtain rfl : grant = running' := by simpa using hrunning'
        exact absurd hsame (hfree task running hrunning)
      · rw [Function.update_of_ne hnew'] at hrunning'
        exact h.single task task' running running' hrunning hrunning' hsame
  · rw [hloops]
    exact h.failed

/-- A verdict of the loop of the session's connection. -/
theorem Tally.judged (h : Tally submitted released core) (hwired : core.Wired)
    (hloop : core.loops session.connId = some loop) (hserves : loop.stage.Serving)
    (hsession : core.sessions loop.peer = some session) (hopen : session.Granted) :
    Tally (bump submitted session.generation (judgeCode hashCode session code).2) released
      ((core.setSession loop.peer (some (judgeCode hashCode session code).1)).setLoop
        session.connId (some (loop.judged (judgeCode hashCode session code).2))) := by
  have hactive : loop.failed = false := by
    by_contra hfailed
    exact h.failed _ loop hloop (by simpa using hfailed) hserves
  have hfew := h.serving loop.peer session loop hsession hloop hactive
  have hreleased := (h.bounded session.generation).2
  cases hmachine : session.pairing with
  | none =>
    rw [judge_code_none hmachine, bump_not_pairing]
    exact h.tame ((tame_set_session_self hsession).set_loop hloop rfl id)
  | some machine =>
    have hcount := h.counted loop.peer session machine hsession hmachine
    obtain ⟨next, hjudged, hfails, hout⟩ :=
      judge_code_spec hashCode code hmachine (by omega)
    generalize (judgeCode hashCode session code).2 = outcome at hfails hout ⊢
    rw [hjudged]
    -- The sessions of the others have other generations and other connections.
    have hother : ∀ other found, core.sessions other = some found → other ≠ loop.peer →
        session.generation ≠ found.generation ∧ found.connId ≠ session.connId := by
      intro other found hfound hne
      refine ⟨fun hsame => hne (h.apart _ _ _ _ hsession hfound hsame).symm, fun hsame => ?_⟩
      obtain ⟨running, hrunning, hpeer⟩ := hwired.sessions other found hfound
      rw [hsame, hloop] at hrunning
      obtain rfl := Option.some.inj hrunning
      exact hne hpeer.symm
    refine ⟨?_, ?_, ?_, ?_, ?_, ?_, ?_, ?_, h.single, ?_⟩
    · intro generation
      refine ⟨?_, (h.bounded generation).2⟩
      by_cases hsame : session.generation = generation
      · subst hsame
        rw [bump_self]
        have hone := Bool.toNat_le outcome.wrong
        omega
      · rw [bump_of_ne hsame]
        exact (h.bounded generation).1
    · intro generation hle
      have hlt := h.numbered loop.peer session hsession
      rw [bump_of_ne (by rintro rfl; exact absurd hlt (Nat.not_lt.mpr hle))]
      exact h.fresh generation hle
    · exact (h.rewritten hsession { session with pairing := some next } rfl
        fun _ _ => set_session_some).1
    · exact (h.rewritten hsession { session with pairing := some next } rfl
        fun _ _ => set_session_some).2
    · intro other found found' hfound hfound'
      rcases set_session_some.mp hfound with ⟨-, rfl⟩ | ⟨hne, hbefore⟩
      · obtain rfl := Option.some.inj hfound'
        show next.fails.toNat = bump submitted session.generation outcome session.generation +
          released session.generation
        rw [hfails, hcount, bump_self]
        omega
      · rw [bump_of_ne (hother other found hbefore hne).1]
        exact h.counted other found found' hbefore hfound'
    · intro other found hfound hshut
      rcases set_session_some.mp hfound with ⟨-, rfl⟩ | ⟨hne, hbefore⟩
      · exact absurd hopen hshut
      · rw [bump_of_ne (hother other found hbefore hne).1]
        exact h.gated other found hbefore hshut
    · intro other found running hfound hrunning hfailed
      rcases set_session_some.mp hfound with ⟨-, rfl⟩ | ⟨hne, hbefore⟩
      · obtain rfl : loop.judged outcome = running := by simpa [setLoop] using hrunning
        rw [bump_self]
        cases outcome with
        | mismatch =>
          have hsecond : ¬ 2 ≤ machine.fails.toNat := fun hle => by
            have hthird := (hout rfl).mpr hle
            cases hthird
          simp only [PairOutcome.wrong, Bool.toNat_true]
          omega
        | failedOut => cases hfailed
        | matched | notPairing =>
          simp only [PairOutcome.wrong, Bool.toNat_false]
          omega
      · obtain ⟨hgeneration, hconn⟩ := hother other found hbefore hne
        rw [bump_of_ne hgeneration]
        refine h.serving other found running hbefore ?_ hfailed
        simpa [setLoop, setSession, Function.update_of_ne hconn] using hrunning
    · intro other found task grant hfound hgrant hsame hwaits
      rcases set_session_some.mp hfound with ⟨-, rfl⟩ | ⟨-, hbefore⟩
      · exact h.waiting loop.peer session task grant hsession hgrant hsame hwaits
      · exact h.waiting other found task grant hbefore hgrant hsame hwaits
    · intro other running hrunning hfailed
      by_cases hsame : other = session.connId
      · subst hsame
        obtain rfl : loop.judged outcome = running := by simpa [setLoop] using hrunning
        cases outcome with
        | failedOut => exact id
        | matched | mismatch | notPairing =>
          have hstill : loop.failed = true := hfailed
          rw [hactive] at hstill
          cases hstill
      · refine h.failed other running ?_ hfailed
        simpa [setLoop, setSession, Function.update_of_ne hsame] using hrunning

/-- A verdict of the grant of the session's connection. -/
theorem Tally.stash_judged (h : Tally submitted released core)
    (hgrant : core.grants task = some grant) (hwaits : grant.stage.Waiting)
    (hsession : core.sessions grant.peer = some session) (hconn : session.connId = grant.conn) :
    Tally submitted (bump released session.generation (judgeCode hashCode session code).2)
      ((core.setSession grant.peer (some (judgeCode hashCode session code).1)).setGrant task
        (grant.judged (judgeCode hashCode session code).2)) := by
  have hnone := h.waiting grant.peer session task grant hsession hgrant hconn.symm hwaits
  have hfew := (h.bounded session.generation).1
  have hopen : session.Granted := by
    by_contra hshut
    exact (h.gated grant.peer session hsession hshut).2 task grant hgrant hconn.symm
  have hdone : ∀ outcome later, grant.judged outcome = some later →
      later.conn = grant.conn ∧ ¬ later.stage.Waiting := by
    intro outcome later hlater
    cases outcome with
    | matched | failedOut =>
      obtain rfl := Option.some.inj hlater
      exact ⟨rfl, id⟩
    | mismatch | notPairing => cases hlater
  cases hmachine : session.pairing with
  | none =>
    rw [judge_code_none hmachine, bump_not_pairing]
    have hthere : (core.setSession grant.peer (some session)).grants task = some grant := hgrant
    exact h.tame ((tame_set_session_self hsession).set_grant hthere (hdone .notPairing))
  | some machine =>
    have hcount := h.counted grant.peer session machine hsession hmachine
    obtain ⟨next, hjudged, hfails, -⟩ :=
      judge_code_spec hashCode code hmachine (by omega)
    generalize (judgeCode hashCode session code).2 = outcome at hfails ⊢
    rw [hjudged]
    have hother : ∀ other found, core.sessions other = some found → other ≠ grant.peer →
        session.generation ≠ found.generation := by
      intro other found hfound hne hsame
      exact hne (h.apart _ _ _ _ hsession hfound hsame).symm
    -- A grant that waits after the verdict is another one.
    have hlater : ∀ task' running, Function.update core.grants task (grant.judged outcome) task' =
        some running → ∃ before, core.grants task' = some before ∧ running.conn = before.conn ∧
          (running.stage.Waiting → running = before ∧ task' ≠ task) := by
      intro task' running hrunning
      by_cases hsame : task' = task
      · subst hsame
        obtain ⟨hsameConn, hover⟩ := hdone outcome running (by simpa using hrunning)
        exact ⟨grant, hgrant, hsameConn, fun hwaits => absurd hwaits hover⟩
      · rw [Function.update_of_ne hsame] at hrunning
        exact ⟨running, hrunning, rfl, fun _ => ⟨rfl, hsame⟩⟩
    refine ⟨?_, ?_, ?_, ?_, ?_, ?_, ?_, ?_, ?_, h.failed⟩
    · intro generation
      refine ⟨(h.bounded generation).1, ?_⟩
      by_cases hsame : session.generation = generation
      · subst hsame
        rw [bump_self, hnone]
        have hone := Bool.toNat_le outcome.wrong
        omega
      · rw [bump_of_ne hsame]
        exact (h.bounded generation).2
    · intro generation hle
      have hlt := h.numbered grant.peer session hsession
      rw [bump_of_ne (by rintro rfl; exact absurd hlt (Nat.not_lt.mpr hle))]
      exact h.fresh generation hle
    · exact (h.rewritten hsession { session with pairing := some next } rfl
        fun _ _ => set_session_some).1
    · exact (h.rewritten hsession { session with pairing := some next } rfl
        fun _ _ => set_session_some).2
    · intro other found found' hfound hfound'
      rcases set_session_some.mp hfound with ⟨-, rfl⟩ | ⟨hne, hbefore⟩
      · obtain rfl := Option.some.inj hfound'
        show next.fails.toNat = submitted session.generation +
          bump released session.generation outcome session.generation
        rw [hfails, hcount, bump_self]
        omega
      · rw [bump_of_ne (hother other found hbefore hne)]
        exact h.counted other found found' hbefore hfound'
    · intro other found hfound hshut
      rcases set_session_some.mp hfound with ⟨-, rfl⟩ | ⟨hne, hbefore⟩
      · exact absurd hopen hshut
      · obtain ⟨hzero, hfree⟩ := h.gated other found hbefore hshut
        rw [bump_of_ne (hother other found hbefore hne)]
        refine ⟨hzero, fun task' running hrunning => ?_⟩
        obtain ⟨before, hrunningBefore, hsameConn, -⟩ := hlater task' running hrunning
        rw [hsameConn]
        exact hfree task' before hrunningBefore
    · intro other found running hfound hrunning hfailed
      rcases set_session_some.mp hfound with ⟨-, rfl⟩ | ⟨-, hbefore⟩
      · exact h.serving grant.peer session running hsession hrunning hfailed
      · exact h.serving other found running hbefore hrunning hfailed
    · intro other found task' running hfound hrunning hsame hwaits'
      obtain ⟨before, hrunningBefore, -, hwaiting⟩ := hlater task' running hrunning
      obtain ⟨rfl, hne'⟩ := hwaiting hwaits'
      rcases set_session_some.mp hfound with ⟨-, rfl⟩ | ⟨hne, hbefore⟩
      · exact absurd (h.single task' task running grant hrunningBefore hgrant
          (hsame.trans hconn)) hne'
      · rw [bump_of_ne (hother other found hbefore hne)]
        exact h.waiting other found task' running hbefore hrunningBefore hsame hwaits'
    · intro task' other running running' hrunning hrunning' hsame
      obtain ⟨before, hbefore, hconnBefore, -⟩ := hlater task' running hrunning
      obtain ⟨before', hbefore', hconnBefore', -⟩ := hlater other running' hrunning'
      refine h.single task' other before before' hbefore hbefore' ?_
      rw [← hconnBefore, ← hconnBefore', hsame]

end Tally

section Verdicts

variable {conn : ConnId} {outcome : PairOutcome} {event : CoreEvent}

theorem plain_no_verdict (h : event.Plain) : event.verdict = none := by
  cases event with
  | codeJudged | stashJudged => exact absurd h id
  | _ => rfl

theorem local_no_verdict {events : List CoreEvent} (h : ∀ event ∈ events, event.Local) :
    ∀ event ∈ events, event.verdict = none := by
  intro event hmem
  have hlocal := h event hmem
  cases event with
  | codeJudged | stashJudged => exact absurd hlocal id
  | _ => rfl

theorem replies_no_verdict : ∀ event ∈ outcome.replies conn, event.verdict = none := by
  cases outcome <;> simp [PairOutcome.replies, CoreEvent.verdict]

end Verdicts

/-- What is kept of a run: the table and the loops fit together, and the tally is that of the
history. -/
structure Counted (trace : List CoreEvent) (core : SessionCore) : Prop where
  wired : core.Wired
  tally : Tally (fun generation => wrongSubmitted generation trace)
    (fun generation => wrongReleased generation trace) core
  third : ThirdFails trace

section Counted

variable {trace : List CoreEvent} {core : SessionCore} {input : CoreInput} {result : CoreStep}

/-- A step on which nothing is judged. -/
theorem Counted.silent (h : Counted trace core) (hwired : result.1.Wired)
    (hsilent : ∀ event ∈ result.2, event.verdict = none)
    (hnext : ∀ submitted released, Tally submitted released core →
      Tally submitted released result.1) : Counted (trace ++ result.2) result.1 := by
  refine ⟨hwired, ?_, third_fails_silent h.third hsilent⟩
  have hsame : ∀ generation,
      wrongSubmitted generation (trace ++ result.2) = wrongSubmitted generation trace ∧
        wrongReleased generation (trace ++ result.2) = wrongReleased generation trace := by
    intro generation
    obtain ⟨hsubmitted, hreleased⟩ := wrongs_of_silent hsilent
    simp [hsubmitted generation, hreleased generation]
  rw [funext fun generation => (hsame generation).1, funext fun generation => (hsame generation).2]
  exact hnext _ _ h.tally

/-- A step whose only verdict comes after events without one, and before others. -/
theorem third_fails_verdict (before : List CoreEvent) {after : List CoreEvent} {event : CoreEvent}
    {generation : Nat} {outcome : PairOutcome} (h : ThirdFails trace)
    (hevent : event.verdict = some (generation, outcome))
    (hbefore : ∀ event ∈ before, event.verdict = none)
    (hafter : ∀ event ∈ after, event.verdict = none)
    (hthird : outcome.wrong = true → (outcome = .failedOut ↔
      2 ≤ wrongSubmitted generation trace + wrongReleased generation trace)) :
    ThirdFails (trace ++ (before ++ event :: after)) := by
  have hstart : ThirdFails (trace ++ before ++ [event]) := by
    refine each_event_append.mpr ⟨third_fails_silent h hbefore, ?_⟩
    refine each_event_singleton.mpr fun of found hverdict hwrong => ?_
    obtain ⟨rfl, rfl⟩ : generation = of ∧ outcome = found := by
      simpa using hevent.symm.trans hverdict
    obtain ⟨hsubmitted, hreleased⟩ := wrongs_of_silent hbefore
    simpa [hsubmitted, hreleased] using hthird hwrong
  have hwhole := third_fails_silent hstart hafter
  simpa using hwhole

/-- The counts after a verdict of a loop. -/
theorem wrongs_after_judged {peer : Fingerprint} {conn : ConnId} {msg : ControlMsg}
    {generation : Nat} {code : String} {outcome : PairOutcome} {rest : List CoreEvent}
    (hrest : ∀ event ∈ rest, event.verdict = none) :
    (fun other => wrongSubmitted other (trace ++
        .received peer conn msg :: .codeJudged peer generation code outcome :: rest)) =
      bump (fun other => wrongSubmitted other trace) generation outcome ∧
    (fun other => wrongReleased other (trace ++
        .received peer conn msg :: .codeJudged peer generation code outcome :: rest)) =
      fun other => wrongReleased other trace := by
  obtain ⟨hsubmitted, hreleased⟩ := wrongs_of_silent hrest
  refine ⟨funext fun other => ?_, funext fun other => ?_⟩
  · have hzero := hsubmitted other
    rw [wrong_submitted_append]
    unfold wrongSubmitted bump at *
    rw [List.countP_cons, List.countP_cons, hzero]
    cases hcase : generation == other && outcome.wrong <;>
      simp [CoreEvent.isWrongSubmitted, hcase]
  · have hzero := hreleased other
    rw [wrong_released_append]
    unfold wrongReleased at *
    rw [List.countP_cons, List.countP_cons, hzero]
    simp [CoreEvent.isWrongReleased]

/-- The counts after a verdict of a grant. -/
theorem wrongs_after_stash_judged {peer : Fingerprint} {generation : Nat} {code : String}
    {outcome : PairOutcome} {rest : List CoreEvent}
    (hrest : ∀ event ∈ rest, event.verdict = none) :
    (fun other => wrongSubmitted other (trace ++ .stashJudged peer generation code outcome :: rest)) =
      (fun other => wrongSubmitted other trace) ∧
    (fun other => wrongReleased other (trace ++ .stashJudged peer generation code outcome :: rest)) =
      bump (fun other => wrongReleased other trace) generation outcome := by
  obtain ⟨hsubmitted, hreleased⟩ := wrongs_of_silent hrest
  refine ⟨funext fun other => ?_, funext fun other => ?_⟩
  · have hzero := hsubmitted other
    rw [wrong_submitted_append]
    unfold wrongSubmitted at *
    rw [List.countP_cons, hzero]
    simp [CoreEvent.isWrongSubmitted]
  · have hzero := hreleased other
    rw [wrong_released_append]
    unfold wrongReleased bump at *
    rw [List.countP_cons, hzero]
    cases hcase : generation == other && outcome.wrong <;>
      simp [CoreEvent.isWrongReleased, hcase]

/-- A verdict on a session of the table fails the pairing out exactly from the third wrong code on. -/
theorem Counted.verdict_third {peer : Fingerprint} {session : Session} {code : String}
    (h : Counted trace core) (hsession : core.sessions peer = some session)
    (hwrong : (judgeCode hashCode session code).2.wrong = true) :
    (judgeCode hashCode session code).2 = .failedOut ↔
      2 ≤ wrongSubmitted session.generation trace + wrongReleased session.generation trace := by
  cases hmachine : session.pairing with
  | none =>
    rw [judge_code_none hmachine] at hwrong
    cases hwrong
  | some machine =>
    have hcount := h.tally.counted peer session machine hsession hmachine
    obtain ⟨hsubmitted, hreleased⟩ := h.tally.bounded session.generation
    obtain ⟨-, -, -, hthird⟩ :=
      judge_code_spec hashCode code hmachine (by omega)
    rw [← hcount]
    exact hthird hwrong

/-- Every step of the own tasks of a connection keeps the tally. -/
theorem Counted.step (h : Counted trace core) (hguard : ownTask trace core input)
    (hstep : core.step hashCode input = some result) : Counted (trace ++ result.2) result.1 := by
  have hwired : result.1.Wired := step_wired h.wired hstep
  cases step_move hashCode hstep with
  | calm hcalm =>
    refine h.silent hwired (fun event hmem => plain_no_verdict (hcalm.plain event hmem)) ?_
    exact fun _ _ htally => htally.tame hcalm.continues.tame
  | heard _ _ _ hcalm =>
    refine h.silent hwired ?_ fun _ _ htally => htally.tame hcalm.continues.tame
    intro event hmem
    rcases List.mem_cons.mp hmem with rfl | hmem
    · rfl
    · exact plain_no_verdict (hcalm.plain event hmem)
  | opened _ =>
    exact h.silent hwired (local_no_verdict open_handshake_local) fun _ _ htally =>
      htally.tame open_handshake_tame
  | entered hhandshake hstage =>
    exact h.silent hwired (local_no_verdict insert_session_local) fun _ _ htally =>
      htally.entered h.wired hhandshake hstage
  | granted hsession hconsent =>
    exact h.silent hwired (local_no_verdict grant_consent_local) fun _ _ htally =>
      htally.granted h.wired hsession hconsent
  | @judged conn code loop session hloop hstage hsession hgranted =>
    have hconn : session.connId = conn := by
      obtain ⟨pending, hconsent⟩ := hgranted
      simpa [ownTask, hloop, hsession, hconsent] using hguard
    subst hconn
    refine ⟨hwired, ?_, ?_⟩
    · rw [(wrongs_after_judged replies_no_verdict).1, (wrongs_after_judged replies_no_verdict).2]
      exact h.tally.judged h.wired hloop (by simp [hstage, LoopStage.Serving]) hsession hgranted
    · exact third_fails_verdict [_] h.third rfl (by simp [CoreEvent.verdict])
        replies_no_verdict (h.verdict_third hsession)
  | @released task code grant session hgrant hstage hsession =>
    have hconn : session.connId = grant.conn := by
      simpa [ownTask, hgrant, hstage, hsession] using hguard
    refine ⟨hwired, ?_, ?_⟩
    · rw [(wrongs_after_stash_judged (local_no_verdict reports_local)).1,
        (wrongs_after_stash_judged (local_no_verdict reports_local)).2]
      exact h.tally.stash_judged hgrant (by simp [hstage, GrantStage.Waiting]) hsession hconn
    · exact third_fails_verdict [] h.third rfl (by simp) (local_no_verdict reports_local)
        (h.verdict_third hsession)
  | confirmed _ hloop hstage =>
    refine h.silent hwired (by simp [CoreEvent.verdict]) fun _ _ htally => htally.tame ?_
    refine Tame.set_loop (Tame.refl core) hloop rfl fun _ => ?_
    rcases hstage with hstage | hstage <;> simp [hstage, LoopStage.Serving]
  | @completed conn loop drained stage hloop hstage =>
    refine h.silent hwired (local_no_verdict complete_pairing_local) fun _ _ htally => htally.tame ?_
    have hthere : (core.completePairing loop.peer conn stage).1.1.loops conn = some loop := by
      rw [(complete_pairing_kept core loop.peer conn stage).1, hloop]
    refine complete_pairing_tame.set_loop hthere rfl fun _ => ?_
    simp [hstage, LoopStage.Serving]
  | @settled task grant stage hgrant hstage =>
    refine h.silent hwired (local_no_verdict complete_pairing_local) fun _ _ htally => htally.tame ?_
    have hthere : (core.completePairing grant.peer grant.conn stage).1.1.grants task =
        some grant := by
      rw [(complete_pairing_kept core grant.peer grant.conn stage).2, hgrant]
    refine complete_pairing_tame.set_grant hthere ?_
    intro later hlater
    obtain ⟨following, -, rfl⟩ := Option.map_eq_some_iff.mp hlater
    exact ⟨rfl, id⟩
  | @gaveUp conn loop hloop hstage =>
    refine h.silent hwired (by simp [CoreEvent.verdict]) fun _ _ htally => htally.tame ?_
    have hcooled : Tame core (core.recordCooldown loop.peer) :=
      ⟨(Tame.refl core).sessions, (Tame.refl core).loops, (Tame.refl core).grants, rfl⟩
    exact hcooled.set_loop hloop rfl fun hserves => absurd hserves id
  | left _ _ =>
    exact h.silent hwired (local_no_verdict leave_local) fun _ _ htally => htally.tame leave_tame

/-- Nothing has been judged when the sessions begin. -/
theorem counted_spawn (config : Config) (trust : TrustStore) :
    Counted [] (spawn config trust) := by
  have hsessions : ∀ peer session, (spawn config trust).sessions peer ≠ some session := by
    intro peer session h
    cases h
  have hloops : ∀ conn loop, (spawn config trust).loops conn ≠ some loop := by
    intro conn loop h
    cases h
  have hgrants : ∀ task grant, (spawn config trust).grants task ≠ some grant := by
    intro task grant h
    cases h
  refine ⟨wired_spawn config trust, ?_, each_event_nil⟩
  exact
    { bounded := fun _ => ⟨Nat.zero_le 3, Nat.zero_le 1⟩
      fresh := fun _ _ => ⟨rfl, rfl⟩
      numbered := fun peer session h => absurd h (hsessions peer session)
      apart := fun peer _ session _ h => absurd h (hsessions peer session)
      counted := fun peer session _ h => absurd h (hsessions peer session)
      gated := fun peer session h => absurd h (hsessions peer session)
      serving := fun peer session _ h => absurd h (hsessions peer session)
      waiting := fun peer session _ _ h => absurd h (hsessions peer session)
      single := fun task _ grant _ h => absurd h (hgrants task grant)
      failed := fun conn loop h => absurd h (hloops conn loop) }

end Counted

end SessionCore

end LocalTrans
