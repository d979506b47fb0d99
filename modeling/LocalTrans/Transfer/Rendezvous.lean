import LocalTrans.Transfer.Push

/-!
# What a push hears

A push that waits for its response takes the first `OfferResp` of its peer, whichever offer it is
meant for, and a push hears only what is broadcast while it is subscribed, and not overwritten
before it reads. `responses_correlated` and `signals_heard` say under which conditions on the
arriving signals every push goes by its own response and its own outcome.
-/

namespace LocalTrans

open Foundation

variable {signals : Broadcast Signal} {job : Nat} {push next : Push} {signal : Signal}

namespace PushTable

variable {guard : Guard PushTable PushInput PushEvent} {table : PushTable} {input : PushInput}
  {emitted : List PushEvent}

/-- What a step does to one push and to the channel: a signal arrives and the push is as before,
or the channel is as before and the push is as before, makes a move, or is new. -/
theorem step_push {after : PushTable} (hstep : table.step input = some (after, emitted))
    (hpush : after.pushes job = some next) :
    (∃ signal, input = .signal signal ∧ after.signals = table.signals.send signal ∧
      after.nextJob = table.nextJob ∧ table.pushes job = some next) ∨
    after.signals = table.signals ∧ table.nextJob ≤ after.nextJob ∧
      ((∃ push, table.pushes job = some push ∧
          (push = next ∨ push.Moves table.signals job next)) ∨
        next.phase = .prepared ∧ next.answer = none ∧ job < after.nextJob) := by
  cases input with
  | pushFiles peer files =>
    cases hstep
    refine .inr ⟨rfl, Nat.le_succ _, ?_⟩
    by_cases hjob : job = table.nextJob
    · subst hjob
      obtain rfl : _ = next := by simpa [put] using hpush
      exact .inr ⟨rfl, rfl, Nat.lt_succ_self _⟩
    · have hold : table.pushes job = some next := by simpa [put, hjob] using hpush
      exact .inl ⟨next, hold, .inl rfl⟩
  | otherJob =>
    cases hstep
    exact .inr ⟨rfl, Nat.le_succ _, .inl ⟨next, hpush, .inl rfl⟩⟩
  | setOfferTimeout | tick =>
    cases hstep
    exact .inr ⟨rfl, Nat.le_refl _, .inl ⟨next, hpush, .inl rfl⟩⟩
  | signal signal =>
    simp only [step] at hstep
    split at hstep
    · cases hstep
      exact .inl ⟨signal, rfl, rfl, rfl, hpush⟩
    · cases hstep
  | move moved move =>
    obtain ⟨push, hmoved, hresult⟩ := Option.bind_eq_some_iff.mp hstep
    obtain ⟨⟨changed, events⟩, hadvance, hafter⟩ := Option.map_eq_some_iff.mp hresult
    simp only [Prod.mk.injEq] at hafter
    obtain ⟨rfl, -⟩ := hafter
    refine .inr ⟨rfl, Nat.le_refl _, .inl ?_⟩
    by_cases hjob : job = moved
    · subst hjob
      obtain rfl : changed = next := by simpa [put] using hpush
      exact ⟨push, hmoved, .inr (advance_moves hadvance)⟩
    · have hold : table.pushes job = some next := by simpa [put, hjob] using hpush
      exact ⟨next, hold, .inl rfl⟩

/-- A property of a push and the channel that holds of new pushes and is kept by every move and
by every signal that meets the guard holds of all pushes in every guarded run. -/
theorem push_invariant (Inv : Broadcast Signal → Nat → Push → Prop)
    {offerTimeoutSecs maxSecs : Nat} {inputs : List PushInput} {trace : List PushEvent}
    {last : PushTable}
    (hnew : ∀ signals job push, push.phase = .prepared → push.answer = none →
      Inv signals job push)
    (hmove : ∀ signals job push next, Inv signals job push → push.Moves signals job next →
      Inv signals job next)
    (hsend : ∀ trace table signal job push, guard trace table (.signal signal) →
      job < table.nextJob → table.pushes job = some push → Inv table.signals job push →
      Inv (table.signals.send signal) job push)
    (h : Exec step guard (start offerTimeoutSecs maxSecs) inputs trace last) :
    ∀ job push, last.pushes job = some push → job < last.nextJob ∧ Inv last.signals job push := by
  induction h with
  | start =>
    intro job push hpush
    cases hpush
  | step _ hguard hstep ih =>
    intro job next hpush
    rcases step_push hstep hpush with ⟨signal, rfl, hsignals, hcount, hold⟩ |
      ⟨hsignals, hcount, ⟨push, hold, hchange⟩ | ⟨hphase, hanswer, hjob⟩⟩
    · obtain ⟨hjob, hinv⟩ := ih job next hold
      rw [hsignals, hcount]
      exact ⟨hjob, hsend _ _ _ _ _ hguard hjob hold hinv⟩
    · obtain ⟨hjob, hinv⟩ := ih job push hold
      rw [hsignals]
      refine ⟨Nat.lt_of_lt_of_le hjob hcount, ?_⟩
      rcases hchange with rfl | hmoves
      · exact hinv
      · exact hmove _ _ _ _ hinv hmoves
    · rw [hsignals]
      exact ⟨hjob, hnew _ _ _ hphase hanswer⟩

end PushTable

section Correlation

/-- The push goes by the response of its peer to its own offer, if by any. -/
def Push.Correlated (signals : Broadcast Signal) (job : Nat) (push : Push) : Prop :=
  match push.phase.verdict with
  | none => push.answer = none
  | some verdict => ∃ signal ∈ signals.log, push.answer = some signal ∧
      signal.answers push.peer job = true ∧ signal.verdict = some verdict

/-- The next response that the push will take, if it is there already, is to its own offer. -/
def Push.nextIsOwn (signals : Broadcast Signal) (job : Nat) (push : Push) : Bool :=
  match push.phase with
  | .awaitingResp position _ =>
    ((signals.retained position).find? (Signal.responds push.peer)).all
      (Signal.answers push.peer job)
  | _ => true

/-- When a signal arrives, every waiting push will still take a response to its own offer. -/
def responseGuard : Guard PushTable PushInput PushEvent :=
  fun _ table input =>
    match input with
    | .signal signal => ∀ job < table.nextJob,
        (table.pushes job).all (Push.nextIsOwn (table.signals.send signal) job) = true
    | _ => True

instance (trace : List PushEvent) (table : PushTable) (input : PushInput) :
    Decidable (responseGuard trace table input) :=
  match input with
  | .signal _ => inferInstanceAs (Decidable (∀ job < _, _))
  | .pushFiles .. | .otherJob | .move .. | .setOfferTimeout _ | .tick _ => .isTrue trivial

/-- The push goes by its own response, and the next one it will take is its own. -/
structure ResponseInv (signals : Broadcast Signal) (job : Nat) (push : Push) : Prop where
  correlated : push.Correlated signals job
  next_own : push.nextIsOwn signals job = true

/-- A verdict for a phase that rests on one, and whose response is known. -/
theorem Push.Correlated.of_verdict {verdict : PushPhase} (hphase : push.phase.verdict = some verdict)
    (hmem : signal ∈ signals.log) (hanswer : push.answer = some signal)
    (hown : signal.answers push.peer job = true) (hverdict : signal.verdict = some verdict) :
    push.Correlated signals job := by
  unfold Correlated
  rw [hphase]
  exact ⟨signal, hmem, hanswer, hown, hverdict⟩

/-- What the push goes by depends only on the verdict it rests on. -/
theorem Push.Correlated.same (h : push.Correlated signals job)
    (hverdict : next.phase.verdict = push.phase.verdict) (hanswer : next.answer = push.answer)
    (hpeer : next.peer = push.peer) : next.Correlated signals job := by
  unfold Correlated at *
  rw [hverdict, hanswer, hpeer]
  exact h

/-- A response accepts or denies. -/
theorem Signal.verdict_cases {phase : PushPhase} (h : signal.verdict = some phase) :
    phase = .answered ∨ ∃ reason, phase = .finished (.denied reason) := by
  unfold verdict at h
  split at h
  · cases h
    exact .inl rfl
  · cases h
    exact .inr ⟨_, rfl⟩
  · cases h

/-- The phase a response leads to rests on that response. -/
theorem Signal.verdict_self {phase : PushPhase} (h : signal.verdict = some phase) :
    phase.verdict = some phase := by
  rcases verdict_cases h with rfl | ⟨reason, rfl⟩
  · rfl
  · rfl

/-- An outcome is that the job is done or that it failed. -/
theorem Signal.outcome_cases {exit : PushExit} (h : signal.outcome = some exit) :
    exit = .done ∨ ∃ reason, exit = .failed reason := by
  unfold outcome at h
  split at h
  · cases h
    exact .inl rfl
  · cases h
    exact .inr ⟨_, rfl⟩
  · cases h

/-- A move keeps the push to its own responses. -/
theorem ResponseInv.move (h : ResponseInv signals job push) (hmoves : push.Moves signals job next) :
    ResponseInv signals job next := by
  have hkept : next.phase.verdict = push.phase.verdict → next.answer = push.answer →
      next.peer = push.peer → (∀ position deadline, next.phase ≠ .awaitingResp position deadline) →
      ResponseInv signals job next := by
    intro hverdict hanswer hpeer hphase
    refine ⟨h.correlated.same hverdict hanswer hpeer, ?_⟩
    unfold Push.nextIsOwn
    split
    · next position deadline hwaiting => exact absurd hwaiting (hphase position deadline)
    · rfl
  cases hmoves with
  | offer hphase => exact hkept (by rw [hphase]; rfl) rfl rfl (by simp)
  | cancel => exact ⟨h.correlated.same rfl rfl rfl, h.next_own⟩
  | quit exit registered hown hverdict hsent => exact hkept hverdict rfl rfl (by simp)
  | subscribe deadline hphase =>
    refine ⟨h.correlated.same (by rw [hphase]; rfl) rfl rfl, ?_⟩
    simp [Push.nextIsOwn]
  | skipResp position deadline hphase hother =>
    refine ⟨h.correlated.same (by rw [hphase]; rfl) rfl rfl, ?_⟩
    have hnext := h.next_own
    unfold Push.nextIsOwn at hnext ⊢
    rw [hphase] at hnext
    dsimp only at hnext ⊢
    rwa [Broadcast.find_retained_recv hother]
  | takeResp position deadline signal phase registered hphase hrecv hresp hverdict =>
    -- The response that is taken is the next one in the buffer, which is to the push's offer.
    have hown := h.next_own
    unfold Push.nextIsOwn at hown
    rw [hphase] at hown
    dsimp only at hown
    rw [Broadcast.find_retained_message hrecv hresp, Option.all_some] at hown
    have hself := Signal.verdict_self hverdict
    refine ⟨.of_verdict hself (Broadcast.mem_log_of_recv hrecv) rfl hown hverdict, ?_⟩
    unfold Push.nextIsOwn
    split
    · next hwaiting =>
      dsimp only at hwaiting
      rw [hwaiting] at hself
      cases hself
    · rfl
  | timeout position deadline hphase => exact hkept (by rw [hphase]; rfl) rfl rfl (by simp)
  | batch hphase => exact hkept (by rw [hphase]; rfl) rfl rfl (by simp)
  | sent hphase | allSkipped hphase =>
    refine hkept ?_ rfl rfl (by simp)
    rcases hphase with hphase | hphase <;> rw [hphase] <;> rfl
  | listen deadline hphase => exact hkept (by rw [hphase]; rfl) rfl rfl (by simp)
  | skipDone position deadline hphase => exact hkept (by rw [hphase]; rfl) rfl rfl (by simp)
  | takeDone position deadline signal exit hphase hrecv hreport houtcome =>
    refine hkept ?_ rfl rfl (by simp)
    rw [hphase]
    rcases Signal.outcome_cases houtcome with rfl | ⟨reason, rfl⟩
    · rfl
    · rfl
  | doneTimeout position deadline secs hphase => exact hkept (by rw [hphase]; rfl) rfl rfl (by simp)

/-- A signal that meets the guard keeps the push to its own responses. -/
theorem ResponseInv.send (h : ResponseInv signals job push)
    (hnext : push.nextIsOwn (signals.send signal) job = true) :
    ResponseInv (signals.send signal) job push := by
  refine ⟨?_, hnext⟩
  have hcorrelated := h.correlated
  unfold Push.Correlated at hcorrelated ⊢
  split at hcorrelated
  · exact hcorrelated
  · obtain ⟨answer, hmem, hrest⟩ := hcorrelated
    exact ⟨answer, List.mem_append_left _ hmem, hrest⟩

/-- A push that nobody has answered. -/
theorem ResponseInv.new (hphase : push.phase = .prepared) (hanswer : push.answer = none) :
    ResponseInv signals job push := by
  constructor
  · unfold Push.Correlated
    rw [hphase]
    exact hanswer
  · unfold Push.nextIsOwn
    rw [hphase]

/-- In every run in which responses to other offers keep out of the way of waiting pushes, every
push that sends files, skips files or ends as denied does so on the response of its peer to its
own offer. -/
theorem responses_correlated {offerTimeoutSecs maxSecs : Nat} {inputs : List PushInput}
    {trace : List PushEvent} {last : PushTable}
    (h : Exec PushTable.step responseGuard (PushTable.start offerTimeoutSecs maxSecs) inputs trace
      last) :
    ∀ job push, last.pushes job = some push → push.Correlated last.signals job := by
  intro job push hpush
  refine (PushTable.push_invariant ResponseInv ?_ ?_ ?_ h job push hpush).2.correlated
  · intro signals job push hphase hanswer
    exact .new hphase hanswer
  · intro signals job push next hinv hmoves
    exact hinv.move hmoves
  · intro trace table signal job push hguard hjob hpush hinv
    have hnext := hguard job hjob
    rw [hpush, Option.all_some] at hnext
    exact hinv.send hnext

section Samples

/-- A file that is pushed. -/
def sampleFile : LocalFile :=
  { path := "/home/d/a.txt", name := "a.txt", relDir := "", size := 3, digest := "h" }

/-- A response of peer 7 that accepts everything. -/
def acceptance (job : Nat) : Signal :=
  { peer := 7, msg := .offerResp true none none [], about := some job }

/-- A push to peer 7 up to its waiting for the response. -/
def offered (job : Nat) : List PushInput :=
  [.pushFiles 7 [sampleFile], .move job (.offer none), .move job .subscribe]

end Samples

/-- A push that waits alone takes the response to its offer. -/
theorem correlated_when_alone :
    ∃ (last : PushTable) (push : Push), last.pushes 1 = some push ∧ push.phase = .answered ∧
      push.Correlated last.signals 1 := by
  obtain ⟨trace, last, hexec, hview⟩ := exec_reaches PushTable.step responseGuard
    (PushTable.start 60 1800) (offered 1 ++ [.signal (acceptance 1), .move 1 .poll])
    (fun table => (table.pushes 1).map Push.phase) (some .answered) (by decide)
  obtain ⟨push, hpush, hphase⟩ := Option.map_eq_some_iff.mp hview
  exact ⟨last, push, hpush, hphase, responses_correlated hexec 1 push hpush⟩

/-- Of two pushes that wait for peer 7, the second takes the response to the first. -/
theorem not_correlated_when_both_wait :
    ¬ ∀ (offerTimeoutSecs maxSecs : Nat) (inputs : List PushInput) (trace : List PushEvent)
        (last : PushTable),
      Exec PushTable.step Guard.free (PushTable.start offerTimeoutSecs maxSecs) inputs trace last →
        ∀ job push, last.pushes job = some push → push.Correlated last.signals job := by
  intro hall
  obtain ⟨trace, last, hexec, hview⟩ := exec_reaches PushTable.step Guard.free
    (PushTable.start 60 1800) (offered 1 ++ offered 2 ++ [.signal (acceptance 1), .move 2 .poll])
    (fun table => (table.pushes 2).map fun push => (push.phase, push.answer))
    (some (.answered, some (acceptance 1))) (by decide)
  obtain ⟨push, hpush, hphase⟩ := Option.map_eq_some_iff.mp hview
  obtain ⟨hphase, hanswer⟩ := Prod.mk.injEq .. ▸ hphase
  have hcorrelated := hall _ _ _ _ _ hexec 2 push hpush
  unfold Push.Correlated at hcorrelated
  rw [hphase] at hcorrelated
  obtain ⟨signal, -, hsignal, hown, -⟩ := hcorrelated
  rw [hanswer] at hsignal
  cases hsignal
  simp [Signal.answers, acceptance] at hown

end Correlation

section Hearing

/-- An exit agrees with the responses and the outcomes that were sent: a push that timed out was
sent none, and one that ended otherwise ended with the first. -/
def PushExit.Agrees (responses reported : List Signal) : PushExit → Prop
  | .timeout => responses = [] ∧ reported = []
  | .doneTimeout _ => reported = []
  | .allSkipped => ∀ signal ∈ reported, signal.outcome = some .done
  | .done => reported.head?.bind Signal.outcome = some .done
  | .failed reason => reported.head?.bind Signal.outcome = some (.failed reason)
  | _ => True

namespace Push

/-- The responses to the offer that were sent since it was made. -/
def responses (signals : Broadcast Signal) (job : Nat) (push : Push) : List Signal :=
  (signals.log.drop push.offeredAt).filter (Signal.answers push.peer job)

/-- The outcomes that were reported since the offer was made. -/
def reported (signals : Broadcast Signal) (job : Nat) (push : Push) : List Signal :=
  (signals.log.drop push.offeredAt).filter (Signal.reports push.peer job)

/-- The first response accepts the offer and skips every file of it. -/
def skipsAll (signals : Broadcast Signal) (job : Nat) (push : Push) : Bool :=
  (push.responses signals job).head?.any fun signal =>
    signal.verdict == some .answered && !({ push with answer := some signal }).hasFiles

/-- Nothing that was sent for the push since its offer is missed: what it went by is the first
response, what it waits for is still there to be read, and it ended with the first outcome. -/
structure Heard (signals : Broadcast Signal) (job : Nat) (push : Push) : Prop where
  response : push.phase.verdict.isSome →
    (push.responses signals job).head?.bind Signal.verdict = push.phase.verdict
  waiting_response : ∀ position deadline, push.phase = .awaitingResp position deadline →
    signals.Intact (Signal.answers push.peer job) push.offeredAt position
  waiting_outcome : ∀ position deadline, push.phase = .awaitingDone position deadline →
    signals.Intact (Signal.reports push.peer job) push.offeredAt position
  ended : ∀ exit, push.phase = .finished exit →
    exit.Agrees (push.responses signals job) (push.reported signals job)

/-- The push can hear the signal when it arrives, and the signal overwrites nothing the push has
still to read. -/
def hears (signals : Broadcast Signal) (job : Nat) (push : Push) (signal : Signal) : Bool :=
  let response := signal.answers push.peer job
  let report := signal.reports push.peer job
  let last := push.skipsAll signals job && signal.outcome == some .done
  match push.phase with
  | .prepared => true
  | .offered => !response && !report
  | .awaitingResp position _ =>
    push.nextIsOwn (signals.send signal) job && (!report || last) &&
      ((signals.send signal).lost position).all fun found => !found.answers push.peer job
  | .answered => !report || last
  | .batching | .sent => !report
  | .awaitingDone position _ =>
    ((signals.send signal).lost position).all fun found => !found.reports push.peer job
  | .finished .timeout => !response && !report
  | .finished (.doneTimeout _) => !report
  | .finished .allSkipped => !report || signal.outcome == some .done
  | .finished _ => true

end Push

/-- When a signal arrives, every push can hear it. -/
def hearingGuard : Guard PushTable PushInput PushEvent :=
  fun _ table input =>
    match input with
    | .signal signal => ∀ job < table.nextJob,
        (table.pushes job).all (fun push => push.hears table.signals job signal) = true
    | _ => True

instance (trace : List PushEvent) (table : PushTable) (input : PushInput) :
    Decidable (hearingGuard trace table input) :=
  match input with
  | .signal _ => inferInstanceAs (Decidable (∀ job < _, _))
  | .pushFiles .. | .otherJob | .move .. | .setOfferTimeout _ | .tick _ => .isTrue trivial

namespace Push

/-- The response the push took is the first one, and accepts. -/
def Took (signals : Broadcast Signal) (job : Nat) (push : Push) : Prop :=
  (push.responses signals job).head? = push.answer ∧
    push.answer.bind Signal.verdict = some .answered

/-- Outcomes so far are those of an offer of which everything is skipped. -/
def Early (signals : Broadcast Signal) (job : Nat) (push : Push) : Prop :=
  ∀ signal ∈ push.reported signals job,
    push.skipsAll signals job = true ∧ signal.outcome = some .done

/-- What holds of a push in each phase, if it hears everything. -/
def HeardInv (signals : Broadcast Signal) (job : Nat) (push : Push) : Prop :=
  (push.phase.offerSent = true → push.offeredAt ≤ signals.log.length) ∧
  match push.phase with
  | .prepared => True
  | .offered => push.responses signals job = [] ∧ push.reported signals job = []
  | .awaitingResp position _ =>
    position ≤ signals.log.length ∧ push.nextIsOwn signals job = true ∧
      signals.Intact (Signal.answers push.peer job) push.offeredAt position ∧
      push.Early signals job
  | .answered => push.Took signals job ∧ push.Early signals job
  | .batching =>
    push.Took signals job ∧ push.hasFiles = true ∧ push.reported signals job = []
  | .sent => push.Took signals job ∧ push.reported signals job = []
  | .awaitingDone position _ =>
    push.Took signals job ∧ position ≤ signals.log.length ∧
      signals.Intact (Signal.reports push.peer job) push.offeredAt position
  | .finished exit =>
    ((PushPhase.finished exit).verdict.isSome →
      (push.responses signals job).head?.bind Signal.verdict =
        (PushPhase.finished exit).verdict) ∧
    exit.Agrees (push.responses signals job) (push.reported signals job)

variable {position deadline : Nat}

/-- A later signal adds to the responses if it is one. -/
theorem responses_send (h : push.offeredAt ≤ signals.log.length) :
    push.responses (signals.send signal) job =
      push.responses signals job ++ [signal].filter (Signal.answers push.peer job) := by
  unfold responses Broadcast.send
  rw [List.drop_append_of_le_length h, List.filter_append]

/-- A later signal adds to the reported outcomes if it is one. -/
theorem reported_send (h : push.offeredAt ≤ signals.log.length) :
    push.reported (signals.send signal) job =
      push.reported signals job ++ [signal].filter (Signal.reports push.peer job) := by
  unfold reported Broadcast.send
  rw [List.drop_append_of_le_length h, List.filter_append]

/-- The first response stays the first. -/
theorem head_responses_send (h : push.offeredAt ≤ signals.log.length) {first : Signal}
    (hfirst : (push.responses signals job).head? = some first) :
    (push.responses (signals.send signal) job).head? = some first := by
  rw [responses_send h, List.head?_append, hfirst, Option.some_or]

/-- A push that skips everything still does after another signal. -/
theorem skips_all_send (h : push.offeredAt ≤ signals.log.length)
    (hall : push.skipsAll signals job = true) :
    push.skipsAll (signals.send signal) job = true := by
  unfold skipsAll at *
  obtain ⟨first, hfirst, hskips⟩ := (Option.any_eq_true _ _).mp hall
  rw [head_responses_send h hfirst]
  exact hskips

/-- The response that was taken stays the first. -/
theorem Took.send (htook : push.Took signals job) (h : push.offeredAt ≤ signals.log.length) :
    push.Took (signals.send signal) job := by
  obtain ⟨hfirst, hverdict⟩ := htook
  obtain ⟨answer, hanswer, -⟩ := Option.bind_eq_some_iff.mp hverdict
  refine ⟨?_, hverdict⟩
  rw [hanswer] at hfirst ⊢
  exact head_responses_send h hfirst

/-- Outcomes stay those of an offer of which everything is skipped. -/
theorem Early.send (hearly : push.Early signals job) (h : push.offeredAt ≤ signals.log.length)
    (hnew : signal.reports push.peer job = true →
      push.skipsAll signals job = true ∧ signal.outcome = some .done) :
    push.Early (signals.send signal) job := by
  intro found hfound
  rw [reported_send h, List.mem_append, List.mem_filter, List.mem_singleton] at hfound
  rcases hfound with hold | ⟨rfl, hreport⟩
  · exact ⟨skips_all_send h (hearly found hold).1, (hearly found hold).2⟩
  · exact ⟨skips_all_send h (hnew hreport).1, (hnew hreport).2⟩

/-- A push that took a response skips everything only if it sends nothing. -/
theorem Took.has_files (htook : push.Took signals job) (hall : push.skipsAll signals job = true) :
    push.hasFiles = false := by
  obtain ⟨hfirst, hverdict⟩ := htook
  obtain ⟨answer, hanswer, -⟩ := Option.bind_eq_some_iff.mp hverdict
  unfold skipsAll at hall
  rw [hfirst, hanswer, Option.any_some, ← hanswer, Bool.and_eq_true] at hall
  simpa using hall.2

/-- A push that still has files to send was reported no outcome early. -/
theorem Early.reported_eq_nil (hearly : push.Early signals job) (htook : push.Took signals job)
    (hfiles : push.hasFiles = true) : push.reported signals job = [] := by
  rw [List.eq_nil_iff_forall_not_mem]
  intro signal hmem
  have hnone := htook.has_files (hearly signal hmem).1
  rw [hfiles] at hnone
  cases hnone

/-- A push with no response yet was reported no outcome early. -/
theorem Early.none_without_response (hearly : push.Early signals job)
    (hnone : push.responses signals job = []) : push.reported signals job = [] := by
  rw [List.eq_nil_iff_forall_not_mem]
  intro signal hmem
  have hall := (hearly signal hmem).1
  simp [skipsAll, hnone] at hall

/-- The verdict of a phase is that of the first response. -/
theorem HeardInv.response (h : push.HeardInv signals job) (hsome : push.phase.verdict.isSome) :
    (push.responses signals job).head?.bind Signal.verdict = push.phase.verdict := by
  have htook : push.Took signals job →
      (push.responses signals job).head?.bind Signal.verdict = some .answered := by
    rintro ⟨hfirst, hverdict⟩
    rw [hfirst, hverdict]
  obtain ⟨-, hphase⟩ := h
  cases hcase : push.phase with
  | prepared | offered | awaitingResp =>
    rw [hcase] at hsome
    cases hsome
  | answered | batching | sent | awaitingDone =>
    rw [hcase] at hphase
    exact htook hphase.1
  | finished exit =>
    rw [hcase] at hphase hsome
    exact hphase.1 hsome

/-- What holds of a push in each phase makes it hear everything. -/
theorem HeardInv.heard (h : push.HeardInv signals job) : push.Heard signals job where
  response := h.response
  waiting_response position deadline hphase := by
    have hwaiting := h.2
    rw [hphase] at hwaiting
    exact hwaiting.2.2.1
  waiting_outcome position deadline hphase := by
    have hwaiting := h.2
    rw [hphase] at hwaiting
    exact hwaiting.2.2
  ended exit hphase := by
    have hended := h.2
    rw [hphase] at hended
    exact hended.2

/-- The exits a push chooses by itself agree with anything. -/
theorem own_agrees {exit : PushExit} {responses reported : List Signal} (h : exit.own = true) :
    exit.Agrees responses reported := by
  cases exit <;> trivial

/-- A move keeps the push hearing. -/
theorem HeardInv.move (h : push.HeardInv signals job) (hmoves : push.Moves signals job next) :
    next.HeardInv signals job := by
  have hresponse := h.response
  obtain ⟨hsince, hphase⟩ := h
  cases hmoves with
  | offer hprepared =>
    refine ⟨fun _ => Nat.le_refl _, ?_, ?_⟩
    · simp [responses, Broadcast.subscribe]
    · simp [reported, Broadcast.subscribe]
  | cancel => exact ⟨hsince, hphase⟩
  | quit exit registered hown hverdict hsent =>
    refine ⟨fun hfinished => hsince (hsent hfinished), ?_, own_agrees hown⟩
    intro hsome
    rw [hverdict] at hsome
    exact (hresponse hsome).trans hverdict.symm
  | subscribe deadline hoffered =>
    rw [hoffered] at hsince hphase
    refine ⟨hsince, Nat.le_refl _, ?_, ?_, ?_⟩
    · simp [nextIsOwn]
    · exact Broadcast.intact_subscribe hphase.1
    · intro signal hmem
      have hnone : signal ∈ push.reported signals job := hmem
      rw [hphase.2] at hnone
      cases hnone
  | skipResp position deadline hwaiting hother =>
    rw [hwaiting] at hsince hphase
    obtain ⟨hle, hown, hintact, hearly⟩ := hphase
    refine ⟨hsince, Broadcast.recv_le hle, ?_, hintact.recv ?_, hearly⟩
    · unfold nextIsOwn at hown ⊢
      rw [hwaiting] at hown
      dsimp only at hown ⊢
      rwa [Broadcast.find_retained_recv hother]
    · intro signal hrecv
      simp [Signal.answers, hother signal hrecv]
  | takeResp position deadline answer phase registered hwaiting hrecv hresp hverdict =>
    rw [hwaiting] at hsince hphase
    obtain ⟨hle, hown, hintact, hearly⟩ := hphase
    -- What is taken is the next response, which is the push's own, and the first ever sent.
    unfold nextIsOwn at hown
    rw [hwaiting] at hown
    dsimp only at hown
    rw [Broadcast.find_retained_message hrecv hresp, Option.all_some] at hown
    have hfirst : (push.responses signals job).head? = some answer := hintact.first hrecv hown
    refine ⟨fun _ => hsince rfl, ?_⟩
    rcases Signal.verdict_cases hverdict with rfl | ⟨reason, rfl⟩
    · exact ⟨⟨hfirst, hverdict⟩, hearly⟩
    · refine ⟨fun _ => ?_, trivial⟩
      have hbind : (push.responses signals job).head?.bind Signal.verdict =
          some (.finished (.denied reason)) := by rw [hfirst, Option.bind_some, hverdict]
      exact hbind
  | timeout position deadline hwaiting hunread =>
    rw [hwaiting] at hsince hphase
    obtain ⟨hle, hown, hintact, hearly⟩ := hphase
    have hnone : push.responses signals job = [] := hintact.empty hunread
    exact ⟨hsince, by simp [PushPhase.verdict], hnone, hearly.none_without_response hnone⟩
  | batch hanswered hfiles =>
    rw [hanswered] at hsince hphase
    obtain ⟨htook, hearly⟩ := hphase
    exact ⟨hsince, htook, hfiles, hearly.reported_eq_nil htook hfiles⟩
  | sent hbefore hfiles =>
    rcases hbefore with hbefore | hbefore
    · rw [hbefore] at hsince hphase
      obtain ⟨htook, hearly⟩ := hphase
      exact ⟨hsince, htook, hearly.reported_eq_nil htook hfiles⟩
    · rw [hbefore] at hsince hphase
      obtain ⟨htook, -, hnone⟩ := hphase
      exact ⟨hsince, htook, hnone⟩
  | allSkipped hbefore hfiles =>
    rcases hbefore with hbefore | hbefore
    · rw [hbefore] at hsince hphase hresponse
      refine ⟨hsince, fun _ => hresponse rfl, ?_⟩
      intro signal hmem
      exact (hphase.2 signal hmem).2
    · rw [hbefore] at hphase
      rw [hphase.2.1] at hfiles
      cases hfiles
  | listen deadline hsent =>
    rw [hsent] at hsince hphase
    obtain ⟨htook, hnone⟩ := hphase
    exact ⟨hsince, htook, Nat.le_refl _, Broadcast.intact_subscribe hnone⟩
  | skipDone position deadline hwaiting hother =>
    rw [hwaiting] at hsince hphase
    obtain ⟨htook, hle, hintact⟩ := hphase
    exact ⟨hsince, htook, Broadcast.recv_le hle, hintact.recv hother⟩
  | takeDone position deadline signal exit hwaiting hrecv hreport houtcome =>
    rw [hwaiting] at hsince hphase hresponse
    obtain ⟨htook, hle, hintact⟩ := hphase
    have hfirst : (push.reported signals job).head? = some signal := hintact.first hrecv hreport
    have hbind : (push.reported signals job).head?.bind Signal.outcome = some exit := by
      rw [hfirst, Option.bind_some, houtcome]
    rcases Signal.outcome_cases houtcome with rfl | ⟨reason, rfl⟩
    · exact ⟨hsince, fun _ => hresponse rfl, hbind⟩
    · exact ⟨hsince, fun _ => hresponse rfl, hbind⟩
  | doneTimeout position deadline secs hwaiting hunread =>
    rw [hwaiting] at hsince hphase hresponse
    obtain ⟨htook, hle, hintact⟩ := hphase
    exact ⟨hsince, fun _ => hresponse rfl, hintact.empty hunread⟩

/-- The first response that counts stays. -/
theorem verdict_responses_send {phase : PushPhase} (h : push.offeredAt ≤ signals.log.length)
    (hfirst : (push.responses signals job).head?.bind Signal.verdict = some phase) :
    (push.responses (signals.send signal) job).head?.bind Signal.verdict = some phase := by
  obtain ⟨answer, hanswer, hverdict⟩ := Option.bind_eq_some_iff.mp hfirst
  rw [head_responses_send h hanswer, Option.bind_some, hverdict]

/-- The first outcome that was reported stays the first. -/
theorem outcome_reported_send {exit : PushExit} (h : push.offeredAt ≤ signals.log.length)
    (hfirst : (push.reported signals job).head?.bind Signal.outcome = some exit) :
    (push.reported (signals.send signal) job).head?.bind Signal.outcome = some exit := by
  obtain ⟨report, hreport, houtcome⟩ := Option.bind_eq_some_iff.mp hfirst
  rw [reported_send h, List.head?_append, hreport, Option.some_or, Option.bind_some, houtcome]

/-- A signal that is no response to the offer adds none. -/
theorem responses_send_other (h : push.offeredAt ≤ signals.log.length)
    (hother : signal.answers push.peer job = false) :
    push.responses (signals.send signal) job = push.responses signals job := by
  rw [responses_send h, List.filter_cons_of_neg (by simp [hother]), List.filter_nil,
    List.append_nil]

/-- A signal that is no outcome of the job adds none. -/
theorem reported_send_other (h : push.offeredAt ≤ signals.log.length)
    (hother : signal.reports push.peer job = false) :
    push.reported (signals.send signal) job = push.reported signals job := by
  rw [reported_send h, List.filter_cons_of_neg (by simp [hother]), List.filter_nil,
    List.append_nil]

/-- An exit still agrees after a signal the push can hear. -/
theorem agrees_send {exit : PushExit} (hsent : push.offeredAt ≤ signals.log.length)
    (hphase : push.phase = .finished exit)
    (h : exit.Agrees (push.responses signals job) (push.reported signals job))
    (hhears : push.hears signals job signal = true) :
    exit.Agrees (push.responses (signals.send signal) job)
      (push.reported (signals.send signal) job) := by
  unfold hears at hhears
  rw [hphase] at hhears
  cases exit with
  | timeout =>
    simp only [Bool.and_eq_true, Bool.not_eq_true'] at hhears
    refine ⟨?_, ?_⟩
    · rw [responses_send_other hsent hhears.1, h.1]
    · rw [reported_send_other hsent hhears.2, h.2]
  | doneTimeout secs =>
    simp only [Bool.not_eq_true'] at hhears
    show push.reported (signals.send signal) job = []
    rw [reported_send_other hsent hhears, h]
  | allSkipped =>
    intro found hmem
    rw [reported_send hsent, List.mem_append, List.mem_filter, List.mem_singleton] at hmem
    rcases hmem with hold | ⟨rfl, hreport⟩
    · exact h found hold
    · simpa [hreport] using hhears
  | done => exact outcome_reported_send hsent h
  | failed reason => exact outcome_reported_send hsent h
  | sendFailed | cancelled | denied | sessionNotFound | batchFailed | doneCancelled => trivial

/-- A signal the push can hear keeps it hearing. -/
theorem HeardInv.send (h : push.HeardInv signals job)
    (hhears : push.hears signals job signal = true) :
    push.HeardInv (signals.send signal) job := by
  obtain ⟨hsince, hphase⟩ := h
  have hlonger : signals.log.length ≤ (signals.send signal).log.length := by
    simp [Broadcast.send]
  refine ⟨fun hsent => Nat.le_trans (hsince hsent) hlonger, ?_⟩
  cases hcase : push.phase with rw [hcase] at hsince hphase
  | prepared => trivial
  | offered =>
    unfold hears at hhears
    rw [hcase] at hhears
    simp only [Bool.and_eq_true, Bool.not_eq_true'] at hhears
    refine ⟨?_, ?_⟩
    · rw [responses_send_other (hsince rfl) hhears.1, hphase.1]
    · rw [reported_send_other (hsince rfl) hhears.2, hphase.2]
  | awaitingResp position deadline =>
    obtain ⟨hle, -, hintact, hearly⟩ := hphase
    unfold hears at hhears
    rw [hcase] at hhears
    simp only [Bool.and_eq_true, Bool.or_eq_true, Bool.not_eq_true', List.all_eq_true,
      beq_iff_eq] at hhears
    obtain ⟨⟨hown, hlast⟩, hlost⟩ := hhears
    refine ⟨Nat.le_trans hle hlonger, hown, hintact.send hle (hsince rfl) hlost,
      hearly.send (hsince rfl) fun hreport => ?_⟩
    rcases hlast with hnot | hlast
    · rw [hreport] at hnot
      cases hnot
    · exact hlast
  | answered =>
    unfold hears at hhears
    rw [hcase] at hhears
    simp only [Bool.and_eq_true, Bool.or_eq_true, Bool.not_eq_true', beq_iff_eq] at hhears
    refine ⟨hphase.1.send (hsince rfl), hphase.2.send (hsince rfl) fun hreport => ?_⟩
    rcases hhears with hnot | hlast
    · rw [hreport] at hnot
      cases hnot
    · exact hlast
  | batching =>
    obtain ⟨htook, hfiles, hnone⟩ := hphase
    unfold hears at hhears
    rw [hcase] at hhears
    simp only [Bool.not_eq_true'] at hhears
    refine ⟨htook.send (hsince rfl), hfiles, ?_⟩
    rw [reported_send_other (hsince rfl) hhears, hnone]
  | sent =>
    obtain ⟨htook, hnone⟩ := hphase
    unfold hears at hhears
    rw [hcase] at hhears
    simp only [Bool.not_eq_true'] at hhears
    refine ⟨htook.send (hsince rfl), ?_⟩
    rw [reported_send_other (hsince rfl) hhears, hnone]
  | awaitingDone position deadline =>
    obtain ⟨htook, hle, hintact⟩ := hphase
    unfold hears at hhears
    rw [hcase] at hhears
    simp only [Bool.not_eq_true', List.all_eq_true] at hhears
    exact ⟨htook.send (hsince rfl), Nat.le_trans hle hlonger, hintact.send hle (hsince rfl) hhears⟩
  | finished exit =>
    by_cases hsent : (PushPhase.finished exit).offerSent = true
    · refine ⟨fun hsome => ?_, agrees_send (hsince hsent) hcase hphase.2 hhears⟩
      obtain ⟨verdict, hverdict⟩ := Option.isSome_iff_exists.mp hsome
      have hfirst := hphase.1 hsome
      rw [hverdict] at hfirst ⊢
      exact verdict_responses_send (hsince hsent) hfirst
    · obtain ⟨text, rfl⟩ : ∃ text, exit = .sendFailed text := by
        cases exit with
        | sendFailed text => exact ⟨text, rfl⟩
        | _ => simp [PushPhase.offerSent] at hsent
      exact ⟨by simp [PushPhase.verdict], trivial⟩

end Push

section Waiting

variable {table : PushTable} {answer report : Signal}

/-- How many signals a waiting push has still to read. -/
def PushTable.remaining (job : Nat) (table : PushTable) : Nat :=
  match (table.pushes job).map Push.phase with
  | some (.awaitingResp position _) | some (.awaitingDone position _) =>
    table.signals.log.length - position
  | _ => 0

/-- The push waits for its response, which was sent. -/
def PushTable.WaitsForResponse (job : Nat) (answer : Signal) (table : PushTable) : Prop :=
  ∃ push position deadline, table.pushes job = some push ∧
    push.phase = .awaitingResp position deadline ∧ push.cancelled = false ∧
    push.HeardInv table.signals job ∧ (push.responses table.signals job).head? = some answer

/-- The push waits for its outcome, which was sent. -/
def PushTable.WaitsForOutcome (job : Nat) (report : Signal) (table : PushTable) : Prop :=
  ∃ push position deadline, table.pushes job = some push ∧
    push.phase = .awaitingDone position deadline ∧ push.cancelled = false ∧
    push.HeardInv table.signals job ∧ (push.reported table.signals job).head? = some report

/-- The push took the response. -/
def PushTable.Answered (job : Nat) (answer : Signal) (table : PushTable) : Prop :=
  ∃ push, table.pushes job = some push ∧ push.answer = some answer ∧
    answer.verdict = some push.phase

/-- The push ended with the outcome. -/
def PushTable.EndedWith (job : Nat) (report : Signal) (table : PushTable) : Prop :=
  ∃ push exit, table.pushes job = some push ∧ push.phase = .finished exit ∧
    report.outcome = some exit

/-- A step of a push that is polled. -/
theorem PushTable.step_poll {result : Push × List PushEvent}
    (hpush : table.pushes job = some push) (h : table.advance job push .poll = some result) :
    table.step (.move job .poll) = some (table.put job result.1, result.2) := by
  simp [step, hpush, h]

/-- A poll takes the response that was sent, or comes closer to it. -/
theorem PushTable.WaitsForResponse.poll (h : table.WaitsForResponse job answer) :
    ∃ next emitted, table.step (.move job .poll) = some (next, emitted) ∧
      (next.Answered job answer ∨
        next.WaitsForResponse job answer ∧ next.remaining job < table.remaining job) := by
  obtain ⟨push, position, deadline, hpush, hphase, hcancel, hinv, hfirst⟩ := h
  have hadvance : table.advance job push .poll =
      some (push.pollResp table.signals job position deadline) := by
    simp only [advance, hphase]
  refine ⟨_, _, step_poll hpush hadvance, ?_⟩
  have hmoved := hinv.move (Push.poll_resp_moves hphase)
  have hintact := hinv.heard.waiting_response position deadline hphase
  have hown : push.nextIsOwn table.signals job = true := by
    have hwaiting := hinv.2
    rw [hphase] at hwaiting
    exact hwaiting.2.1
  rcases Push.poll_resp_spec table.signals job position deadline push with
    ⟨signal, phase, registered, hrecv, hresp, hverdict, hnext⟩ | ⟨hother, hnext⟩
  · unfold Push.nextIsOwn at hown
    rw [hphase] at hown
    dsimp only at hown
    rw [Broadcast.find_retained_message hrecv hresp, Option.all_some] at hown
    have hsame : (push.responses table.signals job).head? = some signal :=
      hintact.first hrecv hown
    rw [hfirst] at hsame
    cases hsame
    rw [hnext]
    exact .inl ⟨_, put_self, rfl, hverdict⟩
  · have hwait : (push.awaitResp job (table.signals.recv position).2 deadline).1 =
        { push with phase := .awaitingResp (table.signals.recv position).2 deadline } := by
      simp [Push.awaitResp, hcancel]
    rw [hwait] at hnext
    have hunread : table.signals.unread position ≠ [] := by
      intro hempty
      have hnone : push.responses table.signals job = [] := hintact.empty hempty
      rw [hnone] at hfirst
      cases hfirst
    have hprogress := Broadcast.recv_progress hunread
    rw [hnext] at hmoved ⊢
    refine .inr ⟨⟨_, _, deadline, put_self, rfl, hcancel, hmoved, hfirst⟩, ?_⟩
    simp only [remaining, put_self, put_signals, Option.map_some, hpush, hphase]
    omega

/-- A poll takes the outcome that was sent, or comes closer to it. -/
theorem PushTable.WaitsForOutcome.poll (h : table.WaitsForOutcome job report) :
    ∃ next emitted, table.step (.move job .poll) = some (next, emitted) ∧
      (next.EndedWith job report ∨
        next.WaitsForOutcome job report ∧ next.remaining job < table.remaining job) := by
  obtain ⟨push, position, deadline, hpush, hphase, hcancel, hinv, hfirst⟩ := h
  have hadvance : table.advance job push .poll =
      some (push.pollDone table.signals job position deadline) := by
    simp only [advance, hphase]
  refine ⟨_, _, step_poll hpush hadvance, ?_⟩
  have hmoved := hinv.move (Push.poll_done_moves hphase)
  have hintact := hinv.heard.waiting_outcome position deadline hphase
  rcases Push.poll_done_spec table.signals job position deadline push with
    ⟨signal, exit, hrecv, hreport, houtcome, hnext⟩ | ⟨hother, hnext⟩
  · have hsame : (push.reported table.signals job).head? = some signal :=
      hintact.first hrecv hreport
    rw [hfirst] at hsame
    cases hsame
    rw [hnext]
    exact .inl ⟨_, exit, put_self, rfl, houtcome⟩
  · have hwait : (push.awaitDone job (table.signals.recv position).2 deadline).1 =
        { push with phase := .awaitingDone (table.signals.recv position).2 deadline } := by
      simp [Push.awaitDone, hcancel]
    rw [hwait] at hnext
    have hunread : table.signals.unread position ≠ [] := by
      intro hempty
      have hnone : push.reported table.signals job = [] := hintact.empty hempty
      rw [hnone] at hfirst
      cases hfirst
    have hprogress := Broadcast.recv_progress hunread
    rw [hnext] at hmoved ⊢
    refine .inr ⟨⟨_, _, deadline, put_self, rfl, hcancel, hmoved, hfirst⟩, ?_⟩
    simp only [remaining, put_self, put_signals, Option.map_some, hpush, hphase]
    omega

end Waiting

/-- A waiting push that is polled on takes the response or the outcome that was sent for it. -/
def PushTable.Hears (table : PushTable) (job : Nat) (push : Push) : Prop :=
  push.Heard table.signals job ∧
  (∀ position deadline answer, push.phase = .awaitingResp position deadline →
    push.cancelled = false → (push.responses table.signals job).head? = some answer →
    ∃ polls trace last, Exec step Guard.free table (List.replicate polls (.move job .poll)) trace
      last ∧ last.Answered job answer) ∧
  ∀ position deadline report, push.phase = .awaitingDone position deadline →
    push.cancelled = false → (push.reported table.signals job).head? = some report →
    ∃ polls trace last, Exec step Guard.free table (List.replicate polls (.move job .poll)) trace
      last ∧ last.EndedWith job report

/-- In every run in which each signal arrives while the push it is for can hear it, and none is
overwritten, no push misses a response or an outcome: it goes by the first response to its offer,
ends with the first outcome, and times out only where there is none. -/
theorem signals_heard {offerTimeoutSecs maxSecs : Nat} {inputs : List PushInput}
    {trace : List PushEvent} {last : PushTable}
    (h : Exec PushTable.step hearingGuard (PushTable.start offerTimeoutSecs maxSecs) inputs trace
      last) :
    ∀ job push, last.pushes job = some push → last.Hears job push := by
  intro job push hpush
  have hinv : push.HeardInv last.signals job := by
    refine (PushTable.push_invariant (fun signals job push => push.HeardInv signals job)
      ?_ ?_ ?_ h job push hpush).2
    · intro signals job push hphase hanswer
      unfold Push.HeardInv
      rw [hphase]
      exact ⟨by simp [PushPhase.offerSent], trivial⟩
    · intro signals job push next hinv hmoves
      exact hinv.move hmoves
    · intro trace table signal job push hguard hjob hpush hinv
      have hhears := hguard job hjob
      rw [hpush, Option.all_some] at hhears
      exact hinv.send hhears
  refine ⟨hinv.heard, ?_, ?_⟩
  · intro position deadline answer hphase hcancel hfirst
    refine exec_until (PushTable.remaining job) (PushTable.WaitsForResponse job answer)
      (fun table hwaits => hwaits.poll) ?_
    exact ⟨push, position, deadline, hpush, hphase, hcancel, hinv, hfirst⟩
  · intro position deadline report hphase hcancel hfirst
    refine exec_until (PushTable.remaining job) (PushTable.WaitsForOutcome job report)
      (fun table hwaits => hwaits.poll) ?_
    exact ⟨push, position, deadline, hpush, hphase, hcancel, hinv, hfirst⟩

section Samples

/-- The outcome of a push to peer 7. -/
def sampleDone (job : Nat) : Signal :=
  { peer := 7, msg := .jobDone job job, about := none }

/-- A push to peer 7 up to the end of its small files. -/
def pushedAll (job : Nat) : List PushInput :=
  offered job ++ [.signal (acceptance job), .move job .poll, .move job (.proceed true),
    .move job (.batchEnd none)]

end Samples

/-- An outcome that arrives when the push waits for it is heard. -/
theorem heard_when_waiting :
    ∃ (last : PushTable) (push : Push), last.pushes 1 = some push ∧
      push.phase = .finished .done ∧ last.Hears 1 push := by
  obtain ⟨trace, last, hexec, hview⟩ := exec_reaches PushTable.step hearingGuard
    (PushTable.start 60 1800)
    (pushedAll 1 ++ [.move 1 .listen, .signal (sampleDone 1), .move 1 .poll])
    (fun table => (table.pushes 1).map Push.phase) (some (.finished .done)) (by decide)
  obtain ⟨push, hpush, hphase⟩ := Option.map_eq_some_iff.mp hview
  exact ⟨last, push, hpush, hphase, signals_heard hexec 1 push hpush⟩

/-- An outcome that arrives after the small files and before the second subscription is missed,
and the push times out. -/
theorem not_heard_before_listening :
    ¬ ∀ (offerTimeoutSecs maxSecs : Nat) (inputs : List PushInput) (trace : List PushEvent)
        (last : PushTable),
      Exec PushTable.step Guard.free (PushTable.start offerTimeoutSecs maxSecs) inputs trace last →
        ∀ job push, last.pushes job = some push → last.Hears job push := by
  intro hall
  obtain ⟨trace, last, hexec, hview⟩ := exec_reaches PushTable.step Guard.free
    (PushTable.start 60 1800)
    (pushedAll 1 ++ [.signal (sampleDone 1), .move 1 .listen, .tick 1800, .move 1 .expire])
    (fun table => (table.pushes 1).map fun push =>
      (push.phase, (push.reported table.signals 1).length))
    (some (.finished (.doneTimeout 1800), 1)) (by decide)
  obtain ⟨push, hpush, hview⟩ := Option.map_eq_some_iff.mp hview
  obtain ⟨hphase, hlength⟩ := Prod.mk.injEq .. ▸ hview
  have hnone : push.reported last.signals 1 = [] :=
    (hall _ _ _ _ _ hexec 1 push hpush).1.ended _ hphase
  simp [hnone] at hlength

end Hearing

end LocalTrans
