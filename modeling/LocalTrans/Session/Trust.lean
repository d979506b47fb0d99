import LocalTrans.Session.Engine

/-!
# Who becomes trusted

A peer should be added to the trust store only after the local user consented to its session and
it submitted the code drawn then, or after the local user entered a code on its session and it
confirmed that code. `PairingSafe` says so of a history. The code keeps to it in every run whose
steps meet `pairingGuard`; without the guard a peer makes itself trusted with one unasked
`PairResult`.

The invariant follows two facts through a run: a pairing machine that can still accept a code
belongs to a consent in the history, and a `complete_pairing` in progress is justified by it.
-/

namespace LocalTrans

open Foundation

variable (hashCode : String → Digest)

section Histories

variable (trace : List CoreEvent) (peer : Fingerprint)

/-- The user granted consent on the session `generation` of the peer, the code drawn then has the
given hash, and the user has neither denied nor cancelled since. -/
def ConsentStands (generation : Nat) (hash : Digest) : Prop :=
  ∃ before drawn after,
    trace = before ++ .consentGranted peer generation drawn :: after ∧
    hashCode drawn = hash ∧
    .consentDenied peer generation ∉ after ∧ .waitCancelled peer generation ∉ after

/-- The acceptor's side: while a consent stood, the peer submitted the code drawn for it. -/
def AcceptedByUser : Prop :=
  ∃ before after generation conn code,
    trace = before ++ .received peer conn (.pairCodeSubmit code) ::
      .codeJudged peer generation code .matched :: after ∧
    ConsentStands hashCode before peer generation (hashCode code)

/-- The initiator's side: the user entered a code on a session of the peer, and the peer
confirmed it on that very session. -/
def EnteredByUser : Prop :=
  ∃ before between after conn code,
    trace = before ++ .codeEntered peer conn code :: between ++
      .received peer conn (.pairResult true) :: after

/-- What entitles a peer to be trusted. -/
def Justified : Prop :=
  AcceptedByUser hashCode trace peer ∨ EnteredByUser trace peer

end Histories

/-- Every peer that was added to the trust store was entitled to it at that moment. -/
def PairingSafe (trace : List CoreEvent) : Prop :=
  EachEvent (fun before event => ∀ peer, event = .trusted peer → Justified hashCode before peer)
    trace

variable {hashCode} {trust : TrustStore} {trace more : List CoreEvent} {peer : Fingerprint}

/-- A standing consent survives everything but a denial and a cancellation. -/
theorem ConsentStands.append {generation : Nat} {hash : Digest}
    (h : ConsentStands hashCode trace peer generation hash)
    (hdenied : .consentDenied peer generation ∉ more)
    (hcancelled : .waitCancelled peer generation ∉ more) :
    ConsentStands hashCode (trace ++ more) peer generation hash := by
  obtain ⟨before, drawn, after, rfl, hhash, hno, hnot⟩ := h
  exact ⟨before, drawn, after ++ more, by simp, hhash, by simp [hno, hdenied],
    by simp [hnot, hcancelled]⟩

/-- What entitles a peer entitles it for ever. -/
theorem Justified.append (h : Justified hashCode trace peer) :
    Justified hashCode (trace ++ more) peer := by
  rcases h with ⟨before, after, generation, conn, code, rfl, hstands⟩ |
    ⟨before, between, after, conn, code, rfl⟩
  · exact .inl ⟨before, after ++ more, generation, conn, code, by simp, hstands⟩
  · exact .inr ⟨before, between, after ++ more, conn, code, by simp⟩

/-- A peer is entitled to nothing unless the local user acted on one of its sessions. -/
theorem Justified.user_acted (h : Justified hashCode trace peer) :
    (∃ generation drawn, .consentGranted peer generation drawn ∈ trace) ∨
      ∃ conn code, .codeEntered peer conn code ∈ trace := by
  rcases h with ⟨_, after, generation, conn, code, rfl, before, drawn, between, rfl, -⟩ |
    ⟨before, between, after, conn, code, rfl⟩
  · exact .inl ⟨generation, drawn, by simp⟩
  · exact .inr ⟨conn, code, by simp⟩

/-- A longer history is safe if every peer trusted in the new part was entitled before. -/
theorem PairingSafe.append (h : PairingSafe hashCode trace)
    (hmore : ∀ peer, .trusted peer ∈ more → Justified hashCode trace peer) :
    PairingSafe hashCode (trace ++ more) := by
  refine each_event_append.mpr ⟨h, ?_⟩
  rintro between _ after rfl peer rfl
  exact (hmore peer (by simp)).append

/-- The gate of the session is open, and its pairing machine holds the hash. -/
def Session.Issued (session : Session) (generation : Nat) (hash : Digest) : Prop :=
  session.generation = generation ∧ (∃ pending, session.consent = .granted pending) ∧
    ∃ machine, session.pairing = some machine ∧ machine.codeHash = hash

namespace SessionCore

/-- The session of a peer can still accept a code of this hash. -/
def Issued (core : SessionCore) (peer : Fingerprint) (generation : Nat) (hash : Digest) : Prop :=
  ∃ session, core.sessions peer = some session ∧ session.Issued generation hash

/-- A `complete_pairing` for the peer is in progress. -/
def Completing (core : SessionCore) (peer : Fingerprint) : Prop :=
  (∃ conn loop drained stage, core.loops conn = some loop ∧ loop.peer = peer ∧
    loop.stage = .completing drained stage) ∨
  ∃ task grant stage, core.grants task = some grant ∧ grant.peer = peer ∧
    grant.stage = .completing stage

/-- A change that opens no gate, starts no completion and trusts nobody. -/
structure Quiet (core next : SessionCore) : Prop where
  issued : ∀ peer generation hash, next.Issued peer generation hash →
    core.Issued peer generation hash
  completing : ∀ peer, next.Completing peer → core.Completing peer
  trust : ∀ peer, next.trust.isTrusted peer = true → core.trust.isTrusted peer = true

/-- A step that opens no gate and starts no completion, reports whom it trusts, trusts only peers
whose completion is in progress, and denies no consent that was given. -/
structure Harmless (core : SessionCore) (result : CoreStep) : Prop where
  issued : ∀ peer generation hash, result.1.Issued peer generation hash →
    core.Issued peer generation hash
  completing : ∀ peer, result.1.Completing peer → core.Completing peer
  gained : ∀ peer, result.1.trust.isTrusted peer = true →
    core.trust.isTrusted peer = true ∨ .trusted peer ∈ result.2
  trusted : ∀ peer, .trusted peer ∈ result.2 → core.Completing peer
  denied : ∀ peer generation hash, .consentDenied peer generation ∈ result.2 →
    ¬ core.Issued peer generation hash

/-- What holds after every step: a gate that can accept a code stands on a consent, a completion
is justified, so was every trusted peer, and nobody is trusted without it. -/
structure PairingInv (hashCode : String → Digest) (trust : TrustStore) (trace : List CoreEvent)
    (core : SessionCore) : Prop where
  issued : ∀ peer generation hash, core.Issued peer generation hash →
    .waitCancelled peer generation ∈ trace ∨ ConsentStands hashCode trace peer generation hash
  completing : ∀ peer, core.Completing peer → Justified hashCode trace peer
  gained : ∀ peer, core.trust.isTrusted peer = true →
    trust.isTrusted peer = true ∨ .trusted peer ∈ trace
  safe : PairingSafe hashCode trace

/-- A step keeps the invariant if every gate it opens stands on a consent, every completion it
starts is justified, and it trusts and denies like a harmless step. -/
theorem PairingInv.step {core next : SessionCore} {emitted : List CoreEvent}
    (hinv : PairingInv hashCode trust trace core)
    (hissued : ∀ peer generation hash, next.Issued peer generation hash →
      core.Issued peer generation hash ∨
        ConsentStands hashCode (trace ++ emitted) peer generation hash)
    (hcompleting : ∀ peer, next.Completing peer →
      core.Completing peer ∨ Justified hashCode (trace ++ emitted) peer)
    (hgained : ∀ peer, next.trust.isTrusted peer = true →
      core.trust.isTrusted peer = true ∨ .trusted peer ∈ emitted)
    (htrusted : ∀ peer, .trusted peer ∈ emitted → core.Completing peer)
    (hdenied : ∀ peer generation hash, .consentDenied peer generation ∈ emitted →
      ¬ core.Issued peer generation hash) :
    PairingInv hashCode trust (trace ++ emitted) next where
  issued peer generation hash hnext := by
    rcases hissued _ _ _ hnext with hbefore | hstands
    · have hkept : .consentDenied peer generation ∉ emitted :=
        fun hmem => hdenied _ _ _ hmem hbefore
      by_cases hcancelled : .waitCancelled peer generation ∈ emitted
      · exact .inl (by simp [hcancelled])
      · rcases hinv.issued _ _ _ hbefore with hmem | hstands
        · exact .inl (by simp [hmem])
        · exact .inr (hstands.append hkept hcancelled)
    · exact .inr hstands
  completing peer hnext := by
    rcases hcompleting _ hnext with hbefore | hjustified
    · exact (hinv.completing _ hbefore).append
    · exact hjustified
  gained peer hnext := by
    rcases hgained _ hnext with hbefore | hmem
    · exact (hinv.gained _ hbefore).imp_right fun hmem => by simp [hmem]
    · exact .inr (by simp [hmem])
  safe := hinv.safe.append fun peer hmem => hinv.completing _ (htrusted _ hmem)

variable {result : CoreStep}

/-- A harmless step keeps the invariant. -/
theorem PairingInv.harmless {core : SessionCore} (hinv : PairingInv hashCode trust trace core)
    (h : core.Harmless result) : PairingInv hashCode trust (trace ++ result.2) result.1 :=
  hinv.step (fun _ _ _ hissued => .inl (h.issued _ _ _ hissued))
    (fun _ hcompleting => .inl (h.completing _ hcompleting)) h.gained h.trusted h.denied

section Quiet

variable {core next last : SessionCore} {conn : ConnId} {task : Nat}

theorem Quiet.refl (core : SessionCore) : core.Quiet core :=
  ⟨fun _ _ _ h => h, fun _ h => h, fun _ h => h⟩

theorem Quiet.trans (h : core.Quiet next) (h' : next.Quiet last) : core.Quiet last :=
  ⟨fun _ _ _ hissued => h.issued _ _ _ (h'.issued _ _ _ hissued),
    fun _ hcompleting => h.completing _ (h'.completing _ hcompleting),
    fun _ htrusted => h.trust _ (h'.trust _ htrusted)⟩

/-- Nothing but the session table, the loops, the grants and the trust store matters. -/
theorem quiet_of_eq (hsessions : next.sessions = core.sessions)
    (hloops : next.loops = core.loops) (hgrants : next.grants = core.grants)
    (htrust : ∀ peer, next.trust.isTrusted peer = true → core.trust.isTrusted peer = true) :
    core.Quiet next :=
  ⟨fun _ _ _ h => by simpa [Issued, hsessions] using h,
    fun _ h => by simpa [Completing, hloops, hgrants] using h, htrust⟩

/-- Writing a loop is quiet if the loop completes nothing or was completing already. -/
theorem quiet_set_loop (conn : ConnId) (loop : CtrlLoop)
    (h : ∀ drained stage, loop.stage = .completing drained stage → core.Completing loop.peer) :
    core.Quiet (core.setLoop conn (some loop)) := by
  refine ⟨fun _ _ _ hissued => hissued, ?_, fun _ htrusted => htrusted⟩
  rintro peer (⟨other, found, drained, stage, hfound, rfl, hstage⟩ | hgrant)
  · by_cases hconn : other = conn
    · subst hconn
      obtain rfl : loop = found := by simpa [setLoop] using hfound
      exact h _ _ hstage
    · exact .inl ⟨other, found, drained, stage, by simpa [setLoop, hconn] using hfound, rfl,
        hstage⟩
  · exact .inr hgrant

/-- A loop that ends completes nothing more. -/
theorem quiet_end_loop : core.Quiet (core.setLoop conn none) := by
  refine ⟨fun _ _ _ hissued => hissued, ?_, fun _ htrusted => htrusted⟩
  rintro peer (⟨other, found, drained, stage, hfound, hrest⟩ | hgrant)
  · by_cases hconn : other = conn
    · simp [setLoop, hconn] at hfound
    · exact .inl ⟨other, found, drained, stage, by simpa [setLoop, hconn] using hfound, hrest⟩
  · exact .inr hgrant

/-- Writing a grant is quiet if the grant completes nothing or was completing already. -/
theorem quiet_set_grant {grant : Option GrantTask}
    (h : ∀ g ∈ grant, ∀ stage, g.stage = .completing stage → core.Completing g.peer) :
    core.Quiet (core.setGrant task grant) := by
  refine ⟨fun _ _ _ hissued => hissued, ?_, fun _ htrusted => htrusted⟩
  rintro peer (hloop | ⟨other, found, stage, hfound, rfl, hstage⟩)
  · exact .inl hloop
  · by_cases htask : other = task
    · subst htask
      exact h found (by simpa [setGrant] using hfound) _ hstage
    · exact .inr ⟨other, found, stage, by simpa [setGrant, htask] using hfound, rfl, hstage⟩

/-- Writing a session is quiet if its gate accepts no code that the old one did not. -/
theorem quiet_set_session {session : Option Session}
    (h : ∀ s ∈ session, ∀ generation hash, s.Issued generation hash →
      core.Issued peer generation hash) :
    core.Quiet (core.setSession peer session) := by
  refine ⟨?_, fun _ hcompleting => hcompleting, fun _ htrusted => htrusted⟩
  rintro other generation hash ⟨found, hfound, hissued⟩
  by_cases hpeer : other = peer
  · subst hpeer
    exact h found (by simpa [setSession] using hfound) _ _ hissued
  · exact ⟨found, by simpa [setSession, hpeer] using hfound, hissued⟩

/-- A closed gate, and a session without a pairing machine, accept no code. -/
theorem quiet_close_session (peer : Fingerprint) {session : Option Session}
    (h : ∀ s ∈ session, s.pairing = none ∨ ∀ pending, s.consent ≠ .granted pending) :
    core.Quiet (core.setSession peer session) := by
  refine quiet_set_session fun s hs generation hash hissued => ?_
  obtain ⟨-, ⟨pending, hgranted⟩, machine, hmachine, -⟩ := hissued
  rcases h s hs with hnone | hclosed
  · simp [hnone] at hmachine
  · exact absurd hgranted (hclosed pending)

/-- Queueing a message changes only an outbox. -/
theorem queue_ctrl_quiet {msg : ControlMsg} (h : core.queueCtrl conn msg = .ok next) :
    core.Quiet next := by
  unfold queueCtrl at h
  split at h
  · cases h
  · next loop hloop =>
    split at h
    · cases h
      exact quiet_set_loop _ _ fun drained stage hstage =>
        .inl ⟨conn, loop, drained, stage, hloop, rfl, hstage⟩
    · cases h

end Quiet

variable {code : String}

section Handlers

variable {core next : SessionCore} {conn : ConnId} {loop : CtrlLoop}

/-- A quiet step that reports neither trust nor a denial is harmless. -/
theorem Quiet.harmless {events : List CoreEvent} (h : core.Quiet next)
    (htrusted : ∀ peer, .trusted peer ∉ events)
    (hdenied : ∀ peer generation, .consentDenied peer generation ∉ events) :
    core.Harmless (next, events) :=
  ⟨h.issued, h.completing, fun peer htrust => .inl (h.trust peer htrust),
    fun peer hmem => absurd hmem (htrusted peer),
    fun peer generation _ hmem => absurd hmem (hdenied peer generation)⟩

/-- A step that changes nothing and reports an error or nothing is harmless. -/
theorem harmless_rejected {error : SessionError} :
    core.Harmless (core, [.rejected peer error]) :=
  (Quiet.refl core).harmless (by simp) (by simp)

theorem harmless_idle : core.Harmless (core, []) :=
  (Quiet.refl core).harmless (by simp) (by simp)

/-- More events that are neither trust nor denial change nothing. -/
theorem Harmless.cons {event : CoreEvent} (h : core.Harmless result)
    (htrusted : ∀ peer, event ≠ .trusted peer)
    (hdenied : ∀ peer generation, event ≠ .consentDenied peer generation) :
    core.Harmless (result.1, event :: result.2) where
  __ := h
  gained peer htrust := (h.gained peer htrust).imp_right (List.mem_cons_of_mem _)
  trusted peer hmem := by
    rcases List.mem_cons.mp hmem with rfl | hmem
    · exact absurd rfl (htrusted peer)
    · exact h.trusted _ hmem
  denied peer generation hash hmem := by
    rcases List.mem_cons.mp hmem with rfl | hmem
    · exact absurd rfl (hdenied peer generation)
    · exact h.denied _ _ _ hmem

/-- A quiet change after a harmless step. -/
theorem Harmless.quietly (h : core.Harmless result) (hquiet : Quiet result.1 next) :
    core.Harmless (next, result.2) where
  __ := h
  issued _ _ _ hissued := h.issued _ _ _ (hquiet.issued _ _ _ hissued)
  completing _ hcompleting := h.completing _ (hquiet.completing _ hcompleting)
  gained _ htrust := h.gained _ (hquiet.trust _ htrust)

theorem open_handshake_harmless {dialed : Bool} {address : String} :
    core.Harmless (core.openHandshake peer dialed address) := by
  unfold openHandshake
  dsimp only
  split
  · exact Quiet.harmless (quiet_of_eq rfl rfl rfl fun _ h => h) (by simp) (by simp)
  · refine Quiet.harmless (quiet_of_eq rfl rfl rfl fun _ h => h) ?_ ?_ <;> intros <;> split <;> simp

theorem insert_session_harmless {handshake : Handshake} {name : String} :
    core.Harmless (core.insertSession conn handshake name) := by
  refine Quiet.harmless (Quiet.trans (quiet_close_session handshake.peer ?_)
    (Quiet.trans (quiet_set_loop conn _ ?_) (quiet_of_eq rfl rfl rfl fun _ h => h))) ?_ ?_
  · rintro session ⟨⟩
    exact .inl rfl
  · rintro drained stage ⟨⟩
  all_goals intros; split <;> simp

/-- Closing a session is quiet. -/
theorem disconnect_quiet : core.Quiet (core.disconnect peer).1 := by
  unfold disconnect
  split
  · exact .refl core
  · next session hsession =>
    have hremoved : core.Quiet (core.setSession peer none) := quiet_close_session _ (by simp)
    refine hremoved.trans ?_
    cases hqueue : (core.setSession peer none).queueCtrl session.connId .goodbye with
    | error error => simpa [hqueue, Except.toOption] using Quiet.refl _
    | ok next => simpa [hqueue, Except.toOption] using queue_ctrl_quiet hqueue

/-- Closing a session reports neither trust nor a denial. -/
theorem disconnect_silent :
    (∀ other, .trusted other ∉ (core.disconnect peer).2) ∧
      ∀ other generation, .consentDenied other generation ∉ (core.disconnect peer).2 := by
  unfold disconnect
  split <;> simp

theorem disconnect_harmless : core.Harmless (core.disconnect peer) :=
  disconnect_quiet.harmless disconnect_silent.1 disconnect_silent.2

theorem shutdown_all_harmless : core.Harmless (core.shutdownAll, []) := by
  refine Quiet.harmless ⟨?_, ?_, fun _ htrusted => htrusted⟩ (by simp) (by simp)
  · rintro other generation hash ⟨session, hsession, -⟩
    cases hsession
  · rintro other (⟨conn, loop, drained, stage, hloop, rfl, hstage⟩ | hgrant)
    · obtain ⟨old, hold, rfl⟩ := Option.map_eq_some_iff.mp hloop
      refine .inl ⟨conn, old, drained, stage, hold, ?_, ?_⟩
      · split <;> rfl
      · revert hstage
        split <;> exact id
    · exact .inr hgrant

/-- Each part of a completion that is in progress is harmless. -/
theorem complete_pairing_harmless (h : core.Completing peer) (conn : ConnId)
    (stage : CompleteStage) :
    core.Harmless (core.completePairing peer conn stage).1 := by
  cases stage with
  | check => exact harmless_idle
  | take =>
    unfold completePairing
    dsimp only
    split
    · refine (quiet_close_session _ ?_).harmless (by simp) (by simp)
      rintro session ⟨⟩
      exact .inl rfl
    · exact harmless_idle
  | store name =>
    refine ⟨fun _ _ _ hissued => hissued, fun _ hcompleting => hcompleting, ?_, ?_,
      by simp [completePairing]⟩
    · intro other htrusted
      rcases TrustStore.is_trusted_upsert htrusted with hbefore | rfl
      · exact .inl hbefore
      · exact .inr (by simp [completePairing])
    · intro other hmem
      obtain rfl : other = peer := by simpa [completePairing] using hmem
      exact h

variable {session : Session}

/-- Judging a code leaves the gate as it is and the hash in the machine. -/
theorem issued_of_judge_code {generation : Nat} {hash : Digest}
    (h : (judgeCode hashCode session code).1.Issued generation hash) :
    session.Issued generation hash := by
  unfold judgeCode at h
  split at h
  · exact h
  · next machine hmachine =>
    obtain ⟨hgeneration, hgranted, after, hafter, hhash⟩ := h
    refine ⟨hgeneration, hgranted, machine, hmachine, ?_⟩
    obtain rfl : (machine.submitRemote hashCode code).1 = after := by simpa using hafter
    simpa using hhash

/-- A code matches only a machine that holds its hash. -/
theorem machine_of_matched (h : (judgeCode hashCode session code).2 = .matched) :
    ∃ machine, session.pairing = some machine ∧ hashCode code = machine.codeHash := by
  unfold judgeCode at h
  split at h
  · cases h
  · next machine hmachine =>
    refine ⟨machine, hmachine, PairingMachine.submit_remote_accepts.mp ?_⟩
    by_contra hno
    simp only [hno, if_false] at h
    split at h <;> cases h

/-- Writing back a judged session is quiet. -/
theorem judged_quiet (hashCode : String → Digest) (code : String)
    (h : core.sessions peer = some session) :
    core.Quiet (core.setSession peer (some (judgeCode hashCode session code).1)) := by
  refine quiet_set_session ?_
  rintro judged ⟨⟩ generation hash hissued
  exact ⟨session, h, issued_of_judge_code hissued⟩

theorem pairing_ended_harmless {stage : LoopStage} {reason : String}
    (hstage : ∀ drained following, stage ≠ .completing drained following) :
    core.Harmless (core.pairingEnded conn loop stage reason) :=
  (quiet_set_loop _ _ fun _ _ h => absurd h (hstage _ _)).harmless (by simp) (by simp)

theorem leave_harmless {consent : ConsentState} {wasTrusted : Bool} :
    core.Harmless (core.leave conn loop consent wasTrusted) := by
  unfold leave
  dsimp only
  split
  · refine quiet_end_loop.harmless ?_ ?_ <;> intros <;> split <;> simp
  · refine (quiet_end_loop.trans (quiet_close_session _ (by simp))).harmless ?_ ?_ <;> intros <;>
      split <;> split <;> simp

theorem deny_consent_harmless : core.Harmless (core.denyConsent peer) := by
  unfold denyConsent
  split
  · exact harmless_rejected
  · next session hsession =>
    split
    · next deadline code hconsent =>
      have hclosed : ∀ generation hash, ¬ core.Issued peer generation hash := by
        rintro generation hash ⟨other, hother, -, ⟨pending, hgranted⟩, -⟩
        rw [hsession] at hother
        cases hother
        simp [hconsent] at hgranted
      dsimp only
      split
      · next hqueue =>
        have hquiet := queue_ctrl_quiet hqueue
        refine ⟨hquiet.issued, hquiet.completing, fun _ h => .inl (hquiet.trust _ h), by simp,
          fun other generation hash hmem => ?_⟩
        obtain ⟨rfl, -⟩ : other = peer ∧ _ := by simpa using hmem
        exact hclosed generation hash
      · refine ⟨fun _ _ _ h => h, fun _ h => h, fun _ h => .inl h, by simp,
          fun other generation hash hmem => ?_⟩
        obtain ⟨rfl, -⟩ : other = peer ∧ _ := by simpa using hmem
        exact hclosed generation hash
    · exact harmless_rejected

theorem cancel_wait_harmless : core.Harmless (core.cancelWait peer) := by
  unfold cancelWait
  split
  · exact harmless_rejected
  · split
    · dsimp only
      split
      · next hqueue => exact (queue_ctrl_quiet hqueue).harmless (by simp) (by simp)
      · exact (Quiet.refl core).harmless (by simp) (by simp)
    · exact harmless_rejected

theorem submit_pair_code_harmless : core.Harmless (core.submitPairCode peer code) := by
  unfold submitPairCode
  split
  · exact harmless_rejected
  · split
    · split
      · next hqueue => exact (queue_ctrl_quiet hqueue).harmless (by simp) (by simp)
      · exact harmless_rejected
    · exact harmless_rejected

theorem send_ctrl_quiet {msg : ControlMsg} (h : core.sendCtrl peer msg = .ok next) :
    core.Quiet next := by
  unfold sendCtrl at h
  split at h
  · cases h
  · exact queue_ctrl_quiet h

theorem consent_timeout_harmless {timer : ConsentTimer} :
    core.Harmless (core.consentTimeout timer) := by
  have hfired : core.Quiet { core with timers := core.timers.erase timer } :=
    quiet_of_eq rfl rfl rfl fun _ h => h
  unfold consentTimeout
  dsimp only
  split
  · exact hfired.harmless (by simp) (by simp)
  · split
    · split
      · exact (hfired.trans (quiet_close_session _ (by simp))).harmless (by simp) (by simp)
      · exact hfired.harmless (by simp) (by simp)
    · exact hfired.harmless (by simp) (by simp)

theorem forward_harmless {ok : Bool} (hstage : loop.stage = .reading)
    (h : core.forward conn loop ok = some result) : core.Harmless result := by
  unfold forward at h
  split at h
  · cases h
  · cases h
    split
    · exact (quiet_set_loop _ _ (by simp [hstage])).harmless (by simp) (by simp)
    · exact (quiet_set_loop _ _ (by simp)).harmless (by simp) (by simp)

/-- What a submitted code can do: nothing of interest, or it matches the machine of a session
whose gate is open, and the loop goes on to complete the pairing. -/
theorem pair_code_submit_cases (hashCode : String → Digest) (core : SessionCore) (conn : ConnId)
    (loop : CtrlLoop) (code : String) :
    core.Harmless (core.pairCodeSubmit hashCode conn loop code) ∨
      ∃ session pending machine, core.sessions loop.peer = some session ∧
        session.consent = .granted pending ∧ session.pairing = some machine ∧
        hashCode code = machine.codeHash ∧
        core.pairCodeSubmit hashCode conn loop code =
          ((core.setSession loop.peer (some (judgeCode hashCode session code).1)).setLoop conn
              (some { loop with
                stage := .completing false .check, terminalResultSent := true }),
            [.codeJudged loop.peer session.generation code .matched,
              .sent conn (.pairResult true)]) := by
  unfold pairCodeSubmit
  split
  · exact .inl harmless_idle
  · next session hsession =>
    split
    · exact .inl harmless_idle
    · refine .inl ((quiet_close_session _ ?_).harmless (by simp) (by simp))
      rintro _ ⟨⟩
      exact .inr (by simp)
    · next pending hconsent =>
      have hjudged : core.Quiet _ := judged_quiet hashCode code hsession
      dsimp only
      cases hverdict : (judgeCode hashCode session code).2 with
      | matched =>
        obtain ⟨machine, hmachine, hhash⟩ := machine_of_matched hverdict
        exact .inr ⟨session, pending, machine, hsession, hconsent, hmachine, hhash, by simp⟩
      | failedOut =>
        exact .inl ((hjudged.trans (quiet_set_loop _ _ (by simp))).harmless (by simp) (by simp))
      | mismatch => exact .inl (hjudged.harmless (by simp) (by simp))
      | notPairing => exact .inl (hjudged.harmless (by simp) (by simp))

/-- What an answer can do: nothing of interest, or it is positive, the peer is not trusted, and
the loop goes on to complete the pairing. -/
theorem pair_result_cases (core : SessionCore) (conn : ConnId) (drained ok : Bool)
    (hstage : loop.stage = .reading ∨ loop.stage = .draining) :
    core.Harmless (core.pairResult conn loop drained ok) ∨
      ok = true ∧ core.trust.isTrusted loop.peer = false ∧
        core.pairResult conn loop drained ok =
          (core.setLoop conn (some { loop with
            stage := .completing drained .take, terminalResultSent := true }), []) := by
  have hidle : ∀ drained following, loop.stage ≠ .completing drained following := by
    rcases hstage with h | h <;> simp [h]
  unfold pairResult
  split
  · next hok =>
    cases htrusted : core.trust.isTrusted loop.peer with
    | true =>
      refine .inl ((quiet_set_loop _ _ fun drained following h => ?_).harmless (by simp) (by simp))
      exact absurd h (hidle drained following)
    | false => exact .inr ⟨hok, rfl, rfl⟩
  · refine .inl ((quiet_set_loop _ _ fun drained following h => ?_).harmless (by simp) (by simp))
    exact absurd h (hidle drained following)

/-- A message other than a code and a positive answer is harmless. -/
theorem handle_msg_cases (hashCode : String → Digest) (core : SessionCore) (conn : ConnId)
    (hstage : loop.stage = .reading) (msg : ControlMsg) :
    core.Harmless (core.handleMsg hashCode conn loop msg) ∨
      (∃ code, msg = .pairCodeSubmit code) ∨ msg = .pairResult true := by
  cases msg with
  | pairCodeSubmit code => exact .inr (.inl ⟨code, rfl⟩)
  | pairResult ok =>
    cases ok with
    | true => exact .inr (.inr rfl)
    | false =>
      rcases pair_result_cases core conn false false (.inl hstage) with h | ⟨hok, -⟩
      · exact .inl h
      · cases hok
  | consentGrant name =>
    exact .inl (Quiet.harmless (.refl core) (by simp) (by simp))
  | consentDeny => exact .inl (pairing_ended_harmless (by simp))
  | consentCancel => exact .inl (pairing_ended_harmless (by simp))
  | goodbye => exact .inl (Quiet.harmless (quiet_set_loop _ _ (by simp)) (by simp) (by simp))
  | trustBroken =>
    refine .inl (Quiet.harmless (Quiet.trans (quiet_set_loop conn
      { loop with stage := .closing } ?_) (quiet_of_eq rfl rfl rfl fun _ h =>
        TrustStore.is_trusted_remove h)) ?_ ?_) <;> simp
  | _ => exact .inl harmless_idle

/-- A drained message other than a positive answer is harmless. -/
theorem drain_msg_cases (core : SessionCore) (conn : ConnId) (hstage : loop.stage = .draining) (msg : ControlMsg) :
    core.Harmless (core.drainMsg conn loop msg) ∨ msg = .pairResult true := by
  cases msg with
  | pairResult ok =>
    cases ok with
    | true => exact .inr rfl
    | false =>
      rcases pair_result_cases core conn true false (.inr hstage) with h | ⟨hok, -⟩
      · exact .inl h
      · cases hok
  | consentDeny => exact .inl (pairing_ended_harmless (by simp))
  | consentCancel => exact .inl (pairing_ended_harmless (by simp))
  | _ => exact .inl harmless_idle

/-- A control loop on its own completes only what it is completing. -/
theorem advance_loop_harmless (hloop : core.loops conn = some loop)
    (h : core.advanceLoop conn loop = some result) : core.Harmless result := by
  unfold advanceLoop at h
  cases hstage : loop.stage with simp only [hstage, Option.some.injEq] at h
  | reading | draining => cases h
  | completing drained stage =>
    have hcompleting : core.Completing loop.peer :=
      .inl ⟨conn, loop, drained, stage, hloop, rfl, hstage⟩
    have hpart := complete_pairing_harmless hcompleting conn stage
    have htasks := complete_pairing_kept core loop.peer conn stage
    obtain rfl := h
    refine hpart.quietly (quiet_set_loop _ _ fun _ _ _ => ?_)
    exact .inl ⟨conn, loop, drained, stage, by rw [htasks.1, hloop], rfl, hstage⟩
  | failing =>
    obtain rfl := h
    exact Quiet.harmless ((quiet_of_eq rfl rfl rfl fun _ h => h : core.Quiet (core.recordCooldown _)).trans
      (quiet_set_loop _ _ (by simp))) (by simp) (by simp)
  | closing =>
    obtain rfl := h
    exact (quiet_set_loop _ _ (by simp)).harmless (by simp) (by simp)
  | leaving consent wasTrusted =>
    obtain rfl := h
    exact leave_harmless

/-- The later parts of a grant are harmless, as long as a stashed code does not match. -/
theorem advance_grant_harmless {task : Nat} {grant : GrantTask}
    (hgrant : core.grants task = some grant)
    (hstash : ∀ code session, grant.stage = .judging code →
      core.sessions grant.peer = some session →
      (judgeCode hashCode session code).2 ≠ .matched) :
    core.Harmless (core.advanceGrantTask hashCode task grant) := by
  have hended : core.Quiet (core.setGrant task none) := quiet_set_grant (by simp)
  unfold advanceGrantTask
  cases hstage : grant.stage with
  | sending =>
    dsimp only
    split
    · next hqueue =>
      exact ((queue_ctrl_quiet hqueue).trans (quiet_set_grant (by simp))).harmless (by simp)
        (by simp)
    · exact hended.harmless (by simp) (by simp)
  | releasing =>
    dsimp only
    split
    · next session hsession =>
      split
      · next code hconsent =>
        refine Quiet.harmless (Quiet.trans (quiet_set_session ?_)
          (quiet_set_grant (by simp))) (by simp) (by simp)
        rintro _ ⟨⟩ generation hash ⟨hgeneration, -, hmachine⟩
        exact ⟨session, hsession, hgeneration, ⟨_, hconsent⟩, hmachine⟩
      · exact hended.harmless (by simp) (by simp)
    · exact hended.harmless (by simp) (by simp)
  | judging code =>
    dsimp only
    split
    · exact hended.harmless (by simp) (by simp)
    · next session hsession =>
      have hjudged : core.Quiet _ := judged_quiet hashCode code hsession
      cases hverdict : (judgeCode hashCode session code).2 with
      | matched => exact absurd hverdict (hstash code session hstage hsession)
      | failedOut =>
        exact (hjudged.trans (quiet_set_grant (by simp))).harmless (by simp) (by simp)
      | mismatch =>
        exact (hjudged.trans (quiet_set_grant (by simp))).harmless (by simp) (by simp)
      | notPairing =>
        exact (hjudged.trans (quiet_set_grant (by simp))).harmless (by simp) (by simp)
  | failing =>
    have hcool : core.Quiet (core.recordCooldown grant.peer) :=
      quiet_of_eq rfl rfl rfl fun _ h => h
    have hgone : core.Harmless ((core.recordCooldown grant.peer).disconnect grant.peer) :=
      (hcool.trans disconnect_quiet).harmless disconnect_silent.1 disconnect_silent.2
    exact (hgone.quietly (quiet_set_grant (by simp))).cons (by simp) (by simp)
  | completing stage =>
    have hcompleting : core.Completing grant.peer :=
      .inr ⟨task, grant, stage, hgrant, rfl, hstage⟩
    have hpart := complete_pairing_harmless hcompleting grant.conn stage
    have htasks := complete_pairing_kept core grant.peer grant.conn stage
    refine hpart.quietly (quiet_set_grant ?_)
    rintro _ hsome following hfollowing
    obtain ⟨later, -, rfl⟩ := Option.map_eq_some_iff.mp hsome
    exact .inr ⟨task, grant, stage, by rw [htasks.2, hgrant], rfl, hstage⟩

end Handlers

section Guard

variable (hashCode : String → Digest)

/-- The user has entered a code on this connection of the peer. -/
def codeWasEntered (trace : List CoreEvent) (peer : Fingerprint) (conn : ConnId) : Bool :=
  trace.any fun
    | .codeEntered other on _ => other == peer && on == conn
    | _ => false

/-- A positive `PairResult` comes from a trusted peer, or answers a code the user entered. -/
def answersEntry (trace : List CoreEvent) (core : SessionCore) (conn : ConnId) : Bool :=
  (core.loops conn).all fun loop =>
    core.trust.isTrusted loop.peer || codeWasEntered trace loop.peer conn

/-- A code that matches is not submitted to a session whose consent the user has cancelled. -/
def waitNotCancelled (trace : List CoreEvent) (core : SessionCore) (conn : ConnId)
    (code : String) : Bool :=
  (core.loops conn).all fun loop => (core.sessions loop.peer).all fun session =>
    session.pairing.all fun machine =>
      !PairingMachine.verifyCode hashCode code machine.codeHash ||
        !trace.contains (.waitCancelled loop.peer session.generation)

/-- A code that was submitted before the consent does not match the code drawn at the consent. -/
def stashMisses (core : SessionCore) (task : Nat) : Bool :=
  (core.grants task).all fun grant =>
    match grant.stage with
    | .judging code => (core.sessions grant.peer).all fun session =>
      session.pairing.all fun machine =>
        !PairingMachine.verifyCode hashCode code machine.codeHash
    | _ => true

/-- The steps on which pairing is safe. -/
def pairingGuard : Guard SessionCore CoreInput CoreEvent := fun trace core input =>
  (match input with
    | .deliver conn (.pairResult true) | .drain conn (.pairResult true) =>
      answersEntry trace core conn
    | .deliver conn (.pairCodeSubmit code) => waitNotCancelled hashCode trace core conn code
    | .advanceGrant task => stashMisses hashCode core task
    | _ => true) = true
deriving Decidable

end Guard

section Step

variable {core : SessionCore} {conn : ConnId} {loop : CtrlLoop}

/-- A code that was entered is in the history. -/
theorem exists_code_entered (h : codeWasEntered trace peer conn = true) :
    ∃ before after code, trace = before ++ .codeEntered peer conn code :: after := by
  obtain ⟨event, hmem, hentered⟩ := List.any_eq_true.mp h
  cases event with
  | codeEntered other on code =>
    obtain ⟨rfl, rfl⟩ : other = peer ∧ on = conn := by simpa using hentered
    obtain ⟨before, after, rfl⟩ := List.append_of_mem hmem
    exact ⟨before, after, code, rfl⟩
  | _ => cases hentered

/-- The loop that is written may be completing now. -/
theorem completing_set_loop {next : CtrlLoop}
    (h : (core.setLoop conn (some next)).Completing peer) :
    core.Completing peer ∨ next.peer = peer := by
  rcases h with ⟨other, found, drained, stage, hfound, rfl, hstage⟩ | hgrant
  · by_cases hconn : other = conn
    · subst hconn
      obtain rfl : next = found := by simpa [setLoop] using hfound
      exact .inr rfl
    · exact .inl (.inl ⟨other, found, drained, stage, by simpa [setLoop, hconn] using hfound, rfl,
        hstage⟩)
  · exact .inl (.inr hgrant)

/-- A positive answer to an entered code keeps the invariant, in the loop as in the drain. -/
theorem PairingInv.pairResult {drained : Bool} (hinv : PairingInv hashCode trust trace core)
    (hloop : core.loops conn = some loop)
    (hstage : loop.stage = .reading ∨ loop.stage = .draining)
    (hanswers : answersEntry trace core conn = true) :
    PairingInv hashCode trust
      (trace ++ .received loop.peer conn (.pairResult true) ::
        (core.pairResult conn loop drained true).2)
      (core.pairResult conn loop drained true).1 := by
  rcases pair_result_cases core conn drained true hstage with hharmless | ⟨-, huntrusted, hresult⟩
  · exact hinv.harmless (hharmless.cons (by simp) (by simp))
  · have hentered : codeWasEntered trace loop.peer conn = true := by
      simpa [answersEntry, hloop, huntrusted] using hanswers
    obtain ⟨before, after, code, hsplit⟩ := exists_code_entered hentered
    rw [hresult]
    refine hinv.step (fun _ _ _ h => .inl h) (fun other h => ?_)
      (fun _ h => .inl h) (by simp) (by simp)
    rcases completing_set_loop h with h | rfl
    · exact .inl h
    · exact .inr (.inr ⟨before, after, [], conn, code, by simp [hsplit]⟩)

/-- A submitted code keeps the invariant. -/
theorem PairingInv.pairCodeSubmit (hinv : PairingInv hashCode trust trace core)
    (hloop : core.loops conn = some loop)
    (hstands : waitNotCancelled hashCode trace core conn code = true) :
    PairingInv hashCode trust
      (trace ++ .received loop.peer conn (.pairCodeSubmit code) ::
        (core.pairCodeSubmit hashCode conn loop code).2)
      (core.pairCodeSubmit hashCode conn loop code).1 := by
  rcases pair_code_submit_cases hashCode core conn loop code with hharmless |
      ⟨session, pending, machine, hsession, hconsent, hmachine, hhash, hresult⟩
  · exact hinv.harmless (hharmless.cons (by simp) (by simp))
  · have hissued : core.Issued loop.peer session.generation (hashCode code) :=
      ⟨session, hsession, rfl, ⟨pending, hconsent⟩, machine, hmachine, hhash.symm⟩
    have hcancelled : .waitCancelled loop.peer session.generation ∉ trace := by
      simpa [waitNotCancelled, hloop, hsession, hmachine, PairingMachine.verifyCode, hhash]
        using hstands
    have hconsented := (hinv.issued _ _ _ hissued).resolve_left hcancelled
    rw [hresult]
    refine hinv.step (fun other generation hash h => .inl ?_)
      (fun other h => ?_) (fun _ h => .inl h) (by simp) (by simp)
    · exact (judged_quiet hashCode code hsession).issued _ _ _ h
    · rcases completing_set_loop h with h | rfl
      · exact .inl h
      · exact .inr (.inl ⟨trace, [.sent conn (.pairResult true)], session.generation, conn, code,
          rfl, hconsented⟩)

/-- A consent keeps the invariant: the gate it opens stands on it. -/
theorem PairingInv.grantConsent {drawn : Nat} (hinv : PairingInv hashCode trust trace core) :
    PairingInv hashCode trust (trace ++ (core.grantConsent hashCode peer drawn).2)
      (core.grantConsent hashCode peer drawn).1 := by
  unfold SessionCore.grantConsent
  split
  · exact hinv.harmless harmless_rejected
  · next session hsession =>
    split
    · next deadline pendingCode hconsent =>
      refine hinv.step (fun other generation hash h => ?_)
        (fun other h => .inl ?_) (fun _ h => .inl h) (by simp) (by simp)
      · obtain ⟨found, hfound, hissued⟩ := h
        by_cases hpeer : other = peer
        · subst hpeer
          obtain rfl : _ = found := by simpa [setSession, setGrant] using hfound
          obtain ⟨rfl, -, machine, hmachine, rfl⟩ := hissued
          obtain rfl : PairingMachine.new (hashCode (generatePairCode drawn)) = machine := by
            simpa using hmachine
          exact .inr ⟨trace, _, [], rfl, rfl, by simp, by simp⟩
        · exact .inl ⟨found, by simpa [setSession, setGrant, hpeer] using hfound, hissued⟩
      · rcases h with hloop | ⟨task, grant, stage, hgrant, rfl, hstage⟩
        · exact .inl hloop
        · by_cases htask : task = core.nextGrant
          · subst htask
            obtain rfl : _ = grant := by simpa [setSession, setGrant] using hgrant
            cases hstage
          · exact .inr ⟨task, grant, stage,
              by simpa [setSession, setGrant, htask] using hgrant, rfl, hstage⟩
    · exact hinv.harmless harmless_rejected

/-- A guarded step keeps the invariant. -/
theorem PairingInv.preserved {input : CoreInput} (hinv : PairingInv hashCode trust trace core)
    (hguard : pairingGuard hashCode trace core input)
    (hstep : core.step hashCode input = some result) :
    PairingInv hashCode trust (trace ++ result.2) result.1 := by
  cases input with
  | accept peer | dial peer address =>
    cases hstep
    exact hinv.harmless open_handshake_harmless
  | hello conn name =>
    simp only [SessionCore.step] at hstep
    split at hstep
    · split at hstep
      · cases hstep
        exact hinv.harmless insert_session_harmless
      · cases hstep
    · cases hstep
  | handshakeFailed conn =>
    cases hstep
    exact hinv.harmless (Quiet.harmless (quiet_of_eq rfl rfl rfl fun _ h => h) (by simp) (by simp))
  | announce conn =>
    simp only [SessionCore.step] at hstep
    split at hstep
    · cases hstep
      exact hinv.harmless (Quiet.harmless (quiet_of_eq rfl rfl rfl fun _ h => h) (by simp) (by simp))
    · cases hstep
  | deliver conn msg =>
    obtain ⟨loop, hloop, hstage, hrun⟩ := at_stage_some hstep
    cases hrun
    rcases handle_msg_cases hashCode core conn hstage msg with hharmless | ⟨code, rfl⟩ | rfl
    · exact hinv.harmless (hharmless.cons (by simp) (by simp))
    · exact hinv.pairCodeSubmit hloop hguard
    · exact hinv.pairResult hloop (.inl hstage) hguard
  | malformed conn =>
    simp only [SessionCore.step] at hstep
    split at hstep
    · split at hstep
      · cases hstep
        exact hinv.harmless ((quiet_set_loop _ _ (by simp)).harmless (by simp) (by simp))
      · cases hstep
    · cases hstep
  | streamEnd conn | drainEnd conn =>
    obtain ⟨loop, hloop, hstage, hrun⟩ := at_stage_some hstep
    cases hrun
    exact hinv.harmless ((quiet_set_loop _ _ (by simp)).harmless (by simp) (by simp))
  | drain conn msg =>
    obtain ⟨loop, hloop, hstage, hrun⟩ := at_stage_some hstep
    cases hrun
    rcases drain_msg_cases core conn hstage msg with hharmless | rfl
    · exact hinv.harmless (hharmless.cons (by simp) (by simp))
    · exact hinv.pairResult hloop (.inr hstage) hguard
  | forward conn ok =>
    obtain ⟨loop, hloop, hstage, hrun⟩ := at_stage_some hstep
    exact hinv.harmless (forward_harmless hstage hrun)
  | advance conn =>
    obtain ⟨loop, hloop, hrun⟩ := Option.bind_eq_some_iff.mp hstep
    exact hinv.harmless (advance_loop_harmless hloop hrun)
  | consentTimeout timer =>
    simp only [SessionCore.step] at hstep
    split at hstep
    · cases hstep
      exact hinv.harmless consent_timeout_harmless
    · cases hstep
  | grantConsent peer drawn =>
    cases hstep
    exact hinv.grantConsent
  | advanceGrant task =>
    obtain ⟨grant, hgrant, rfl⟩ := Option.map_eq_some_iff.mp hstep
    refine hinv.harmless (advance_grant_harmless hgrant fun code session hstage hsession => ?_)
    intro hmatched
    obtain ⟨machine, hmachine, hhash⟩ := machine_of_matched hmatched
    simp [pairingGuard, stashMisses, hgrant, hstage, hsession, hmachine,
      PairingMachine.verifyCode, hhash] at hguard
  | denyConsent peer =>
    cases hstep
    exact hinv.harmless deny_consent_harmless
  | cancelWait peer =>
    cases hstep
    exact hinv.harmless cancel_wait_harmless
  | submitPairCode peer code =>
    cases hstep
    exact hinv.harmless submit_pair_code_harmless
  | sendCtrl peer msg =>
    simp only [SessionCore.step] at hstep
    split at hstep
    · next hsent =>
      cases hstep
      exact hinv.harmless ((send_ctrl_quiet hsent).harmless (by simp) (by simp))
    · cases hstep
      exact hinv.harmless harmless_rejected
  | disconnect peer =>
    cases hstep
    exact hinv.harmless disconnect_harmless
  | shutdownAll =>
    cases hstep
    exact hinv.harmless shutdown_all_harmless
  | removeTrust peer =>
    cases hstep
    exact hinv.harmless (Quiet.harmless (quiet_of_eq rfl rfl rfl fun _ h =>
      TrustStore.is_trusted_remove h) (by simp) (by simp))
  | setPerms peer perms =>
    cases hstep
    exact hinv.harmless (Quiet.harmless (quiet_of_eq rfl rfl rfl fun _ h =>
      TrustStore.is_trusted_set_perms ▸ h) (by simp) (by simp))
  | saveSettings config | tick secs =>
    cases hstep
    exact hinv.harmless (Quiet.harmless (quiet_of_eq rfl rfl rfl fun _ h => h) (by simp) (by simp))

/-- The invariant holds before the first step. -/
theorem pairing_inv_spawn (config : Config) (trust : TrustStore) :
    PairingInv hashCode trust [] (spawn config trust) where
  issued := by
    rintro peer generation hash ⟨session, hsession, -⟩
    cases hsession
  completing := by
    rintro peer (⟨conn, loop, drained, stage, hloop, -⟩ | ⟨task, grant, stage, hgrant, -⟩)
    · cases hloop
    · cases hgrant
  gained _ htrusted := .inl htrusted
  safe := each_event_nil

end Step

end SessionCore

/-- A peer connects, the user consents, the peer submits the code on screen. -/
def pairedByCode : List Input :=
  [.core (.accept 7), .core (.hello 0 "laptop"), .core (.grantConsent 7 42),
    .core (.deliver 0 (.pairCodeSubmit "000042")), .core (.advance 0), .core (.advance 0),
    .core (.advance 0)]

/-- A peer connects and claims that the pairing is complete. -/
def pairedByClaim : List Input :=
  [.core (.accept 7), .core (.hello 0 "laptop"), .core (.deliver 0 (.pairResult true)),
    .core (.advance 0), .core (.advance 0)]

/-- In every run of the engine whose steps meet `pairingGuard`, every peer that was added to the
trust store was entitled to it, and no other peer is trusted. -/
theorem trusted_only_by_user {config : Config} {trust : TrustStore} {inputs : List Input}
    {trace : List Event} {last : SessionManager}
    (h : Exec (SessionManager.step hashCode)
      (SessionManager.coreGuard (SessionCore.pairingGuard hashCode))
      (SessionManager.spawn config trust) inputs trace last) :
    PairingSafe hashCode (coreEvents trace) ∧
      ∀ peer, last.trust.isTrusted peer = true →
        trust.isTrusted peer = true ∨ .trusted peer ∈ coreEvents trace := by
  obtain ⟨coreInputs, hcore⟩ := SessionManager.exec_to_core hashCode (fun _ _ _ _ => rfl) h
  have hinv : SessionCore.PairingInv hashCode trust (coreEvents trace) last.toSessionCore :=
    hcore.invariant (SessionCore.pairing_inv_spawn config trust) (by
      intro _ _ _ _ _ hbefore hguard hstep
      exact hbefore.preserved hguard hstep)
  exact ⟨hinv.safe, hinv.gained⟩

/-- A pairing as it is meant: the peer is trusted, and was entitled to it. -/
theorem trusted_by_code :
    let trace := Machine.history (SessionManager.step sampleHash)
      (SessionManager.coreGuard (SessionCore.pairingGuard sampleHash))
      (SessionManager.spawn sampleConfig ⟨[]⟩) pairedByCode
    .trusted 7 ∈ coreEvents trace ∧ PairingSafe sampleHash (coreEvents trace) := by
  obtain ⟨last, hexec⟩ := exec_of_run (SessionManager.step sampleHash)
    (SessionManager.coreGuard (SessionCore.pairingGuard sampleHash))
    (SessionManager.spawn sampleConfig ⟨[]⟩) pairedByCode (by decide)
  exact ⟨by decide, (trusted_only_by_user hexec).1⟩

/-- Without the guard a peer is trusted on its own word: one message, and the user did nothing. -/
theorem trusted_by_claim :
    ¬ ∀ (config : Config) (trust : TrustStore) (inputs : List Input) (trace : List Event)
        (last : SessionManager),
      Exec (SessionManager.step sampleHash) Guard.free (SessionManager.spawn config trust) inputs
        trace last → PairingSafe sampleHash (coreEvents trace) := by
  intro hsafe
  obtain ⟨last, hexec⟩ := exec_of_run (SessionManager.step sampleHash) Guard.free
    (SessionManager.spawn sampleConfig ⟨[]⟩) pairedByClaim (by decide)
  have hjustified := hsafe _ _ _ _ _ hexec
    [.ui (.pairingConsentNeeded 7 "laptop"), .received 7 0 (.pairResult true)] (.trusted 7)
    [.ui (.sessionUp 7 "laptop" 0), .ui (.pairingResult 7 true none)] (by decide) 7 rfl
  rcases hjustified.user_acted with ⟨generation, drawn, hmem⟩ | ⟨conn, code, hmem⟩
  · simp at hmem
  · simp at hmem

end LocalTrans
