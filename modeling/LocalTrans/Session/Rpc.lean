import LocalTrans.Session.Engine

/-!
# Which response completes an RPC

An RPC to a peer should be completed only by a response that arrived on a session of that peer
and carries its message id. `RpcsCorrelated` says so of a history. The table of waiting calls is
keyed by the message id alone, so the code keeps to it exactly in the runs whose steps meet
`rpcGuard`: a response whose id is waited for comes from the peer the call was sent to.
-/

namespace LocalTrans

open Foundation

/-- The RPC with this id is `call`: it is the one call that was ever registered under it. -/
def RpcIs (trace : List Event) (msgId : Nat) (call : RpcCall) : Prop :=
  ∀ other, .rpc (.registered msgId other) ∈ trace ↔ other = call

/-- Every response that completed an RPC carries its id, arrived on a session of the peer the RPC
was sent to, and was recorded as coming from there. -/
def RpcsCorrelated (trace : List Event) : Prop :=
  EachEvent (fun before event => ∀ msgId sender response,
    event = .rpc (.completed msgId sender response) →
      respMsgId response = msgId ∧ (∃ conn, .core (.received sender conn response) ∈ before) ∧
      ∃ call, RpcIs before msgId call ∧ call.peer = sender) trace

/-- A call has come to an end: by a response, because the request could not be sent, or because
the caller gave up. -/
def RpcEnded (trace : List Event) (msgId : Nat) : Prop :=
  (∃ sender response, .rpc (.completed msgId sender response) ∈ trace) ∨
    (∃ error, .rpc (.failed msgId error) ∈ trace) ∨ .rpc (.cancelled msgId) ∈ trace

/-- The condition on a response: whoever waits for its id asked the peer it comes from. -/
def respondsToAsked (sm : SessionManager) (conn : ConnId) (msg : ControlMsg) : Bool :=
  (sm.loops conn).all fun loop => (sm.rpcs.pending (respMsgId msg)).all fun call =>
    loop.stage != .reading || call.peer == loop.peer

/-- The steps on which RPCs are correlated. -/
def rpcGuard : Guard SessionManager Input Event := fun _ sm input =>
  (match input with
    | .core (.deliver conn msg) => ctrlArm msg != .response || respondsToAsked sm conn msg
    | _ => true) = true
deriving Decidable

/-- What holds after every step: whoever waits is registered, ids are not reused, and a call that
does not wait any more has ended. -/
structure RpcInv (trace : List Event) (rpcs : RpcTable) : Prop where
  pending : ∀ msgId call, rpcs.pending msgId = some call → RpcIs trace msgId call
  fresh : ∀ msgId call, .rpc (.registered msgId call) ∈ trace → msgId < rpcs.nextMsgId
  kept : ∀ msgId call, .rpc (.registered msgId call) ∈ trace →
    rpcs.pending msgId = some call ∨ RpcEnded trace msgId

variable {hashCode : String → Digest} {trace more : List Event} {rpcs : RpcTable} {msgId : Nat}

/-- An ended call stays ended. -/
theorem RpcEnded.append (h : RpcEnded trace msgId) : RpcEnded (trace ++ more) msgId := by
  rcases h with ⟨sender, response, hmem⟩ | ⟨error, hmem⟩ | hmem
  · exact .inl ⟨sender, response, List.mem_append_left _ hmem⟩
  · exact .inr (.inl ⟨error, List.mem_append_left _ hmem⟩)
  · exact .inr (.inr (List.mem_append_left _ hmem))

/-- Events that register nothing leave every id with its call. -/
theorem rpc_is_append {call : RpcCall} (hnew : ∀ id call, .rpc (.registered id call) ∉ more) :
    RpcIs (trace ++ more) msgId call ↔ RpcIs trace msgId call := by
  simp [RpcIs, hnew]

/-- A history without completions is correlated as far as it goes. -/
theorem RpcsCorrelated.append (h : RpcsCorrelated trace)
    (hnone : ∀ id sender response, .rpc (.completed id sender response) ∉ more) :
    RpcsCorrelated (trace ++ more) := by
  refine each_event_append.mpr ⟨h, ?_⟩
  rintro between _ after rfl id sender response rfl
  exact absurd (by simp) (hnone id sender response)

namespace RpcInv

/-- Events that are not about RPCs, and table entries that do not change. -/
theorem frame (hinv : RpcInv trace rpcs) (hnew : ∀ id call, .rpc (.registered id call) ∉ more) :
    RpcInv (trace ++ more) rpcs where
  pending id call hpending := (rpc_is_append hnew).mpr (hinv.pending id call hpending)
  fresh id call hmem := hinv.fresh id call (by simpa [hnew] using hmem)
  kept id call hmem := (hinv.kept id call (by simpa [hnew] using hmem)).imp_right .append

/-- Taking out the entry of a call that has just ended. -/
theorem withdraw (hinv : RpcInv trace rpcs) (hended : RpcEnded trace msgId) :
    RpcInv trace (rpcs.withdraw msgId) where
  pending id call hpending := by
    by_cases hid : id = msgId
    · simp [RpcTable.withdraw, hid] at hpending
    · exact hinv.pending id call (by simpa [RpcTable.withdraw, hid] using hpending)
  fresh := hinv.fresh
  kept id call hmem := by
    by_cases hid : id = msgId
    · exact .inr (hid ▸ hended)
    · simpa [RpcTable.withdraw, hid] using hinv.kept id call hmem

/-- A call whose request has been queued, or will not be, waits like before. -/
theorem dispatched (hinv : RpcInv trace rpcs) : RpcInv trace (rpcs.dispatched msgId) :=
  ⟨hinv.pending, hinv.fresh, hinv.kept⟩

/-- A new call gets an id that no call had before. -/
theorem register (hinv : RpcInv trace rpcs) (peer : Fingerprint) (msg : ControlMsg) :
    RpcInv (trace ++ [.rpc (rpcs.register peer msg).2]) (rpcs.register peer msg).1 where
  pending id call hpending := by
    by_cases hid : id = rpcs.nextMsgId
    · subst hid
      obtain rfl : _ = call := by simpa [RpcTable.register] using hpending
      intro other
      have hunused : .rpc (.registered rpcs.nextMsgId other) ∉ trace :=
        fun hmem => absurd (hinv.fresh _ _ hmem) (Nat.lt_irrefl _)
      simp [RpcTable.register, hunused]
    · have hbefore : rpcs.pending id = some call := by
        simpa [RpcTable.register, hid] using hpending
      intro other
      simpa [RpcTable.register, hid] using hinv.pending id call hbefore other
  fresh id call hmem := by
    rcases List.mem_append.mp hmem with hmem | hmem
    · exact Nat.lt_succ_of_lt (hinv.fresh id call hmem)
    · obtain ⟨rfl, -⟩ : id = rpcs.nextMsgId ∧ _ := by simpa [RpcTable.register] using hmem
      exact Nat.lt_succ_self _
  kept id call hmem := by
    rcases List.mem_append.mp hmem with hmem | hmem
    · have hid : id ≠ rpcs.nextMsgId := Nat.ne_of_lt (hinv.fresh id call hmem)
      have hkept := hinv.kept id call hmem
      exact hkept.imp (by simp [RpcTable.register, hid]) .append
    · obtain ⟨rfl, rfl⟩ : id = rpcs.nextMsgId ∧ call = _ := by
        simpa [RpcTable.register] using hmem
      exact .inl (by simp [RpcTable.register])

end RpcInv

namespace SessionManager

variable {sm next : SessionManager} {emitted : List Event}

/-- What a step of the sessions does to RPCs: nothing unless a response has just arrived, and
then the response goes to the call that waits for it. -/
theorem step_core_rpcs {input : CoreInput} (h : sm.stepCore hashCode input = some (next, emitted)) :
    ((∀ conn msg, input = .deliver conn msg → ctrlArm msg ≠ .response) ∧
      next.rpcs = sm.rpcs ∧ ∀ event, .rpc event ∉ emitted) ∨
      ∃ conn msg loop, ∃ events : List CoreEvent, input = .deliver conn msg ∧ ctrlArm msg = .response ∧
        sm.loops conn = some loop ∧ loop.stage = .reading ∧
        next.rpcs = (sm.rpcs.respond loop.peer msg).1 ∧
        emitted = .core (.received loop.peer conn msg) :: events.map .core ++
          [.rpc (sm.rpcs.respond loop.peer msg).2] := by
  unfold stepCore at h
  split at h
  · cases h
  · next core events hcore =>
    split at h
    · next conn msg =>
      split at h
      · next loop hloop =>
        obtain ⟨found, hfound, hstage, hrun⟩ := SessionCore.at_stage_some hcore
        obtain rfl : loop = found := by simpa [hloop] using hfound
        obtain ⟨rest, rfl⟩ : ∃ rest, events = .received loop.peer conn msg :: rest :=
          ⟨_, (answer_inj hrun).2.symm⟩
        simp only [Option.some.injEq, Prod.mk.injEq] at h
        obtain ⟨rfl, rfl⟩ := h
        by_cases harm : ctrlArm msg = .response
        · obtain ⟨hrpcs, hpassed⟩ := route_response
            { sm with toSessionCore := core } loop.peer harm
          exact .inr ⟨conn, msg, loop, rest, rfl, harm, hloop, hstage, hrpcs, by simp [hpassed]⟩
        · obtain ⟨hrpcs, hpassed⟩ := route_other { sm with toSessionCore := core } loop.peer harm
          exact .inl ⟨by rintro _ _ ⟨⟩; exact harm, hrpcs, by simp [hpassed]⟩
      · cases h
    · next hother =>
      simp only [Option.some.injEq, Prod.mk.injEq] at h
      obtain ⟨rfl, rfl⟩ := h
      exact .inl ⟨fun conn msg hinput => absurd hinput (hother conn msg), rfl, by simp⟩

/-- What a response does to the table: it completes the call under its id, or it completes
nothing. -/
theorem respond_cases (rpcs : RpcTable) (sender : Fingerprint) (response : ControlMsg) :
    (∃ call, rpcs.pending (respMsgId response) = some call ∧
      rpcs.respond sender response =
        (rpcs.withdraw (respMsgId response), .completed (respMsgId response) sender response)) ∨
      rpcs.pending (respMsgId response) = none ∧
        rpcs.respond sender response = (rpcs, .unclaimed sender response) := by
  unfold RpcTable.respond
  cases hpending : rpcs.pending (respMsgId response) with
  | some call => exact .inl ⟨call, rfl, by simp [hpending]⟩
  | none => exact .inr ⟨rfl, by simp [hpending]⟩

variable {input : Input}

/-- Every step keeps the table in order, whoever sends. -/
theorem rpc_inv_step (hinv : RpcInv trace sm.rpcs)
    (hstep : sm.step hashCode input = some (next, emitted)) :
    RpcInv (trace ++ emitted) next.rpcs := by
  cases input with
  | core input =>
    rcases step_core_rpcs hstep with ⟨-, hrpcs, hsilent⟩ |
      ⟨conn, msg, loop, events, rfl, -, -, -, hrpcs, rfl⟩
    · rw [hrpcs]
      exact hinv.frame fun id call => hsilent _
    · rw [hrpcs]
      rcases respond_cases sm.rpcs loop.peer msg with ⟨call, -, hrespond⟩ | ⟨-, hrespond⟩
      · rw [hrespond]
        refine RpcInv.withdraw (hinv.frame (by simp)) ?_
        exact .inl ⟨loop.peer, msg, by simp⟩
      · rw [hrespond]
        exact hinv.frame (by simp)
  | sendRpc peer msg =>
    cases hstep
    exact hinv.register peer msg
  | dispatchRpc id =>
    obtain ⟨call, -, hcall⟩ := Option.map_eq_some_iff.mp hstep
    unfold dispatchRpc at hcall
    split at hcall
    · cases hcall
      exact (hinv.frame (by simp)).dispatched
    · next error _ =>
      cases hcall
      refine RpcInv.withdraw (hinv.frame (by simp)).dispatched ?_
      exact .inr (.inl ⟨error, by simp⟩)
  | cancelRpc id =>
    cases hstep
    refine RpcInv.withdraw (hinv.frame (by simp)) ?_
    exact .inr (.inr (by simp))
  | takeInbound =>
    cases hstep
    exact hinv.frame (by simp)

/-- A guarded step keeps the history correlated. -/
theorem rpcs_correlated_step (hinv : RpcInv trace sm.rpcs) (hsafe : RpcsCorrelated trace)
    (hguard : rpcGuard trace sm input) (hstep : sm.step hashCode input = some (next, emitted)) :
    RpcsCorrelated (trace ++ emitted) := by
  cases input with
  | core input =>
    rcases step_core_rpcs hstep with ⟨-, -, hsilent⟩ |
      ⟨conn, msg, loop, events, rfl, harm, hloop, hstage, -, rfl⟩
    · exact hsafe.append fun id sender response => hsilent _
    · rcases respond_cases sm.rpcs loop.peer msg with ⟨call, hpending, hrespond⟩ | ⟨-, hrespond⟩
      · have hasked : call.peer = loop.peer := by
          simpa [rpcGuard, harm, respondsToAsked, hloop, hpending, hstage] using hguard
        have hbefore : RpcsCorrelated
            (trace ++ .core (.received loop.peer conn msg) :: events.map .core) :=
          hsafe.append (by simp)
        have hcall : RpcIs (trace ++ .core (.received loop.peer conn msg) :: events.map .core)
            (respMsgId msg) call :=
          (rpc_is_append (by simp)).mpr (hinv.pending _ _ hpending)
        rw [hrespond, ← List.append_assoc]
        refine each_event_append.mpr ⟨hbefore, each_event_singleton.mpr ?_⟩
        rintro id sender response ⟨⟩
        exact ⟨rfl, ⟨conn, by simp⟩, call, by simpa using hcall, hasked⟩
      · rw [hrespond]
        exact hsafe.append (by simp)
  | sendRpc peer msg =>
    cases hstep
    exact hsafe.append (by simp)
  | dispatchRpc id =>
    obtain ⟨call, -, hcall⟩ := Option.map_eq_some_iff.mp hstep
    unfold dispatchRpc at hcall
    split at hcall <;> cases hcall <;> exact hsafe.append (by simp)
  | cancelRpc id | takeInbound =>
    cases hstep
    exact hsafe.append (by simp)

variable {config : Config} {trust : TrustStore} {inputs : List Input}

/-- The invariant holds in every run. -/
theorem rpc_inv {guard : Guard SessionManager Input Event} {last : SessionManager}
    (h : Exec (step hashCode) guard (spawn config trust) inputs trace last) :
    RpcInv trace last.rpcs := by
  have hstart : RpcInv [] (spawn config trust).rpcs := by
    refine ⟨?_, by simp, by simp⟩
    rintro id call ⟨⟩
  induction h with
  | start => exact hstart
  | step _ _ hstep ih => exact rpc_inv_step ih hstep

/-- A guarded run is correlated. -/
theorem rpcs_correlated_of_guarded {last : SessionManager}
    (h : Exec (step hashCode) rpcGuard (spawn config trust) inputs trace last) :
    RpcsCorrelated trace := by
  induction h with
  | start => exact each_event_nil
  | step hbefore hguard hstep ih => exact rpcs_correlated_step (rpc_inv hbefore) ih hguard hstep

/-- A step that breaks the guard leaves a completion from the wrong peer in the history. -/
theorem rpc_guard_of_correlated
    (h : Exec (step hashCode) Guard.free (spawn config trust) inputs trace sm)
    (hstep : sm.step hashCode input = some (next, emitted))
    (hsafe : RpcsCorrelated (trace ++ emitted)) : rpcGuard trace sm input := by
  by_contra hbreach
  -- Only a response to a call of another peer breaks the guard.
  obtain ⟨conn, msg, rfl, harm, hasked⟩ : ∃ conn msg, input = .core (.deliver conn msg) ∧
      ctrlArm msg = .response ∧ respondsToAsked sm conn msg = false := by
    unfold rpcGuard at hbreach
    split at hbreach
    · next conn msg => exact ⟨conn, msg, rfl, by simpa using hbreach⟩
    · simp at hbreach
  rcases step_core_rpcs hstep with ⟨hother, -⟩ | ⟨_, _, loop, events, ⟨⟩, -, hloop, hstage, -, rfl⟩
  · exact hother conn msg rfl harm
  · rcases respond_cases sm.rpcs loop.peer msg with ⟨call, hpending, hrespond⟩ | ⟨hnone, -⟩
    · have hpeer : call.peer ≠ loop.peer := by
        simpa [respondsToAsked, hloop, hpending, hstage] using hasked
      rw [hrespond, ← List.append_assoc] at hsafe
      obtain ⟨-, -, found, hfound, hsender⟩ :=
        each_event_singleton.mp (each_event_append.mp hsafe).2 _ _ _ rfl
      have hregistered := (hfound call).mp
        (by simpa using ((rpc_inv h).pending _ _ hpending call).mpr rfl)
      exact hpeer (hregistered ▸ hsender)
    · simp [respondsToAsked, hloop, hnone] at hasked

/-- Whatever the peers send, RPCs are correlated exactly in the runs in which every response whose
id is waited for comes from the peer that was asked. A call that was registered waits until it is
answered, cannot be sent, or is given up. -/
theorem rpcs_correlated_iff {config : Config} {trust : TrustStore} {inputs : List Input}
    {last : SessionManager}
    (h : Exec (step hashCode) Guard.free (spawn config trust) inputs trace last) :
    (RpcsCorrelated trace ↔
      Exec (step hashCode) rpcGuard (spawn config trust) inputs trace last) ∧
      ∀ msgId call, .rpc (.registered msgId call) ∈ trace →
        last.rpcs.pending msgId = some call ∨ RpcEnded trace msgId := by
  refine ⟨⟨fun hsafe => ?_, rpcs_correlated_of_guarded⟩, (rpc_inv h).kept⟩
  refine h.guarded (fun before after hall => (each_event_append.mp hall).1) ?_ hsafe
  intro _ _ _ _ _ _ hbefore hstep hafter
  exact rpc_guard_of_correlated hbefore hstep hafter

/-- A peer connects, is asked for its shares, and answers. -/
def answeredByAsked : List Input :=
  [.core (.dial 7 "10.0.0.7"), .core (.hello 0 "laptop"), .sendRpc 7 (.sharesReq 0),
    .dispatchRpc 1, .core (.forward 0 true), .core (.deliver 0 (.sharesResp [] 1))]

/-- Two peers connect; one is asked for its shares, the other answers. -/
def answeredByOther : List Input :=
  [.core (.dial 7 "10.0.0.7"), .core (.hello 0 "laptop"), .core (.accept 9),
    .core (.hello 1 "stranger"), .sendRpc 7 (.sharesReq 0), .dispatchRpc 1,
    .core (.deliver 1 (.sharesResp [] 1))]

/-- The call that both samples make. -/
def sampleCall : RpcCall := { peer := 7, request := .sharesReq 1 }

/-- An answer from the peer that was asked completes the call, and the history is correlated. -/
theorem correlated_when_answered_by_asked :
    let trace := Machine.history (step sampleHash) rpcGuard (spawn sampleConfig ⟨[]⟩)
      answeredByAsked
    .rpc (.completed 1 7 (.sharesResp [] 1)) ∈ trace ∧ RpcsCorrelated trace := by
  obtain ⟨last, hexec⟩ := exec_of_run (step sampleHash) rpcGuard (spawn sampleConfig ⟨[]⟩)
    answeredByAsked (by decide)
  exact ⟨by decide, (rpcs_correlated_iff hexec.toFree).1.mpr hexec⟩

/-- Any connected peer can complete the call by its number alone. -/
theorem not_correlated_when_answered_by_other :
    ¬ ∀ (config : Config) (trust : TrustStore) (inputs : List Input) (trace : List Event)
        (last : SessionManager),
      Exec (step sampleHash) Guard.free (spawn config trust) inputs trace last →
        RpcsCorrelated trace := by
  intro hsafe
  obtain ⟨last, hexec⟩ := exec_of_run (step sampleHash) Guard.free (spawn sampleConfig ⟨[]⟩)
    answeredByOther (by decide)
  obtain ⟨-, -, call, hcall, hsender⟩ := hsafe _ _ _ _ _ hexec
    [.core (.ui (.pairingWaitConsent 7 "10.0.0.7")),
      .core (.ui (.pairingConsentNeeded 9 "stranger")), .rpc (.registered 1 sampleCall),
      .core (.received 9 1 (.sharesResp [] 1))]
    (.rpc (.completed 1 9 (.sharesResp [] 1))) [] (by decide) _ _ _ rfl
  obtain rfl := (hcall sampleCall).mp (by simp)
  exact absurd hsender (by decide)

end SessionManager

end LocalTrans
