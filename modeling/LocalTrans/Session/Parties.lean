import LocalTrans.Session.Agreement
import LocalTrans.Session.Attempts

/-!
# The two sides of a pairing

`Parties` runs the sessions of two devices side by side, each on its own steps and with any other
peers besides. The connections between the two are given by a `Wiring`; `wireGuard` lets each of them
carry its messages in order, from the one that sent them, and lose the rest at any moment.
`success_agreed` follows a success from the side that reports it to the other.
-/

namespace LocalTrans

open Foundation

/-- The two devices. -/
inductive Side where
  | left
  | right
deriving DecidableEq

/-- The other device. -/
def Side.other : Side → Side
  | .left => .right
  | .right => .left

@[simp] theorem Side.other_other (side : Side) : side.other.other = side := by
  cases side <;> rfl

theorem Side.other_ne (side : Side) : side.other ≠ side := by
  cases side <;> simp [Side.other]

theorem Side.eq_or (side place : Side) : place = side ∨ place = side.other := by
  cases side <;> cases place <;> simp [Side.other]

/-- The connections between the two devices, by their names on either side. -/
structure Wiring where
  partner : Side → ConnId → Option ConnId
  paired : ∀ side conn conn', partner side conn = some conn' → partner side.other conn' = some conn

/-- The sessions of the two devices. -/
abbrev Parties := Side → SessionCore

section Histories

variable (conn : ConnId)

/-- What happened on one side. -/
def historyOf (side : Side) (trace : List (Side × CoreEvent)) : List CoreEvent :=
  trace.filterMap fun event => if event.1 = side then some event.2 else none

/-- The messages that went out on a connection. -/
def sentOn (trace : List CoreEvent) : List ControlMsg :=
  trace.filterMap fun
    | .sent on msg => if on = conn then some msg else none
    | _ => none

/-- The messages that came in on a connection. -/
def receivedOn (trace : List CoreEvent) : List ControlMsg :=
  trace.filterMap fun
    | .received _ on msg => if on = conn then some msg else none
    | _ => none

end Histories

/-- A step of one side. -/
def partyStep (hashCode : String → Digest) : Machine Parties (Side × CoreInput) (Side × CoreEvent) :=
  fun parties (side, input) =>
    ((parties side).step hashCode input).map fun (next, events) =>
      (Function.update parties side next, events.map fun event => (side, event))

/-- The next message that a connection of the other side has carried and this side has not read. -/
def carries (wiring : Wiring) (trace : List (Side × CoreEvent)) (side : Side) (conn : ConnId)
    (msg : ControlMsg) : Bool :=
  (wiring.partner side conn).any fun conn' =>
    (receivedOn conn (historyOf side trace) ++ [msg]).isPrefixOf
      (sentOn conn' (historyOf side.other trace))

/-- The network and the callers: the connections of the wiring are those with the other device,
which its fingerprint proves; a message under that fingerprint is the next one that the other side
sent; and no caller of `send_ctrl` answers a code. -/
def wireGuard (fingerprint : Side → Fingerprint) (wiring : Wiring) :
    Guard Parties (Side × CoreInput) (Side × CoreEvent) := fun trace parties (side, input) =>
  (match input with
    | .accept peer | .dial peer _ =>
      !(wiring.partner side (parties side).nextConn).isSome || peer == fingerprint side.other
    | .deliver conn msg | .drain conn msg => ((parties side).loops conn).all fun loop =>
      loop.peer != fingerprint side.other || carries wiring trace side conn msg
    | .sendCtrl _ msg => !msg.isPairResult
    | _ => true) = true
deriving Decidable

/-- Both devices begin without a session. -/
def Parties.spawn (config : Side → Config) (trust : Side → TrustStore) : Parties :=
  fun side => .spawn (config side) (trust side)

section Histories

variable {side place : Side} {conn : ConnId} {before after : List (Side × CoreEvent)}
  {events : List CoreEvent} {start rest : List CoreEvent}

@[simp] theorem history_of_append :
    historyOf side (before ++ after) = historyOf side before ++ historyOf side after := by
  simp [historyOf]

theorem history_of_own : historyOf side (events.map fun event => (side, event)) = events := by
  simp [historyOf, List.filterMap_map]

theorem history_of_other (h : place ≠ side) :
    historyOf side (events.map fun event => (place, event)) = [] := by
  simp [historyOf, List.filterMap_map, h]

@[simp] theorem sent_on_append : sentOn conn (start ++ rest) = sentOn conn start ++ sentOn conn rest := by
  simp [sentOn]

@[simp] theorem received_on_append :
    receivedOn conn (start ++ rest) = receivedOn conn start ++ receivedOn conn rest := by
  simp [receivedOn]

theorem mem_sent_on {msg : ControlMsg} : msg ∈ sentOn conn events ↔ .sent conn msg ∈ events := by
  unfold sentOn
  rw [List.mem_filterMap]
  constructor
  · rintro ⟨event, hmem, hevent⟩
    cases event with
    | sent on given =>
      obtain ⟨rfl, rfl⟩ : on = conn ∧ given = msg := by simpa using hevent
      exact hmem
    | _ => cases hevent
  · intro hmem
    exact ⟨_, hmem, by simp⟩

theorem mem_received_on {msg : ControlMsg} :
    msg ∈ receivedOn conn events ↔ ∃ peer, .received peer conn msg ∈ events := by
  unfold receivedOn
  rw [List.mem_filterMap]
  constructor
  · rintro ⟨event, hmem, hevent⟩
    cases event with
    | received peer on given =>
      obtain ⟨rfl, rfl⟩ : on = conn ∧ given = msg := by simpa using hevent
      exact ⟨peer, hmem⟩
    | _ => cases hevent
  · rintro ⟨peer, hmem⟩
    exact ⟨_, hmem, by simp⟩

end Histories

section Steps

variable {hashCode : String → Digest} {fingerprint : Side → Fingerprint} {wiring : Wiring}
  {core : SessionCore} {input : CoreInput} {result : CoreStep} {conn : ConnId}

/-- Events that receive nothing. -/
theorem received_on_silent {events : List CoreEvent}
    (h : ∀ peer on msg, .received peer on msg ∉ events) : receivedOn conn events = [] := by
  refine List.eq_nil_iff_forall_not_mem.mpr fun msg hmem => ?_
  obtain ⟨peer, hmem⟩ := mem_received_on.mp hmem
  exact h peer conn msg hmem

/-- A step receives nothing, or what it was handed on a connection whose loop runs. -/
theorem SessionCore.move_received (h : Move hashCode core input result) :
    (∀ peer on msg, .received peer on msg ∉ result.2) ∨
      ∃ loop on msg rest, (input = .deliver on msg ∨ input = .drain on msg) ∧
        core.loops on = some loop ∧ result.2 = .received loop.peer on msg :: rest ∧
        ∀ peer on msg, .received peer on msg ∉ rest := by
  have hlocal : ∀ {events : List CoreEvent}, (∀ event ∈ events, event.Local) →
      ∀ peer on msg, .received peer on msg ∉ events :=
    fun hevents peer on msg hmem => hevents _ hmem
  have hplain : ∀ {events : List CoreEvent}, (∀ event ∈ events, event.Plain) →
      ∀ peer on msg, .received peer on msg ∉ events :=
    fun hevents peer on msg hmem => hevents _ hmem
  cases h with
  | calm hcalm => exact .inl (hplain hcalm.plain)
  | @heard _ on msg loop next events hinput _ hloop hcalm =>
    exact .inr ⟨loop, on, msg, events, hinput, hloop, rfl, hplain hcalm.plain⟩
  | opened _ => exact .inl (hlocal open_handshake_local)
  | entered _ _ => exact .inl (hlocal insert_session_local)
  | granted _ _ => exact .inl (hlocal grant_consent_local)
  | @judged on code loop session hloop _ _ _ =>
    refine .inr ⟨loop, on, .pairCodeSubmit code, _, .inl rfl, hloop, rfl, ?_⟩
    intro peer place msg hmem
    cases houtcome : (judgeCode hashCode session code).2 <;>
      simp [houtcome, PairOutcome.replies] at hmem
  | released _ _ _ =>
    refine .inl fun peer on msg hmem => ?_
    rcases List.mem_cons.mp hmem with hstash | hmem
    · cases hstash
    · exact hlocal reports_local peer on msg hmem
  | @confirmed _ on loop drained hinput hloop _ =>
    exact .inr ⟨loop, on, .pairResult true, [], hinput, hloop, rfl, by simp⟩
  | completed _ _ => exact .inl (hlocal complete_pairing_local)
  | settled _ _ => exact .inl (hlocal complete_pairing_local)
  | gaveUp _ _ => exact .inl (by simp)
  | left _ _ => exact .inl (hlocal leave_local)

/-- A handshake of a state after a move was there before, or it is the new one of the peer that
connects. -/
theorem SessionCore.move_handshakes (h : Move hashCode core input result) {handshake : Handshake}
    (hfound : result.1.handshakes conn = some handshake) :
    (∃ before, core.handshakes conn = some before ∧ before.peer = handshake.peer) ∨
      conn = core.nextConn ∧
        (input = .accept handshake.peer ∨ ∃ address, input = .dial handshake.peer address) := by
  have hkept : core.handshakes conn = some handshake →
      ∃ before, core.handshakes conn = some before ∧ before.peer = handshake.peer :=
    fun hbefore => ⟨handshake, hbefore, rfl⟩
  cases h with
  | calm hcalm => exact .inl (hcalm.continues.handshakes conn handshake hfound)
  | heard _ _ _ hcalm => exact .inl (hcalm.continues.handshakes conn handshake hfound)
  | @opened _ peer dialed address hinput =>
    unfold openHandshake at hfound
    dsimp only at hfound
    split at hfound
    · exact .inl (hkept hfound)
    · by_cases hsame : conn = core.nextConn
      · subst hsame
        obtain rfl : _ = handshake := by simpa [setHandshake] using hfound
        exact .inr ⟨rfl, hinput.imp_right fun h => ⟨address, h⟩⟩
      · exact .inl (hkept (by simpa [setHandshake, Function.update_of_ne hsame] using hfound))
  | @entered on name waiting hwaiting hstage =>
    by_cases hsame : conn = on
    · subst hsame
      simp only [insertSession, Function.update_self] at hfound
      split at hfound
      · obtain rfl := Option.some.inj hfound
        exact .inl ⟨waiting, hwaiting, rfl⟩
      · cases hfound
    · simp only [insertSession, Function.update_of_ne hsame] at hfound
      exact .inl (hkept hfound)
  | granted hsession hconsent =>
    simp only [grantConsent, hsession, hconsent] at hfound
    exact .inl (hkept hfound)
  | @completed on loop drained stage _ _ =>
    have hgoes : Continues [] (fun _ => False) core
        (core.completePairing loop.peer on stage).1.1 := complete_pairing_continues
    exact .inl (hgoes.handshakes conn handshake hfound)
  | @settled task grant stage _ _ =>
    have hgoes : Continues [] (fun _ => False) core
        (core.completePairing grant.peer grant.conn stage).1.1 := complete_pairing_continues
    exact .inl (hgoes.handshakes conn handshake hfound)
  | @left on loop consent wasTrusted _ _ =>
    rw [(leave_rest core on loop consent wasTrusted).2.2.1] at hfound
    exact .inl (hkept hfound)
  | judged _ _ _ _ | released _ _ _ | confirmed _ _ _ | gaveUp _ _ => exact .inl (hkept hfound)

end Steps

/-- What holds on the connections between the two devices after every step: they are with the other
device, and what one side received the other one sent. -/
structure OnWire (fingerprint : Side → Fingerprint) (wiring : Wiring)
    (trace : List (Side × CoreEvent)) (parties : Parties) : Prop where
  handshakes : ∀ side conn conn' handshake, wiring.partner side conn = some conn' →
    (parties side).handshakes conn = some handshake → handshake.peer = fingerprint side.other
  loops : ∀ side conn conn' loop, wiring.partner side conn = some conn' →
    (parties side).loops conn = some loop → loop.peer = fingerprint side.other
  heard : ∀ side conn conn' peer msg, wiring.partner side conn = some conn' →
    .received peer conn msg ∈ historyOf side trace → peer = fingerprint side.other
  wired : ∀ side conn msg, .received (fingerprint side.other) conn msg ∈ historyOf side trace →
    ∃ conn', wiring.partner side conn = some conn'
  carried : ∀ side conn conn', wiring.partner side conn = some conn' →
    receivedOn conn (historyOf side trace) <+: sentOn conn' (historyOf side.other trace)

section OnWire

variable {hashCode : String → Digest} {fingerprint : Side → Fingerprint} {wiring : Wiring}
  {trace emitted : List (Side × CoreEvent)} {parties next : Parties} {input : Side × CoreInput}

/-- A message that is read under the fingerprint of the other device is the next one it sent. -/
theorem read_is_carried {side : Side} {move : CoreInput} {loop : CtrlLoop} {conn : ConnId}
    {msg : ControlMsg} (hguard : wireGuard fingerprint wiring trace parties (side, move))
    (hmove : move = .deliver conn msg ∨ move = .drain conn msg)
    (hloop : (parties side).loops conn = some loop)
    (hpeer : loop.peer = fingerprint side.other) :
    ∃ conn', wiring.partner side conn = some conn' ∧
      receivedOn conn (historyOf side trace) ++ [msg] <+: sentOn conn' (historyOf side.other trace) := by
  have hcarries : carries wiring trace side conn msg = true := by
    rcases hmove with rfl | rfl <;> simpa [wireGuard, hloop, hpeer] using hguard
  obtain ⟨conn', hpartner, hprefix⟩ := (Option.any_eq_true _ _).mp hcarries
  exact ⟨conn', hpartner, List.isPrefixOf_iff_prefix.mp hprefix⟩

/-- Every step that the network allows keeps the connections as they are. -/
theorem OnWire.step (h : OnWire fingerprint wiring trace parties)
    (hguard : wireGuard fingerprint wiring trace parties input)
    (hstep : partyStep hashCode parties input = some (next, emitted)) :
    OnWire fingerprint wiring (trace ++ emitted) next := by
  obtain ⟨side, move⟩ := input
  obtain ⟨⟨core, events⟩, hcore, hresult⟩ := Option.map_eq_some_iff.mp hstep
  obtain ⟨rfl, rfl⟩ : Function.update parties side core = next ∧
      (events.map fun event => (side, event)) = emitted := by simpa using hresult
  have hmove := SessionCore.step_move hashCode hcore
  have hown : historyOf side (trace ++ events.map fun event => (side, event)) =
      historyOf side trace ++ events := by rw [history_of_append, history_of_own]
  have hother : historyOf side.other (trace ++ events.map fun event => (side, event)) =
      historyOf side.other trace := by
    rw [history_of_append, history_of_other side.other_ne.symm, List.append_nil]
  -- What this step received, on the connections of the wiring and under the other fingerprint.
  have hreceived : ∀ peer conn msg, .received peer conn msg ∈ events →
      ∃ loop rest, (parties side).loops conn = some loop ∧ loop.peer = peer ∧
        (move = .deliver conn msg ∨ move = .drain conn msg) ∧
        events = .received peer conn msg :: rest ∧ ∀ peer on msg, .received peer on msg ∉ rest := by
    intro peer conn msg hmem
    rcases SessionCore.move_received hmove with hnone | ⟨loop, on, given, rest, hinput, hloop, hevents, hrest⟩
    · exact absurd hmem (hnone peer conn msg)
    · have hevents : events = .received loop.peer on given :: rest := hevents
      rw [hevents] at hmem
      rcases List.mem_cons.mp hmem with hsame | hmem
      · obtain ⟨rfl, rfl, rfl⟩ : peer = loop.peer ∧ conn = on ∧ msg = given := by simpa using hsame
        exact ⟨loop, rest, hloop, rfl, hinput, hevents, hrest⟩
      · exact absurd hmem (hrest peer conn msg)
  refine ⟨?_, ?_, ?_, ?_, ?_⟩
  · intro place conn conn' handshake hpartner hfound
    rcases side.eq_or place with rfl | rfl
    · rw [Function.update_self] at hfound
      rcases SessionCore.move_handshakes hmove hfound with ⟨before, hbefore, hpeer⟩ | ⟨rfl, hinput⟩
      · exact hpeer ▸ h.handshakes place conn conn' before hpartner hbefore
      · rcases hinput with rfl | ⟨address, rfl⟩ <;> simpa [wireGuard, hpartner] using hguard
    · rw [Function.update_of_ne side.other_ne] at hfound
      exact h.handshakes side.other conn conn' handshake hpartner hfound
  · intro place conn conn' loop hpartner hfound
    rcases side.eq_or place with rfl | rfl
    · rw [Function.update_self] at hfound
      rcases SessionCore.move_loops hmove hfound with ⟨before, hbefore, hpeer, -⟩ |
        ⟨handshake, hhandshake, hpeer, -⟩
      · exact hpeer.trans (h.loops place conn conn' before hpartner hbefore)
      · exact hpeer.trans (h.handshakes place conn conn' handshake hpartner hhandshake)
    · rw [Function.update_of_ne side.other_ne] at hfound
      exact h.loops side.other conn conn' loop hpartner hfound
  · intro place conn conn' peer msg hpartner hmem
    rcases side.eq_or place with rfl | rfl
    · rw [hown] at hmem
      rcases List.mem_append.mp hmem with hbefore | hnow
      · exact h.heard place conn conn' peer msg hpartner hbefore
      · obtain ⟨loop, -, hloop, rfl, -⟩ := hreceived peer conn msg hnow
        exact h.loops place conn conn' loop hpartner hloop
    · rw [hother] at hmem
      exact h.heard side.other conn conn' peer msg hpartner hmem
  · intro place conn msg hmem
    rcases side.eq_or place with rfl | rfl
    · rw [hown] at hmem
      rcases List.mem_append.mp hmem with hbefore | hnow
      · exact h.wired place conn msg hbefore
      · obtain ⟨loop, -, hloop, hpeer, hinput, -⟩ := hreceived _ conn msg hnow
        obtain ⟨conn', hpartner, -⟩ := read_is_carried hguard hinput hloop hpeer
        exact ⟨conn', hpartner⟩
    · rw [hother] at hmem
      exact h.wired side.other conn msg hmem
  · intro place conn conn' hpartner
    rcases side.eq_or place with rfl | rfl
    · rw [hown, hother, received_on_append]
      by_cases hnone : receivedOn conn events = []
      · rw [hnone, List.append_nil]
        exact h.carried place conn conn' hpartner
      · obtain ⟨msg, hmsg⟩ := List.exists_mem_of_ne_nil _ hnone
        obtain ⟨peer, hmem⟩ := mem_received_on.mp hmsg
        obtain ⟨loop, rest, hloop, rfl, hinput, hevents, hrest⟩ := hreceived peer conn msg hmem
        have hpeer := h.loops place conn conn' loop hpartner hloop
        obtain ⟨found, hfound, hprefix⟩ := read_is_carried hguard hinput hloop hpeer
        obtain rfl := Option.some.inj (hpartner.symm.trans hfound)
        have honly : receivedOn conn events = [msg] := by
          have hsilent : receivedOn conn rest = [] := received_on_silent hrest
          unfold receivedOn at hsilent ⊢
          rw [hevents, List.filterMap_cons]
          simp [hsilent]
        rwa [honly]
    · have hback : historyOf side.other.other (trace ++ events.map fun event => (side, event)) =
          historyOf side.other.other trace ++ events := by
        rw [side.other_other]
        exact hown
      rw [hother, hback, sent_on_append]
      exact (h.carried side.other conn conn' hpartner).trans (List.prefix_append _ _)

/-- Nothing is on the wire when the devices begin. -/
theorem on_wire_spawn (fingerprint : Side → Fingerprint) (wiring : Wiring) (config : Side → Config)
    (trust : Side → TrustStore) : OnWire fingerprint wiring [] (Parties.spawn config trust) := by
  refine ⟨?_, ?_, ?_, ?_, fun _ _ _ _ => List.nil_prefix⟩
  · intro side conn conn' handshake _ hfound
    cases hfound
  · intro side conn conn' loop _ hfound
    cases hfound
  · intro side conn conn' peer msg _ hmem
    cases hmem
  · intro side conn msg hmem
    cases hmem

/-- Each side runs as it would alone. -/
theorem run_of_side {config : Side → Config} {trust : Side → TrustStore}
    {inputs : List (Side × CoreInput)} (side : Side)
    (h : Exec (partyStep hashCode) (wireGuard fingerprint wiring) (Parties.spawn config trust) inputs
      trace parties) :
    ∃ own, Exec (SessionCore.step hashCode) SessionCore.plainCalls
      (SessionCore.spawn (config side) (trust side)) own (historyOf side trace) (parties side) := by
  let part : Parties → SessionCore := fun parties => parties side
  show ∃ own, Exec (SessionCore.step hashCode) SessionCore.plainCalls
    (part (Parties.spawn config trust)) own (historyOf side trace) (part parties)
  refine h.project rfl (fun _ _ => history_of_append) ?_
  intro trace parties input next emitted hguard hstep
  obtain ⟨place, move⟩ := input
  obtain ⟨⟨core, events⟩, hcore, hresult⟩ := Option.map_eq_some_iff.mp hstep
  obtain ⟨rfl, rfl⟩ : Function.update parties place core = next ∧
      (events.map fun event => (place, event)) = emitted := by simpa using hresult
  rcases place.eq_or side with rfl | rfl
  · have hpart : part (Function.update parties side core) = core := Function.update_self _ _ _
    refine .inr ⟨move, ?_, by rw [history_of_own, hpart]; exact hcore⟩
    cases move with
    | sendCtrl peer msg => simpa [SessionCore.plainCalls, CoreInput.calls, wireGuard] using hguard
    | _ => rfl
  · exact .inl ⟨Function.update_of_ne place.other_ne _ _, history_of_other place.other_ne.symm⟩

/-- The invariants of both sides and of the connections between them. -/
theorem parties_run {config : Side → Config} {trust : Side → TrustStore}
    {inputs : List (Side × CoreInput)}
    (h : Exec (partyStep hashCode) (wireGuard fingerprint wiring) (Parties.spawn config trust) inputs
      trace parties) :
    OnWire fingerprint wiring trace parties ∧
      ∀ side, SessionCore.Kept (historyOf side trace) (parties side) := by
  refine ⟨?_, fun side => ?_⟩
  · refine h.invariant (on_wire_spawn fingerprint wiring config trust) ?_
    intro _ _ _ _ _ hbefore hguard hstep
    exact hbefore.step hguard hstep
  · obtain ⟨own, hown⟩ := run_of_side side h
    exact (SessionCore.kept_run hown).2

end OnWire

section Agreement

variable {fingerprint : Side → Fingerprint} {wiring : Wiring} {trace : List (Side × CoreEvent)}
  {parties : Parties} {side : Side} {before after : List CoreEvent} {conn conn' : ConnId}

/-- What came in was sent by the other side. -/
theorem OnWire.sent (h : OnWire fingerprint wiring trace parties) {msg : ControlMsg}
    (hpartner : wiring.partner side conn = some conn')
    (hmem : .received (fingerprint side.other) conn msg ∈ historyOf side trace) :
    .sent conn' msg ∈ historyOf side.other trace :=
  mem_sent_on.mp ((h.carried side conn conn' hpartner).subset
    (mem_received_on.mpr ⟨fingerprint side.other, hmem⟩))

/-- A side that heard of a success holds the other device for paired, and so does the other side:
it judged the code of this one, and answered it. -/
theorem confirmed_agreed (hwire : OnWire fingerprint wiring trace parties)
    (hkept : ∀ side, SessionCore.Kept (historyOf side trace) (parties side))
    (hsplit : historyOf side trace =
      before ++ .received (fingerprint side.other) conn (.pairResult true) :: after) :
    (parties side).Settled (fingerprint side.other) after ∧
      ∃ conn' start generation code rest, wiring.partner side conn = some conn' ∧
        historyOf side.other trace =
          start ++ .codeJudged (fingerprint side) generation code .matched ::
            .sent conn' (.pairResult true) :: rest ∧
        (parties side.other).Settled (fingerprint side) (.sent conn' (.pairResult true) :: rest) := by
  refine ⟨(hkept side).settled before _ after hsplit _ rfl, ?_⟩
  have hmem : .received (fingerprint side.other) conn (.pairResult true) ∈ historyOf side trace := by
    rw [hsplit]
    exact List.mem_append_right _ List.mem_cons_self
  obtain ⟨conn', hpartner⟩ := hwire.wired side conn _ hmem
  obtain ⟨sentBefore, rest, hsent⟩ := List.append_of_mem (hwire.sent hpartner hmem)
  -- The other side sent its answer right after the verdict on a code that this connection brought.
  obtain ⟨start, peer, generation, code, rfl⟩ :=
    ((hkept side.other).exchanged sentBefore _ rest hsent).1 conn' rfl
  have hcode : .received peer conn' (.pairCodeSubmit code) ∈ historyOf side.other trace := by
    rw [hsent]
    simp
  obtain rfl : peer = fingerprint side := by
    simpa using hwire.heard side.other conn' conn peer _ (wiring.paired _ _ _ hpartner) hcode
  have hjudged : historyOf side.other trace =
      (start ++ [.received (fingerprint side) conn' (.pairCodeSubmit code)]) ++
        .codeJudged (fingerprint side) generation code .matched ::
          .sent conn' (.pairResult true) :: rest := by
    simpa using hsent
  exact ⟨conn', _, generation, code, rest, hpartner, hjudged,
    (hkept side.other).settled _ _ _ hjudged _ rfl⟩

/-- A side that judged a code of the other device to be right holds it for paired, and answers at
once; the other side has not read that far, or it holds this device for paired as well. -/
theorem judged_agreed (hwire : OnWire fingerprint wiring trace parties)
    (hkept : ∀ side, SessionCore.Kept (historyOf side trace) (parties side)) {generation : Nat}
    {code : String}
    (hsplit : historyOf side trace =
      before ++ .codeJudged (fingerprint side.other) generation code .matched :: after) :
    (parties side).Settled (fingerprint side.other) after ∧
      ∃ conn conn', wiring.partner side conn = some conn' ∧
        .sent conn (.pairResult true) ∈ after.head? ∧
        (receivedOn conn' (historyOf side.other trace) <+: sentOn conn before ∨
          ∃ start rest, historyOf side.other trace =
              start ++ .received (fingerprint side) conn' (.pairResult true) :: rest ∧
            (parties side.other).Settled (fingerprint side) rest) := by
  refine ⟨(hkept side).settled before _ after hsplit _ rfl, ?_⟩
  obtain ⟨conn, start, rest, rfl, rfl⟩ :=
    ((hkept side).exchanged before _ after hsplit).2 _ _ _ rfl
  have hcode : .received (fingerprint side.other) conn (.pairCodeSubmit code) ∈
      historyOf side trace := by
    rw [hsplit]
    simp
  obtain ⟨conn', hpartner⟩ := hwire.wired side conn _ hcode
  have hback := wiring.paired side conn conn' hpartner
  refine ⟨conn, conn', hpartner, by simp, ?_⟩
  -- The answer is the next message after those that were sent before the verdict.
  have hsent : sentOn conn (historyOf side trace) =
      sentOn conn (start ++ [.received (fingerprint side.other) conn (.pairCodeSubmit code)]) ++
        .pairResult true :: sentOn conn rest := by
    rw [hsplit, sent_on_append]
    simp [sentOn]
  have hread : receivedOn conn' (historyOf side.other trace) <+: sentOn conn (historyOf side trace) := by
    simpa using hwire.carried side.other conn' conn hback
  by_cases hfew : receivedOn conn' (historyOf side.other trace) <+:
      sentOn conn (start ++ [.received (fingerprint side.other) conn (.pairCodeSubmit code)])
  · exact .inl hfew
  right
  have hanswer : .pairResult true ∈ receivedOn conn' (historyOf side.other trace) := by
    rw [hsent, List.append_cons] at hread
    rcases List.prefix_or_prefix_of_prefix hread (List.prefix_append _ _) with hread | hmany
    · obtain hall | hpart := List.prefix_concat_iff.mp hread
      · simp [hall]
      · exact absurd hpart hfew
    · exact hmany.subset (by simp)
  obtain ⟨peer, hmem⟩ := mem_received_on.mp hanswer
  obtain rfl : peer = fingerprint side := by
    simpa using hwire.heard side.other conn' conn peer _ hback hmem
  obtain ⟨heardBefore, heardAfter, hheard⟩ := List.append_of_mem hmem
  exact ⟨heardBefore, heardAfter, hheard,
    (hkept side.other).settled heardBefore _ heardAfter hheard _ rfl⟩

end Agreement

/-- Two devices. -/
def sampleNames : Side → Fingerprint
  | .left => 1
  | .right => 2

/-- One connection between them. -/
def sampleWiring : Wiring where
  partner _ conn := if conn = 0 then some 0 else none
  paired := by
    intro side conn conn' h
    grind

/-- A code comes before the consent and three while the grant is at work: all four are wrong. -/
def fourWrongCodes : List CoreInput :=
  [.accept 7, .hello 0 "laptop", .deliver 0 (.pairCodeSubmit "000001"), .grantConsent 7 42,
    .advanceGrant 0, .deliver 0 (.pairCodeSubmit "000002"), .deliver 0 (.pairCodeSubmit "000003"),
    .deliver 0 (.pairCodeSubmit "000004"), .advanceGrant 0, .advanceGrant 0]

/-- The right code comes before the consent. -/
def earlyCode : List CoreInput :=
  [.accept 7, .hello 0 "laptop", .deliver 0 (.pairCodeSubmit "000042"), .grantConsent 7 42,
    .advanceGrant 0, .forward 0 true, .advanceGrant 0, .advanceGrant 0, .advanceGrant 0,
    .advanceGrant 0, .advanceGrant 0]

/-- The right side connects, and the left one consents and judges its code. -/
def codeMatched : List (Side × CoreInput) :=
  [(.left, .accept 2), (.right, .dial 1 "10.0.0.1:9520"), (.left, .hello 0 "laptop"),
    (.right, .hello 0 "desk"), (.left, .grantConsent 2 42), (.left, .advanceGrant 0),
    (.left, .forward 0 true), (.right, .deliver 0 (.consentGrant "desk")),
    (.right, .submitPairCode 1 "000042"), (.right, .forward 0 true),
    (.left, .deliver 0 (.pairCodeSubmit "000042"))]

/-- The right side hears of the success and is done before the left one. -/
def initiatorFirst : List (Side × CoreInput) :=
  codeMatched ++
    [(.right, .deliver 0 (.pairResult true)), (.right, .advance 0), (.right, .advance 0)]

/-- The left side is done, and the connection ends before the right one hears of it. -/
def answerLost : List (Side × CoreInput) :=
  codeMatched ++
    [(.left, .advance 0), (.left, .advance 0), (.left, .advance 0), (.right, .streamEnd 0),
      (.right, .drainEnd 0), (.right, .advance 0), (.right, .advance 0)]

end LocalTrans
