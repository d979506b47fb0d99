import LocalTrans.Relay.Steps

/-!
# Punches and their answers

`RelayClient::punch` enters a waiter for its target, sends `Punch`, and waits ten seconds for an
address. `PunchResp` does not say which target it is for: `handle_push` takes all the waiters out and
gives the address to one of them. A `PunchSystem` is the relay with one client, its calls, and the
requests and answers that are on their way. Which call a request and its answer belong to is
recorded beside them; the code does not know it. `oneAtATime` says when a call gets what the relay
allocated for it.
-/

namespace LocalTrans.Relay

open Foundation

/-- Where a call of `punch` is: it has a connection and enters its waiter, or sends its request on
the connection, or waits, or has returned. -/
inductive CallPhase where
  | starting (conn : Nat)
  | sending (conn : Nat)
  | waiting
  | over
deriving DecidableEq

/-- The connection that a call uses. -/
def CallPhase.conn : CallPhase → Option Nat
  | .starting conn => some conn
  | .sending conn => some conn
  | _ => none

/-- The channel of a waiter: its sender is there still, was used, or was dropped. -/
inductive Oneshot where
  | empty
  | sent (addr : SocketAddr)
  | dropped
deriving DecidableEq

/-- A call of `punch`. -/
structure PunchCall where
  target : Fingerprint
  phase : CallPhase
  oneshot : Oneshot
deriving DecidableEq

/-- A request that is on its way, and the call it is for. -/
structure PunchRequest where
  conn : Nat
  target : Fingerprint
  call : Nat

/-- An answer that is on its way, and the call it is for. -/
structure PunchAnswer where
  conn : Nat
  call : Nat
  msg : RelayMsg

/-- The relay and a client with its connection, the waiters of `pending_punches`, and its calls in
order. `handling` has the call of the last request that the relay took from a connection; the
connections from `fresh` on were not used. -/
structure PunchSystem where
  relay : RelayServer
  fp : Fingerprint
  conn : Option Nat
  fresh : Nat
  pending : List (Fingerprint × Nat)
  calls : List PunchCall
  requests : List PunchRequest
  handling : List (Nat × Nat)
  answers : List PunchAnswer

/-- The relay does a step, or takes a request; the client has registered on a connection, or has
lost it; `punch` is called, it enters its waiter, its request is sent or not, it times out, or its
channel is ready; an answer is handled, by which the waiters are drained from one of them on. -/
inductive PunchInput where
  | relay (input : RelayInput)
  | request (i : Nat) (rateOk : Bool)
  | connected (conn : Nat)
  | disconnected
  | call (target : Fingerprint)
  | enter (call : Nat)
  | sent (call : Nat) (ok : Bool)
  | timeout (call : Nat)
  | wake (call : Nat)
  | answer (i pick : Nat)

/-- The relay allocates an address for the request of a call; a call returns an address, or fails;
the sender of a call that has not returned is dropped for the sake of another one. -/
inductive PunchEvent where
  | granted (call : Nat) (requester target : Fingerprint) (addr : SocketAddr)
  | returned (call : Nat) (addr : SocketAddr)
  | failed (call : Nat)
  | dropped (call : Nat)
deriving DecidableEq

/-- The address in an answer that says that the punch succeeded. -/
def RelayMsg.grants : RelayMsg → Option String
  | .punchResp true _ addr => addr
  | _ => none

/-- The connection for which an operation leads to an address. -/
def RelayOp.answers : RelayOp → Option Nat
  | .checkTarget _ conn _ _ _ => some conn
  | .allocate _ conn _ _ => some conn
  | .push _ conn msg => msg.grants.map fun _ => conn
  | _ => none

namespace PunchSystem

/-- The target of a call. -/
def target (s : PunchSystem) (call : Nat) : Option Fingerprint :=
  s.calls[call]?.map PunchCall.target

/-- A call has not returned, and its sender is there. -/
def Live (s : PunchSystem) (call : Nat) : Prop :=
  ∃ c ∈ s.calls[call]?, c.phase ≠ .over ∧ c.oneshot = .empty
deriving Decidable

/-- A call goes on. -/
def setPhase (s : PunchSystem) (call : Nat) (phase : CallPhase) : PunchSystem :=
  { s with calls := s.calls.modify call fun c => { c with phase } }

/-- Senders are dropped. -/
def dropSenders (s : PunchSystem) (dropped : List Nat) : PunchSystem :=
  { s with calls := s.calls.mapIdx fun i c =>
      if i ∈ dropped ∧ c.oneshot = .empty then { c with oneshot := .dropped } else c }

/-- The calls that notice it. -/
def noticed (s : PunchSystem) (dropped : List Nat) : List PunchEvent :=
  (dropped.filter fun call => s.Live call).map .dropped

/-- The sender of a call is used. -/
def send (s : PunchSystem) (call : Nat) (addr : SocketAddr) : PunchSystem :=
  { s with calls := s.calls.modify call fun c => { c with oneshot := .sent addr } }

/-- The call whose request a step of the relay serves. -/
def serving (s : PunchSystem) : RelayInput → Option Nat
  | .run i _ => do
      let thread ← s.relay.threads[i]?
      let conn ← thread.owner
      s.handling.lookup conn
  | _ => none

/-- The answer that the relay pushes. -/
def answerOf (s : PunchSystem) : RelayEvent → Option PunchAnswer
  | .pushed conn (.punchResp ok reason addr) =>
    (s.handling.lookup conn).map fun call => { conn, call, msg := .punchResp ok reason addr }
  | _ => none

/-- The allocation that the relay makes. -/
def grantOf (call : Option Nat) : RelayEvent → Option PunchEvent
  | .allocated requester target addr => call.map fun call => .granted call requester target addr
  | _ => none

/-- `on_disconnect`. -/
def disconnect (s : PunchSystem) : PunchSystem :=
  { s.dropSenders (s.pending.map Prod.snd) with conn := none, pending := [] }

variable (parseAddr : String → Option SocketAddr)

/-- `handle_push` of an answer: the first of the drained waiters gets the address. -/
def handlePush (s : PunchSystem) (msg : RelayMsg) (pick : Nat) :
    Option (PunchSystem × List PunchEvent) :=
  match msg.grants.bind parseAddr with
  | none => some (s, [])
  | some addr =>
    if s.pending = [] then some (s, [])
    else
      match s.pending[pick]? with
      | some (_, call) =>
        let others := (s.pending.eraseIdx pick).map Prod.snd
        some ({ (s.dropSenders others).send call addr with pending := [] }, s.noticed others)
      | none => none

/-- One step. -/
def step : Machine PunchSystem PunchInput PunchEvent
  | s, .relay input =>
    match input with
    | .punch conn _ _ =>
      -- The client's own requests are taken by `request`.
      if s.relay.peers[conn]? = some s.fp then none
      else (s.relay.step input).map fun result => ({ s with relay := result.1 }, [])
    | input =>
      (s.relay.step input).map fun result =>
        ({ s with relay := result.1, answers := s.answers ++ result.2.filterMap s.answerOf },
          result.2.filterMap (grantOf (s.serving input)))
  | s, .request i rateOk =>
    match s.requests[i]? with
    | some request =>
      (s.relay.step (.punch request.conn request.target rateOk)).map fun result =>
        ({ s with
          relay := result.1, requests := s.requests.eraseIdx i
          handling := (request.conn, request.call) :: s.handling }, [])
    | none => none
  | s, .connected conn =>
    if s.conn = none ∧ s.fresh ≤ conn ∧ s.relay.peers[conn]? = some s.fp then
      some ({ s with conn := some conn, fresh := conn + 1 }, [])
    else none
  | s, .disconnected => some (s.disconnect, [])
  | s, .call target =>
    match s.conn with
    | some conn =>
      some ({ s with calls := s.calls ++ [{ target, phase := .starting conn, oneshot := .empty }] },
        [])
    | none => none
  | s, .enter call =>
    match s.calls[call]? with
    | some { target, phase := .starting conn, .. } =>
      let replaced := (s.pending.filter fun entry => entry.1 = target).map Prod.snd
      some ({ (s.dropSenders replaced).setPhase call (.sending conn) with
        pending := (target, call) :: s.pending.filter fun entry => entry.1 ≠ target },
        s.noticed replaced)
    | _ => none
  | s, .sent call ok =>
    match s.calls[call]? with
    | some { target, phase := .sending conn, .. } =>
      if ok then
        some ({ s.setPhase call .waiting with
          requests := s.requests ++ [{ conn, target, call }] }, [])
      else some (s.setPhase call .over, [.failed call])
    | _ => none
  | s, .timeout call =>
    match s.calls[call]? with
    | some { phase := .waiting, oneshot := .empty, .. } =>
      some (s.setPhase call .over, [.failed call])
    | _ => none
  | s, .wake call =>
    match s.calls[call]? with
    | some { phase := .waiting, oneshot := .sent addr, .. } =>
      some (s.setPhase call .over, [.returned call addr])
    | some { phase := .waiting, oneshot := .dropped, .. } =>
      some (s.setPhase call .over, [.failed call])
    | _ => none
  | s, .answer i pick =>
    match s.answers[i]? with
    | some answer =>
      if s.conn = some answer.conn then
        { s with answers := s.answers.eraseIdx i }.handlePush parseAddr answer.msg pick
      else none
    | none => none

/-- Nothing that could lead to an address is on its way on a connection. -/
def Clear (s : PunchSystem) (conn : Nat) : Prop :=
  (∀ call ∈ s.calls, call.phase ≠ .sending conn) ∧ (∀ request ∈ s.requests, request.conn ≠ conn) ∧
    (∀ thread ∈ s.relay.threads, ∀ op ∈ thread.ops, op.answers ≠ some conn) ∧
    ∀ answer ∈ s.answers, answer.conn = conn → answer.msg.grants = none
deriving Decidable

end PunchSystem

/-- The condition on one step: when `punch` enters a waiter, nothing is on its way that could lead
to an address for another call, and the only waiter that is left is one for the same target whose
call has returned. -/
def oneAtATime : Guard PunchSystem PunchInput PunchEvent :=
  fun _ s input =>
    match input with
    | .enter call => (∀ entry ∈ s.pending, s.target call = some entry.1 ∧ ¬ s.Live entry.2) ∧
        ∀ conn ∈ s.conn, s.Clear conn
    | _ => True

instance (trace : List PunchEvent) (s : PunchSystem) (input : PunchInput) :
    Decidable (oneAtATime trace s input) := by
  unfold oneAtATime
  split <;> infer_instance

/-- A call returns only an address that the relay has allocated for it, for a session of the client
with its target; and no call loses its sender for the sake of another one. -/
structure Correlated (trace : List PunchEvent) (s : PunchSystem) : Prop where
  own : ∀ call addr, .returned call addr ∈ trace →
    ∃ target, s.target call = some target ∧ .granted call s.fp target addr ∈ trace
  apart : ∀ call, .dropped call ∉ trace

namespace PunchSystem

variable {parseAddr : String → Option SocketAddr} {s next : PunchSystem} {input : PunchInput}
  {trace emitted : List PunchEvent}

/-- An address was allocated for a call. -/
def Granted (trace : List PunchEvent) (s : PunchSystem) (call : Nat) (addr : SocketAddr) : Prop :=
  ∃ target, s.target call = some target ∧ .granted call s.fp target addr ∈ trace

/-- The address in an answer was allocated for a call. -/
def Answers (trace : List PunchEvent) (s : PunchSystem) (call : Nat) (msg : RelayMsg) : Prop :=
  ∀ text, msg.grants = some text → ∃ port,
    text = SocketAddr.text { ip := s.relay.publicIp, port } ∧
      s.Granted trace call { ip := s.relay.publicIp, port }

/-- What the relay does for a request belongs to a call. -/
def Serves (trace : List PunchEvent) (s : PunchSystem) (call : Nat) : RelayOp → Prop
  | .checkTarget requester _ target _ _ => requester = s.fp ∧ s.target call = some target
  | .allocate requester _ target _ => requester = s.fp ∧ s.target call = some target
  | .push _ _ msg => s.Answers trace call msg
  | _ => True

/-- A connection that the client has or had. -/
def Mine (s : PunchSystem) (conn : Nat) : Prop :=
  s.relay.peers[conn]? = some s.fp ∧ conn < s.fresh

/-- Something is on its way on a connection that may lead to an address for a call. -/
inductive Owes (s : PunchSystem) (conn : Nat) : Nat → Prop where
  | sending {k : Nat} {call : PunchCall} (hcall : s.calls[k]? = some call)
      (hphase : call.phase = .sending conn) : Owes s conn k
  | request {request : PunchRequest} (hmem : request ∈ s.requests) (hconn : request.conn = conn) :
      Owes s conn request.call
  | relay {owner : Option Nat} {op : RelayOp} {k : Nat} (hpending : s.relay.Pending owner op)
      (hop : op.answers = some conn) (hcall : s.handling.lookup conn = some k) : Owes s conn k
  | answer {answer : PunchAnswer} (hmem : answer ∈ s.answers) (hconn : answer.conn = conn)
      (hgrants : answer.msg.grants ≠ none) : Owes s conn answer.call

/-- The invariant: what is on its way for the client belongs to its calls, and on the connection it
has to the one that has the only waiter. -/
structure Correlating (trace : List PunchEvent) (s : PunchSystem) : Prop where
  enrolled : s.relay.Enrolled
  owners : ∀ owner op conn, s.relay.Pending owner op → op.answers = some conn → owner = some conn
  conn : ∀ conn, s.conn = some conn → s.Mine conn
  sending : ∀ (k : Nat) (call : PunchCall) conn, s.calls[k]? = some call →
    call.phase.conn = some conn → s.Mine conn
  requests : ∀ request ∈ s.requests,
    s.Mine request.conn ∧ s.target request.call = some request.target
  handling : ∀ conn k, s.handling.lookup conn = some k → s.Mine conn
  serves : ∀ owner op conn k, s.relay.Pending owner op → op.answers = some conn →
    s.handling.lookup conn = some k → s.Serves trace k op
  answers : ∀ answer ∈ s.answers, s.Mine answer.conn ∧ s.Answers trace answer.call answer.msg
  oneshots : ∀ (k : Nat) (call : PunchCall) addr, s.calls[k]? = some call → call.oneshot = .sent addr →
    s.Granted trace k addr
  pending : s.pending = [] ∨ ∃ entry, s.pending = [entry]
  latest : ∀ conn k, s.conn = some conn → s.Owes conn k → ∀ entry ∈ s.pending, entry.2 = k
  correlated : Correlated trace s

variable {trace' : List PunchEvent} {s' : PunchSystem}

theorem Granted.mono {call : Nat} {addr : SocketAddr} (h : s.Granted trace call addr)
    (hfp : s'.fp = s.fp)
    (htarget : ∀ target, s.target call = some target → s'.target call = some target)
    (htrace : ∀ event ∈ trace, event ∈ trace') : s'.Granted trace' call addr := by
  obtain ⟨target, hcall, hgranted⟩ := h
  exact ⟨target, htarget target hcall, hfp ▸ htrace _ hgranted⟩

theorem Answers.mono {call : Nat} {msg : RelayMsg} (h : s.Answers trace call msg)
    (hip : s'.relay.publicIp = s.relay.publicIp) (hfp : s'.fp = s.fp)
    (htarget : ∀ target, s.target call = some target → s'.target call = some target)
    (htrace : ∀ event ∈ trace, event ∈ trace') : s'.Answers trace' call msg := by
  intro text htext
  obtain ⟨port, haddr, hgranted⟩ := h text htext
  rw [hip]
  exact ⟨port, haddr, hgranted.mono hfp htarget htrace⟩

variable {op : RelayOp}

theorem Serves.mono {call : Nat} (h : s.Serves trace call op)
    (hip : s'.relay.publicIp = s.relay.publicIp) (hfp : s'.fp = s.fp)
    (htarget : ∀ target, s.target call = some target → s'.target call = some target)
    (htrace : ∀ event ∈ trace, event ∈ trace') : s'.Serves trace' call op := by
  cases op with
  | checkTarget | allocate => exact ⟨h.1.trans hfp.symm, htarget _ h.2⟩
  | push fp conn msg => exact Answers.mono h hip hfp htarget htrace
  | _ => trivial

variable {conn k : Nat}

theorem Correlating.mine_of_owes (h : s.Correlating trace) (howes : s.Owes conn k) :
    s.Mine conn := by
  cases howes with
  | sending hcall hphase => exact h.sending _ _ _ hcall (congrArg CallPhase.conn hphase)
  | request hmem hconn => exact hconn ▸ (h.requests _ hmem).1
  | relay _ _ hcall => exact h.handling _ _ hcall
  | answer hmem hconn => exact hconn ▸ (h.answers _ hmem).1

/-- Where nothing is on its way, nothing is owed. -/
theorem Clear.not_owes (h : s.Clear conn) : ¬ s.Owes conn k := by
  intro howes
  cases howes with
  | sending hcall hphase => exact h.1 _ (List.mem_of_getElem? hcall) hphase
  | request hmem hconn => exact h.2.1 _ hmem hconn
  | relay hpending hop =>
    obtain ⟨thread, hthread, -, hmem⟩ := hpending
    exact h.2.2.1 thread hthread _ hmem hop
  | answer hmem hconn hgrants => exact hgrants (h.2.2.2 _ hmem hconn)

/-- A step of the client alone, by which calls go on, answers are taken, and at most a request of
the call that sends it gets on its way. -/
structure ClientMove (trace : List PunchEvent) (s next : PunchSystem) (emitted : List PunchEvent) :
    Prop where
  relay : next.relay = s.relay
  fp : next.fp = s.fp
  fresh : next.fresh = s.fresh
  handling : next.handling = s.handling
  conn : next.conn = s.conn ∨ next.conn = none
  length : next.calls.length = s.calls.length
  calls : ∀ (k : Nat) (call : PunchCall), next.calls[k]? = some call → ∃ old, s.calls[k]? = some old ∧
    call.target = old.target ∧ (call.phase = old.phase ∨ call.phase.conn = none) ∧
    ∀ addr, call.oneshot = .sent addr → old.oneshot = .sent addr ∨ s.Granted trace k addr
  requests : ∀ request ∈ next.requests, request ∈ s.requests ∨
    s.Owes request.conn request.call ∧ s.target request.call = some request.target
  answers : ∀ answer ∈ next.answers, answer ∈ s.answers
  pending : next.pending = s.pending ∨ next.pending = []
  returned : ∀ k addr, .returned k addr ∈ emitted → s.Granted trace k addr
  dropped : ∀ k, .dropped k ∉ emitted

theorem ClientMove.target (h : ClientMove trace s next emitted) (k : Nat) :
    next.target k = s.target k := by
  unfold PunchSystem.target
  cases hcall : next.calls[k]? with
  | none =>
    have hle := List.getElem?_eq_none_iff.mp hcall
    rw [List.getElem?_eq_none_iff.mpr (h.length ▸ hle)]
  | some call =>
    obtain ⟨old, hold, htarget, -⟩ := h.calls k call hcall
    rw [hold]
    exact congrArg some htarget

theorem ClientMove.owes (h : ClientMove trace s next emitted) (howes : next.Owes conn k) :
    s.Owes conn k := by
  cases howes with
  | sending hcall hphase =>
    obtain ⟨old, hold, -, hsending, -⟩ := h.calls _ _ hcall
    rcases hsending with hsame | hnone
    · exact .sending hold (hsame.symm.trans hphase)
    · rw [hphase] at hnone
      cases hnone
  | request hmem hconn =>
    rcases h.requests _ hmem with hold | ⟨howes, -⟩
    · exact .request hold hconn
    · exact hconn ▸ howes
  | relay hpending hop hcall =>
    rw [h.relay] at hpending
    rw [h.handling] at hcall
    exact .relay hpending hop hcall
  | answer hmem hconn hgrants => exact .answer (h.answers _ hmem) hconn hgrants

theorem Correlating.client (hinv : s.Correlating trace) (h : ClientMove trace s next emitted) :
    next.Correlating (trace ++ emitted) := by
  have hmine : ∀ {conn : Nat}, s.Mine conn → next.Mine conn := by
    intro conn hmine
    exact ⟨by rw [h.relay, h.fp]; exact hmine.1, h.fresh ▸ hmine.2⟩
  have hgranted : ∀ {k : Nat} {addr : SocketAddr}, s.Granted trace k addr →
      next.Granted (trace ++ emitted) k addr := fun hold =>
    hold.mono h.fp (fun target ht => (h.target _).trans ht) fun event => List.mem_append_left _
  refine {
    enrolled := h.relay ▸ hinv.enrolled
    owners := h.relay ▸ hinv.owners
    conn := fun conn hconn => ?_
    sending := fun k call conn hcall hphase => ?_
    requests := fun request hmem => ?_
    handling := fun conn k hcall => hmine (hinv.handling conn k (h.handling ▸ hcall))
    serves := fun owner op conn k hpending hop hcall => ?_
    answers := fun answer hmem => ?_
    oneshots := fun k call addr hcall hsent => ?_
    pending := ?_
    latest := fun conn k hconn howes => ?_
    correlated := ⟨fun k addr hmem => ?_, fun k hmem => ?_⟩ }
  · rcases h.conn with hsame | hnone
    · exact hmine (hinv.conn conn (hsame ▸ hconn))
    · rw [hnone] at hconn
      cases hconn
  · obtain ⟨old, hold, -, hsending, -⟩ := h.calls k call hcall
    rcases hsending with hsame | hnone
    · exact hmine (hinv.sending k old conn hold (hsame ▸ hphase))
    · cases hnone.symm.trans hphase
  · rw [h.target]
    rcases h.requests request hmem with hold | ⟨howes, htarget⟩
    · exact ⟨hmine (hinv.requests request hold).1, (hinv.requests request hold).2⟩
    · exact ⟨hmine (hinv.mine_of_owes howes), htarget⟩
  · have hold := hinv.serves owner op conn k (h.relay ▸ hpending) hop (h.handling ▸ hcall)
    exact hold.mono (congrArg _ h.relay) h.fp (fun target ht => (h.target _).trans ht) fun event =>
      List.mem_append_left _
  · obtain ⟨hold, hanswers⟩ := hinv.answers answer (h.answers answer hmem)
    exact ⟨hmine hold, hanswers.mono (congrArg _ h.relay) h.fp
      (fun target ht => (h.target _).trans ht) fun event => List.mem_append_left _⟩
  · obtain ⟨old, hold, -, -, hsame⟩ := h.calls k call hcall
    rcases hsame addr hsent with holdSent | hnew
    · exact hgranted (hinv.oneshots k old addr hold holdSent)
    · exact hgranted hnew
  · rcases h.pending with hsame | hnone
    · exact hsame ▸ hinv.pending
    · exact .inl hnone
  · rcases h.conn with hsame | hnone
    · intro entry hentry
      rcases h.pending with hsame' | hnone
      · exact hinv.latest conn k (hsame ▸ hconn) (h.owes howes) entry (hsame' ▸ hentry)
      · rw [hnone] at hentry
        cases hentry
    · rw [hnone] at hconn
      cases hconn
  · rcases List.mem_append.mp hmem with hold | hnew
    · exact hgranted (hinv.correlated.own k addr hold)
    · exact hgranted (h.returned k addr hnew)
  · rcases List.mem_append.mp hmem with hold | hnew
    · exact hinv.correlated.apart k hold
    · exact h.dropped k hnew

variable {j : Nat}

theorem mem_set_phase {phase : CallPhase} {call : PunchCall}
    (h : (s.setPhase k phase).calls[j]? = some call) :
    ∃ old, s.calls[j]? = some old ∧ call.target = old.target ∧ call.oneshot = old.oneshot ∧
      (call.phase = old.phase ∨ j = k ∧ call.phase = phase) := by
  rw [setPhase, List.getElem?_modify] at h
  obtain ⟨old, hold, rfl⟩ := Option.map_eq_some_iff.mp h
  refine ⟨old, hold, ?_⟩
  split
  · next hj => exact ⟨rfl, rfl, .inr ⟨hj.symm, rfl⟩⟩
  · exact ⟨rfl, rfl, .inl rfl⟩

theorem mem_drop_senders {dropped : List Nat} {call : PunchCall}
    (h : (s.dropSenders dropped).calls[j]? = some call) :
    ∃ old, s.calls[j]? = some old ∧ call.target = old.target ∧ call.phase = old.phase ∧
      ∀ addr, call.oneshot = .sent addr → old.oneshot = .sent addr := by
  rw [dropSenders, List.getElem?_mapIdx] at h
  obtain ⟨old, hold, rfl⟩ := Option.map_eq_some_iff.mp h
  refine ⟨old, hold, ?_⟩
  split
  · exact ⟨rfl, rfl, fun addr hsent => by cases hsent⟩
  · exact ⟨rfl, rfl, fun addr hsent => hsent⟩

theorem mem_send {addr : SocketAddr} {call : PunchCall}
    (h : (s.send k addr).calls[j]? = some call) :
    ∃ old, s.calls[j]? = some old ∧ call.target = old.target ∧ call.phase = old.phase ∧
      ∀ sent, call.oneshot = .sent sent → old.oneshot = .sent sent ∨ j = k ∧ sent = addr := by
  rw [send, List.getElem?_modify] at h
  obtain ⟨old, hold, rfl⟩ := Option.map_eq_some_iff.mp h
  refine ⟨old, hold, ?_⟩
  split
  · next hj => exact ⟨rfl, rfl, fun sent hsent => .inr ⟨hj.symm, (Oneshot.sent.inj hsent).symm⟩⟩
  · exact ⟨rfl, rfl, fun sent hsent => .inl hsent⟩

/-- A call goes on, without a request. -/
theorem client_set_phase {phase : CallPhase} (hphase : phase.conn = none)
    (hreturned : ∀ k addr, .returned k addr ∈ emitted → s.Granted trace k addr)
    (hdropped : ∀ k, .dropped k ∉ emitted) : ClientMove trace s (s.setPhase k phase) emitted where
  relay := rfl
  fp := rfl
  fresh := rfl
  handling := rfl
  conn := .inl rfl
  length := by simp [setPhase]
  calls j call hcall := by
    obtain ⟨old, hold, htarget, hsame, hsending⟩ := mem_set_phase hcall
    refine ⟨old, hold, htarget, ?_, fun addr hsent => .inl (hsame ▸ hsent)⟩
    rcases hsending with heq | ⟨-, heq⟩
    · exact .inl heq
    · exact .inr (heq ▸ hphase)
  requests request hmem := .inl hmem
  answers answer hmem := hmem
  pending := .inl rfl
  returned := hreturned
  dropped := hdropped

theorem client_disconnect : ClientMove trace s s.disconnect [] where
  relay := rfl
  fp := rfl
  fresh := rfl
  handling := rfl
  conn := .inr rfl
  length := by simp [disconnect, dropSenders]
  calls j call hcall := by
    obtain ⟨old, hold, htarget, hphase, hsame⟩ :=
      mem_drop_senders (show (s.dropSenders (s.pending.map Prod.snd)).calls[j]? = _ from hcall)
    exact ⟨old, hold, htarget, .inl hphase, fun addr hsent => .inl (hsame addr hsent)⟩
  requests request hmem := .inl hmem
  answers answer hmem := hmem
  pending := .inr rfl
  returned k addr hmem := by cases hmem
  dropped k := List.not_mem_nil

/-- The request of a call is on its way. -/
theorem client_sent {call : PunchCall} (hcall : s.calls[k]? = some call)
    (hphase : call.phase = .sending conn) :
    ClientMove trace s { s.setPhase k .waiting with
      requests := s.requests ++ [{ conn, target := call.target, call := k }] } [] := by
  have hmove : ClientMove trace s (s.setPhase k .waiting) [] :=
    client_set_phase rfl (by simp) (by simp)
  refine { hmove with relay := rfl, requests := fun request hmem => ?_ }
  rcases List.mem_append.mp hmem with hold | hnew
  · exact .inl hold
  · obtain rfl := List.mem_singleton.mp hnew
    exact .inr ⟨.sending hcall hphase, congrArg (Option.map PunchCall.target) hcall⟩

/-- An answer is taken from those on their way. -/
theorem client_take (i : Nat) : ClientMove trace s { s with answers := s.answers.eraseIdx i } [] where
  relay := rfl
  fp := rfl
  fresh := rfl
  handling := rfl
  conn := .inl rfl
  length := rfl
  calls _ call hcall := ⟨call, hcall, rfl, .inl rfl, fun _ hsent => .inl hsent⟩
  requests _ hmem := .inl hmem
  answers _ hmem := List.mem_of_mem_eraseIdx hmem
  pending := .inl rfl
  returned _ _ hmem := by cases hmem
  dropped _ := List.not_mem_nil

/-- The answer that arrives is for the call that has the waiter. -/
theorem Correlating.answer (hinv : s.Correlating trace)
    (hround : ∀ port, parseAddr (SocketAddr.text { ip := s.relay.publicIp, port }) =
      some { ip := s.relay.publicIp, port }) {i pick : Nat}
    {answer : PunchAnswer} (hanswer : s.answers[i]? = some answer)
    (hconn : s.conn = some answer.conn)
    (h : { s with answers := s.answers.eraseIdx i }.handlePush parseAddr answer.msg pick =
      some (next, emitted)) : ClientMove trace s next emitted := by
  have htake : ClientMove trace s { s with answers := s.answers.eraseIdx i } [] := client_take i
  unfold handlePush at h
  split at h
  · obtain ⟨rfl, rfl⟩ := answer_inj h
    exact htake
  · next addr haddr =>
    split at h
    · obtain ⟨rfl, rfl⟩ := answer_inj h
      exact htake
    · next hsome =>
      split at h
      · next target call hpick =>
        obtain ⟨rfl, rfl⟩ := answer_inj h
        obtain ⟨text, htext, hparsed⟩ := Option.bind_eq_some_iff.mp haddr
        obtain ⟨waiting, hpending⟩ := hinv.pending.resolve_left hsome
        -- There is only one waiter.
        obtain ⟨rfl, rfl⟩ : pick = 0 ∧ waiting = (target, call) := by
          rw [show s.pending = [waiting] from hpending] at hpick
          obtain ⟨hlt, heq⟩ := List.getElem?_eq_some_iff.mp hpick
          obtain rfl : pick = 0 := Nat.lt_one_iff.mp hlt
          exact ⟨rfl, heq⟩
        have hmem := List.mem_of_getElem? hanswer
        have howes : s.Owes answer.conn answer.call :=
          .answer hmem rfl (by rw [htext]; exact Option.some_ne_none text)
        have hcall : answer.call = call :=
          (hinv.latest _ _ hconn howes (target, call) (by rw [hpending]; simp)).symm
        obtain ⟨port, rfl, hgranted⟩ := (hinv.answers answer hmem).2 text htext
        obtain rfl := Option.some.inj ((hround port).symm.trans hparsed)
        have hothers : PunchSystem.noticed { s with answers := s.answers.eraseIdx i }
            ((s.pending.eraseIdx 0).map Prod.snd) = [] := by
          rw [hpending]
          rfl
        refine { htake with
          length := by simp [send, dropSenders]
          calls := fun j call hfound => ?_
          pending := .inr rfl
          returned := fun k addr hmem => ?_
          dropped := fun k hmem => ?_ }
        · obtain ⟨mid, hmid, htarget, hphase, hsent⟩ := mem_send hfound
          obtain ⟨old, hold, htarget', hphase', hsent'⟩ := mem_drop_senders hmid
          refine ⟨old, hold, htarget.trans htarget', .inl (hphase.trans hphase'), fun addr hnew => ?_⟩
          rcases hsent addr hnew with hsame | ⟨rfl, rfl⟩
          · exact .inl (hsent' addr hsame)
          · exact .inr (hcall ▸ hgranted)
        · cases hothers ▸ hmem
        · cases hothers ▸ hmem
      · cases h

/-- A call begins. -/
theorem Correlating.call (hinv : s.Correlating trace) {target : Fingerprint}
    (h : step parseAddr s (.call target) = some (next, emitted)) :
    next.Correlating (trace ++ emitted) := by
  simp only [step] at h
  split at h
  · next conn hconn =>
    obtain ⟨rfl, rfl⟩ := answer_inj h
    rw [List.append_nil]
    have hcalls : ∀ {k : Nat} {call : PunchCall},
        (s.calls ++ [{ target, phase := .starting conn, oneshot := .empty }])[k]? = some call →
        s.calls[k]? = some call ∨ call = { target, phase := .starting conn, oneshot := .empty } := by
      intro k call hcall
      by_cases hk : k < s.calls.length
      · rw [List.getElem?_append_left hk] at hcall
        exact .inl hcall
      · rw [List.getElem?_append_right (Nat.le_of_not_lt hk)] at hcall
        exact .inr (List.mem_singleton.mp (List.mem_of_getElem? hcall))
    have hkept : ∀ k target', s.target k = some target' → PunchSystem.target { s with
        calls := s.calls ++ [{ target, phase := .starting conn, oneshot := .empty }] } k =
          some target' := by
      intro k target' hk
      obtain ⟨call, hcall, -⟩ := Option.map_eq_some_iff.mp hk
      obtain ⟨hlt, -⟩ := List.getElem?_eq_some_iff.mp hcall
      rw [← hk]
      exact congrArg (Option.map PunchCall.target) (List.getElem?_append_left hlt)
    exact { hinv with
      sending := fun k call c hcall hphase => by
        rcases hcalls hcall with hold | rfl
        · exact hinv.sending k call c hold hphase
        · obtain rfl := Option.some.inj hphase
          exact hinv.conn conn hconn
      requests := fun request hmem =>
        ⟨(hinv.requests request hmem).1, hkept _ _ (hinv.requests request hmem).2⟩
      serves := fun owner op c k hwork hop hk =>
        (hinv.serves owner op c k hwork hop hk).mono rfl rfl (hkept k) fun _ => id
      answers := fun answer hmem => ⟨(hinv.answers answer hmem).1,
        (hinv.answers answer hmem).2.mono rfl rfl (hkept _) fun _ => id⟩
      oneshots := fun k call addr hcall hsent => by
        rcases hcalls hcall with hold | rfl
        · exact (hinv.oneshots k call addr hold hsent).mono rfl (hkept k) fun _ => id
        · cases hsent
      latest := fun c k hc howes => by
        refine hinv.latest c k hc ?_
        cases howes with
        | sending hcall hphase =>
          rcases hcalls hcall with hold | rfl
          · exact .sending hold hphase
          · cases hphase
        | request hmem hsame => exact .request hmem hsame
        | relay hwork hop hk => exact .relay hwork hop hk
        | answer hmem hsame hgrants => exact .answer hmem hsame hgrants
      correlated := ⟨fun k addr hmem => Granted.mono (hinv.correlated.own k addr hmem) rfl (hkept k)
        fun _ => id, hinv.correlated.apart⟩ }
  · cases h

/-- A call enters its waiter: the guard says that it is the only one for which something can
happen. -/
theorem Correlating.enter (hinv : s.Correlating trace) (hguard : oneAtATime trace s (.enter k))
    (h : step parseAddr s (.enter k) = some (next, emitted)) :
    next.Correlating (trace ++ emitted) := by
  simp only [step] at h
  split at h
  · next target conn oneshot hentered =>
    obtain ⟨rfl, hemitted⟩ := answer_inj h
    obtain ⟨hpending, hclear⟩ := hguard
    -- No call that is waiting for its answer notices that its sender is dropped.
    obtain rfl : emitted = [] := by
      rw [← hemitted, noticed, List.map_eq_nil_iff, List.filter_eq_nil_iff]
      intro k hmem
      obtain ⟨entry, hentry, rfl⟩ := List.mem_map.mp hmem
      simpa using (hpending entry (List.mem_filter.mp hentry).1).2
    have htarget : s.target k = some target := congrArg (Option.map PunchCall.target) hentered
    have hfiltered : (s.pending.filter fun entry => entry.1 ≠ target) = [] := by
      refine List.filter_eq_nil_iff.mpr fun entry hentry => ?_
      simpa using (Option.some.inj ((hpending entry hentry).1.symm.trans htarget))
    generalize (s.pending.filter fun entry => entry.1 = target).map Prod.snd = replaced
    rw [hfiltered, List.append_nil]
    have hcalls : ∀ {j : Nat} {call : PunchCall},
        ((s.dropSenders replaced).setPhase k (.sending conn)).calls[j]? = some call →
        ∃ old, s.calls[j]? = some old ∧ call.target = old.target ∧
          (call.phase = old.phase ∨ j = k ∧ call.phase = .sending conn) ∧
          ∀ addr, call.oneshot = .sent addr → old.oneshot = .sent addr := by
      intro j call hcall
      obtain ⟨mid, hmid, htarget, hsame, hphase⟩ := mem_set_phase hcall
      obtain ⟨old, hold, htarget', hphase', hsent⟩ := mem_drop_senders hmid
      exact ⟨old, hold, htarget.trans htarget', hphase' ▸ hphase, fun addr hcall =>
        hsent addr (hsame ▸ hcall)⟩
    have hkept : ∀ j target', s.target j = some target' → PunchSystem.target
        { (s.dropSenders replaced).setPhase k (.sending conn) with
          pending := [(target, k)] } j = some target' := by
      intro j target' hj
      obtain ⟨call, hcall, rfl⟩ := Option.map_eq_some_iff.mp hj
      have hlength : ((s.dropSenders replaced).setPhase k (.sending conn)).calls.length =
          s.calls.length := by
        simp [dropSenders, setPhase]
      obtain ⟨hlt, -⟩ := List.getElem?_eq_some_iff.mp hcall
      have hfound := List.getElem?_eq_getElem (hlength.symm ▸ hlt)
      obtain ⟨old, hold, hsame, -⟩ := hcalls hfound
      obtain rfl := Option.some.inj (hcall.symm.trans hold)
      exact (congrArg (Option.map PunchCall.target) hfound).trans (congrArg some hsame)
    exact { hinv with
      sending := fun j call c hcall hphase => by
        obtain ⟨old, hold, -, hsame | ⟨rfl, hnew⟩, -⟩ := hcalls hcall
        · exact hinv.sending j old c hold (hsame ▸ hphase)
        · obtain rfl : conn = c := Option.some.inj ((congrArg CallPhase.conn hnew).symm.trans hphase)
          exact hinv.sending j _ conn hentered rfl
      requests := fun request hmem =>
        ⟨(hinv.requests request hmem).1, hkept _ _ (hinv.requests request hmem).2⟩
      serves := fun owner op c j hwork hop hj =>
        (hinv.serves owner op c j hwork hop hj).mono rfl rfl (hkept j) fun _ => id
      answers := fun answer hmem => ⟨(hinv.answers answer hmem).1,
        (hinv.answers answer hmem).2.mono rfl rfl (hkept _) fun _ => id⟩
      oneshots := fun j call addr hcall hsent => by
        obtain ⟨old, hold, -, -, hsame⟩ := hcalls hcall
        exact (hinv.oneshots j old addr hold (hsame addr hsent)).mono rfl (hkept j) fun _ => id
      pending := .inr ⟨_, rfl⟩
      latest := fun c j hc howes entry hentry => by
        -- Only this call is to send a request on the connection.
        obtain rfl := List.mem_singleton.mp hentry
        have hcleared : ¬ s.Owes c j := (hclear c hc).not_owes
        cases howes with
        | sending hcall hphase =>
          obtain ⟨old, hold, -, hsame | ⟨rfl, -⟩, -⟩ := hcalls hcall
          · exact absurd (.sending hold (hsame ▸ hphase)) hcleared
          · rfl
        | request hmem hsame => exact absurd (.request hmem hsame) hcleared
        | relay hwork hop hj => exact absurd (.relay hwork hop hj) hcleared
        | answer hmem hsame hgrants => exact absurd (.answer hmem hsame hgrants) hcleared
      correlated := ⟨fun j addr hmem => Granted.mono (hinv.correlated.own j addr hmem) rfl (hkept j)
        fun _ => id, hinv.correlated.apart⟩ }
  · cases h

/-- A connection that the client has not used has nothing on its way. -/
theorem Correlating.connected (hinv : s.Correlating trace)
    (h : step parseAddr s (.connected conn) = some (next, emitted)) :
    next.Correlating (trace ++ emitted) := by
  simp only [step] at h
  obtain ⟨hnew, h⟩ := of_when h
  obtain ⟨-, hfresh, hpeer⟩ := hnew
  obtain ⟨rfl, rfl⟩ := answer_inj h
  rw [List.append_nil]
  have hmine : ∀ {c : Nat}, s.Mine c →
      PunchSystem.Mine { s with conn := some conn, fresh := conn + 1 } c := by
    intro c hold
    exact ⟨hold.1, Nat.lt_succ_of_le (Nat.le_trans (Nat.le_of_lt hold.2) hfresh)⟩
  exact { hinv with
    conn := fun c hc => by
      obtain rfl := Option.some.inj hc
      exact ⟨hpeer, Nat.lt_succ_self _⟩
    sending := fun k call c hcall hphase => hmine (hinv.sending k call c hcall hphase)
    requests := fun request hmem =>
      ⟨hmine (hinv.requests request hmem).1, (hinv.requests request hmem).2⟩
    handling := fun c k hk => hmine (hinv.handling c k hk)
    serves := fun owner op c k hwork hop hk =>
      (hinv.serves owner op c k hwork hop hk).mono rfl rfl (fun _ => id) fun _ => id
    answers := fun answer hmem => ⟨hmine (hinv.answers answer hmem).1,
      (hinv.answers answer hmem).2.mono rfl rfl (fun _ => id) fun _ => id⟩
    latest := fun c k hc howes => by
      obtain rfl := Option.some.inj hc
      have hold : s.Owes conn k := by
        cases howes with
        | sending hcall hphase => exact .sending hcall hphase
        | request hmem hsame => exact .request hmem hsame
        | relay hwork hop hk => exact .relay hwork hop hk
        | answer hmem hsame hgrants => exact .answer hmem hsame hgrants
      exact absurd (hinv.mine_of_owes hold).2 (Nat.not_lt.mpr hfresh)
    correlated := ⟨hinv.correlated.own, hinv.correlated.apart⟩ }

/-- An operation that leads to an address is left by one that does. -/
theorem yields_answers {relay : RelayServer} {written : Bool} {later : RelayOp}
    (h : relay.Yields written op later) (hlater : later.answers = some conn) :
    (∃ requester target targetConn rateOk,
      op = .checkTarget requester conn target targetConn rateOk ∧
        later = .allocate requester conn target targetConn) ∨
    ∃ requester target targetConn table port,
      op = .allocate requester conn target targetConn ∧
        relay.table.allocSessionPort requester target = some (table, port) ∧
        later = .push requester conn
          (.punchResp true none (some (SocketAddr.text { ip := relay.publicIp, port }))) := by
  cases h with
  | evict _ _ _ _ hevicts => rcases hevicts with rfl | rfl <;> cases hlater
  | allowed =>
    cases hlater
    exact .inl ⟨_, _, _, _, rfl, rfl⟩
  | respond halloc =>
    cases hlater
    exact .inr ⟨_, _, _, _, _, rfl, halloc, rfl⟩
  | _ => cases hlater

/-- Only a request begins what leads to an address. -/
theorem spawns_answers {relay : RelayServer} {input : RelayInput} {owner : Option Nat}
    {ops : List RelayOp} (h : relay.Spawns input owner ops) (hmem : op ∈ ops)
    (hop : op.answers = some conn) :
    owner = some conn ∧ ∃ requester target targetConn rateOk,
      input = .punch conn target rateOk ∧ relay.fpOf conn = some requester ∧
        op = .checkTarget requester conn target targetConn rateOk := by
  cases h with
  | punch hfp =>
    obtain rfl := List.mem_singleton.mp hmem
    cases hop
    exact ⟨rfl, _, _, _, _, rfl, hfp, rfl⟩
  | leave | closed =>
    simp only [List.mem_cons, List.not_mem_nil, or_false] at hmem
    rcases hmem with rfl | rfl | rfl | rfl <;> cases hop
  | _ =>
    obtain rfl := List.mem_singleton.mp hmem
    cases hop

/-- What leads to an address for a connection is done by its handler. -/
theorem step_owners {relay relay' : RelayServer} {input : RelayInput} {events : List RelayEvent}
    (hold : ∀ owner op conn, relay.Pending owner op → op.answers = some conn → owner = some conn)
    (h : relay.step input = some (relay', events)) {owner : Option Nat}
    (hpending : relay'.Pending owner op) (hop : op.answers = some conn) : owner = some conn := by
  rcases RelayServer.step_pending h hpending with hbefore | hbegins
  · exact hold owner op conn hbefore hop
  · cases hbegins with
    | spawn hspawns hmem => exact (spawns_answers hspawns hmem hop).1
    | run hthread hyields =>
      have hbefore := RelayServer.pending_of_thread hthread
      rcases yields_answers hyields hop with ⟨_, _, _, _, rfl, rfl⟩ | ⟨_, _, _, _, _, rfl, -, rfl⟩
      · exact hold _ _ conn hbefore rfl
      · exact hold _ _ conn hbefore rfl

/-- A step of the relay, which emits nothing when it takes a request. -/
theorem relay_step {input : RelayInput}
    (h : step parseAddr s (.relay input) = some (next, emitted)) :
    ∃ relay' events, s.relay.step input = some (relay', events) ∧
      (∀ conn target rateOk, input = .punch conn target rateOk →
        s.relay.peers[conn]? ≠ some s.fp) ∧
      next = { s with relay := relay', answers := s.answers ++ events.filterMap s.answerOf } ∧
      emitted = events.filterMap (grantOf (s.serving input)) := by
  by_cases hpunch : ∃ conn target rateOk, input = .punch conn target rateOk
  · obtain ⟨conn, target, rateOk, rfl⟩ := hpunch
    simp only [step] at h
    obtain ⟨hpeer, h⟩ := of_unless h
    obtain ⟨⟨relay', events⟩, hrelay, hnext⟩ := Option.map_eq_some_iff.mp h
    obtain ⟨rfl, rfl⟩ := Prod.mk.inj hnext
    obtain rfl : events = [] := by
      refine List.eq_nil_iff_forall_not_mem.mpr fun event hmem => ?_
      cases RelayServer.step_emits hrelay hmem with
      | panicked hinput => cases hinput
      | pushed hruns | allocated hruns | connRemoved hruns | leaseRemoved hruns =>
        obtain ⟨_, _, _, _, hinput, -⟩ := hruns
        cases hinput
    refine ⟨relay', [], hrelay, fun c fp ok heq => ?_, by simp, rfl⟩
    obtain ⟨rfl, -⟩ := RelayInput.punch.inj heq
    exact hpeer
  · have hmap : (s.relay.step input).map (fun result =>
        ({ s with relay := result.1, answers := s.answers ++ result.2.filterMap s.answerOf },
          result.2.filterMap (grantOf (s.serving input)))) = some (next, emitted) := by
      cases input with
      | punch conn target rateOk => exact absurd ⟨conn, target, rateOk, rfl⟩ hpunch
      | _ => exact h
    obtain ⟨⟨relay', events⟩, hrelay, hnext⟩ := Option.map_eq_some_iff.mp hmap
    obtain ⟨rfl, rfl⟩ := Prod.mk.inj hnext
    exact ⟨relay', events, hrelay, fun c fp ok heq => absurd ⟨c, fp, ok, heq⟩ hpunch, rfl, rfl⟩

/-- A step of the relay that does not take a request of the client. -/
theorem Correlating.relay (hinv : s.Correlating trace) {input : RelayInput} {relay' : RelayServer}
    {events : List RelayEvent} (hrelay : s.relay.step input = some (relay', events))
    (hother : ∀ conn target rateOk, input = .punch conn target rateOk →
      s.relay.peers[conn]? ≠ some s.fp) :
    PunchSystem.Correlating (trace ++ events.filterMap (grantOf (s.serving input)))
      { s with relay := relay', answers := s.answers ++ events.filterMap s.answerOf } := by
  have hip := RelayServer.step_public_ip hrelay
  have hmine : ∀ {c : Nat}, s.Mine c → PunchSystem.Mine
      { s with relay := relay', answers := s.answers ++ events.filterMap s.answerOf } c :=
    fun hold => ⟨RelayServer.step_peer hrelay hold.1, hold.2⟩
  have hlonger : ∀ event ∈ trace, event ∈ trace ++ events.filterMap (grantOf (s.serving input)) :=
    fun event => List.mem_append_left _
  have hkept : ∀ {k : Nat} {op : RelayOp}, s.Serves trace k op → PunchSystem.Serves
      (trace ++ events.filterMap (grantOf (s.serving input)))
      { s with relay := relay', answers := s.answers ++ events.filterMap s.answerOf } k op :=
    fun hserves => hserves.mono hip rfl (fun _ => id) hlonger
  -- The relay returns no call.
  have hquiet : ∀ event, (∀ k requester target addr, event ≠ .granted k requester target addr) →
      event ∉ events.filterMap (grantOf (s.serving input)) := by
    intro event hother hmem
    obtain ⟨allocated, -, hgrant⟩ := List.mem_filterMap.mp hmem
    cases allocated with
    | allocated requester target addr =>
      obtain ⟨k, -, rfl⟩ := Option.map_eq_some_iff.mp hgrant
      exact hother k requester target addr rfl
    | _ => cases hgrant
  -- What is pending for the client was pending before, or follows from something that was.
  have hbefore : ∀ {owner : Option Nat} {op : RelayOp} {c k : Nat}, relay'.Pending owner op →
      op.answers = some c → s.handling.lookup c = some k → s.relay.Pending owner op ∨
        ∃ i written first rest, input = .run i written ∧
          s.relay.threads[i]? = some ⟨owner, first :: rest⟩ ∧ s.relay.Yields written first op := by
    intro owner op c k hpending hop hk
    rcases RelayServer.step_pending hrelay hpending with hold | hbegins
    · exact .inl hold
    · cases hbegins with
      | spawn hspawns hmem =>
        obtain ⟨-, _, _, _, _, rfl, -, -⟩ := spawns_answers hspawns hmem hop
        exact absurd (hinv.handling c k hk).1 (hother _ _ _ rfl)
      | run hthread hyields => exact .inr ⟨_, _, _, _, rfl, hthread, hyields⟩
  -- An answer that was pushed was pending.
  have hpushed : ∀ {answer : PunchAnswer}, answer ∈ events.filterMap s.answerOf →
      s.handling.lookup answer.conn = some answer.call ∧ ∃ owner fp,
        s.relay.Pending owner (.push fp answer.conn answer.msg) := by
    intro answer hmem
    obtain ⟨event, hevent, hanswer⟩ := List.mem_filterMap.mp hmem
    cases RelayServer.step_emits hrelay hevent with
    | @pushed op c msg hruns hmsg hfits =>
      obtain ⟨owner, hpending⟩ := RelayServer.pending_of_runs hruns
      cases msg with
      | punchResp ok reason addr =>
        obtain ⟨call, hcall, rfl⟩ := Option.map_eq_some_iff.mp hanswer
        cases op with
        | push fp conn msg =>
          cases hmsg
          exact ⟨hcall, owner, fp, hpending⟩
        | _ => cases hmsg
      | _ => cases hanswer
    | _ => cases hanswer
  refine {
    enrolled := hinv.enrolled.step hrelay
    owners := fun owner op c hpending hop => step_owners hinv.owners hrelay hpending hop
    conn := fun c hc => hmine (hinv.conn c hc)
    sending := fun k call c hcall hphase => hmine (hinv.sending k call c hcall hphase)
    requests := fun request hmem =>
      ⟨hmine (hinv.requests request hmem).1, (hinv.requests request hmem).2⟩
    handling := fun c k hk => hmine (hinv.handling c k hk)
    serves := fun owner op c k hpending hop hk => ?_
    answers := fun answer hmem => ?_
    oneshots := fun k call addr hcall hsent => ?_
    pending := hinv.pending
    latest := fun c k hc howes => ?_
    correlated := ⟨fun k addr hmem => ?_, fun k hmem => ?_⟩ }
  · rcases hbefore hpending hop hk with hold | ⟨i, written, first, rest, rfl, hthread, hyields⟩
    · exact hkept (hinv.serves owner op c k hold hop hk)
    · have hfirst := RelayServer.pending_of_thread hthread
      rcases yields_answers hyields hop with ⟨requester, target, targetConn, rateOk, rfl, rfl⟩ |
        ⟨requester, target, targetConn, table, port, rfl, halloc, rfl⟩
      · have hserves : s.Serves trace k (.checkTarget requester c target targetConn rateOk) :=
          hinv.serves owner _ c k hfirst rfl hk
        exact hserves
      · obtain ⟨rfl, htarget⟩ : requester = s.fp ∧ s.target k = some target :=
          hinv.serves owner _ c k hfirst rfl hk
        intro text htext
        obtain rfl := Option.some.inj htext
        have hserving : s.serving (.run i written) = some k := by
          obtain rfl := hinv.owners owner _ c hfirst rfl
          simp [serving, hthread, hk]
        refine ⟨port, by rw [hip], target, htarget, List.mem_append_right _ ?_⟩
        rw [hip, hserving, RelayServer.step_allocates hrelay hthread halloc]
        exact List.mem_singleton_self _
  · rcases List.mem_append.mp hmem with hold | hnew
    · obtain ⟨hown, hanswers⟩ := hinv.answers answer hold
      exact ⟨hmine hown, hanswers.mono hip rfl (fun _ => id) hlonger⟩
    · obtain ⟨hk, owner, fp, hpending⟩ := hpushed hnew
      refine ⟨hmine (hinv.handling _ _ hk), fun text htext => ?_⟩
      have hserves := hinv.serves owner _ answer.conn answer.call hpending
        (by simp [RelayOp.answers, htext]) hk
      exact hkept hserves text htext
  · exact (hinv.oneshots k call addr hcall hsent).mono rfl (fun _ => id) hlonger
  · refine hinv.latest c k hc ?_
    cases howes with
    | sending hcall hphase => exact .sending hcall hphase
    | request hmem hsame => exact .request hmem hsame
    | relay hpending hop hk =>
      rcases hbefore hpending hop hk with hold | ⟨i, written, first, rest, rfl, hthread, hyields⟩
      · exact .relay hold hop hk
      · have hfirst := RelayServer.pending_of_thread hthread
        rcases yields_answers hyields hop with ⟨_, _, _, _, rfl, rfl⟩ | ⟨_, _, _, _, _, rfl, -, rfl⟩
        · exact .relay hfirst rfl hk
        · exact .relay hfirst rfl hk
    | @answer answer hmem hsame hgrants =>
      rcases List.mem_append.mp hmem with hold | hnew
      · exact .answer hold hsame hgrants
      · obtain ⟨hk, owner, fp, hpending⟩ := hpushed hnew
        obtain ⟨text, htext⟩ := Option.ne_none_iff_exists'.mp hgrants
        exact .relay hpending (by simp [RelayOp.answers, htext, hsame]) (hsame ▸ hk)
  · have hold := (List.mem_append.mp hmem).resolve_right (hquiet _ (by simp))
    exact Granted.mono (hinv.correlated.own k addr hold) rfl (fun _ => id) hlonger
  · have hold := (List.mem_append.mp hmem).resolve_right (hquiet _ (by simp))
    exact hinv.correlated.apart k hold

/-- The relay takes a request of the client. -/
theorem Correlating.request (hinv : s.Correlating trace) {i : Nat} {rateOk : Bool}
    (h : step parseAddr s (.request i rateOk) = some (next, emitted)) :
    next.Correlating (trace ++ emitted) := by
  simp only [step] at h
  split at h
  · next request hrequest =>
    obtain ⟨⟨relay', events⟩, hrelay, hnext⟩ := Option.map_eq_some_iff.mp h
    obtain ⟨rfl, rfl⟩ := Prod.mk.inj hnext
    rw [List.append_nil]
    have hmem := List.mem_of_getElem? hrequest
    obtain ⟨hown, htarget⟩ := hinv.requests request hmem
    have hip := RelayServer.step_public_ip hrelay
    have hmine : ∀ {c : Nat}, s.Mine c → PunchSystem.Mine { s with
        relay := relay', requests := s.requests.eraseIdx i
        handling := (request.conn, request.call) :: s.handling } c :=
      fun hold => ⟨RelayServer.step_peer hrelay hold.1, hold.2⟩
    have hhandling : ∀ {c k : Nat},
        ((request.conn, request.call) :: s.handling).lookup c = some k →
        c = request.conn ∧ k = request.call ∨ c ≠ request.conn ∧ s.handling.lookup c = some k := by
      intro c k hk
      by_cases hc : c = request.conn
      · subst hc
        rw [List.lookup_cons_self] at hk
        exact .inl ⟨rfl, (Option.some.inj hk).symm⟩
      · rw [List.lookup_cons, beq_eq_false_iff_ne.mpr hc] at hk
        exact .inr ⟨hc, hk⟩
    -- The handler of the connection was idle: what it does now is for the request.
    have hbefore : ∀ {owner : Option Nat} {op : RelayOp} {c : Nat}, relay'.Pending owner op →
        op.answers = some c → c ≠ request.conn ∧ s.relay.Pending owner op ∨
          c = request.conn ∧ ∃ targetConn,
            op = .checkTarget s.fp request.conn request.target targetConn rateOk := by
      intro owner op c hpending hop
      rcases RelayServer.step_pending hrelay hpending with hold | hbegins
      · refine .inl ⟨?_, hold⟩
        rintro rfl
        obtain rfl := hinv.owners owner op _ hold hop
        have hready : s.relay.Ready request.conn := by
          simp only [RelayServer.step] at hrelay
          split at hrelay
          · assumption
          · cases hrelay
        obtain ⟨thread, hthread, howner, hwork⟩ := hold
        rw [hready.2.2 thread hthread howner] at hwork
        cases hwork
      · cases hbegins with
        | spawn hspawns hops =>
          obtain ⟨-, requester, _, targetConn, _, hinput, hfp, rfl⟩ :=
            spawns_answers hspawns hops hop
          obtain ⟨rfl, rfl, rfl⟩ := RelayInput.punch.inj hinput
          have hpeer := hinv.enrolled.conns _ (RelayServer.mem_of_fp_of hfp)
          obtain rfl := Option.some.inj (hpeer.symm.trans hown.1)
          exact .inr ⟨rfl, targetConn, rfl⟩
    exact { hinv with
      enrolled := hinv.enrolled.step hrelay
      owners := fun owner op c hpending hop => step_owners hinv.owners hrelay hpending hop
      conn := fun c hc => hmine (hinv.conn c hc)
      sending := fun k call c hcall hphase => hmine (hinv.sending k call c hcall hphase)
      requests := fun other hother =>
        have hold := List.mem_of_mem_eraseIdx hother
        ⟨hmine (hinv.requests other hold).1, (hinv.requests other hold).2⟩
      handling := fun c k hk => by
        rcases hhandling hk with ⟨rfl, -⟩ | ⟨-, hold⟩
        · exact hmine hown
        · exact hmine (hinv.handling c k hold)
      serves := fun owner op c k hpending hop hk => by
        rcases hbefore hpending hop with ⟨hc, hold⟩ | ⟨rfl, targetConn, rfl⟩
        · have hlookup := ((hhandling hk).resolve_left fun hsame => hc hsame.1).2
          exact (hinv.serves owner op c k hold hop hlookup).mono hip rfl (fun _ => id) fun _ => id
        · obtain ⟨-, rfl⟩ := (hhandling hk).resolve_right fun hother => hother.1 rfl
          exact ⟨rfl, htarget⟩
      answers := fun answer hanswer => ⟨hmine (hinv.answers answer hanswer).1,
        (hinv.answers answer hanswer).2.mono hip rfl (fun _ => id) fun _ => id⟩
      latest := fun c k hc howes => by
        refine hinv.latest c k hc ?_
        cases howes with
        | sending hcall hphase => exact .sending hcall hphase
        | request hother hsame => exact .request (List.mem_of_mem_eraseIdx hother) hsame
        | relay hpending hop hk =>
          rcases hbefore hpending hop with ⟨hne, hold⟩ | ⟨rfl, -⟩
          · exact .relay hold hop ((hhandling hk).resolve_left fun hsame => hne hsame.1).2
          · obtain ⟨-, rfl⟩ := (hhandling hk).resolve_right fun hother => hother.1 rfl
            exact .request hmem rfl
        | answer hanswer hsame hgrants => exact .answer hanswer hsame hgrants
      correlated := ⟨hinv.correlated.own, hinv.correlated.apart⟩ }
  · cases h

/-- Every step that meets the guard keeps the invariant. -/
theorem Correlating.step (hround : ∀ port,
      parseAddr (SocketAddr.text { ip := s.relay.publicIp, port }) =
        some { ip := s.relay.publicIp, port })
    (hinv : s.Correlating trace) (hguard : oneAtATime trace s input)
    (h : step parseAddr s input = some (next, emitted)) :
    next.Correlating (trace ++ emitted) := by
  cases input with
  | relay input =>
    obtain ⟨relay', events, hrelay, hother, rfl, rfl⟩ := relay_step h
    exact hinv.relay hrelay hother
  | request i rateOk => exact hinv.request h
  | connected conn => exact hinv.connected h
  | disconnected =>
    obtain ⟨rfl, rfl⟩ := answer_inj h
    exact hinv.client client_disconnect
  | call target => exact hinv.call h
  | enter k => exact hinv.enter hguard h
  | sent k ok =>
    simp only [PunchSystem.step] at h
    split at h
    · next target conn oneshot hcall =>
      split at h
      · obtain ⟨rfl, rfl⟩ := answer_inj h
        exact hinv.client (client_sent hcall rfl)
      · obtain ⟨rfl, rfl⟩ := answer_inj h
        exact hinv.client (client_set_phase rfl (by simp) (by simp))
    · cases h
  | timeout k =>
    simp only [PunchSystem.step] at h
    split at h
    · obtain ⟨rfl, rfl⟩ := answer_inj h
      exact hinv.client (client_set_phase rfl (by simp) (by simp))
    · cases h
  | wake k =>
    simp only [PunchSystem.step] at h
    split at h
    · next target addr hcall =>
      obtain ⟨rfl, rfl⟩ := answer_inj h
      refine hinv.client (client_set_phase rfl (fun j sent hmem => ?_) (by simp))
      obtain ⟨rfl, rfl⟩ := PunchEvent.returned.inj (List.mem_singleton.mp hmem)
      exact hinv.oneshots _ _ _ hcall rfl
    · obtain ⟨rfl, rfl⟩ := answer_inj h
      exact hinv.client (client_set_phase rfl (by simp) (by simp))
    · cases h
  | answer i pick =>
    simp only [PunchSystem.step] at h
    split at h
    · next answer hanswer =>
      obtain ⟨hconn, h⟩ := of_when h
      exact hinv.client (hinv.answer hround hanswer hconn h)
    · cases h

/-- The relay and the client, which is not connected. -/
def start (portStart portEnd : UInt16) (publicIp : IpAddr) (fp : Fingerprint) : PunchSystem :=
  { relay := .start portStart portEnd publicIp, fp, conn := none, fresh := 0, pending := []
    calls := [], requests := [], handling := [], answers := [] }

theorem start_correlating (portStart portEnd : UInt16) (publicIp : IpAddr) (fp : Fingerprint) :
    (start portStart portEnd publicIp fp).Correlating [] := by
  have hidle : ∀ owner op, ¬ (RelayServer.start portStart portEnd publicIp).Pending owner op := by
    intro owner op hpending
    obtain ⟨thread, hmem, -⟩ := hpending
    cases hmem
  exact {
    enrolled := RelayServer.start_enrolled portStart portEnd publicIp
    owners := fun owner op _ hpending => absurd hpending (hidle owner op)
    conn := fun _ hconn => by cases hconn
    sending := fun _ _ _ hcall => by cases hcall
    requests := fun _ hmem => by cases hmem
    handling := fun _ _ hk => by cases hk
    serves := fun owner op _ _ hpending => absurd hpending (hidle owner op)
    answers := fun _ hmem => by cases hmem
    oneshots := fun _ _ _ hcall => by cases hcall
    pending := .inl rfl
    latest := fun _ _ hconn => by cases hconn
    correlated := ⟨fun _ _ hmem => (by cases hmem), fun _ => List.not_mem_nil⟩ }

theorem handle_push_relay {msg : RelayMsg} {pick : Nat}
    (h : s.handlePush parseAddr msg pick = some (next, emitted)) :
    next.relay.publicIp = s.relay.publicIp := by
  unfold handlePush at h
  split at h
  · obtain ⟨rfl, -⟩ := answer_inj h
    rfl
  · split at h
    · obtain ⟨rfl, -⟩ := answer_inj h
      rfl
    · split at h
      · obtain ⟨rfl, -⟩ := answer_inj h
        rfl
      · cases h

/-- The address of the relay does not change. -/
theorem step_relay_ip (h : step parseAddr s input = some (next, emitted)) :
    next.relay.publicIp = s.relay.publicIp := by
  cases input with
  | relay input =>
    obtain ⟨relay', events, hrelay, -, rfl, -⟩ := relay_step h
    exact RelayServer.step_public_ip hrelay
  | request i rateOk =>
    simp only [step] at h
    split at h
    · obtain ⟨⟨relay', events⟩, hrelay, hnext⟩ := Option.map_eq_some_iff.mp h
      obtain ⟨rfl, -⟩ := Prod.mk.inj hnext
      exact RelayServer.step_public_ip hrelay
    · cases h
  | disconnected =>
    obtain ⟨rfl, -⟩ := answer_inj h
    rfl
  | connected | call | enter | timeout =>
    simp only [step] at h
    split at h
    · obtain ⟨rfl, -⟩ := answer_inj h
      rfl
    · cases h
  | sent k ok =>
    simp only [step] at h
    split at h
    · split at h <;> (obtain ⟨rfl, -⟩ := answer_inj h; rfl)
    · cases h
  | wake k =>
    simp only [step] at h
    split at h
    · obtain ⟨rfl, -⟩ := answer_inj h
      rfl
    · obtain ⟨rfl, -⟩ := answer_inj h
      rfl
    · cases h
  | answer i pick =>
    simp only [step] at h
    split at h
    · obtain ⟨-, h⟩ := of_when h
      exact handle_push_relay (s := { s with answers := s.answers.eraseIdx i }) h
    · cases h

end PunchSystem

/-- Where `punch` is called only when nothing that leads to an address is on its way for an earlier
call, and no other waiter is left than one for the same target whose call has returned, a call
returns only an address that was allocated for it, and drops no other call. -/
theorem punch_correlated {parseAddr : String → Option SocketAddr} {portStart portEnd : UInt16}
    {publicIp : IpAddr} {fp : Fingerprint} {inputs : List PunchInput} {trace : List PunchEvent}
    {s : PunchSystem}
    (hround : ∀ port, parseAddr (SocketAddr.text { ip := publicIp, port }) =
      some { ip := publicIp, port })
    (h : Exec (PunchSystem.step parseAddr) oneAtATime (.start portStart portEnd publicIp fp) inputs
      trace s) : Correlated trace s := by
  suffices hinv : s.relay.publicIp = publicIp ∧ s.Correlating trace from hinv.2.correlated
  induction h with
  | start => exact ⟨rfl, PunchSystem.start_correlating portStart portEnd publicIp fp⟩
  | step _ hguard hnext ih =>
    obtain ⟨hip, hinv⟩ := ih
    exact ⟨(PunchSystem.step_relay_ip hnext).trans hip, hinv.step (hip ▸ hround) hguard hnext⟩

/-- Reads the addresses of the sample relay, as `parse::<SocketAddr>()` does. -/
def parseHome (text : String) : Option SocketAddr :=
  if text.toList.take 9 = "10.0.0.2:".toList then
    some { ip := .v4 10 0 0 2, port := UInt16.ofNat (Nat.ofDigitChars 10 (text.toList.drop 9) 0) }
  else none

theorem parse_home_text (port : UInt16) :
    parseHome (SocketAddr.text { ip := .v4 10 0 0 2, port }) = some { ip := .v4 10 0 0 2, port } := by
  have hip : dotted 10 0 0 2 ++ ":" = "10.0.0.2:" := by decide +kernel
  have htext : (SocketAddr.text { ip := .v4 10 0 0 2, port }).toList =
      "10.0.0.2:".toList ++ Nat.toDigits 10 port.toNat := by
    show (dotted 10 0 0 2 ++ ":" ++ toString port.toNat).toList = _
    rw [hip, String.toList_append]
    simp [Nat.repr]
  have htake : ("10.0.0.2:".toList ++ Nat.toDigits 10 port.toNat).take 9 = "10.0.0.2:".toList :=
    List.take_left' (by decide)
  have hdrop : ("10.0.0.2:".toList ++ Nat.toDigits 10 port.toNat).drop 9 =
      Nat.toDigits 10 port.toNat := List.drop_left' (by decide)
  rw [parseHome, htext, htake, if_pos rfl, hdrop,
    Nat.ofDigitChars_toDigits (by decide) (by decide), UInt16.ofNat_toNat]

/-- Three devices register; the first one is the client. -/
def punching : PunchSystem := .start 9000 9010 (.v4 10 0 0 2) 1

/-- The devices register, and the client knows its connection. -/
def punchers : List PunchInput :=
  (registration 1 "phone" 0 ++ registration 2 "desk" 1 ++ registration 3 "tower" 3).map .relay ++
    [.connected 0]

/-- A punch that is answered. -/
def answeredPunch : List PunchInput :=
  punchers ++ [.call 2, .enter 0, .sent 0 true, .request 0 true, .relay (.run 6 true),
    .relay (.run 6 true), .relay (.run 6 true), .relay (.run 6 true), .answer 0 0, .wake 0]

/-- A punch whose answer arrives when it has timed out, and another one waits. -/
def latePunch : List PunchInput :=
  punchers ++ [.call 2, .enter 0, .sent 0 true, .request 0 true, .relay (.run 6 true),
    .relay (.run 6 true), .relay (.run 6 true), .timeout 0, .call 3, .enter 1, .sent 1 true,
    .relay (.run 6 true), .answer 0 0, .wake 1]

/-- The punch that is answered alone gets its own address. -/
theorem answered_punch_correlated : ∃ trace s,
    Exec (PunchSystem.step parseHome) oneAtATime punching answeredPunch trace s ∧
      .returned 0 { ip := .v4 10 0 0 2, port := 9003 } ∈ trace ∧ Correlated trace s := by
  have hrun : (Machine.run (PunchSystem.step parseHome) oneAtATime [] punching answeredPunch).map
      Prod.snd = some [.granted 0 1 2 { ip := .v4 10 0 0 2, port := 9003 },
        .returned 0 { ip := .v4 10 0 0 2, port := 9003 }] := by decide +kernel
  obtain ⟨⟨s, trace⟩, hrun, rfl⟩ := Option.map_eq_some_iff.mp hrun
  have hexec := Exec.start.append_run hrun
  exact ⟨_, s, hexec, by simp, punch_correlated parse_home_text hexec⟩

/-- A call returns the address of an earlier one, and the relay has allocated nothing for its
target. -/
theorem late_punch_uncorrelated : ∃ trace s,
    Exec (PunchSystem.step parseHome) Guard.free punching latePunch trace s ∧
      s.target 1 = some 3 ∧ .returned 1 { ip := .v4 10 0 0 2, port := 9003 } ∈ trace ∧
      (∀ call requester addr, .granted call requester 3 addr ∉ trace) ∧ ¬ Correlated trace s := by
  have hrun : (Machine.run (PunchSystem.step parseHome) Guard.free [] punching latePunch).map
      (fun result => (result.1.target 1, result.2)) =
        some (some 3, [.granted 0 1 2 { ip := .v4 10 0 0 2, port := 9003 }, .failed 0,
          .returned 1 { ip := .v4 10 0 0 2, port := 9003 }]) := by decide +kernel
  obtain ⟨⟨s, trace⟩, hrun, hviews⟩ := Option.map_eq_some_iff.mp hrun
  obtain ⟨htarget, rfl⟩ := Prod.mk.inj hviews
  refine ⟨_, s, Exec.start.append_run hrun, htarget, by simp, by simp, fun hcorrelated => ?_⟩
  obtain ⟨target, -, hgranted⟩ :=
    hcorrelated.own 1 { ip := .v4 10 0 0 2, port := 9003 } (by simp)
  simp at hgranted

end LocalTrans.Relay
