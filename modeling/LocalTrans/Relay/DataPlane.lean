import LocalTrans.Foundation.History
import LocalTrans.Relay.Lease

/-!
# The data plane

`data_plane.rs`: both members of a session send to its port, the relay learns their addresses from
`KNOCK` packets and forwards the payload of a `DATA` packet to the other member. A step takes one
packet through the loop of its port, or is an operation of the control plane on the tables.
`PlaneSound` says that a session is isolated from the packets of others and from the sessions before
it, and `reclaims` when it is.
-/

namespace LocalTrans.Relay.Lease

open Foundation

/-- `DATA_HEADER_LEN`. -/
def dataHeaderLen : Nat := 18

/-- `DATA_VERSION`. -/
def dataVersion : UInt8 := 0x01

/-- `FLAG_KNOCK`. -/
def flagKnock : UInt8 := 0x01

/-- `FLAG_GOODBYE_KNOCK`. -/
def flagGoodbyeKnock : UInt8 := 0x02

/-- `FLAG_DATA`. -/
def flagData : UInt8 := 0x00

/-- `DATA_PACKET_LIMIT`. -/
def dataPacketLimit : Nat := 1500

/-- `data_header_encode`. -/
def dataHeaderEncode (token : BitVec 128) (flag : UInt8) : List UInt8 :=
  dataVersion :: flag :: toBeBytes 16 token.toNat

/-- `data_header_decode`. -/
def dataHeaderDecode (buf : List UInt8) : Except String (BitVec 128 × UInt8) :=
  match buf with
  | version :: flag :: rest =>
    if buf.length < dataHeaderLen then .error "数据包头不足"
    else if version ≠ dataVersion then .error s!"版本不符: {version.toNat}"
    else .ok (BitVec.ofNat 128 (fromBeBytes (rest.take 16)), flag)
  | _ => .error "数据包头不足"

/-- `data_packet_ok`. -/
def dataPacketOk (payload : List UInt8) : Bool := payload.length ≤ dataPacketLimit

/-- A packet of a member of the session of the port. -/
structure Packet where
  token : BitVec 128
  flag : UInt8
  sender : Fingerprint
  payload : List UInt8
deriving DecidableEq

/-- `DataPlane`: the tables, and for every session port the addresses of the members. -/
structure DataPlane where
  leases : LeaseTable
  learned : Map UInt16 (Map Fingerprint SocketAddr)

/-- What happens to the tables; an address is learned from a packet with a token; a member says
goodbye; a payload is forwarded. -/
inductive DataEvent where
  | table (event : LeaseEvent)
  | learned (port : UInt16) (fp : Fingerprint) (token : BitVec 128) (addr : SocketAddr)
  | goodbye (port : UInt16) (fp : Fingerprint)
  | forwarded (port : UInt16) (fp : Fingerprint) (token : BitVec 128) (payload : List UInt8)
      (dst : SocketAddr)
deriving DecidableEq

/-- An operation of the control plane, or a packet that arrives at a port. -/
inductive DataInput where
  | table (input : LeaseInput)
  | packet (port : UInt16) (addr : SocketAddr) (bytes : List UInt8) (now : Nat)
deriving DecidableEq

/-- The control plane registers, removes and reaps leases, refreshes them, and allocates sessions. -/
def LeaseInput.isControl : LeaseInput → Bool
  | .alloc .. | .remove _ | .punchSeen _ _ | .heartbeat _ _ | .reapExpired _ _
  | .allocSessionPort .. => true
  | _ => false

namespace DataPlane

/-- The flags that only a member may use. -/
def memberFlags : List UInt8 := [flagKnock, flagData, flagGoodbyeKnock]

/-- The checks of `recv_loop`: a packet passes if its header and its size are right, its token leads
to a fingerprint, and the fingerprint is a member of the session. -/
def check (t : LeaseTable) (port : UInt16) (pkt : List UInt8) (now : Nat) :
    LeaseTable × Option Packet :=
  match dataHeaderDecode pkt with
  | .error _ => (t, none)
  | .ok (token, flag) =>
    let payload := pkt.drop dataHeaderLen
    if dataPacketOk payload = false then (t, none)
    else
      match t.getByToken token now with
      | (t, none) => (t, none)
      | (t, some sender) =>
        if flag ∈ memberFlags then
          match t.sessionMemberOk port sender with
          | (t, false) => (t, none)
          | (t, true) => (t.touchSession port now, some { token, flag, sender, payload })
        else (t, none)

/-- The addresses that were learned at a port. -/
def addrsOf (d : DataPlane) (port : UInt16) : Map Fingerprint SocketAddr :=
  (d.learned.lookup port).getD ∅

/-- `learned.entry(port).or_default().insert(..)`. -/
def learn (d : DataPlane) (port : UInt16) (fp : Fingerprint) (addr : SocketAddr) : DataPlane :=
  { d with learned := d.learned.insert port ((d.addrsOf port).insert fp addr) }

/-- The other member of a session. -/
def otherMember (members : Fingerprint × Fingerprint) (fp : Fingerprint) : Option Fingerprint :=
  if members.1 = fp then some members.2
  else if members.2 = fp then some members.1
  else none

/-- To whom a payload is forwarded. -/
def destination (d : DataPlane) (port : UInt16) (sender : Fingerprint) : Option SocketAddr := do
  let addrs ← d.learned.lookup port
  let dst ← match d.leases.sessionMembersOf port with
    | some members => otherMember members sender
    | none => addrs.keys.find? fun fp => fp ≠ sender
  addrs.lookup dst

/-- What `recv_loop` does with the packet of a member. -/
def dispatch (d : DataPlane) (port : UInt16) (addr : SocketAddr) (packet : Packet) :
    DataPlane × List DataEvent :=
  if packet.flag = flagKnock then
    (d.learn port packet.sender addr, [.learned port packet.sender packet.token addr])
  else if packet.flag = flagGoodbyeKnock then
    match d.learned.lookup port with
    | some addrs =>
      if (addrs.erase packet.sender).entries = [] then
        ({ leases := d.leases.removeSessionPort port, learned := d.learned.erase port },
          [.goodbye port packet.sender, .table (.closed port)])
      else
        ({ d with learned := d.learned.insert port (addrs.erase packet.sender) },
          [.goodbye port packet.sender])
    | none => (d, [.goodbye port packet.sender])
  else
    -- The address of a member may have drifted.
    let drifted := match (d.addrsOf port).lookup packet.sender with
      | some old => decide (old ≠ addr)
      | none => false
    let d := if drifted then d.learn port packet.sender addr else d
    (d, (if drifted then [.learned port packet.sender packet.token addr] else []) ++
      (d.destination port packet.sender).toList.map
        (.forwarded port packet.sender packet.token packet.payload))

/-- `recv_loop`, for one packet; the buffer has 2048 bytes. -/
def recv (d : DataPlane) (port : UInt16) (addr : SocketAddr) (bytes : List UInt8) (now : Nat) :
    DataPlane × List DataEvent :=
  match check d.leases port (bytes.take 2048) now with
  | (leases, none) => ({ d with leases }, [])
  | (leases, some packet) => { d with leases }.dispatch port addr packet

/-- One step. -/
def step : Machine DataPlane DataInput DataEvent
  | d, .table input =>
    if input.isControl then
      (d.leases.step input).map fun result =>
        ({ d with leases := result.1 }, result.2.map .table)
    else none
  | d, .packet port addr bytes now =>
    if port ∈ d.leases.ports then some (d.recv port addr bytes now) else none

/-- Before anything has happened. -/
def start (portStart portEnd : UInt16) : DataPlane :=
  { leases := .new portStart portEnd, learned := ∅ }

end DataPlane

/-- The condition on one step: a session port that is reclaimed because it was idle has learned no
address, and a member says goodbye at a port that has learned one. -/
def reclaims : Guard DataPlane DataInput DataEvent :=
  fun _ d input =>
    match input with
    | .table (.reapExpired ttl now) => ∀ port ∈ d.leases.idlePorts ttl now, port ∉ d.learned
    | .table _ => True
    | .packet port _ bytes now =>
      match (DataPlane.check d.leases port (bytes.take 2048) now).2 with
      | some packet => packet.flag = flagGoodbyeKnock → port ∈ d.learned
      | none => True

instance (trace : List DataEvent) (d : DataPlane) (input : DataInput) :
    Decidable (reclaims trace d input) := by
  unfold reclaims
  split
  · exact List.decidableBAll _ _
  · infer_instance
  · split <;> infer_instance

/-- The events by which a session ends, or another one begins at its port. -/
def DataEvent.Ends (port : UInt16) (event : DataEvent) : Prop :=
  event = .table (.closed port) ∨ ∃ fpA fpB, event = .table (.opened port fpA fpB)

/-- The session of a port, and what has happened since it began. -/
def CurrentSession (trace : List DataEvent) (port : UInt16) (members : Fingerprint × Fingerprint)
    (later : List DataEvent) : Prop :=
  Standing (DataEvent.Ends port) trace (.table (.opened port members.1 members.2)) later

/-- A token is the one that was given out last to a fingerprint, and was not taken back. -/
def ValidToken (trace : List DataEvent) (token : BitVec 128) (fp : Fingerprint) : Prop :=
  ∃ port later, Standing (fun event => event = .table (.revoked token) ∨
    ∃ fp port, event = .table (.issued fp port token)) trace (.table (.issued fp port token)) later

/-- The address of a member is the one that was learned last, and the member has not said goodbye. -/
def LearnedAddr (later : List DataEvent) (port : UInt16) (fp : Fingerprint) (addr : SocketAddr) :
    Prop :=
  ∃ token rest, Standing (fun event => event = .goodbye port fp ∨
    ∃ token addr, event = .learned port fp token addr) later (.learned port fp token addr) rest

/-- A member has said goodbye, and has not come back. -/
def SaidGoodbye (later : List DataEvent) (port : UInt16) (fp : Fingerprint) : Prop :=
  ∃ rest, Standing (fun event => ∃ token addr, event = .learned port fp token addr) later
    (.goodbye port fp) rest

/-- What a packet of a member leads to, after a history: its token is valid, and its payload is
forwarded to the address that was learned in the session from the other member. -/
def Isolated (before : List DataEvent) : DataEvent → Prop
  | .learned port fp token _ => ValidToken before token fp ∧ ∃ members later,
      CurrentSession before port members later ∧ (DataPlane.otherMember members fp).isSome
  | .forwarded port fp token _ dst => ValidToken before token fp ∧ ∃ members later,
      CurrentSession before port members later ∧
      ∃ other ∈ DataPlane.otherMember members fp, LearnedAddr later port other dst
  | _ => True

namespace DataPlane

/-- The packet is not one of a member of the session of the port. -/
def Stranger (d : DataPlane) (port : UInt16) (bytes : List UInt8) : Prop :=
  ∀ token flag fp, dataHeaderDecode (bytes.take 2048) = .ok (token, flag) →
    d.leases.tokenMap.lookup token = some fp → d.leases.sessionMemberOkInner port fp = false

end DataPlane

/-- What the data plane does after a history. -/
structure PlaneSound (trace : List DataEvent) (d : DataPlane) : Prop where
  /-- Payloads are forwarded within a session, and only there addresses are learned. -/
  isolated : EachEvent Isolated trace
  /-- What is forwarded is the payload of a packet that has arrived. -/
  payloads : ∀ input next emitted port fp token payload dst, d.step input = some (next, emitted) →
    .forwarded port fp token payload dst ∈ emitted → ∃ addr bytes now,
      input = .packet port addr bytes now ∧ payload = (bytes.take 2048).drop dataHeaderLen ∧
      dataHeaderDecode (bytes.take 2048) = .ok (token, flagData) ∧
      d.leases.tokenMap.lookup token = some fp
  /-- The packets of others change neither the addresses nor what is forwarded. -/
  strangers : ∀ port addr bytes now, d.Stranger port bytes →
    (d.recv port addr bytes now).2 = [] ∧ (d.recv port addr bytes now).1.learned = d.learned ∧
    ∀ port' addr' bytes' now', ((d.recv port addr bytes now).1.recv port' addr' bytes' now').2 =
      (d.recv port' addr' bytes' now').2
  /-- Nothing that was learned is older than the session. -/
  fresh : ∀ port fp addr, (d.addrsOf port).lookup fp = some addr → ∃ members later,
    CurrentSession trace port members later ∧ (DataPlane.otherMember members fp).isSome ∧
      LearnedAddr later port fp addr
  /-- A port is free when both members have said goodbye. -/
  left : ∀ port members later, CurrentSession trace port members later →
    SaidGoodbye later port members.1 → SaidGoodbye later port members.2 →
    port ∉ d.leases.sessionPorts
  /-- A port is free when its session has been idle. -/
  idle : ∀ ttl now, ∀ port ∈ d.leases.idlePorts ttl now,
    port ∉ (d.leases.reapExpired ttl now).1.sessionPorts

namespace LeaseTable

variable {t next : LeaseTable} {input : LeaseInput} {emitted : List LeaseEvent}
  {token : BitVec 128} {fp : Fingerprint} {port : UInt16}

theorem resolves_remove_all (fps : List Fingerprint)
    (h : (fps.foldl (fun t fp => (t.remove fp).1) t).tokenMap.lookup token = some fp) :
    t.tokenMap.lookup token = some fp ∧ ∀ gone ∈ fps, t.tokenOf gone ≠ some token := by
  induction fps generalizing t with
  | nil => exact ⟨h, by simp⟩
  | cons first fps ih =>
    obtain ⟨hlookup, hkept⟩ := ih h
    unfold LeaseTable.remove at hlookup hkept
    cases hentry : t.leases.lookup first with
    | none =>
      simp only [hentry] at hlookup hkept
      exact ⟨hlookup, List.forall_mem_cons.mpr ⟨by simp [tokenOf, hentry], hkept⟩⟩
    | some entry =>
      simp only [hentry] at hlookup hkept
      obtain ⟨hne, hold⟩ := lookup_erase_iff.mp hlookup
      refine ⟨hold, fun gone hmem htoken => ?_⟩
      by_cases hfirst : gone = first
      · subst hfirst
        rw [tokenOf, hentry] at htoken
        exact hne (Option.some.inj htoken).symm
      · have hlater := (List.mem_cons.mp hmem).resolve_left hfirst
        refine hkept gone hlater ?_
        rw [tokenOf, AList.lookup_erase_ne hfirst]
        exact htoken

/-- A token that leads to a fingerprint was given out last, or led there and was not touched. -/
theorem step_resolves (hcontrol : input.isControl = true)
    (hnext : step t input = some (next, emitted))
    (hlookup : next.tokenMap.lookup token = some fp) :
    (t.tokenMap.lookup token = some fp ∧
      ∀ event ∈ emitted, event ≠ .revoked token ∧ event.drawn ≠ some token) ∨
    ∃ port older, emitted = older ++ [.issued fp port token] := by
  cases input with
  | alloc who name hidden drawn now =>
    simp only [step, alloc, tokenOf] at hnext
    cases hwho : t.leases.lookup who with
    | some existing =>
      simp only [hwho] at hnext
      obtain ⟨rfl, rfl⟩ := answer_inj hnext
      rcases lookup_insert_iff.mp hlookup with ⟨rfl, rfl⟩ | ⟨hne, hkept⟩
      · exact .inr ⟨existing.port, _, rfl⟩
      · obtain ⟨hother, hold⟩ := lookup_erase_iff.mp hkept
        refine .inl ⟨hold, ?_⟩
        simpa [LeaseEvent.drawn] using ⟨Ne.symm hother, Ne.symm hne⟩
    | none =>
      simp only [hwho] at hnext
      cases hfree : t.freePort with
      | none =>
        simp only [hfree] at hnext
        obtain ⟨rfl, rfl⟩ := answer_inj hnext
        exact .inl ⟨hlookup, by simp⟩
      | some port =>
        simp only [hfree] at hnext
        obtain ⟨rfl, rfl⟩ := answer_inj hnext
        rcases lookup_insert_iff.mp hlookup with ⟨rfl, rfl⟩ | ⟨hne, hkept⟩
        · exact .inr ⟨port, _, rfl⟩
        · exact .inl ⟨hkept, by simpa [LeaseEvent.drawn] using Ne.symm hne⟩
  | remove who =>
    obtain ⟨rfl, rfl⟩ := answer_inj hnext
    obtain ⟨hold, hgone⟩ := resolves_remove_all [who] hlookup
    refine .inl ⟨hold, fun event hmem => ?_⟩
    obtain ⟨other, hother, rfl⟩ := List.mem_map.mp hmem
    refine ⟨fun heq => ?_, by simp [LeaseEvent.drawn]⟩
    obtain rfl := LeaseEvent.revoked.inj heq
    exact hgone who List.mem_cons_self (Option.mem_toList.mp hother)
  | reapExpired ttl now =>
    obtain ⟨rfl, rfl⟩ := answer_inj hnext
    have htokens : (t.reapExpired ttl now).1.tokenMap =
        ((t.expired ttl now).foldl (fun t fp => (t.remove fp).1) t).tokenMap :=
      (remove_session_ports _).2.2.2.1
    rw [htokens] at hlookup
    obtain ⟨hold, hgone⟩ := resolves_remove_all _ hlookup
    refine .inl ⟨hold, fun event hmem => ?_⟩
    rcases List.mem_append.mp hmem with hrevoked | hclosed
    · obtain ⟨other, hother, rfl⟩ := List.mem_map.mp hrevoked
      obtain ⟨who, hwho, htoken⟩ := List.mem_filterMap.mp hother
      refine ⟨fun heq => ?_, by simp [LeaseEvent.drawn]⟩
      obtain rfl := LeaseEvent.revoked.inj heq
      exact hgone who hwho htoken
    · obtain ⟨port, -, rfl⟩ := List.mem_map.mp hclosed
      exact ⟨by simp, by simp [LeaseEvent.drawn]⟩
  | punchSeen who addr =>
    obtain ⟨rfl, rfl⟩ := answer_inj hnext
    exact .inl ⟨(quiet_punch_seen who addr).tokenMap ▸ hlookup, by simp⟩
  | heartbeat who now =>
    obtain ⟨rfl, rfl⟩ := answer_inj hnext
    exact .inl ⟨(quiet_heartbeat who now).tokenMap ▸ hlookup, by simp⟩
  | allocSessionPort fpA fpB now =>
    simp only [step] at hnext
    rcases alloc_session_port_cases t fpA fpB now with
      heq | ⟨port, -, -, -, heq⟩
    · rw [heq] at hnext
      obtain ⟨rfl, rfl⟩ := answer_inj hnext
      exact .inl ⟨hlookup, by simp⟩
    · rw [heq] at hnext
      obtain ⟨rfl, rfl⟩ := answer_inj hnext
      exact .inl ⟨hlookup, by simp [LeaseEvent.drawn]⟩
  | getByToken | removeSessionPort | touchSession => cases hcontrol

/-- The sessions after some ports are taken back. -/
theorem members_of_remove_session_ports {idle : List UInt16}
    {members : Fingerprint × Fingerprint} :
    (idle.foldl removeSessionPort t).sessionMembers.lookup port = some members ↔
      port ∉ idle ∧ t.sessionMembers.lookup port = some members := by
  induction idle generalizing t with
  | nil => simp
  | cons first idle ih =>
    refine (ih (t := t.removeSessionPort first)).trans ?_
    show port ∉ idle ∧ (t.sessionMembers.erase first).lookup port = some members ↔ _
    rw [lookup_erase_iff, List.mem_cons, not_or]
    constructor
    · rintro ⟨hnot, hne, hlookup⟩
      exact ⟨⟨hne, hnot⟩, hlookup⟩
    · rintro ⟨⟨hne, hnot⟩, hlookup⟩
      exact ⟨hnot, hne, hlookup⟩

theorem ports_of_remove_session_ports {idle : List UInt16} :
    port ∈ (idle.foldl removeSessionPort t).sessionPorts ↔ port ∉ idle ∧ port ∈ t.sessionPorts := by
  induction idle generalizing t with
  | nil => simp
  | cons first idle ih =>
    refine (ih (t := t.removeSessionPort first)).trans ?_
    show port ∉ idle ∧ port ∈ t.sessionPorts.erase first ↔ _
    rw [Finset.mem_erase, List.mem_cons, not_or]
    constructor
    · rintro ⟨hnot, hne, hport⟩
      exact ⟨⟨hne, hnot⟩, hport⟩
    · rintro ⟨⟨hne, hnot⟩, hport⟩
      exact ⟨hnot, hne, hport⟩

theorem sessions_remove_all (fps : List Fingerprint) :
    (fps.foldl (fun t fp => (t.remove fp).1) t).sessionMembers = t.sessionMembers ∧
      (fps.foldl (fun t fp => (t.remove fp).1) t).sessionPorts = t.sessionPorts ∧
      (fps.foldl (fun t fp => (t.remove fp).1) t).sessionActivity = t.sessionActivity := by
  induction fps generalizing t with
  | nil => exact ⟨rfl, rfl, rfl⟩
  | cons fp fps ih =>
    have hsame : (t.remove fp).1.sessionMembers = t.sessionMembers ∧
        (t.remove fp).1.sessionPorts = t.sessionPorts ∧
        (t.remove fp).1.sessionActivity = t.sessionActivity := by
      unfold LeaseTable.remove
      split <;> exact ⟨rfl, rfl, rfl⟩
    obtain ⟨hmembers, hports, hactivity⟩ := ih (t := (t.remove fp).1)
    exact ⟨hmembers.trans hsame.1, hports.trans hsame.2.1, hactivity.trans hsame.2.2⟩

end LeaseTable

/-- What a packet with the flag for data brings to its port. -/
def DataInput.brought : DataInput → Option (UInt16 × BitVec 128 × List UInt8)
  | .table _ => none
  | .packet port _ bytes _ =>
    match dataHeaderDecode (bytes.take 2048) with
    | .ok (token, flag) =>
      if flag = flagData then some (port, token, (bytes.take 2048).drop dataHeaderLen) else none
    | .error _ => none

/-- What is forwarded from a port. -/
def DataEvent.carried : DataEvent → Option (UInt16 × BitVec 128 × List UInt8)
  | .forwarded port _ token payload _ => some (port, token, payload)
  | _ => none

namespace DataPlane

variable {d next : DataPlane} {input : DataInput} {trace emitted : List DataEvent}
  {port : UInt16} {fp : Fingerprint} {token : BitVec 128} {addr : SocketAddr}
  {bytes pkt : List UInt8} {now : Nat} {packet : Packet} {members : Fingerprint × Fingerprint}

/-- What the checks find in the tables. -/
def passed (t : LeaseTable) (port : UInt16) (pkt : List UInt8) : Option Packet :=
  match dataHeaderDecode pkt with
  | .error _ => none
  | .ok (token, flag) =>
    if dataPacketOk (pkt.drop dataHeaderLen) = false then none
    else
      match t.tokenMap.lookup token with
      | none => none
      | some sender =>
        if flag ∈ memberFlags ∧ t.sessionMemberOkInner port sender = true then
          some { token, flag, sender, payload := pkt.drop dataHeaderLen }
        else none

theorem get_by_token_snd {t : LeaseTable} :
    (t.getByToken token now).2 = t.tokenMap.lookup token := by
  unfold LeaseTable.getByToken
  split
  · next h => exact h.symm
  · next h => exact h.symm

theorem quiet_session_member_ok (t : LeaseTable) (port : UInt16) (fp : Fingerprint) :
    LeaseTable.Quiet t (t.sessionMemberOk port fp).1 := by
  unfold LeaseTable.sessionMemberOk
  split
  · exact .refl t
  · exact ⟨rfl, rfl, rfl, rfl, rfl⟩

theorem session_member_ok_snd {t : LeaseTable} :
    (t.sessionMemberOk port fp).2 = t.sessionMemberOkInner port fp := by
  unfold LeaseTable.sessionMemberOk
  split
  · next h => exact h.symm
  · next h => exact (Bool.eq_false_iff.mpr h).symm

/-- The checks change times and counts only, and find the packet of a member. -/
theorem check_spec (t : LeaseTable) (port : UInt16) (pkt : List UInt8) (now : Nat) :
    LeaseTable.Quiet t (check t port pkt now).1 ∧ (check t port pkt now).2 = passed t port pkt := by
  unfold check passed
  cases dataHeaderDecode pkt with
  | error reason => exact ⟨.refl t, rfl⟩
  | ok header =>
    obtain ⟨token, flag⟩ := header
    dsimp only
    split
    · exact ⟨.refl t, rfl⟩
    · have hquiet := LeaseTable.quiet_get_by_token (t := t) token now
      have hfound : (t.getByToken token now).2 = t.tokenMap.lookup token := get_by_token_snd
      generalize t.getByToken token now = found at hquiet hfound
      obtain ⟨t', who⟩ := found
      rw [← hfound]
      cases who with
      | none => exact ⟨hquiet, rfl⟩
      | some sender =>
        dsimp only
        by_cases hflag : flag ∈ memberFlags
        · have hok := quiet_session_member_ok t' port sender
          have hmember : (t'.sessionMemberOk port sender).2 = t.sessionMemberOkInner port sender := by
            rw [session_member_ok_snd]
            unfold LeaseTable.sessionMemberOkInner LeaseTable.sessionMembersOf
            rw [hquiet.sessionMembers]
          generalize t'.sessionMemberOk port sender = checked at hok hmember
          obtain ⟨t'', ok⟩ := checked
          rw [if_pos hflag]
          simp only [hflag, true_and, ← hmember]
          cases ok with
          | false => exact ⟨hquiet.trans hok, rfl⟩
          | true => exact ⟨(hquiet.trans hok).trans (LeaseTable.quiet_touch_session port now), rfl⟩
        · rw [if_neg hflag, if_neg fun h => hflag h.1]
          exact ⟨hquiet, rfl⟩

/-- What the checks say of a packet that passes. -/
theorem passed_cases {t : LeaseTable} (h : passed t port pkt = some packet) :
    dataHeaderDecode pkt = .ok (packet.token, packet.flag) ∧
      t.tokenMap.lookup packet.token = some packet.sender ∧
      packet.payload = pkt.drop dataHeaderLen ∧ packet.flag ∈ memberFlags ∧
      ∃ members, t.sessionMembers.lookup port = some members ∧
        (otherMember members packet.sender).isSome := by
  unfold passed at h
  split at h
  · cases h
  · next token flag hheader =>
    obtain ⟨-, h⟩ := of_unless h
    split at h
    · cases h
    · next sender hsender =>
      obtain ⟨hchecked, h⟩ := of_when h
      obtain rfl := Option.some.inj h
      refine ⟨hheader, hsender, rfl, hchecked.1, ?_⟩
      have hmember := hchecked.2
      unfold LeaseTable.sessionMemberOkInner LeaseTable.sessionMembersOf at hmember
      split at hmember
      · next a b hmembers =>
        refine ⟨(a, b), hmembers, ?_⟩
        unfold otherMember
        rcases (Bool.or_eq_true _ _).mp hmember with ha | hb
        · rw [if_pos (of_decide_eq_true ha)]
          rfl
        · split
          · rfl
          · rw [if_pos (of_decide_eq_true hb)]
            rfl
      · cases hmember

theorem passed_congr {t t' : LeaseTable} (htokens : t'.tokenMap = t.tokenMap)
    (hmembers : t'.sessionMembers = t.sessionMembers) : passed t' port pkt = passed t port pkt := by
  unfold passed LeaseTable.sessionMemberOkInner LeaseTable.sessionMembersOf
  rw [htokens, hmembers]

/-- A packet is dropped, or is one of a member. -/
theorem recv_cases (d : DataPlane) (port : UInt16) (addr : SocketAddr) (bytes : List UInt8)
    (now : Nat) :
    ∃ leases, d.leases.Quiet leases ∧
      (passed d.leases port (bytes.take 2048) = none ∧
        d.recv port addr bytes now = ({ d with leases }, []) ∨
      ∃ packet, passed d.leases port (bytes.take 2048) = some packet ∧
        d.recv port addr bytes now = DataPlane.dispatch { d with leases } port addr packet) := by
  obtain ⟨hquiet, hpacket⟩ := check_spec d.leases port (bytes.take 2048) now
  unfold recv
  generalize check d.leases port (bytes.take 2048) now = checked at hquiet hpacket
  obtain ⟨leases, found⟩ := checked
  refine ⟨leases, hquiet, ?_⟩
  cases found with
  | none => exact .inl ⟨hpacket.symm, rfl⟩
  | some packet => exact .inr ⟨packet, hpacket.symm, rfl⟩

theorem passed_stranger (h : d.Stranger port bytes) :
    passed d.leases port (bytes.take 2048) = none := by
  cases hpassed : passed d.leases port (bytes.take 2048) with
  | none => rfl
  | some packet =>
    obtain ⟨hheader, hsender, -, -, members, hmembers, hother⟩ := passed_cases hpassed
    have hstranger := h packet.token packet.flag packet.sender hheader hsender
    unfold LeaseTable.sessionMemberOkInner LeaseTable.sessionMembersOf at hstranger
    rw [hmembers] at hstranger
    unfold otherMember at hother
    simp at hstranger
    rw [if_neg hstranger.1, if_neg hstranger.2] at hother
    cases hother

variable {d' : DataPlane}

theorem destination_congr (hlearned : d'.learned = d.learned)
    (hmembers : d'.leases.sessionMembers = d.leases.sessionMembers) :
    d'.destination port fp = d.destination port fp := by
  unfold destination LeaseTable.sessionMembersOf
  rw [hlearned, hmembers]

theorem dispatch_events_congr (hlearned : d'.learned = d.learned)
    (hmembers : d'.leases.sessionMembers = d.leases.sessionMembers) :
    (d'.dispatch port addr packet).2 = (d.dispatch port addr packet).2 := by
  have haddrs : d'.addrsOf port = d.addrsOf port := by rw [addrsOf, addrsOf, hlearned]
  have hlearn : (d'.learn port packet.sender addr).learned =
      (d.learn port packet.sender addr).learned := by
    rw [learn, learn, haddrs, hlearned]
  unfold dispatch
  rw [hlearned, haddrs]
  split
  · rfl
  · split
    · split
      · split <;> rfl
      · rfl
    · dsimp only
      have hdestination : ∀ drifted : Bool,
          (if drifted then d'.learn port packet.sender addr else d').destination port packet.sender =
            (if drifted then d.learn port packet.sender addr else d).destination port
              packet.sender := by
        intro drifted
        cases drifted
        · exact destination_congr hlearned hmembers
        · exact destination_congr hlearn hmembers
      rw [hdestination]

/-- What is emitted for a packet depends on the tokens, the sessions and the addresses only. -/
theorem recv_events_congr (hlearned : d'.learned = d.learned)
    (htokens : d'.leases.tokenMap = d.leases.tokenMap)
    (hmembers : d'.leases.sessionMembers = d.leases.sessionMembers) :
    (d'.recv port addr bytes now).2 = (d.recv port addr bytes now).2 := by
  have hpassed : passed d'.leases port (bytes.take 2048) = passed d.leases port (bytes.take 2048) :=
    passed_congr htokens hmembers
  obtain ⟨leases, hquiet, hcases⟩ := recv_cases d port addr bytes now
  obtain ⟨leases', hquiet', hcases'⟩ := recv_cases d' port addr bytes now
  rcases hcases with ⟨hnone, heq⟩ | ⟨packet, hsome, heq⟩
  · rcases hcases' with ⟨-, heq'⟩ | ⟨packet', hsome', -⟩
    · rw [heq, heq']
    · rw [hpassed, hnone] at hsome'
      cases hsome'
  · rcases hcases' with ⟨hnone', -⟩ | ⟨packet', hsome', heq'⟩
    · rw [hpassed, hsome] at hnone'
      cases hnone'
    · obtain rfl : packet' = packet := Option.some.inj (hsome'.symm.trans (hpassed.trans hsome))
      rw [heq, heq']
      refine dispatch_events_congr hlearned ?_
      exact hquiet'.sessionMembers.trans (hmembers.trans hquiet.sessionMembers.symm)

/-- The packet of a stranger changes nothing that matters. -/
theorem recv_stranger (h : d.Stranger port bytes) :
    (d.recv port addr bytes now).2 = [] ∧ (d.recv port addr bytes now).1.learned = d.learned ∧
      ∀ port' addr' bytes' now', ((d.recv port addr bytes now).1.recv port' addr' bytes' now').2 =
        (d.recv port' addr' bytes' now').2 := by
  obtain ⟨leases, hquiet, ⟨-, heq⟩ | ⟨packet, hsome, -⟩⟩ := recv_cases d port addr bytes now
  · rw [heq]
    exact ⟨rfl, rfl, fun _ _ _ _ =>
      recv_events_congr rfl hquiet.tokenMap hquiet.sessionMembers⟩
  · rw [passed_stranger h] at hsome
    cases hsome

variable {payload : List UInt8} {dst : SocketAddr}

theorem dispatch_port {at' : UInt16}
    (h : .forwarded port fp token payload dst ∈ (d.dispatch at' addr packet).2) : port = at' := by
  unfold dispatch at h
  split at h
  · simp at h
  · split at h
    · split at h
      · split at h <;> simp at h
      · simp at h
    · rcases List.mem_append.mp h with hlearned | hforwarded
      · split at hlearned <;> simp at hlearned
      · obtain ⟨dst', -, heq⟩ := List.mem_map.mp hforwarded
        exact (DataEvent.forwarded.inj heq).1.symm

/-- A payload is forwarded for a packet with the flag for data. -/
theorem dispatch_forwards
    (h : .forwarded port fp token payload dst ∈ (d.dispatch port addr packet).2)
    (hflag : packet.flag ∈ memberFlags) :
    packet.flag = flagData ∧ fp = packet.sender ∧ token = packet.token ∧
      payload = packet.payload := by
  unfold dispatch at h
  split at h
  · simp at h
  · next hknock =>
    split at h
    · split at h
      · split at h <;> simp at h
      · simp at h
    · next hgoodbye =>
      have hdata : packet.flag = flagData := by
        simpa [memberFlags, hknock, hgoodbye] using hflag
      refine ⟨hdata, ?_⟩
      rcases List.mem_append.mp h with hlearned | hforwarded
      · split at hlearned <;> simp at hlearned
      · obtain ⟨dst', -, heq⟩ := List.mem_map.mp hforwarded
        obtain ⟨-, rfl, rfl, rfl, -⟩ := DataEvent.forwarded.inj heq
        exact ⟨rfl, rfl, rfl⟩

/-- What is forwarded is the payload of a packet that has passed the checks. -/
theorem step_forwards (hnext : d.step input = some (next, emitted))
    (h : .forwarded port fp token payload dst ∈ emitted) :
    ∃ addr bytes now packet, input = .packet port addr bytes now ∧
      passed d.leases port (bytes.take 2048) = some packet ∧ packet.flag = flagData ∧
      fp = packet.sender ∧ token = packet.token ∧ payload = packet.payload := by
  cases input with
  | table input =>
    simp only [step] at hnext
    obtain ⟨-, hnext⟩ := of_when hnext
    obtain ⟨result, -, heq⟩ := Option.map_eq_some_iff.mp hnext
    obtain ⟨-, rfl⟩ := Prod.mk.inj heq
    simp at h
  | packet at' addr bytes now =>
    simp only [step] at hnext
    obtain ⟨-, hnext⟩ := of_when hnext
    have hrecv := Option.some.inj hnext
    obtain ⟨leases, -, ⟨-, heq⟩ | ⟨packet, hpassed, heq⟩⟩ := recv_cases d at' addr bytes now
    · rw [heq] at hrecv
      obtain ⟨-, rfl⟩ := Prod.mk.inj hrecv
      cases h
    · rw [heq] at hrecv
      have hevents : (DataPlane.dispatch { d with leases } at' addr packet).2 = emitted :=
        congrArg Prod.snd hrecv
      obtain ⟨-, -, -, hflag, -⟩ := passed_cases hpassed
      rw [← hevents] at h
      have hport : port = at' := dispatch_port h
      subst hport
      exact ⟨addr, bytes, now, packet, rfl, hpassed, dispatch_forwards h hflag⟩

/-- What is forwarded has arrived in a packet of its sender. -/
theorem step_payloads (hnext : d.step input = some (next, emitted))
    (h : .forwarded port fp token payload dst ∈ emitted) :
    ∃ addr bytes now, input = .packet port addr bytes now ∧
      payload = (bytes.take 2048).drop dataHeaderLen ∧
      dataHeaderDecode (bytes.take 2048) = .ok (token, flagData) ∧
      d.leases.tokenMap.lookup token = some fp := by
  obtain ⟨addr, bytes, now, packet, rfl, hpassed, hdata, rfl, rfl, rfl⟩ := step_forwards hnext h
  obtain ⟨hheader, hsender, hpayload, -⟩ := passed_cases hpassed
  exact ⟨addr, bytes, now, rfl, hpayload, hdata ▸ hheader, hsender⟩

/-- A packet is forwarded once at most, as it was brought. -/
theorem step_carried (hnext : d.step input = some (next, emitted)) :
    (emitted.filterMap DataEvent.carried).Sublist input.brought.toList := by
  cases input with
  | table input =>
    obtain ⟨result, -, heq⟩ := Option.map_eq_some_iff.mp (of_when hnext).2
    obtain ⟨-, rfl⟩ := Prod.mk.inj heq
    simp [Function.comp_def, DataEvent.carried]
  | packet port addr bytes now =>
    obtain ⟨leases, -, ⟨-, heq⟩ | ⟨packet, hpassed, heq⟩⟩ := recv_cases d port addr bytes now
    all_goals
      rw [← show _ = emitted from congrArg Prod.snd (Option.some.inj (of_when hnext).2), heq]
    · exact List.nil_sublist _
    obtain ⟨hheader, -, hpayload, hflag, -⟩ := passed_cases hpassed
    unfold dispatch
    split
    · exact List.nil_sublist _
    next hknock =>
    split
    · split
      · split <;> exact List.nil_sublist _
      · exact List.nil_sublist _
    next hgoodbye =>
    have hdata : packet.flag = flagData := by simpa [memberFlags, hknock, hgoodbye] using hflag
    simp only [DataInput.brought, hheader, if_pos hdata, ← hpayload]
    generalize destination _ _ _ = found
    -- A drifted address is learned first.
    cases found <;> split <;> split
    all_goals first | exact List.nil_sublist _ | exact .refl _

/-- An event of a member at a port: it is learned, or says goodbye. -/
def At (port : UInt16) (event : DataEvent) : Prop :=
  (∃ fp token addr, event = .learned port fp token addr) ∨ ∃ fp, event = .goodbye port fp

/-- What is known of a session follows what has happened in it. -/
structure Follows (d : DataPlane) (later : List DataEvent) (port : UInt16)
    (members : Fingerprint × Fingerprint) : Prop where
  addrs : ∀ fp addr, (d.addrsOf port).lookup fp = some addr →
    (otherMember members fp).isSome ∧ LearnedAddr later port fp addr
  left : ∀ fp, SaidGoodbye later port fp → port ∈ d.learned ∧ (d.addrsOf port).lookup fp = none

/-- The invariant. -/
structure Isolating (trace : List DataEvent) (d : DataPlane) : Prop where
  tables : ∀ port, port ∈ d.leases.sessionMembers ↔ port ∈ d.leases.sessionPorts
  tokens : ∀ token fp, d.leases.tokenMap.lookup token = some fp → ValidToken trace token fp
  sessions : ∀ port members, d.leases.sessionMembers.lookup port = some members →
    ∃ later, CurrentSession trace port members later ∧ d.Follows later port members
  learned : ∀ port addrs, d.learned.lookup port = some addrs →
    port ∈ d.leases.sessionMembers ∧ addrs.entries ≠ []
  isolated : EachEvent Isolated trace

theorem addrs_of_congr (h : next.learned.lookup port = d.learned.lookup port) :
    next.addrsOf port = d.addrsOf port := by
  rw [addrsOf, addrsOf, h]

theorem mem_learned_congr (h : next.learned.lookup port = d.learned.lookup port) :
    port ∈ next.learned ↔ port ∈ d.learned := by
  rw [← AList.lookup_isSome, ← AList.lookup_isSome, h]

/-- A session at whose port nothing happens. -/
theorem Follows.frame {later : List DataEvent} (h : d.Follows later port members)
    (haddrs : next.learned.lookup port = d.learned.lookup port)
    (hquiet : ∀ event ∈ emitted, ¬ At port event) : next.Follows (later ++ emitted) port members := by
  refine ⟨fun fp addr hlookup => ?_, fun fp hsaid => ?_⟩
  · rw [addrs_of_congr haddrs] at hlookup
    obtain ⟨hmember, token, rest, hstanding⟩ := h.addrs fp addr hlookup
    refine ⟨hmember, token, _, hstanding.append fun event hmem hcancels => hquiet event hmem ?_⟩
    rcases hcancels with rfl | ⟨token, addr, rfl⟩
    · exact .inr ⟨fp, rfl⟩
    · exact .inl ⟨fp, token, addr, rfl⟩
  · rw [addrs_of_congr haddrs, mem_learned_congr haddrs]
    obtain ⟨rest, hstanding⟩ := hsaid
    rcases hstanding.of_append with hnew | ⟨before, hold, -⟩
    · exact absurd (.inr ⟨fp, rfl⟩) (hquiet _ hnew)
    · exact h.left fp ⟨before, hold⟩

theorem current_append {later : List DataEvent} (h : CurrentSession trace port members later)
    (hquiet : ∀ event ∈ emitted, ¬ event.Ends port) :
    CurrentSession (trace ++ emitted) port members (later ++ emitted) :=
  Standing.append h hquiet

theorem valid_append (h : ValidToken trace token fp)
    (hquiet : ∀ event, .table event ∈ emitted → event ≠ .revoked token ∧ event.drawn ≠ some token) :
    ValidToken (trace ++ emitted) token fp := by
  obtain ⟨port, later, hstanding⟩ := h
  refine ⟨port, _, hstanding.append fun event hmem hcancels => ?_⟩
  rcases hcancels with rfl | ⟨fp, port, rfl⟩
  · exact (hquiet _ hmem).1 rfl
  · exact (hquiet _ hmem).2 rfl

/-- Steps that tell nothing but what happens to the tables. -/
theorem isolated_tables (h : EachEvent Isolated trace)
    (htables : ∀ event ∈ emitted, ∃ told, event = .table told) :
    EachEvent Isolated (trace ++ emitted) := by
  refine each_event_append.mpr ⟨h, fun before event after hsplit => ?_⟩
  obtain ⟨told, rfl⟩ := htables event (by simp [hsplit])
  trivial

variable {leases : LeaseTable}

/-- The tokens after an operation of the control plane. -/
theorem Isolating.resolves (hinv : d.Isolating trace) (input : LeaseInput)
    {events : List LeaseEvent} (hcontrol : input.isControl = true)
    (hnext : d.leases.step input = some (leases, events))
    (hlookup : leases.tokenMap.lookup token = some fp) :
    ValidToken (trace ++ events.map .table) token fp := by
  rcases LeaseTable.step_resolves hcontrol hnext hlookup with ⟨hold, huntouched⟩ | ⟨port, older, rfl⟩
  · refine valid_append (hinv.tokens token fp hold) fun event hmem => ?_
    obtain ⟨told, htold, heq⟩ := List.mem_map.mp hmem
    obtain rfl := DataEvent.table.inj heq
    exact huntouched told htold
  · refine ⟨port, [], trace ++ older.map .table, by simp, by simp⟩

/-- The times of the tables change. -/
theorem Isolating.quiet (hinv : d.Isolating trace) (h : d.leases.Quiet leases) :
    Isolating trace { d with leases } where
  tables port := by
    show port ∈ leases.sessionMembers ↔ port ∈ leases.sessionPorts
    rw [h.sessionMembers, h.sessionPorts]
    exact hinv.tables port
  tokens token fp hlookup := hinv.tokens token fp (h.tokenMap ▸ hlookup)
  sessions port members hmembers := by
    obtain ⟨later, hcurrent, hfollows⟩ := hinv.sessions port members (h.sessionMembers ▸ hmembers)
    exact ⟨later, hcurrent, hfollows.addrs, hfollows.left⟩
  learned port addrs hlookup := by
    show port ∈ leases.sessionMembers ∧ _
    rw [h.sessionMembers]
    exact hinv.learned port addrs hlookup
  isolated := hinv.isolated

theorem lookup_learn : (d.learn port fp addr).learned.lookup port =
    some ((d.addrsOf port).insert fp addr) :=
  AList.lookup_insert _

theorem lookup_learn_ne {port' : UInt16} (h : port' ≠ port) :
    (d.learn port fp addr).learned.lookup port' = d.learned.lookup port' :=
  AList.lookup_insert_ne h

/-- The address of a member is learned. -/
theorem Isolating.learn (hinv : d.Isolating trace)
    (hmembers : d.leases.sessionMembers.lookup port = some members)
    (hmember : (otherMember members fp).isSome)
    (htoken : d.leases.tokenMap.lookup token = some fp) :
    (d.learn port fp addr).Isolating (trace ++ [.learned port fp token addr]) where
  tables := hinv.tables
  tokens token' fp' hlookup := valid_append (hinv.tokens token' fp' hlookup) (by simp)
  sessions port' members' hmembers' := by
    obtain ⟨later, hcurrent, hfollows⟩ := hinv.sessions port' members' hmembers'
    refine ⟨_, current_append hcurrent (by simp [DataEvent.Ends]), ?_⟩
    by_cases hport : port' = port
    · subst hport
      obtain rfl := Option.some.inj (hmembers.symm.trans hmembers')
      have haddrs : (d.learn port' fp addr).addrsOf port' = (d.addrsOf port').insert fp addr := by
        rw [addrsOf, lookup_learn, Option.getD_some]
      refine ⟨fun fp' addr' hlookup => ?_, fun fp' hsaid => ?_⟩
      · rw [haddrs] at hlookup
        rcases lookup_insert_iff.mp hlookup with ⟨rfl, rfl⟩ | ⟨hne, hold⟩
        · exact ⟨hmember, token, [], standing_new (by simp)⟩
        · obtain ⟨hother, token', rest, hstanding⟩ := hfollows.addrs fp' addr' hold
          exact ⟨hother, token', _, hstanding.append (by simpa using Ne.symm hne)⟩
      · obtain ⟨rest, hstanding⟩ := hsaid
        rw [haddrs]
        rcases hstanding.of_append with hnew | ⟨before, hold, hkept⟩
        · cases List.mem_singleton.mp hnew
        · have hne : fp' ≠ fp := by
            rintro rfl
            exact hkept _ List.mem_cons_self ⟨token, addr, rfl⟩
          obtain ⟨-, hnone⟩ := hfollows.left fp' ⟨before, hold⟩
          refine ⟨(AList.mem_insert _).mpr (.inl rfl), ?_⟩
          rw [AList.lookup_insert_ne hne]
          exact hnone
    · refine hfollows.frame (lookup_learn_ne hport) fun event hmem hat => ?_
      obtain rfl := List.mem_singleton.mp hmem
      rcases hat with ⟨_, _, _, heq⟩ | ⟨_, heq⟩
      · exact hport (DataEvent.learned.inj heq).1.symm
      · cases heq
  learned port' addrs hlookup := by
    by_cases hport : port' = port
    · subst hport
      rw [lookup_learn] at hlookup
      obtain rfl := Option.some.inj hlookup
      refine ⟨AList.lookup_isSome.mp (Option.isSome_of_mem hmembers), ?_⟩
      rw [AList.entries_insert]
      exact List.cons_ne_nil _ _
    · rw [lookup_learn_ne hport] at hlookup
      exact hinv.learned port' addrs hlookup
  isolated := by
    obtain ⟨later, hcurrent, -⟩ := hinv.sessions port members hmembers
    exact each_event_append.mpr ⟨hinv.isolated, each_event_singleton.mpr
      (by simpa using ⟨hinv.tokens token fp htoken, members, later, hcurrent, hmember⟩)⟩

/-- A member says goodbye, and the other one is there still. -/
theorem Isolating.goodbye (hinv : d.Isolating trace) {addrs : Map Fingerprint SocketAddr}
    (haddrs : d.learned.lookup port = some addrs) (hsome : (addrs.erase fp).entries ≠ []) :
    Isolating (trace ++ [.goodbye port fp])
      { d with learned := d.learned.insert port (addrs.erase fp) } where
  tables := hinv.tables
  tokens token' fp' hlookup := valid_append (hinv.tokens token' fp' hlookup) (by simp)
  sessions port' members' hmembers' := by
    obtain ⟨later, hcurrent, hfollows⟩ := hinv.sessions port' members' hmembers'
    refine ⟨_, current_append hcurrent (by simp [DataEvent.Ends]), ?_⟩
    by_cases hport : port' = port
    · subst hport
      have hbefore : d.addrsOf port' = addrs := by rw [addrsOf, haddrs, Option.getD_some]
      have hafter : DataPlane.addrsOf { d with
          learned := d.learned.insert port' (addrs.erase fp) } port' = addrs.erase fp := by
        rw [addrsOf, AList.lookup_insert, Option.getD_some]
      refine ⟨fun fp' addr' hlookup => ?_, fun fp' hsaid => ?_⟩
      · rw [hafter] at hlookup
        obtain ⟨hne, hold⟩ := lookup_erase_iff.mp hlookup
        obtain ⟨hother, token', rest, hstanding⟩ := hfollows.addrs fp' addr' (hbefore ▸ hold)
        exact ⟨hother, token', _, hstanding.append (by simpa using Ne.symm hne)⟩
      · rw [hafter]
        refine ⟨(AList.mem_insert _).mpr (.inl rfl), ?_⟩
        by_cases hne : fp' = fp
        · subst hne
          exact AList.lookup_erase fp' addrs
        · obtain ⟨rest, hstanding⟩ := hsaid
          rw [AList.lookup_erase_ne hne]
          rcases hstanding.of_append with hnew | ⟨before, hold, -⟩
          · cases List.mem_singleton.mp hnew
            exact absurd rfl hne
          · rw [← hbefore]
            exact (hfollows.left fp' ⟨before, hold⟩).2
    · exact hfollows.frame (AList.lookup_insert_ne hport) (by simpa [At] using Ne.symm hport)
  learned port' addrs' hlookup := by
    rcases lookup_insert_iff.mp hlookup with ⟨rfl, rfl⟩ | ⟨-, hold⟩
    · exact ⟨(hinv.learned port' addrs haddrs).1, hsome⟩
    · exact hinv.learned port' addrs' hold
  isolated := each_event_append.mpr ⟨hinv.isolated, each_event_singleton.mpr trivial⟩

/-- The last member says goodbye: the session ends. -/
theorem Isolating.last_goodbye (hinv : d.Isolating trace) :
    Isolating (trace ++ [.goodbye port fp, .table (.closed port)])
      { leases := d.leases.removeSessionPort port, learned := d.learned.erase port } where
  tables port' := by
    show port' ∈ d.leases.sessionMembers.erase port ↔ port' ∈ d.leases.sessionPorts.erase port
    rw [AList.mem_erase, Finset.mem_erase, hinv.tables]
  tokens token' fp' hlookup :=
    valid_append (hinv.tokens token' fp' hlookup) (by simp [LeaseEvent.drawn])
  sessions port' members' hmembers' := by
    obtain ⟨hport, hold⟩ := lookup_erase_iff.mp hmembers'
    obtain ⟨later, hcurrent, hfollows⟩ := hinv.sessions port' members' hold
    refine ⟨_, current_append hcurrent (by simpa [DataEvent.Ends] using Ne.symm hport), ?_⟩
    exact hfollows.frame (AList.lookup_erase_ne hport) (by simpa [At] using Ne.symm hport)
  learned port' addrs' hlookup := by
    obtain ⟨hport, hold⟩ := lookup_erase_iff.mp hlookup
    obtain ⟨hmember, hsome⟩ := hinv.learned port' addrs' hold
    exact ⟨AList.mem_erase.mpr ⟨hport, hmember⟩, hsome⟩
  isolated := by
    refine each_event_append.mpr ⟨hinv.isolated, fun before event after hsplit => ?_⟩
    have hmem : event ∈ [DataEvent.goodbye port fp, .table (.closed port)] := by simp [hsplit]
    rcases List.mem_cons.mp hmem with rfl | hmem
    · trivial
    · obtain rfl := List.mem_singleton.mp hmem
      trivial

/-- Where a payload is forwarded to was learned from the other member. -/
theorem Isolating.forward (hinv : d.Isolating trace)
    (hmembers : d.leases.sessionMembers.lookup port = some members)
    (htoken : d.leases.tokenMap.lookup token = some fp) (payload : List UInt8) :
    d.Isolating (trace ++ (d.destination port fp).toList.map (.forwarded port fp token payload)) := by
  cases hdestination : d.destination port fp with
  | none => simpa using hinv
  | some dst =>
    obtain ⟨later, hcurrent, hfollows⟩ := hinv.sessions port members hmembers
    have hlearned : ∃ other ∈ otherMember members fp, LearnedAddr later port other dst := by
      unfold destination LeaseTable.sessionMembersOf at hdestination
      rw [hmembers] at hdestination
      obtain ⟨addrs, haddrs, hdst⟩ := Option.bind_eq_some_iff.mp hdestination
      obtain ⟨other, hother, hlookup⟩ := Option.bind_eq_some_iff.mp hdst
      have hsame : d.addrsOf port = addrs := by rw [addrsOf, haddrs, Option.getD_some]
      exact ⟨other, hother, (hfollows.addrs other dst (hsame ▸ hlookup)).2⟩
    exact { hinv with
      tokens := fun token' fp' hlookup => valid_append (hinv.tokens token' fp' hlookup) (by simp)
      sessions := fun port' members' hmembers' => by
        obtain ⟨later', hcurrent', hfollows'⟩ := hinv.sessions port' members' hmembers'
        exact ⟨_, current_append hcurrent' (by simp [DataEvent.Ends]),
          hfollows'.frame rfl (by simp [At])⟩
      isolated := each_event_append.mpr ⟨hinv.isolated, each_event_singleton.mpr
        (by simpa using ⟨hinv.tokens token fp htoken, members, later, hcurrent, hlearned⟩)⟩ }

/-- The packet of a member. -/
theorem Isolating.dispatch (hinv : d.Isolating trace) (packet : Packet) (addr : SocketAddr)
    (hmembers : d.leases.sessionMembers.lookup port = some members)
    (hmember : (otherMember members packet.sender).isSome)
    (htoken : d.leases.tokenMap.lookup packet.token = some packet.sender)
    (hgoodbye : packet.flag = flagGoodbyeKnock → port ∈ d.learned) :
    (d.dispatch port addr packet).1.Isolating (trace ++ (d.dispatch port addr packet).2) := by
  unfold DataPlane.dispatch
  split
  · exact hinv.learn hmembers hmember htoken
  · split
    · next hflag =>
      split
      · next addrs haddrs =>
        split
        · exact hinv.last_goodbye
        · next hsome => exact hinv.goodbye haddrs hsome
      · next hnone => exact absurd (hgoodbye hflag) (AList.lookup_eq_none.mp hnone)
    · dsimp only
      rw [← List.append_assoc]
      generalize (match (d.addrsOf port).lookup packet.sender with
        | some old => decide (old ≠ addr)
        | none => false) = drifted
      cases drifted with
      | false =>
        simpa using hinv.forward hmembers htoken packet.payload
      | true =>
        exact (hinv.learn hmembers hmember htoken).forward hmembers htoken packet.payload

/-- An operation of the control plane that leaves the sessions. -/
theorem Isolating.control (hinv : d.Isolating trace) {input : LeaseInput} {events : List LeaseEvent}
    (hcontrol : input.isControl = true) (hnext : d.leases.step input = some (leases, events))
    (hmembers : leases.sessionMembers = d.leases.sessionMembers)
    (hports : leases.sessionPorts = d.leases.sessionPorts)
    (hevents : ∀ event ∈ events, (∀ port, event ≠ .closed port) ∧
      ∀ port fpA fpB, event ≠ .opened port fpA fpB) :
    Isolating (trace ++ events.map .table) { d with leases } where
  tables port := by
    show port ∈ leases.sessionMembers ↔ port ∈ leases.sessionPorts
    rw [hmembers, hports]
    exact hinv.tables port
  tokens token fp hlookup := hinv.resolves input hcontrol hnext hlookup
  sessions port members hlookup := by
    obtain ⟨later, hcurrent, hfollows⟩ := hinv.sessions port members (hmembers ▸ hlookup)
    refine ⟨_, current_append hcurrent fun event hmem hends => ?_, hfollows.frame rfl ?_⟩
    · obtain ⟨told, htold, rfl⟩ := List.mem_map.mp hmem
      rcases hends with heq | ⟨fpA, fpB, heq⟩
      · exact (hevents told htold).1 port (DataEvent.table.inj heq)
      · exact (hevents told htold).2 port fpA fpB (DataEvent.table.inj heq)
    · intro event hmem hat
      obtain ⟨told, -, rfl⟩ := List.mem_map.mp hmem
      rcases hat with ⟨_, _, _, heq⟩ | ⟨_, heq⟩ <;> cases heq
  learned port addrs hlookup := by
    show port ∈ leases.sessionMembers ∧ _
    rw [hmembers]
    exact hinv.learned port addrs hlookup
  isolated := isolated_tables hinv.isolated fun event hmem => by
    obtain ⟨told, -, rfl⟩ := List.mem_map.mp hmem
    exact ⟨told, rfl⟩

/-- A session begins at a port at which nothing has been learned. -/
theorem Isolating.opened (hinv : d.Isolating trace) {fpA fpB : Fingerprint}
    (hport : port ∉ d.leases.sessionPorts)
    (hcontrol : d.leases.step (.allocSessionPort fpA fpB now) = some ({ d.leases with
      sessionPorts := insert port d.leases.sessionPorts
      sessionMembers := d.leases.sessionMembers.insert port (fpA, fpB)
      sessionActivity := d.leases.sessionActivity.insert port now }, [.opened port fpA fpB])) :
    Isolating (trace ++ [.table (.opened port fpA fpB)]) { d with leases := { d.leases with
      sessionPorts := insert port d.leases.sessionPorts
      sessionMembers := d.leases.sessionMembers.insert port (fpA, fpB)
      sessionActivity := d.leases.sessionActivity.insert port now } } where
  tables port' := by rw [AList.mem_insert, Finset.mem_insert, hinv.tables]
  tokens token fp hlookup := hinv.resolves _ rfl hcontrol hlookup
  sessions port' members hlookup := by
    rcases lookup_insert_iff.mp hlookup with ⟨rfl, rfl⟩ | ⟨hne, hold⟩
    · refine ⟨[], standing_new (by simp), fun fp addr hlearned => ?_, fun fp hsaid => ?_⟩
      · cases hbefore : d.learned.lookup port' with
        | none =>
          have hnone : (d.addrsOf port').lookup fp = none := by
            rw [addrsOf, hbefore, Option.getD_none]
            rfl
          cases hnone.symm.trans hlearned
        | some addrs =>
          exact absurd ((hinv.tables port').mp (hinv.learned port' addrs hbefore).1) hport
      · obtain ⟨rest, hstanding⟩ := hsaid
        cases hstanding.mem
    · obtain ⟨later, hcurrent, hfollows⟩ := hinv.sessions port' members hold
      refine ⟨_, current_append hcurrent fun event hmem hends => ?_,
        hfollows.frame rfl (by simp [At])⟩
      obtain rfl := List.mem_singleton.mp hmem
      rcases hends with heq | ⟨_, _, heq⟩
      · cases heq
      · exact hne (LeaseEvent.opened.inj (DataEvent.table.inj heq)).1.symm
  learned port' addrs hlookup :=
    ⟨(AList.mem_insert _).mpr (.inr (hinv.learned port' addrs hlookup).1),
      (hinv.learned port' addrs hlookup).2⟩
  isolated := isolated_tables hinv.isolated fun event hmem => ⟨_, List.mem_singleton.mp hmem⟩

/-- Leases and sessions are reaped: the ports that are taken back have learned nothing. -/
theorem Isolating.reaped (hinv : d.Isolating trace) {ttl : Nat}
    (hguard : ∀ port ∈ d.leases.idlePorts ttl now, port ∉ d.learned) :
    Isolating (trace ++ (((d.leases.expired ttl now).filterMap d.leases.tokenOf).map LeaseEvent.revoked ++
        (d.leases.idlePorts ttl now).map LeaseEvent.closed).map .table)
      { d with leases := (d.leases.reapExpired ttl now).1 } := by
  obtain ⟨hmembers, hports, hactivity⟩ :=
    LeaseTable.sessions_remove_all (t := d.leases) (d.leases.expired ttl now)
  have hidle : ((d.leases.expired ttl now).foldl (fun t fp => (t.remove fp).1)
      d.leases).idlePorts ttl now = d.leases.idlePorts ttl now := by
    rw [LeaseTable.idlePorts, LeaseTable.idlePorts, hactivity]
  have hsessions : ∀ {port : UInt16} {members : Fingerprint × Fingerprint},
      (d.leases.reapExpired ttl now).1.sessionMembers.lookup port = some members ↔
        port ∉ d.leases.idlePorts ttl now ∧ d.leases.sessionMembers.lookup port = some members := by
    intro port members
    refine LeaseTable.members_of_remove_session_ports.trans ?_
    rw [hidle, hmembers]
  have hkept : ∀ {port : UInt16}, port ∈ (d.leases.reapExpired ttl now).1.sessionPorts ↔
      port ∉ d.leases.idlePorts ttl now ∧ port ∈ d.leases.sessionPorts := by
    intro port
    refine LeaseTable.ports_of_remove_session_ports.trans ?_
    rw [hidle, hports]
  exact {
    tables := fun port => by
      rw [hkept, ← hinv.tables, ← AList.lookup_isSome, ← AList.lookup_isSome,
        Option.isSome_iff_exists, Option.isSome_iff_exists]
      constructor
      · rintro ⟨members, hlookup⟩
        exact ⟨(hsessions.mp hlookup).1, members, (hsessions.mp hlookup).2⟩
      · rintro ⟨hnot, members, hlookup⟩
        exact ⟨members, hsessions.mpr ⟨hnot, hlookup⟩⟩
    tokens := fun token fp hlookup =>
      hinv.resolves (.reapExpired ttl now) rfl rfl hlookup
    sessions := fun port members hlookup => by
      obtain ⟨hnot, hold⟩ := hsessions.mp hlookup
      obtain ⟨later, hcurrent, hfollows⟩ := hinv.sessions port members hold
      refine ⟨_, current_append hcurrent fun event hmem hends => ?_, hfollows.frame rfl ?_⟩
      · obtain ⟨told, htold, rfl⟩ := List.mem_map.mp hmem
        rcases List.mem_append.mp htold with hrevoked | hclosed
        · obtain ⟨token, -, rfl⟩ := List.mem_map.mp hrevoked
          rcases hends with heq | ⟨_, _, heq⟩ <;> cases heq
        · obtain ⟨idle, hidle, rfl⟩ := List.mem_map.mp hclosed
          rcases hends with heq | ⟨_, _, heq⟩
          · obtain rfl := LeaseEvent.closed.inj (DataEvent.table.inj heq)
            exact hnot hidle
          · cases heq
      · intro event hmem hat
        obtain ⟨told, -, rfl⟩ := List.mem_map.mp hmem
        rcases hat with ⟨_, _, _, heq⟩ | ⟨_, heq⟩ <;> cases heq
    learned := fun port addrs hlookup => by
      obtain ⟨hmember, hsome⟩ := hinv.learned port addrs hlookup
      obtain ⟨members, hfound⟩ := Option.isSome_iff_exists.mp (AList.lookup_isSome.mpr hmember)
      refine ⟨AList.lookup_isSome.mp (Option.isSome_of_mem (hsessions.mpr ⟨?_, hfound⟩)), hsome⟩
      intro hidle
      exact hguard port hidle (AList.lookup_isSome.mp (Option.isSome_of_mem hlookup))
    isolated := isolated_tables hinv.isolated fun event hmem => by
      obtain ⟨told, -, rfl⟩ := List.mem_map.mp hmem
      exact ⟨told, rfl⟩ }

/-- Every step that meets the guard keeps the invariant. -/
theorem Isolating.step (hinv : d.Isolating trace) (hguard : reclaims trace d input)
    (hnext : d.step input = some (next, emitted)) : next.Isolating (trace ++ emitted) := by
  cases input with
  | packet port addr bytes now =>
    simp only [DataPlane.step] at hnext
    obtain ⟨-, hnext⟩ := of_when hnext
    have hrecv := Option.some.inj hnext
    obtain ⟨leases, hquiet, ⟨-, heq⟩ | ⟨packet, hpassed, heq⟩⟩ := recv_cases d port addr bytes now
    · rw [heq] at hrecv
      obtain ⟨rfl, rfl⟩ := Prod.mk.inj hrecv
      rw [List.append_nil]
      exact hinv.quiet hquiet
    · rw [heq] at hrecv
      obtain ⟨-, hsender, -, -, members, hmembers, hmember⟩ := passed_cases hpassed
      have hgoodbye : packet.flag = flagGoodbyeKnock → port ∈ d.learned := by
        have hchecked := hguard
        simp only [reclaims, (check_spec d.leases port (bytes.take 2048) now).2, hpassed] at hchecked
        exact hchecked
      have hdispatch := (hinv.quiet hquiet).dispatch packet addr
        (hquiet.sessionMembers ▸ hmembers) hmember (hquiet.tokenMap ▸ hsender) hgoodbye
      rw [hrecv] at hdispatch
      exact hdispatch
  | table input =>
    simp only [DataPlane.step] at hnext
    obtain ⟨hcontrol, hnext⟩ := of_when hnext
    obtain ⟨⟨leases, events⟩, htable, heq⟩ := Option.map_eq_some_iff.mp hnext
    obtain ⟨rfl, rfl⟩ := Prod.mk.inj heq
    cases input with
    | alloc fp name hidden token now =>
      have hsame : leases.sessionMembers = d.leases.sessionMembers ∧
          leases.sessionPorts = d.leases.sessionPorts ∧
          ∀ event ∈ events, (∀ port, event ≠ .closed port) ∧
            ∀ port fpA fpB, event ≠ .opened port fpA fpB := by
        have hmove := htable
        simp only [LeaseTable.step, LeaseTable.alloc] at hmove
        cases hfp : d.leases.leases.lookup fp with
        | some existing =>
          simp only [hfp] at hmove
          obtain ⟨rfl, rfl⟩ := answer_inj hmove
          exact ⟨rfl, rfl, by grind⟩
        | none =>
          simp only [hfp] at hmove
          cases hfree : d.leases.freePort with
          | none =>
            simp only [hfree] at hmove
            obtain ⟨rfl, rfl⟩ := answer_inj hmove
            exact ⟨rfl, rfl, by simp⟩
          | some port =>
            simp only [hfree] at hmove
            obtain ⟨rfl, rfl⟩ := answer_inj hmove
            exact ⟨rfl, rfl, by grind⟩
      exact hinv.control hcontrol htable hsame.1 hsame.2.1 hsame.2.2
    | remove fp =>
      obtain ⟨rfl, rfl⟩ := answer_inj htable
      obtain ⟨hmembers, hports, -⟩ := LeaseTable.sessions_remove_all (t := d.leases) [fp]
      exact hinv.control hcontrol htable hmembers hports (by simp)
    | punchSeen fp addr =>
      obtain ⟨rfl, rfl⟩ := answer_inj htable
      have hquiet := LeaseTable.quiet_punch_seen (t := d.leases) fp addr
      exact hinv.control hcontrol htable hquiet.sessionMembers hquiet.sessionPorts (by simp)
    | heartbeat fp now =>
      obtain ⟨rfl, rfl⟩ := answer_inj htable
      have hquiet := LeaseTable.quiet_heartbeat (t := d.leases) fp now
      exact hinv.control hcontrol htable hquiet.sessionMembers hquiet.sessionPorts (by simp)
    | reapExpired ttl now =>
      obtain ⟨rfl, rfl⟩ := answer_inj htable
      exact hinv.reaped hguard
    | allocSessionPort fpA fpB now =>
      have hmove := htable
      simp only [LeaseTable.step] at hmove
      rcases LeaseTable.alloc_session_port_cases d.leases fpA fpB now with hnone | ⟨port, -, -, hport, hsome⟩
      · rw [hnone] at hmove
        obtain ⟨rfl, rfl⟩ := answer_inj hmove
        exact hinv.control hcontrol htable rfl rfl (by simp)
      · rw [hsome] at hmove
        obtain ⟨rfl, rfl⟩ := answer_inj hmove
        exact hinv.opened hport htable
    | getByToken | removeSessionPort | touchSession => cases hcontrol

theorem start_isolating (portStart portEnd : UInt16) :
    (start portStart portEnd).Isolating [] where
  tables port := iff_of_false (AList.notMem_empty port) (Finset.notMem_empty port)
  tokens token fp hlookup := by cases hlookup
  sessions port members hlookup := by cases hlookup
  learned port addrs hlookup := by cases hlookup
  isolated := each_event_nil

theorem Isolating.sound (hinv : d.Isolating trace) : PlaneSound trace d where
  isolated := hinv.isolated
  payloads _ _ _ _ _ _ _ _ hnext hmem := step_payloads hnext hmem
  strangers _ _ _ _ hstranger := recv_stranger hstranger
  fresh port fp addr hlookup := by
    unfold addrsOf at hlookup
    cases hlearned : d.learned.lookup port with
    | none =>
      rw [hlearned] at hlookup
      cases hlookup
    | some addrs =>
      have hmember := (hinv.learned port addrs hlearned).1
      obtain ⟨members, hmembers⟩ := Option.isSome_iff_exists.mp (AList.lookup_isSome.mpr hmember)
      obtain ⟨later, hcurrent, hfollows⟩ := hinv.sessions port members hmembers
      exact ⟨members, later, hcurrent, hfollows.addrs fp addr hlookup⟩
  left port members later hcurrent hfirst hsecond hport := by
    obtain ⟨members', hmembers⟩ := Option.isSome_iff_exists.mp
      (AList.lookup_isSome.mpr ((hinv.tables port).mpr hport))
    obtain ⟨later', hcurrent', hfollows⟩ := hinv.sessions port members' hmembers
    -- The port has only one session.
    obtain ⟨hsame, rfl⟩ := hcurrent.unique hcurrent' (.inr ⟨_, _, rfl⟩) (.inr ⟨_, _, rfl⟩)
    obtain ⟨-, ha, hb⟩ := LeaseEvent.opened.inj (DataEvent.table.inj hsame)
    obtain rfl : members = members' := Prod.ext ha hb
    obtain ⟨hlearned, hgoneA⟩ := hfollows.left _ hfirst
    obtain ⟨-, hgoneB⟩ := hfollows.left _ hsecond
    -- An address of one of them would be left.
    obtain ⟨addrs, haddrs⟩ := Option.isSome_iff_exists.mp (AList.lookup_isSome.mpr hlearned)
    obtain ⟨entry, hentry⟩ := List.exists_mem_of_ne_nil _ (hinv.learned port addrs haddrs).2
    have hlookup : (d.addrsOf port).lookup entry.1 = some entry.2 := by
      rw [addrsOf, haddrs, Option.getD_some]
      exact mem_entries_iff.mp hentry
    obtain ⟨hmember, -⟩ := hfollows.addrs _ _ hlookup
    unfold otherMember at hmember
    split at hmember
    · next heq => rw [← heq, hgoneA] at hlookup; cases hlookup
    · split at hmember
      · next heq => rw [← heq, hgoneB] at hlookup; cases hlookup
      · cases hmember
  idle ttl now port hidle hport := by
    obtain ⟨-, -, hactivity⟩ :=
      LeaseTable.sessions_remove_all (t := d.leases) (d.leases.expired ttl now)
    have hsame : ((d.leases.expired ttl now).foldl (fun t fp => (t.remove fp).1)
        d.leases).idlePorts ttl now = d.leases.idlePorts ttl now := by
      rw [LeaseTable.idlePorts, LeaseTable.idlePorts, hactivity]
    exact (LeaseTable.ports_of_remove_session_ports.mp hport).1 (hsame ▸ hidle)

end DataPlane

/-- Where a session port is reclaimed for idleness only if nothing was learned at it, and a member
says goodbye only at a port that has learned an address, sessions are isolated. -/
theorem data_plane_isolated {portStart portEnd : UInt16} {inputs : List DataInput}
    {trace : List DataEvent} {d : DataPlane}
    (h : Exec DataPlane.step reclaims (.start portStart portEnd) inputs trace d) :
    PlaneSound trace d := by
  suffices hinv : d.Isolating trace from hinv.sound
  induction h with
  | start => exact DataPlane.start_isolating portStart portEnd
  | step _ hguard hnext ih => exact ih.step hguard hnext

/-- The relay forges, repeats and reorders nothing: what it forwards are payloads that packets have
brought, each once at most and in the order of their arrival. -/
theorem forwarded_in_order {portStart portEnd : UInt16} {inputs : List DataInput}
    {trace : List DataEvent} {d : DataPlane}
    (h : Exec DataPlane.step Guard.free (.start portStart portEnd) inputs trace d) :
    (trace.filterMap DataEvent.carried).Sublist (inputs.filterMap DataInput.brought) := by
  induction h with
  | start => exact .refl _
  | step _ _ hnext ih =>
    rw [List.filterMap_append, List.filterMap_append]
    exact ih.append (DataPlane.step_carried hnext)

/-- Where a device sends from. -/
def deviceAddr (port : UInt16) : SocketAddr := { ip := .v4 10 0 0 1, port }

/-- A packet of a device. -/
def sends (device : UInt16) (token : BitVec 128) (flag : UInt8) (payload : List UInt8) (now : Nat) :
    DataInput :=
  .packet 9003 (deviceAddr device) (dataHeaderEncode token flag ++ payload) now

/-- Three devices register, and two of them have a session. -/
def session : List DataInput :=
  [.table (.alloc 1 "phone" false 7 0), .table (.alloc 2 "desk" false 8 0),
    .table (.alloc 3 "tower" false 9 0), .table (.allocSessionPort 1 2 1)]

/-- The session is used and left, and the port gets another one. -/
def leftSession : List DataInput :=
  session ++ [sends 1 7 flagKnock [] 2, sends 2 8 flagKnock [] 2, sends 1 7 flagData [42] 3,
    sends 3 9 flagGoodbyeKnock [] 3, sends 1 7 flagGoodbyeKnock [] 4,
    sends 2 8 flagGoodbyeKnock [] 4, .table (.allocSessionPort 1 3 5)]

/-- The session is idle and reclaimed, and the port gets another one. -/
def idleSession : List DataInput :=
  session ++ [sends 1 7 flagKnock [] 2, sends 2 8 flagKnock [] 2, .table (.heartbeat 1 100),
    .table (.heartbeat 2 100), .table (.heartbeat 3 100), .table (.reapExpired 45 100),
    .table (.allocSessionPort 1 3 101), sends 3 9 flagData [42] 102]

/-- Both members say goodbye before they have knocked. -/
def earlyGoodbyes : List DataInput :=
  session ++ [sends 1 7 flagGoodbyeKnock [] 2, sends 2 8 flagGoodbyeKnock [] 2]

/-- A session that is left: its payload is forwarded, and the next one begins with nothing. -/
theorem left_session_isolated : ∃ trace d,
    Exec DataPlane.step reclaims (.start 9000 9010) leftSession trace d ∧
      .forwarded 9003 1 7 [42] (deviceAddr 2) ∈ trace ∧
      .table (.opened 9003 1 3) ∈ trace ∧ PlaneSound trace d := by
  have hrun : (Machine.run DataPlane.step reclaims [] (.start 9000 9010) leftSession).map
      (fun result => result.2.drop 6) = some [.forwarded 9003 1 7 [42] (deviceAddr 2),
        .goodbye 9003 1, .goodbye 9003 2, .table (.closed 9003), .table (.opened 9003 1 3)] := by
    decide +kernel
  obtain ⟨⟨d, trace⟩, hrun, htrace⟩ := Option.map_eq_some_iff.mp hrun
  have hexec := Exec.start.append_run hrun
  have hlater : ∀ event ∈ trace.drop 6, event ∈ trace := fun event => List.mem_of_mem_drop
  rw [show trace.drop 6 = _ from htrace] at hlater
  exact ⟨trace, d, hexec, hlater _ (by simp), hlater _ (by simp), data_plane_isolated hexec⟩

theorem left_session_in_order :
    ((Machine.history DataPlane.step Guard.free (.start 9000 9010) leftSession).filterMap
      DataEvent.carried).Sublist (leftSession.filterMap DataInput.brought) := by
  obtain ⟨d, hexec⟩ := exec_of_run DataPlane.step Guard.free (.start 9000 9010) leftSession
    (by decide +kernel)
  exact forwarded_in_order hexec

/-- What is learned in a session that was idle is used in the next one at its port; and the port of
a session whose members never knocked is not free when they have said goodbye. -/
theorem data_plane_leaks :
    (∃ trace d, Exec DataPlane.step Guard.free (.start 9000 9010) idleSession trace d ∧
      .forwarded 9003 3 9 [42] (deviceAddr 1) ∈ trace ∧ ¬ PlaneSound trace d) ∧
    ∃ trace d, Exec DataPlane.step Guard.free (.start 9000 9010) earlyGoodbyes trace d ∧
      9003 ∈ d.leases.sessionPorts ∧ ¬ PlaneSound trace d := by
  constructor
  · have hrun : (Machine.run DataPlane.step Guard.free [] (.start 9000 9010) idleSession).map
        Prod.snd = some ([.table (.issued 1 9000 7), .table (.issued 2 9001 8),
          .table (.issued 3 9002 9), .table (.opened 9003 1 2),
          .learned 9003 1 7 (deviceAddr 1), .learned 9003 2 8 (deviceAddr 2),
          .table (.closed 9003)] ++ .table (.opened 9003 1 3) ::
          [.forwarded 9003 3 9 [42] (deviceAddr 1)]) := by decide +kernel
    obtain ⟨⟨d, trace⟩, hrun, rfl⟩ := Option.map_eq_some_iff.mp hrun
    refine ⟨_, d, Exec.start.append_run hrun, by simp, fun hsound => ?_⟩
    have hforwarded := hsound.isolated _ _ [] (List.append_cons _ _ _)
    obtain ⟨-, members, later, hcurrent, other, -, token, rest, hlearned⟩ := hforwarded
    have hnew : ∀ before, CurrentSession (before ++ [.table (.opened 9003 1 3)]) 9003 (1, 3) [] :=
      fun before => standing_new (by simp)
    obtain ⟨-, rfl⟩ := hcurrent.unique (hnew _) (.inr ⟨_, _, rfl⟩) (.inr ⟨_, _, rfl⟩)
    cases hlearned.mem
  · have hrun : (Machine.run DataPlane.step Guard.free [] (.start 9000 9010) earlyGoodbyes).map
        (fun result => (result.2, decide (9003 ∈ result.1.leases.sessionPorts))) =
          some ([.table (.issued 1 9000 7), .table (.issued 2 9001 8), .table (.issued 3 9002 9)] ++
            .table (.opened 9003 1 2) :: [.goodbye 9003 1, .goodbye 9003 2], true) := by
      decide +kernel
    obtain ⟨⟨d, trace⟩, hrun, hviews⟩ := Option.map_eq_some_iff.mp hrun
    obtain ⟨rfl, hport⟩ := Prod.mk.inj hviews
    refine ⟨_, d, Exec.start.append_run hrun, of_decide_eq_true hport, fun hsound => ?_⟩
    have hcurrent : ∀ before, CurrentSession (before ++ .table (.opened 9003 1 2) ::
        [.goodbye 9003 1, .goodbye 9003 2]) 9003 (1, 2) [.goodbye 9003 1, .goodbye 9003 2] :=
      fun before => standing_new (by simp [DataEvent.Ends])
    exact hsound.left 9003 (1, 2) _ (hcurrent _) ⟨[.goodbye 9003 2], [], rfl, by simp⟩
      ⟨[], [.goodbye 9003 1], rfl, by simp⟩ (of_decide_eq_true hport)

end LocalTrans.Relay.Lease
