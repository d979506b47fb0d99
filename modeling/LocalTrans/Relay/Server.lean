import LocalTrans.Foundation.Execution
import LocalTrans.Relay.Messages

/-!
# The relay server

`lease.rs` and `control.rs`: the table of leases and session ports, the control connections, and
the handlers that register clients, answer them and push rosters. What a handler does between two
points where another one can run is a `RelayOp`; a `RelayThread` is what it still has to do.
`RelayServer.step` runs the operations of all threads in any order.
-/

namespace LocalTrans.Relay

open Foundation

/-- `LeaseEntry`, with the connection whose registration it was last given to. -/
structure LeaseEntry where
  fingerprint : Fingerprint
  name : String
  port : UInt16
  token : BitVec 128
  hidden : Bool
  holder : Nat
deriving DecidableEq

/-- `LeaseTable`: the ports `portStart` up to `portEnd`, the leases, and the session ports with the
members of the sessions. -/
structure LeaseTable where
  portStart : UInt16
  portEnd : UInt16
  leases : List LeaseEntry
  sessions : List (UInt16 × Fingerprint × Fingerprint)

namespace LeaseTable

/-- The lease of a fingerprint. -/
def get (t : LeaseTable) (fp : Fingerprint) : Option LeaseEntry :=
  t.leases.find? fun entry => entry.fingerprint = fp

/-- The ports that can be given out. -/
def ports (t : LeaseTable) : List UInt16 :=
  (List.range' t.portStart.toNat (t.portEnd.toNat - t.portStart.toNat)).map UInt16.ofNat

/-- `LeaseTable::alloc`: renew the lease of the fingerprint, or give it the first port that no lease
has. -/
def alloc (t : LeaseTable) (fp : Fingerprint) (name : String) (hidden : Bool) (token : BitVec 128)
    (conn : Nat) : Option (LeaseTable × LeaseInfo) :=
  match t.get fp with
  | some existing =>
    some ({ t with leases := t.leases.map fun entry =>
        if entry.fingerprint = fp then { entry with name, hidden, token, holder := conn }
        else entry }, { dataPort := existing.port, token })
  | none =>
    match t.ports.find? fun port => t.leases.all fun entry => entry.port ≠ port with
    | some port =>
      some ({ t with leases :=
          { fingerprint := fp, name, port, token, hidden, holder := conn } :: t.leases },
        { dataPort := port, token })
    | none => none

/-- `LeaseTable::remove`. -/
def remove (t : LeaseTable) (fp : Fingerprint) : LeaseTable :=
  { t with leases := t.leases.filter fun entry => entry.fingerprint ≠ fp }

/-- `snapshot_roster`: everyone else who does not hide. -/
def snapshotRoster (t : LeaseTable) (exclude : Fingerprint) (publicIp : IpAddr) :
    List RemoteDevice :=
  (t.leases.filter fun entry => entry.fingerprint ≠ exclude ∧ entry.hidden = false).map
    fun entry => {
      fingerprint := entry.fingerprint, name := entry.name
      leaseAddr := { ip := publicIp, port := entry.port }, relayedEphemeral := false }

/-- `is_hidden`. -/
def isHidden (t : LeaseTable) (fp : Fingerprint) : Bool :=
  (t.get fp).any LeaseEntry.hidden

/-- `alloc_session_port`: the first port that neither a lease nor a session has. -/
def allocSessionPort (t : LeaseTable) (a b : Fingerprint) : Option (LeaseTable × UInt16) :=
  match t.ports.find? fun port => (t.leases.all fun entry => entry.port ≠ port) ∧
      t.sessions.all fun session => session.1 ≠ port with
  | some port => some ({ t with sessions := t.sessions ++ [(port, a, b)] }, port)
  | none => none

/-- `remove_session_port`. -/
def removeSessionPort (t : LeaseTable) (port : UInt16) : LeaseTable :=
  { t with sessions := t.sessions.filter fun session => session.1 ≠ port }

end LeaseTable

/-- What a handler does at once: allocate a lease for a registration, and enter the connection;
push the acknowledgement; number the rosters of a broadcast, and look up who is to get one; number
the roster that answers a ping; take the snapshot for a client and push it; for a punch, see
whether the target hides, and allocate the session; push another message; take out the entry of a
connection, or the lease of a fingerprint; end. -/
inductive RelayOp where
  | register (fp : Fingerprint) (name : String) (hidden : Bool) (token : BitVec 128) (conn : Nat)
      (observed : SocketAddr)
  | insert (fp : Fingerprint) (conn : Nat)
  | ack (conn : Nat) (lease : Option LeaseInfo) (observed : SocketAddr)
  | announce (except : Option Fingerprint)
  | fanOut (except : Option Fingerprint) (rev : Nat)
  | pong (fp : Fingerprint) (conn : Nat)
  | roster (fp : Fingerprint) (conn rev : Nat)
  | checkTarget (requester : Fingerprint) (conn : Nat) (target : Fingerprint) (targetConn : Nat)
      (rateOk : Bool)
  | allocate (requester : Fingerprint) (conn : Nat) (target : Fingerprint) (targetConn : Nat)
  | push (fp : Fingerprint) (conn : Nat) (msg : RelayMsg)
  | dropConn (fp : Fingerprint) (conn : Nat)
  | dropLease (fp : Fingerprint) (conn : Nat)
  | finish (conn : Nat)
deriving DecidableEq

/-- What is still to be done in the handler of a connection, or in the loop of the server. -/
structure RelayThread where
  owner : Option Nat
  ops : List RelayOp
deriving DecidableEq

/-- `RelayServer`. Connections are numbered as they prove who they are; `peers` has the fingerprint
of each, and `ended` those whose handler has ended. -/
structure RelayServer where
  table : LeaseTable
  publicIp : IpAddr
  conns : List (Fingerprint × Nat)
  rosterRev : Nat
  threads : List RelayThread
  peers : List Fingerprint
  ended : List Nat
  accepting : Bool

/-- A client proves that it has a fingerprint and registers; it sends `Ping`, `Leave` or `Punch`;
its handler sees that the connection is closed, or fails to accept a stream; leases have expired,
or a session; a thread does its next operation, and what it pushes is written in time or not. -/
inductive RelayInput where
  | connect (fp : Fingerprint) (name : String) (hidden : Bool) (token : BitVec 128)
      (observed : SocketAddr)
  | ping (conn : Nat)
  | leave (conn : Nat)
  | punch (conn : Nat) (target : Fingerprint) (rateOk : Bool)
  | closed (conn : Nat)
  | acceptFailed (conn : Nat)
  | reap (expired : List Fingerprint)
  | sessionEnded (port : UInt16)
  | run (thread : Nat) (written : Bool)
deriving DecidableEq

/-- A message is pushed on a connection, or cannot be encoded and the task panics; a session
address is allocated; the entry or the lease of one connection is removed on behalf of another. -/
inductive RelayEvent where
  | pushed (conn : Nat) (msg : RelayMsg)
  | panicked (owner : Option Nat)
  | allocated (requester target : Fingerprint) (addr : SocketAddr)
  | connRemoved (behalf conn : Nat)
  | leaseRemoved (behalf conn : Nat)
deriving DecidableEq

/-- The last operation of a handler. -/
def RelayOp.isFinish : RelayOp → Bool
  | .finish _ => true
  | _ => false

namespace RelayServer

/-- A server that nobody has registered with. -/
def start (portStart portEnd : UInt16) (publicIp : IpAddr) : RelayServer :=
  { table := { portStart, portEnd, leases := [], sessions := [] }, publicIp, conns := []
    rosterRev := 0, threads := [], peers := [], ended := [], accepting := true }

/-- The fingerprint under which a connection is entered. -/
def fpOf (s : RelayServer) (conn : Nat) : Option Fingerprint :=
  (s.conns.find? fun pair => pair.2 = conn).map Prod.fst

/-- Nothing is being done for an owner. -/
def Idle (s : RelayServer) (owner : Option Nat) : Prop :=
  ∀ thread ∈ s.threads, thread.owner = owner → thread.ops = []
deriving Decidable

/-- The handler of a connection waits for a stream or the end of the connection. -/
def Ready (s : RelayServer) (conn : Nat) : Prop :=
  conn < s.peers.length ∧ conn ∉ s.ended ∧ s.Idle (some conn)
deriving Decidable

/-- Begin to do something. -/
def spawn (s : RelayServer) (owner : Option Nat) (ops : List RelayOp) : RelayServer :=
  { s with threads := s.threads ++ [{ owner, ops }] }

/-- What a thread still has to do. -/
def setOps (s : RelayServer) (i : Nat) (ops : List RelayOp) : RelayServer :=
  { s with threads := s.threads.modify i fun thread => { thread with ops } }

/-- The task of the owner dies. -/
def panic (s : RelayServer) (owner : Option Nat) : RelayServer :=
  { s with
    threads := s.threads.map fun thread =>
      if thread.owner = owner then { thread with ops := [] } else thread
    ended := owner.toList ++ s.ended
    accepting := s.accepting && owner.isSome }

/-- The roster pushes of a broadcast, each at its own pace. -/
def rosterPushes (s : RelayServer) (owner : Option Nat) (except : Option Fingerprint) (rev : Nat) :
    List RelayThread :=
  (s.conns.filter fun pair => some pair.1 ≠ except).map fun pair =>
    { owner, ops := [.roster pair.1 pair.2 rev] }

/-- `push`, and what follows it, which depends on whether it was written in time. -/
def push (s : RelayServer) (i : Nat) (owner : Option Nat) (conn : Nat) (msg : RelayMsg)
    (written : Bool) (rest failed : List RelayOp) : RelayServer × List RelayEvent :=
  match encodeRelayMsg msg with
  | .error _ => (s.panic owner, [.panicked owner])
  | .ok _ => if written then (s.setOps i rest, [.pushed conn msg]) else (s.setOps i failed, [])

/-- `push_guarded`: a connection on which the push fails is evicted. -/
def pushGuarded (s : RelayServer) (i : Nat) (owner : Option Nat) (fp : Fingerprint) (conn : Nat)
    (msg : RelayMsg) (written : Bool) (rest : List RelayOp) : RelayServer × List RelayEvent :=
  s.push i owner conn msg written rest (.dropConn fp conn :: .dropLease fp conn :: rest)

/-- The answer to a punch that fails. -/
def punchFailed (fp : Fingerprint) (conn : Nat) (reason : String) : RelayOp :=
  .push fp conn (.punchResp false (some reason) none)

/-- The next operation of a thread. -/
def runOp (s : RelayServer) (i : Nat) (owner : Option Nat) (rest : List RelayOp) (written : Bool) :
    RelayOp → RelayServer × List RelayEvent
  | .register fp name hidden token conn observed =>
    match s.table.alloc fp name hidden token conn with
    | some (table, lease) =>
      ({ s with table }.setOps i
        (.insert fp conn :: .ack conn (some lease) observed :: .announce (some fp) :: rest), [])
    | none => (s.setOps i (.ack conn none observed :: rest), [])
  | .insert fp conn =>
    ({ s with conns := (fp, conn) :: s.conns.filter fun pair => pair.1 ≠ fp }.setOps i rest, [])
  | .ack conn lease observed =>
    -- A failure is only logged.
    s.push i owner conn (.registerAck lease (some observed.text)) written rest rest
  | .announce except =>
    ({ s with rosterRev := s.rosterRev + 1 }.setOps i (.fanOut except s.rosterRev :: rest), [])
  | .fanOut except rev =>
    let next := s.setOps i rest
    ({ next with threads := next.threads ++ s.rosterPushes owner except rev }, [])
  | .pong fp conn =>
    ({ s with rosterRev := s.rosterRev + 1 }.setOps i (.roster fp conn s.rosterRev :: rest), [])
  | .roster fp conn rev =>
    s.pushGuarded i owner fp conn (.roster rev (s.table.snapshotRoster fp s.publicIp)) written rest
  | .checkTarget requester conn target targetConn rateOk =>
    -- A target that hides is as unreachable as one that is away.
    if s.table.isHidden target then
      (s.setOps i (punchFailed requester conn "对方当前不可达" :: rest), [])
    else if rateOk = false then
      (s.setOps i (punchFailed requester conn "请求过于频繁,请稍后再试" :: rest), [])
    else (s.setOps i (.allocate requester conn target targetConn :: rest), [])
  | .allocate requester conn target targetConn =>
    match s.table.allocSessionPort requester target with
    | none => (s.setOps i (punchFailed requester conn "会话端口耗尽" :: rest), [])
    | some (table, port) =>
      let addr : SocketAddr := { ip := s.publicIp, port }
      ({ s with table }.setOps i (.push target targetConn (.punchNotif requester addr) ::
          .push requester conn (.punchResp true none (some addr.text)) :: rest),
        [.allocated requester target addr])
  | .push fp conn msg => s.pushGuarded i owner fp conn msg written rest
  | .dropConn fp conn =>
    ({ s with conns := s.conns.filter fun pair => pair.1 ≠ fp }.setOps i rest,
      (s.conns.filter fun pair => pair.1 = fp).map fun pair => .connRemoved conn pair.2)
  | .dropLease fp conn =>
    ({ s with table := s.table.remove fp }.setOps i rest,
      (s.table.leases.filter fun entry => entry.fingerprint = fp).map fun entry =>
        .leaseRemoved conn entry.holder)
  | .finish conn => ({ s with ended := conn :: s.ended }.setOps i rest, [])

/-- One step. -/
def step : Machine RelayServer RelayInput RelayEvent
  | s, .connect fp name hidden token observed =>
    if s.accepting then
      some ({ s with peers := s.peers ++ [fp] }.spawn (some s.peers.length)
        [.register fp name hidden token s.peers.length observed], [])
    else none
  | s, .ping conn =>
    if s.Ready conn then
      match s.fpOf conn with
      | some fp => some (s.spawn (some conn) [.pong fp conn], [])
      | none => some (s, [])
    else none
  | s, .leave conn =>
    if s.Ready conn then
      match s.fpOf conn with
      | some fp =>
        some (s.spawn (some conn) [.dropLease fp conn, .dropConn fp conn, .announce none], [])
      | none => some (s, [])
    else none
  | s, .punch conn target rateOk =>
    if s.Ready conn then
      match s.fpOf conn, s.conns.lookup target with
      | some requester, some targetConn =>
        some (s.spawn (some conn) [.checkTarget requester conn target targetConn rateOk], [])
      | some requester, none =>
        some (s.spawn (some conn) [punchFailed requester conn "对方当前不可达"], [])
      | none, _ => some (s, [])
    else none
  | s, .closed conn =>
    if s.Ready conn then
      match s.fpOf conn with
      | some fp => some (s.spawn (some conn)
          [.dropConn fp conn, .dropLease fp conn, .announce none, .finish conn], [])
      | none => some ({ s with ended := conn :: s.ended }, [])
    else none
  | s, .acceptFailed conn =>
    if s.Ready conn then some ({ s with ended := conn :: s.ended }, []) else none
  | s, .reap expired =>
    if s.accepting ∧ s.Idle none ∧ expired ≠ [] ∧ ∀ fp ∈ expired, (s.table.get fp).isSome then
      some ({ s with table := expired.foldl LeaseTable.remove s.table }.spawn none
        [.announce none], [])
    else none
  | s, .sessionEnded port => some ({ s with table := s.table.removeSessionPort port }, [])
  | s, .run i written =>
    match s.threads[i]? with
    | some { owner, ops := op :: rest } =>
      -- A handler ends when its pushes are done.
      if op.isFinish ∧ ∃ other ∈ s.threads.eraseIdx i, other.owner = owner ∧ other.ops ≠ [] then
        none
      else some (s.runOp i owner rest written op)
    | _ => none

end RelayServer

end LocalTrans.Relay
