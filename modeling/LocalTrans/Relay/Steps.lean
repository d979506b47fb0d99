import LocalTrans.Relay.Server

/-!
# The steps of the relay server

What one step of the relay does, said once: `step_pending` for the operations that are to be done,
`step_change` for the connections, the leases and the handlers that have ended, and `push_cases` for
a push. `Enrolled` ties the entries and leases to the fingerprints that the connections proved.
-/

namespace LocalTrans.Relay

open Foundation

/-- The registration that an operation belongs to. -/
def RelayOp.enters : RelayOp → Option (Fingerprint × Nat)
  | .register fp _ _ _ conn _ => some (fp, conn)
  | .insert fp conn => some (fp, conn)
  | _ => none

/-- The connection that is evicted if an operation fails. -/
def RelayOp.guarded : RelayOp → Option (Fingerprint × Nat)
  | .roster fp conn _ => some (fp, conn)
  | .push fp conn _ => some (fp, conn)
  | _ => none

/-- Why a punch is refused. -/
def punchReasons : List String :=
  ["对方当前不可达", "请求过于频繁,请稍后再试", "会话端口耗尽"]

namespace RelayServer

/-- An operation is still to be done for an owner. -/
def Pending (s : RelayServer) (owner : Option Nat) (op : RelayOp) : Prop :=
  ∃ thread ∈ s.threads, thread.owner = owner ∧ op ∈ thread.ops

/-- An input runs an operation. -/
def Runs (s : RelayServer) (input : RelayInput) (op : RelayOp) : Prop :=
  ∃ i written owner rest, input = .run i written ∧ s.threads[i]? = some ⟨owner, op :: rest⟩

/-- What an operation pushes, and on which connection. -/
def message (s : RelayServer) : RelayOp → Option (Nat × RelayMsg)
  | .ack conn lease observed => some (conn, .registerAck lease (some observed.text))
  | .roster fp conn rev => some (conn, .roster rev (s.table.snapshotRoster fp s.publicIp))
  | .push _ conn msg => some (conn, msg)
  | _ => none

/-- What an operation leaves to do. -/
inductive Yields (s : RelayServer) (written : Bool) : RelayOp → RelayOp → Prop where
  | insert {fp : Fingerprint} {name : String} {hidden : Bool} {token : BitVec 128} {conn : Nat}
      {observed : SocketAddr} :
      Yields s written (.register fp name hidden token conn observed) (.insert fp conn)
  | ack {fp : Fingerprint} {name : String} {hidden : Bool} {token : BitVec 128} {conn : Nat}
      {observed : SocketAddr} (lease : Option LeaseInfo) :
      Yields s written (.register fp name hidden token conn observed) (.ack conn lease observed)
  | announce {fp : Fingerprint} {name : String} {hidden : Bool} {token : BitVec 128} {conn : Nat}
      {observed : SocketAddr} :
      Yields s written (.register fp name hidden token conn observed) (.announce (some fp))
  | fanOut {except : Option Fingerprint} :
      Yields s written (.announce except) (.fanOut except s.rosterRev)
  | broadcast {except : Option Fingerprint} {rev : Nat} {pair : Fingerprint × Nat}
      (hmem : pair ∈ s.conns) : Yields s written (.fanOut except rev) (.roster pair.1 pair.2 rev)
  | pong {fp : Fingerprint} {conn : Nat} :
      Yields s written (.pong fp conn) (.roster fp conn s.rosterRev)
  | evict {op later : RelayOp} {pair : Fingerprint × Nat} {conn : Nat} {msg : RelayMsg}
      (hguarded : op.guarded = some pair) (hmsg : s.message op = some (conn, msg))
      (hfits : msg.body.length ≤ maxFrame) (hfailed : written = false)
      (hlater : later = .dropConn pair.1 pair.2 ∨ later = .dropLease pair.1 pair.2) :
      Yields s written op later
  | refused {requester target : Fingerprint} {conn targetConn : Nat} {rateOk : Bool}
      {reason : String} (hreason : reason ∈ punchReasons) :
      Yields s written (.checkTarget requester conn target targetConn rateOk)
        (punchFailed requester conn reason)
  | allowed {requester target : Fingerprint} {conn targetConn : Nat} {rateOk : Bool} :
      Yields s written (.checkTarget requester conn target targetConn rateOk)
        (.allocate requester conn target targetConn)
  | exhausted {requester target : Fingerprint} {conn targetConn : Nat} {reason : String}
      (hreason : reason ∈ punchReasons) :
      Yields s written (.allocate requester conn target targetConn) (punchFailed requester conn reason)
  | notify {requester target : Fingerprint} {conn targetConn : Nat} (addr : SocketAddr) :
      Yields s written (.allocate requester conn target targetConn)
        (.push target targetConn (.punchNotif requester addr))
  | respond {requester target : Fingerprint} {conn targetConn : Nat} {table : LeaseTable}
      {port : UInt16} (halloc : s.table.allocSessionPort requester target = some (table, port)) :
      Yields s written (.allocate requester conn target targetConn)
        (.push requester conn (.punchResp true none
          (some (SocketAddr.text { ip := s.publicIp, port }))))

/-- What an input from outside begins to do. -/
inductive Spawns (s : RelayServer) : RelayInput → Option Nat → List RelayOp → Prop where
  | register {fp : Fingerprint} {name : String} {hidden : Bool} {token : BitVec 128}
      {observed : SocketAddr} : Spawns s (.connect fp name hidden token observed)
        (some s.peers.length) [.register fp name hidden token s.peers.length observed]
  | pong {conn : Nat} {fp : Fingerprint} (hfp : s.fpOf conn = some fp) :
      Spawns s (.ping conn) (some conn) [.pong fp conn]
  | leave {conn : Nat} {fp : Fingerprint} (hfp : s.fpOf conn = some fp) :
      Spawns s (.leave conn) (some conn) [.dropLease fp conn, .dropConn fp conn, .announce none]
  | punch {conn : Nat} {target requester : Fingerprint} {rateOk : Bool} {targetConn : Nat}
      (hfp : s.fpOf conn = some requester) : Spawns s (.punch conn target rateOk) (some conn)
        [.checkTarget requester conn target targetConn rateOk]
  | refused {conn : Nat} {target requester : Fingerprint} {rateOk : Bool} {reason : String}
      (hreason : reason ∈ punchReasons) (hfp : s.fpOf conn = some requester) :
      Spawns s (.punch conn target rateOk) (some conn)
        [punchFailed requester conn reason]
  | closed {conn : Nat} {fp : Fingerprint} (hready : s.Ready conn) (hfp : s.fpOf conn = some fp) :
      Spawns s (.closed conn) (some conn)
        [.dropConn fp conn, .dropLease fp conn, .announce none, .finish conn]
  | reap {expired : List Fingerprint} : Spawns s (.reap expired) none [.announce none]

/-- An operation is begun by an input from outside, or left to do by one that is run. -/
inductive Begins (s : RelayServer) : RelayInput → Option Nat → RelayOp → Prop where
  | spawn {input : RelayInput} {owner : Option Nat} {ops : List RelayOp} {op : RelayOp}
      (hspawns : s.Spawns input owner ops) (hmem : op ∈ ops) : Begins s input owner op
  | run {i : Nat} {written : Bool} {owner : Option Nat} {op later : RelayOp}
      {rest : List RelayOp} (hthread : s.threads[i]? = some ⟨owner, op :: rest⟩)
      (hyields : s.Yields written op later) : Begins s (.run i written) owner later

variable {s next : RelayServer} {input : RelayInput} {emitted : List RelayEvent}
  {i : Nat} {written : Bool} {owner : Option Nat} {op : RelayOp} {rest : List RelayOp}

variable {ops : List RelayOp} {thread : RelayThread}

theorem mem_set_ops (hthread : s.threads[i]? = some ⟨owner, op :: rest⟩)
    (hmem : thread ∈ (s.setOps i ops).threads) : thread ∈ s.threads ∨ thread = { owner, ops } := by
  obtain ⟨j, hj⟩ := List.mem_iff_getElem?.mp hmem
  rw [setOps, List.getElem?_modify] at hj
  split at hj
  · next hij =>
    subst hij
    rw [hthread] at hj
    exact .inr (Option.some.inj hj).symm
  · exact .inl (List.mem_of_getElem? (by simpa using hj))

theorem mem_spawn :
    thread ∈ (s.spawn owner ops).threads ↔ thread ∈ s.threads ∨ thread = { owner, ops } := by
  simp [spawn]

theorem mem_panic (hmem : thread ∈ (s.panic owner).threads) :
    thread ∈ s.threads ∨ thread.owner = owner ∧ thread.ops = [] := by
  obtain ⟨old, hold, rfl⟩ := List.mem_map.mp hmem
  split
  · next howner => exact .inr ⟨howner, rfl⟩
  · exact .inl hold

/-- A step that runs an operation. -/
theorem step_run (h : step s (.run i written) = some (next, emitted)) :
    ∃ owner op rest, s.threads[i]? = some ⟨owner, op :: rest⟩ ∧
      s.runOp i owner rest written op = (next, emitted) := by
  simp only [step] at h
  split at h
  · next owner op rest hthread =>
    obtain ⟨-, h⟩ := of_unless h
    exact ⟨owner, op, rest, hthread, Option.some.inj h⟩
  · cases h

variable {msg : RelayMsg} {failed : List RelayOp}

/-- What becomes of a push: the task dies, or it goes on. -/
theorem push_cases {conn : Nat}
    (h : s.push i owner conn msg written rest failed = (next, emitted)) :
    (maxFrame < msg.body.length ∧ next = s.panic owner ∧ emitted = [.panicked owner]) ∨
      msg.body.length ≤ maxFrame ∧
        (written = true ∧ next = s.setOps i rest ∧ emitted = [.pushed conn msg] ∨
          written = false ∧ next = s.setOps i failed ∧ emitted = []) := by
  unfold push encodeRelayMsg at h
  split at h
  · next herror =>
    obtain ⟨rfl, rfl⟩ := Prod.mk.inj h
    refine .inl ⟨?_, rfl, rfl⟩
    by_contra hfits
    rw [if_neg hfits] at herror
    cases herror
  · next hok =>
    refine .inr ⟨?_, ?_⟩
    · by_contra hlong
      rw [if_pos (Nat.not_le.mp hlong)] at hok
      cases hok
    · cases written with
      | true =>
        obtain ⟨rfl, rfl⟩ := Prod.mk.inj h
        exact .inl ⟨rfl, rfl, rfl⟩
      | false =>
        obtain ⟨rfl, rfl⟩ := Prod.mk.inj h
        exact .inr ⟨rfl, rfl, rfl⟩

/-- The threads after one of them was given something else to do. -/
theorem set_threads {Later : RelayOp → Prop} (hthread : s.threads[i]? = some ⟨owner, op :: rest⟩)
    (hmem : thread ∈ (s.setOps i ops).threads) (hops : ∀ later ∈ ops, later ∈ rest ∨ Later later) :
    thread ∈ s.threads ∨
      thread.owner = owner ∧ ∀ later ∈ thread.ops, later ∈ rest ∨ Later later := by
  rcases mem_set_ops hthread hmem with hold | rfl
  · exact .inl hold
  · exact .inr ⟨rfl, hops⟩

theorem push_threads {conn : Nat} {Later : RelayOp → Prop}
    (hthread : s.threads[i]? = some ⟨owner, op :: rest⟩)
    (h : s.push i owner conn msg written rest failed = (next, emitted))
    (hmem : thread ∈ next.threads) (hfailed : msg.body.length ≤ maxFrame → written = false →
      ∀ later ∈ failed, later ∈ rest ∨ Later later) :
    thread ∈ s.threads ∨
      thread.owner = owner ∧ ∀ later ∈ thread.ops, later ∈ rest ∨ Later later := by
  rcases push_cases h with ⟨-, rfl, -⟩ | ⟨hfits, ⟨-, rfl, -⟩ | ⟨hwritten, rfl, -⟩⟩
  · rcases mem_panic hmem with hold | ⟨howner, hops⟩
    · exact .inl hold
    · exact .inr ⟨howner, by rw [hops]; simp⟩
  · exact set_threads hthread hmem fun later hlater => .inl hlater
  · exact set_threads hthread hmem (hfailed hfits hwritten)

/-- A thread whose operation was run does what it had to do still, and what the operation leaves to
do. The others are as they were. -/
theorem run_threads (hthread : s.threads[i]? = some ⟨owner, op :: rest⟩)
    (h : s.runOp i owner rest written op = (next, emitted)) (hmem : thread ∈ next.threads) :
    thread ∈ s.threads ∨ thread.owner = owner ∧
      ∀ later ∈ thread.ops, later ∈ rest ∨ s.Yields written op later := by
  have hrest : ∀ later ∈ rest, later ∈ rest ∨ s.Yields written op later := fun _ hlater =>
    .inl hlater
  cases op with
  | register fp name hidden token conn observed =>
    simp only [runOp] at h
    split at h
    · next table lease _ =>
      obtain ⟨rfl, -⟩ := Prod.mk.inj h
      refine set_threads (s := { s with table }) hthread hmem ?_
      refine List.forall_mem_cons.mpr ⟨.inr .insert, ?_⟩
      refine List.forall_mem_cons.mpr ⟨.inr (.ack _), ?_⟩
      exact List.forall_mem_cons.mpr ⟨.inr .announce, hrest⟩
    · obtain ⟨rfl, -⟩ := Prod.mk.inj h
      exact set_threads hthread hmem (List.forall_mem_cons.mpr ⟨.inr (.ack _), hrest⟩)
  | insert fp conn =>
    obtain rfl := congrArg Prod.fst h
    exact set_threads (s := { s with conns := _ }) hthread hmem hrest
  | ack conn lease observed => exact push_threads hthread h hmem fun _ _ => hrest
  | announce except =>
    obtain rfl := congrArg Prod.fst h
    exact set_threads (s := { s with rosterRev := _ }) hthread hmem
      (List.forall_mem_cons.mpr ⟨.inr .fanOut, hrest⟩)
  | fanOut except rev =>
    obtain rfl := congrArg Prod.fst h
    rcases List.mem_append.mp hmem with hmem | hmem
    · exact set_threads hthread hmem hrest
    · obtain ⟨pair, hpair, rfl⟩ := List.mem_map.mp hmem
      refine .inr ⟨rfl, fun later hlater => .inr ?_⟩
      obtain rfl := List.mem_singleton.mp hlater
      exact .broadcast (List.mem_filter.mp hpair).1
  | pong fp conn =>
    obtain rfl := congrArg Prod.fst h
    exact set_threads (s := { s with rosterRev := _ }) hthread hmem
      (List.forall_mem_cons.mpr ⟨.inr .pong, hrest⟩)
  | roster fp conn rev =>
    refine push_threads hthread h hmem fun hfits hwritten => ?_
    refine List.forall_mem_cons.mpr ⟨.inr (.evict rfl rfl hfits hwritten (.inl rfl)), ?_⟩
    exact List.forall_mem_cons.mpr ⟨.inr (.evict rfl rfl hfits hwritten (.inr rfl)), hrest⟩
  | checkTarget requester conn target targetConn rateOk =>
    simp only [runOp] at h
    split at h
    · obtain rfl := congrArg Prod.fst h
      exact set_threads hthread hmem (List.forall_mem_cons.mpr ⟨.inr (.refused (by decide)), hrest⟩)
    · split at h
      · obtain rfl := congrArg Prod.fst h
        exact set_threads hthread hmem (List.forall_mem_cons.mpr ⟨.inr (.refused (by decide)), hrest⟩)
      · obtain rfl := congrArg Prod.fst h
        exact set_threads hthread hmem (List.forall_mem_cons.mpr ⟨.inr .allowed, hrest⟩)
  | allocate requester conn target targetConn =>
    simp only [runOp] at h
    split at h
    · obtain rfl := congrArg Prod.fst h
      exact set_threads hthread hmem (List.forall_mem_cons.mpr ⟨.inr (.exhausted (by decide)), hrest⟩)
    · next table port halloc =>
      obtain rfl := congrArg Prod.fst h
      refine set_threads (s := { s with table }) hthread hmem ?_
      refine List.forall_mem_cons.mpr ⟨.inr (.notify _), ?_⟩
      exact List.forall_mem_cons.mpr ⟨.inr (.respond halloc), hrest⟩
  | push fp conn msg =>
    refine push_threads hthread h hmem fun hfits hwritten => ?_
    refine List.forall_mem_cons.mpr ⟨.inr (.evict rfl rfl hfits hwritten (.inl rfl)), ?_⟩
    exact List.forall_mem_cons.mpr ⟨.inr (.evict rfl rfl hfits hwritten (.inr rfl)), hrest⟩
  | dropConn fp conn =>
    obtain rfl := congrArg Prod.fst h
    exact set_threads (s := { s with conns := _ }) hthread hmem hrest
  | dropLease fp conn =>
    obtain rfl := congrArg Prod.fst h
    exact set_threads (s := { s with table := _ }) hthread hmem hrest
  | finish conn =>
    obtain rfl := congrArg Prod.fst h
    exact set_threads (s := { s with ended := _ }) hthread hmem hrest

/-- A thread after a step is one from before, or new, or the one of which an operation was run. -/
theorem step_threads (h : step s input = some (next, emitted)) (hmem : thread ∈ next.threads) :
    thread ∈ s.threads ∨ s.Spawns input thread.owner thread.ops ∨
      ∃ i written op rest, input = .run i written ∧
        s.threads[i]? = some ⟨thread.owner, op :: rest⟩ ∧
        ∀ later ∈ thread.ops, later ∈ rest ∨ s.Yields written op later := by
  have hspawned : ∀ {s' : RelayServer} {who : Option Nat} {ops : List RelayOp},
      s'.threads = s.threads → thread ∈ (s'.spawn who ops).threads → s.Spawns input who ops →
      thread ∈ s.threads ∨ s.Spawns input thread.owner thread.ops := by
    intro s' who ops hthreads hmem hspawns
    rcases mem_spawn.mp hmem with hold | rfl
    · exact .inl (hthreads ▸ hold)
    · exact .inr hspawns
  refine or_assoc.mp ?_
  cases input with simp only [step] at h
  | connect fp name hidden token observed =>
    obtain ⟨-, rfl, -⟩ := when_answer h
    exact .inl (hspawned rfl hmem .register)
  | ping conn =>
    obtain ⟨-, h⟩ := of_when h
    split at h
    · next fp hfp =>
      obtain ⟨rfl, -⟩ := answer_inj h
      exact .inl (hspawned rfl hmem (.pong hfp))
    · obtain ⟨rfl, -⟩ := answer_inj h
      exact .inl (.inl hmem)
  | leave conn =>
    obtain ⟨-, h⟩ := of_when h
    split at h
    · next fp hfp =>
      obtain ⟨rfl, -⟩ := answer_inj h
      exact .inl (hspawned rfl hmem (.leave hfp))
    · obtain ⟨rfl, -⟩ := answer_inj h
      exact .inl (.inl hmem)
  | punch conn target rateOk =>
    obtain ⟨-, h⟩ := of_when h
    split at h
    · next hfp _ =>
      obtain ⟨rfl, -⟩ := answer_inj h
      exact .inl (hspawned rfl hmem (.punch hfp))
    · next hfp _ =>
      obtain ⟨rfl, -⟩ := answer_inj h
      exact .inl (hspawned rfl hmem (.refused (by decide) hfp))
    · obtain ⟨rfl, -⟩ := answer_inj h
      exact .inl (.inl hmem)
  | closed conn =>
    obtain ⟨hready, h⟩ := of_when h
    split at h
    · next fp hfp =>
      obtain ⟨rfl, -⟩ := answer_inj h
      exact .inl (hspawned rfl hmem (.closed hready hfp))
    · obtain ⟨rfl, -⟩ := answer_inj h
      exact .inl (.inl hmem)
  | acceptFailed conn =>
    obtain ⟨-, rfl, -⟩ := when_answer h
    exact .inl (.inl hmem)
  | reap expired =>
    obtain ⟨-, rfl, -⟩ := when_answer h
    exact .inl (hspawned rfl hmem .reap)
  | sessionEnded port =>
    obtain ⟨rfl, -⟩ := answer_inj h
    exact .inl (.inl hmem)
  | run i written =>
    obtain ⟨who, op, rest, hthread, hrun⟩ := step_run h
    rcases run_threads hthread hrun hmem with hold | ⟨rfl, hops⟩
    · exact .inl (.inl hold)
    · exact .inr ⟨i, written, op, rest, rfl, hthread, hops⟩

/-- What is to be done after a step was to be done before, or the input begins it. -/
theorem step_pending (h : step s input = some (next, emitted)) {later : RelayOp}
    (hpending : next.Pending owner later) :
    s.Pending owner later ∨ s.Begins input owner later := by
  obtain ⟨thread, hmem, rfl, hlater⟩ := hpending
  rcases step_threads h hmem with hold | hspawns | ⟨i, written, op, rest, rfl, hthread, hops⟩
  · exact .inl ⟨thread, hold, rfl, hlater⟩
  · exact .inr (.spawn hspawns hlater)
  · rcases hops later hlater with hrest | hyields
    · exact .inl ⟨_, List.mem_of_getElem? hthread, rfl, List.mem_cons_of_mem _ hrest⟩
    · exact .inr (.run hthread hyields)

/-- What a step can change: a connection is entered by its registration, a lease is given for one; a
handler ends on one of its ways out; and the numbers of the rosters grow. -/
structure Change (s : RelayServer) (input : RelayInput) (next : RelayServer)
    (emitted : List RelayEvent) : Prop where
  conns : ∀ pair ∈ next.conns, pair ∈ s.conns ∨ s.Runs input (.insert pair.1 pair.2)
  leases : ∀ entry ∈ next.table.leases, entry ∈ s.table.leases ∨ ∃ observed, s.Runs input
    (.register entry.fingerprint entry.name entry.hidden entry.token entry.holder observed)
  rev : s.rosterRev ≤ next.rosterRev
  peers : s.peers <+: next.peers
  ended : ∀ c ∈ next.ended, c ∈ s.ended ∨ input = .acceptFailed c ∨
    input = .closed c ∧ s.fpOf c = none ∨ s.Runs input (.finish c) ∨ .panicked (some c) ∈ emitted

/-- A step that leaves the entries, the leases, the peers and the handlers that have ended. -/
theorem Change.still (hconns : next.conns = s.conns) (hleases : next.table.leases = s.table.leases)
    (hrev : s.rosterRev ≤ next.rosterRev) (hpeers : next.peers = s.peers)
    (hended : next.ended = s.ended) : s.Change input next emitted where
  conns _ hmem := .inl (hconns ▸ hmem)
  leases _ hmem := .inl (hleases ▸ hmem)
  rev := hrev
  peers := hpeers ▸ List.prefix_rfl
  ended _ hmem := .inl (hended ▸ hmem)

theorem push_change {conn : Nat}
    (h : s.push i owner conn msg written rest failed = (next, emitted)) :
    s.Change input next emitted := by
  rcases push_cases h with ⟨-, rfl, rfl⟩ | ⟨-, ⟨-, rfl, -⟩ | ⟨-, rfl, -⟩⟩
  · refine ⟨fun _ => .inl, fun _ => .inl, Nat.le_refl _, List.prefix_rfl, fun c hmem => ?_⟩
    rcases List.mem_append.mp hmem with howner | hold
    · obtain rfl := Option.mem_toList.mp howner
      exact .inr (.inr (.inr (.inr List.mem_cons_self)))
    · exact .inl hold
  · exact .still rfl rfl (Nat.le_refl _) rfl rfl
  · exact .still rfl rfl (Nat.le_refl _) rfl rfl

variable {fp : Fingerprint}

theorem mem_alloc {t table : LeaseTable} {name : String} {hidden : Bool} {token : BitVec 128}
    {conn : Nat} {lease : LeaseInfo}
    (halloc : t.alloc fp name hidden token conn = some (table, lease)) {entry : LeaseEntry}
    (hmem : entry ∈ table.leases) :
    entry ∈ t.leases ∨ fp = entry.fingerprint ∧ name = entry.name ∧ hidden = entry.hidden ∧
      token = entry.token ∧ conn = entry.holder := by
  unfold LeaseTable.alloc at halloc
  split at halloc
  · obtain ⟨rfl, -⟩ := answer_inj halloc
    obtain ⟨old, hold, rfl⟩ := List.mem_map.mp hmem
    split
    · next heq => exact .inr ⟨heq.symm, rfl, rfl, rfl, rfl⟩
    · exact .inl hold
  · split at halloc
    · obtain ⟨rfl, -⟩ := answer_inj halloc
      rcases List.mem_cons.mp hmem with rfl | hold
      · exact .inr ⟨rfl, rfl, rfl, rfl, rfl⟩
      · exact .inl hold
    · cases halloc

theorem run_change (hthread : s.threads[i]? = some ⟨owner, op :: rest⟩)
    (h : s.runOp i owner rest written op = (next, emitted)) :
    s.Change (.run i written) next emitted := by
  have hruns : s.Runs (.run i written) op := ⟨i, written, owner, rest, rfl, hthread⟩
  cases op with
  | register fp name hidden token conn observed =>
    simp only [runOp] at h
    split at h
    · next table lease halloc =>
      obtain ⟨rfl, -⟩ := Prod.mk.inj h
      refine ⟨fun _ => .inl, fun entry hmem => ?_, Nat.le_refl _, List.prefix_rfl, fun _ => .inl⟩
      rcases mem_alloc halloc hmem with hold | ⟨rfl, rfl, rfl, rfl, rfl⟩
      · exact .inl hold
      · exact .inr ⟨observed, hruns⟩
    · obtain ⟨rfl, -⟩ := Prod.mk.inj h
      exact .still rfl rfl (Nat.le_refl _) rfl rfl
  | insert fp conn =>
    obtain rfl := congrArg Prod.fst h
    refine ⟨fun pair hmem => ?_, fun _ => .inl, Nat.le_refl _, List.prefix_rfl, fun _ => .inl⟩
    rcases List.mem_cons.mp hmem with rfl | hold
    · exact .inr hruns
    · exact .inl (List.mem_filter.mp hold).1
  | ack conn lease observed => exact push_change h
  | announce except =>
    obtain rfl := congrArg Prod.fst h
    exact .still rfl rfl (Nat.le_succ _) rfl rfl
  | fanOut except rev =>
    obtain rfl := congrArg Prod.fst h
    exact .still rfl rfl (Nat.le_refl _) rfl rfl
  | pong fp conn =>
    obtain rfl := congrArg Prod.fst h
    exact .still rfl rfl (Nat.le_succ _) rfl rfl
  | roster fp conn rev => exact push_change h
  | checkTarget requester conn target targetConn rateOk =>
    simp only [runOp] at h
    split at h
    · obtain rfl := congrArg Prod.fst h
      exact .still rfl rfl (Nat.le_refl _) rfl rfl
    · split at h
      · obtain rfl := congrArg Prod.fst h
        exact .still rfl rfl (Nat.le_refl _) rfl rfl
      · obtain rfl := congrArg Prod.fst h
        exact .still rfl rfl (Nat.le_refl _) rfl rfl
  | allocate requester conn target targetConn =>
    simp only [runOp] at h
    split at h
    · obtain rfl := congrArg Prod.fst h
      exact .still rfl rfl (Nat.le_refl _) rfl rfl
    · next table port halloc =>
      obtain rfl := congrArg Prod.fst h
      have hleases : table.leases = s.table.leases := by
        unfold LeaseTable.allocSessionPort at halloc
        split at halloc
        · exact congrArg (LeaseTable.leases ∘ Prod.fst) (Option.some.inj halloc).symm
        · cases halloc
      exact .still rfl hleases (Nat.le_refl _) rfl rfl
  | push fp conn msg => exact push_change h
  | dropConn fp conn =>
    obtain rfl := congrArg Prod.fst h
    exact ⟨fun _ hmem => .inl (List.mem_filter.mp hmem).1, fun _ => .inl, Nat.le_refl _,
      List.prefix_rfl, fun _ => .inl⟩
  | dropLease fp conn =>
    obtain rfl := congrArg Prod.fst h
    exact ⟨fun _ => .inl, fun _ hmem => .inl (List.mem_filter.mp hmem).1, Nat.le_refl _,
      List.prefix_rfl, fun _ => .inl⟩
  | finish conn =>
    obtain rfl := congrArg Prod.fst h
    refine ⟨fun _ => .inl, fun _ => .inl, Nat.le_refl _, List.prefix_rfl, fun c hmem => ?_⟩
    rcases List.mem_cons.mp hmem with rfl | hold
    · exact .inr (.inr (.inr (.inl hruns)))
    · exact .inl hold

/-- What remains of the leases when some are removed. -/
theorem mem_remove_all {expired : List Fingerprint} {t : LeaseTable} {entry : LeaseEntry}
    (hmem : entry ∈ (expired.foldl LeaseTable.remove t).leases) : entry ∈ t.leases := by
  induction expired generalizing t with
  | nil => exact hmem
  | cons fp expired ih => exact (List.mem_filter.mp (ih hmem)).1

theorem step_change (h : step s input = some (next, emitted)) :
    s.Change input next emitted := by
  cases input with simp only [step] at h
  | connect fp name hidden token observed =>
    obtain ⟨-, rfl, -⟩ := when_answer h
    exact ⟨fun _ => .inl, fun _ => .inl, Nat.le_refl _, List.prefix_append _ _, fun _ => .inl⟩
  | ping conn | leave conn =>
    obtain ⟨-, h⟩ := of_when h
    split at h
    · obtain ⟨rfl, -⟩ := answer_inj h
      exact .still rfl rfl (Nat.le_refl _) rfl rfl
    · obtain ⟨rfl, -⟩ := answer_inj h
      exact .still rfl rfl (Nat.le_refl _) rfl rfl
  | punch conn target rateOk =>
    obtain ⟨-, h⟩ := of_when h
    split at h
    · obtain ⟨rfl, -⟩ := answer_inj h
      exact .still rfl rfl (Nat.le_refl _) rfl rfl
    · obtain ⟨rfl, -⟩ := answer_inj h
      exact .still rfl rfl (Nat.le_refl _) rfl rfl
    · obtain ⟨rfl, -⟩ := answer_inj h
      exact .still rfl rfl (Nat.le_refl _) rfl rfl
  | closed conn =>
    obtain ⟨-, h⟩ := of_when h
    split at h
    · obtain ⟨rfl, -⟩ := answer_inj h
      exact .still rfl rfl (Nat.le_refl _) rfl rfl
    · next hnone =>
      obtain ⟨rfl, -⟩ := answer_inj h
      refine ⟨fun _ => .inl, fun _ => .inl, Nat.le_refl _, List.prefix_rfl, fun c hmem => ?_⟩
      rcases List.mem_cons.mp hmem with rfl | hold
      · exact .inr (.inr (.inl ⟨rfl, hnone⟩))
      · exact .inl hold
  | acceptFailed conn =>
    obtain ⟨-, rfl, -⟩ := when_answer h
    refine ⟨fun _ => .inl, fun _ => .inl, Nat.le_refl _, List.prefix_rfl, fun c hmem => ?_⟩
    rcases List.mem_cons.mp hmem with rfl | hold
    · exact .inr (.inl rfl)
    · exact .inl hold
  | reap expired =>
    obtain ⟨-, rfl, -⟩ := when_answer h
    exact ⟨fun _ => .inl, fun _ hmem => .inl (mem_remove_all hmem), Nat.le_refl _,
      List.prefix_rfl, fun _ => .inl⟩
  | sessionEnded port =>
    obtain ⟨rfl, -⟩ := answer_inj h
    exact .still rfl rfl (Nat.le_refl _) rfl rfl
  | run i written =>
    obtain ⟨owner, op, rest, hthread, hrun⟩ := step_run h
    exact run_change hthread hrun

theorem push_public_ip {conn : Nat}
    (h : s.push i owner conn msg written rest failed = (next, emitted)) :
    next.publicIp = s.publicIp := by
  rcases push_cases h with ⟨-, rfl, -⟩ | ⟨-, ⟨-, rfl, -⟩ | ⟨-, rfl, -⟩⟩ <;> rfl

theorem run_public_ip (h : s.runOp i owner rest written op = (next, emitted)) :
    next.publicIp = s.publicIp := by
  cases op with
  | ack | roster | push => exact push_public_ip h
  | register | allocate =>
    simp only [runOp] at h
    split at h <;> (obtain rfl := congrArg Prod.fst h; rfl)
  | checkTarget =>
    simp only [runOp] at h
    split at h
    · obtain rfl := congrArg Prod.fst h
      rfl
    · split at h <;> (obtain rfl := congrArg Prod.fst h; rfl)
  | _ =>
    obtain rfl := congrArg Prod.fst h
    rfl

/-- The address of the relay does not change. -/
theorem step_public_ip (h : step s input = some (next, emitted)) :
    next.publicIp = s.publicIp := by
  cases input with
  | run i written =>
    obtain ⟨owner, op, rest, -, hrun⟩ := step_run h
    exact run_public_ip hrun
  | sessionEnded port =>
    obtain ⟨rfl, -⟩ := answer_inj h
    rfl
  | connect | acceptFailed | reap =>
    simp only [step] at h
    obtain ⟨-, rfl, -⟩ := when_answer h
    rfl
  | ping | leave | closed | punch =>
    simp only [step] at h
    obtain ⟨-, h⟩ := of_when h
    split at h <;> (obtain ⟨rfl, -⟩ := answer_inj h; rfl)

/-- Which events a step emits. -/
inductive Emits (s : RelayServer) (input : RelayInput) : RelayEvent → Prop where
  | pushed {op : RelayOp} {conn : Nat} {msg : RelayMsg} (hruns : s.Runs input op)
      (hmsg : s.message op = some (conn, msg)) (hfits : msg.body.length ≤ maxFrame) :
      Emits s input (.pushed conn msg)
  | panicked {i : Nat} {written : Bool} {owner : Option Nat} {op : RelayOp}
      {rest : List RelayOp} {conn : Nat} {msg : RelayMsg} (hinput : input = .run i written)
      (hthread : s.threads[i]? = some ⟨owner, op :: rest⟩)
      (hmsg : s.message op = some (conn, msg)) (hlong : maxFrame < msg.body.length) :
      Emits s input (.panicked owner)
  | allocated {requester target : Fingerprint} {conn targetConn : Nat} {table : LeaseTable}
      {port : UInt16} (hruns : s.Runs input (.allocate requester conn target targetConn))
      (halloc : s.table.allocSessionPort requester target = some (table, port)) :
      Emits s input (.allocated requester target { ip := s.publicIp, port })
  | connRemoved {fp : Fingerprint} {behalf conn : Nat}
      (hruns : s.Runs input (.dropConn fp behalf)) (hmem : (fp, conn) ∈ s.conns) :
      Emits s input (.connRemoved behalf conn)
  | leaseRemoved {behalf : Nat} {entry : LeaseEntry}
      (hruns : s.Runs input (.dropLease entry.fingerprint behalf))
      (hmem : entry ∈ s.table.leases) : Emits s input (.leaseRemoved behalf entry.holder)

variable {event : RelayEvent}

theorem push_emits {conn : Nat} (hthread : s.threads[i]? = some ⟨owner, op :: rest⟩)
    (hmsg : s.message op = some (conn, msg))
    (h : s.push i owner conn msg written rest failed = (next, emitted)) (hmem : event ∈ emitted) :
    s.Emits (.run i written) event := by
  rcases push_cases h with ⟨hlong, -, rfl⟩ | ⟨hfits, ⟨-, -, rfl⟩ | ⟨-, -, rfl⟩⟩
  · obtain rfl := List.mem_singleton.mp hmem
    exact .panicked rfl hthread hmsg hlong
  · obtain rfl := List.mem_singleton.mp hmem
    exact .pushed ⟨i, written, owner, rest, rfl, hthread⟩ hmsg hfits
  · cases hmem

theorem run_emits (hthread : s.threads[i]? = some ⟨owner, op :: rest⟩)
    (h : s.runOp i owner rest written op = (next, emitted)) (hmem : event ∈ emitted) :
    s.Emits (.run i written) event := by
  have hruns : s.Runs (.run i written) op := ⟨i, written, owner, rest, rfl, hthread⟩
  cases op with
  | register fp name hidden token conn observed =>
    simp only [runOp] at h
    split at h <;> (obtain rfl := congrArg Prod.snd h; cases hmem)
  | ack conn lease observed => exact push_emits hthread rfl h hmem
  | roster fp conn rev => exact push_emits hthread rfl h hmem
  | push fp conn msg => exact push_emits hthread rfl h hmem
  | checkTarget requester conn target targetConn rateOk =>
    simp only [runOp] at h
    split at h
    · obtain rfl := congrArg Prod.snd h
      cases hmem
    · split at h <;> (obtain rfl := congrArg Prod.snd h; cases hmem)
  | allocate requester conn target targetConn =>
    simp only [runOp] at h
    split at h
    · obtain rfl := congrArg Prod.snd h
      cases hmem
    · next table port halloc =>
      obtain rfl := congrArg Prod.snd h
      obtain rfl := List.mem_singleton.mp hmem
      exact .allocated hruns halloc
  | dropConn fp conn =>
    obtain rfl := congrArg Prod.snd h
    obtain ⟨pair, hpair, rfl⟩ := List.mem_map.mp hmem
    obtain ⟨hold, hfp⟩ := List.mem_filter.mp hpair
    obtain rfl : pair.1 = fp := of_decide_eq_true hfp
    exact .connRemoved hruns hold
  | dropLease fp conn =>
    obtain rfl := congrArg Prod.snd h
    obtain ⟨entry, hentry, rfl⟩ := List.mem_map.mp hmem
    obtain ⟨hold, hfp⟩ := List.mem_filter.mp hentry
    obtain rfl : entry.fingerprint = fp := of_decide_eq_true hfp
    exact .leaseRemoved hruns hold
  | _ =>
    obtain rfl := congrArg Prod.snd h
    cases hmem

theorem step_emits (h : step s input = some (next, emitted)) (hmem : event ∈ emitted) :
    s.Emits input event := by
  cases input with
  | run i written =>
    obtain ⟨owner, op, rest, hthread, hrun⟩ := step_run h
    exact run_emits hthread hrun hmem
  | sessionEnded port =>
    obtain rfl := congrArg Prod.snd (Option.some.inj h)
    cases hmem
  | connect | acceptFailed | reap =>
    simp only [step] at h
    obtain ⟨-, h⟩ := of_when h
    obtain rfl := congrArg Prod.snd (Option.some.inj h)
    cases hmem
  | ping | leave | closed | punch =>
    simp only [step] at h
    obtain ⟨-, h⟩ := of_when h
    split at h <;> (obtain rfl := congrArg Prod.snd (Option.some.inj h); cases hmem)

/-- An operation that pushes a message. -/
theorem run_pushes {conn : Nat} (hmsg : s.message op = some (conn, msg)) :
    ∃ failed, s.runOp i owner rest written op = s.push i owner conn msg written rest failed := by
  cases op with
  | ack | roster | push =>
    obtain ⟨rfl, rfl⟩ := answer_inj hmsg
    exact ⟨_, rfl⟩
  | _ => cases hmsg

/-- A message that is too long kills the task. -/
theorem step_too_long (h : step s (.run i written) = some (next, emitted))
    (hthread : s.threads[i]? = some ⟨owner, op :: rest⟩) {conn : Nat}
    (hmsg : s.message op = some (conn, msg)) (hlong : maxFrame < msg.body.length) :
    next = s.panic owner ∧ emitted = [.panicked owner] := by
  obtain ⟨who, first, others, hfound, hrun⟩ := step_run h
  obtain ⟨rfl, rfl, rfl⟩ : owner = who ∧ op = first ∧ rest = others := by
    simpa using hthread.symm.trans hfound
  have hpushes : ∃ failed, s.runOp i owner rest written op =
      s.push i owner conn msg written rest failed := run_pushes hmsg
  obtain ⟨failed, hpush⟩ := hpushes
  rcases push_cases (hpush.symm.trans hrun) with ⟨-, rfl, rfl⟩ | ⟨hfits, -⟩
  · exact ⟨rfl, rfl⟩
  · exact absurd hfits (Nat.not_le.mpr hlong)

/-- What is allocated for a session is told. -/
theorem step_allocates (h : step s (.run i written) = some (next, emitted))
    {requester target : Fingerprint} {conn targetConn : Nat}
    (hthread : s.threads[i]? = some ⟨owner, .allocate requester conn target targetConn :: rest⟩)
    {table : LeaseTable} {port : UInt16}
    (halloc : s.table.allocSessionPort requester target = some (table, port)) :
    emitted = [.allocated requester target { ip := s.publicIp, port }] := by
  obtain ⟨who, first, others, hfound, hrun⟩ := step_run h
  obtain ⟨rfl, rfl, rfl⟩ :
      owner = who ∧ .allocate requester conn target targetConn = first ∧ rest = others := by
    simpa using hthread.symm.trans hfound
  simp only [runOp, halloc] at hrun
  exact (congrArg Prod.snd hrun).symm

/-- Entries, leases and registrations are those of the connections that have proved to have the
fingerprint. A connection registers in its own handler. -/
structure Enrolled (s : RelayServer) : Prop where
  conns : ∀ pair ∈ s.conns, s.peers[pair.2]? = some pair.1
  leases : ∀ entry ∈ s.table.leases, s.peers[entry.holder]? = some entry.fingerprint
  entering : ∀ owner op, s.Pending owner op → ∀ fp c, op.enters = some (fp, c) →
    owner = some c ∧ s.peers[c]? = some fp
  owners : ∀ c op, s.Pending (some c) op → c < s.peers.length

theorem pending_of_thread (hthread : s.threads[i]? = some ⟨owner, op :: rest⟩) :
    s.Pending owner op :=
  ⟨_, List.mem_of_getElem? hthread, rfl, List.mem_cons_self⟩

theorem pending_of_runs (h : s.Runs input op) : ∃ owner, s.Pending owner op := by
  obtain ⟨i, written, owner, rest, rfl, hthread⟩ := h
  exact ⟨owner, pending_of_thread hthread⟩

theorem mem_of_fp_of {conn : Nat} (h : s.fpOf conn = some fp) : (fp, conn) ∈ s.conns := by
  obtain ⟨pair, hfound, rfl⟩ := Option.map_eq_some_iff.mp h
  obtain rfl : pair.2 = conn := by simpa using List.find?_some hfound
  exact List.mem_of_find?_eq_some hfound

/-- What is left to do of a registration is left by the registration. -/
theorem Yields.enters {later : RelayOp} (h : s.Yields written op later) {pair : Fingerprint × Nat}
    (henters : later.enters = some pair) : op.enters = some pair := by
  cases h with
  | insert => exact henters
  | evict _ _ _ _ hlater => rcases hlater with rfl | rfl <;> cases henters
  | _ => cases henters

variable {c : Nat}

/-- Only a new connection begins to register. -/
theorem Spawns.enters (h : s.Spawns input owner ops) (hmem : op ∈ ops)
    (henters : op.enters = some (fp, c)) :
    owner = some c ∧ c = s.peers.length ∧
      ∃ name hidden token observed, input = .connect fp name hidden token observed := by
  cases h with
  | @register who name hidden token observed =>
    obtain rfl := List.mem_singleton.mp hmem
    obtain ⟨rfl, rfl⟩ := answer_inj henters
    exact ⟨rfl, rfl, name, hidden, token, observed, rfl⟩
  | leave | closed =>
    simp only [List.mem_cons, List.not_mem_nil, or_false] at hmem
    rcases hmem with rfl | rfl | rfl | rfl <;> cases henters
  | _ =>
    obtain rfl := List.mem_singleton.mp hmem
    cases henters

/-- A handler works on behalf of its own connection. -/
theorem Spawns.conn (h : s.Spawns input (some c) ops) :
    (∃ fp, s.fpOf c = some fp) ∨
      ∃ fp name hidden token observed, input = .connect fp name hidden token observed ∧
        c = s.peers.length := by
  cases h with
  | register => exact .inr ⟨_, _, _, _, _, rfl, rfl⟩
  | pong hfp | leave hfp | punch hfp | refused _ hfp | closed _ hfp => exact .inl ⟨_, hfp⟩

theorem start_enrolled (portStart portEnd : UInt16) (publicIp : IpAddr) :
    (start portStart portEnd publicIp).Enrolled := by
  refine ⟨by simp [start], by simp [start], fun owner op ⟨thread, hmem, _⟩ => ?_,
    fun c op ⟨thread, hmem, _⟩ => ?_⟩
  all_goals cases hmem

/-- A new connection is the last one. -/
theorem step_connect {name : String} {hidden : Bool} {token : BitVec 128} {observed : SocketAddr}
    (h : step s (.connect fp name hidden token observed) = some (next, emitted)) :
    next.peers = s.peers ++ [fp] := by
  simp only [step] at h
  obtain ⟨-, rfl, -⟩ := when_answer h
  rfl

/-- A connection keeps its fingerprint. -/
theorem step_peer (h : step s input = some (next, emitted)) (hold : s.peers[c]? = some fp) :
    next.peers[c]? = some fp := by
  obtain ⟨added, hadded⟩ := (step_change h).peers
  obtain ⟨hlt, -⟩ := List.getElem?_eq_some_iff.mp hold
  rw [← hadded, List.getElem?_append_left hlt]
  exact hold

theorem Enrolled.step (hinv : s.Enrolled) (h : s.step input = some (next, emitted)) :
    next.Enrolled := by
  have hchange := step_change h
  refine ⟨fun pair hmem => ?_, fun entry hmem => ?_, fun owner op hpending fp c henters => ?_,
    fun c op hpending => ?_⟩
  · rcases hchange.conns pair hmem with hold | hruns
    · exact step_peer h (hinv.conns pair hold)
    · obtain ⟨owner, hpending⟩ := pending_of_runs hruns
      exact step_peer h (hinv.entering owner _ hpending pair.1 pair.2 rfl).2
  · rcases hchange.leases entry hmem with hold | ⟨observed, hruns⟩
    · exact step_peer h (hinv.leases entry hold)
    · obtain ⟨owner, hpending⟩ := pending_of_runs hruns
      exact step_peer h (hinv.entering owner _ hpending entry.fingerprint entry.holder rfl).2
  · rcases step_pending h hpending with hold | hbegins
    · obtain ⟨howner, hpeer⟩ := hinv.entering owner op hold fp c henters
      exact ⟨howner, step_peer h hpeer⟩
    · cases hbegins with
      | spawn hspawns hmem =>
        obtain ⟨howner, rfl, name, hidden, token, observed, rfl⟩ := hspawns.enters hmem henters
        exact ⟨howner, by simp [step_connect h]⟩
      | run hthread hyields =>
        obtain ⟨howner, hpeer⟩ := hinv.entering _ _ (pending_of_thread hthread) fp c
          (hyields.enters henters)
        exact ⟨howner, step_peer h hpeer⟩
  · have hle : s.peers.length ≤ next.peers.length := hchange.peers.length_le
    rcases step_pending h hpending with hold | hbegins
    · exact Nat.lt_of_lt_of_le (hinv.owners c op hold) hle
    · cases hbegins with
      | spawn hspawns =>
        rcases hspawns.conn with ⟨fp, hfp⟩ | ⟨fp, name, hidden, token, observed, rfl, rfl⟩
        · have hpeer := hinv.conns _ (mem_of_fp_of hfp)
          exact Nat.lt_of_lt_of_le (List.getElem?_eq_some_iff.mp hpeer).1 hle
        · simp [step_connect h]
      | run hthread hyields =>
        exact Nat.lt_of_lt_of_le (hinv.owners c _ (pending_of_thread hthread)) hle

end RelayServer

/-- Where the clients connect from. -/
def homeAddr : SocketAddr := { ip := .v4 10 0 0 1, port := 5000 }

/-- A relay with ten ports. -/
def sampleRelay : RelayServer := .start 9000 9010 (.v4 10 0 0 2)

/-- A client connects and is registered by a thread. -/
def registration (fp : Fingerprint) (name : String) (thread : Nat) : List RelayInput :=
  .connect fp name false 7 homeAddr :: List.replicate 5 (.run thread true)

end LocalTrans.Relay
