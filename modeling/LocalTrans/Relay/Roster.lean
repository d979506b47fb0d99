import LocalTrans.Relay.Steps

/-!
# Rosters in order

The relay numbers a roster, and takes its snapshot when it is pushed; several can be on their way at
once. A client takes each roster it receives for the latest one, whatever its number. A
`RosterSystem` is the relay with a client and the rosters that are flying between them. `inOrder`
says when the numbers tell which snapshot is older, and the client has the last one.
-/

namespace LocalTrans.Relay

open Foundation

/-- A roster as it is pushed. -/
structure RosterPush where
  rev : Nat
  devices : List RemoteDevice
deriving DecidableEq

/-- The relay and a client, with the rosters that are on their way to the client, those it has
received, and what it takes for the roster. -/
structure RosterSystem where
  relay : RelayServer
  flying : List RosterPush
  received : List RosterPush
  roster : List RemoteDevice

/-- A step of the relay, or the client receives one of the rosters that are on their way. -/
inductive RosterInput where
  | relay (input : RelayInput)
  | receive (i : Nat)

section Rosters

variable (mine : Nat → Bool)

/-- The roster that is pushed on one of the connections of the client. -/
def RelayEvent.rosterTo : RelayEvent → Option RosterPush
  | .pushed conn (.roster rev devices) => if mine conn then some { rev, devices } else none
  | _ => none

/-- The rosters that were pushed to the client, in the order in which their snapshots were taken. -/
def rostersTo (trace : List RelayEvent) : List RosterPush :=
  trace.filterMap (RelayEvent.rosterTo mine)

/-- The number of the roster that an operation pushes to the client. -/
def RelayOp.pushesRev : RelayOp → Option Nat
  | .roster _ conn rev => if mine conn then some rev else none
  | _ => none

/-- The number of a roster that is still to be pushed, to the client or to all. -/
def RelayOp.owesRev : RelayOp → Option Nat
  | .fanOut _ rev => some rev
  | .roster _ conn rev => if mine conn then some rev else none
  | _ => none

/-- `handle_push` of a roster: the number is not looked at. -/
def RosterSystem.handlePush (s : RosterSystem) (push : RosterPush) : RosterSystem :=
  { s with received := s.received ++ [push], roster := push.devices }

/-- One step. -/
def RosterSystem.step : Machine RosterSystem RosterInput RelayEvent
  | s, .relay input =>
    match s.relay.step input with
    | some (relay, emitted) =>
      some ({ s with relay, flying := s.flying ++ rostersTo mine emitted }, emitted)
    | none => none
  | s, .receive i =>
    match s.flying[i]? with
    | some push => some ({ s with flying := s.flying.eraseIdx i }.handlePush push, [])
    | none => none

/-- No roster with a lower number is still to be pushed. -/
def RelayServer.LowestRev (s : RelayServer) (rev : Nat) : Prop :=
  ∀ thread ∈ s.threads, ∀ op ∈ thread.ops, ∀ other ∈ op.owesRev mine, rev ≤ other
deriving Decidable

/-- The condition on one step: a roster is pushed to the client when none with a lower number is
still to be pushed, and received when none with a higher number was received, unless it says what
the client knows already. -/
def inOrder : Guard RosterSystem RosterInput RelayEvent :=
  fun _ s input =>
    match input with
    | .relay (.run i _) => ∀ thread ∈ s.relay.threads[i]?, ∀ op ∈ thread.ops.head?,
        ∀ rev ∈ op.pushesRev mine, s.relay.LowestRev mine rev
    | .receive i => ∀ push ∈ s.flying[i]?,
        push.devices = s.roster ∨ ∀ other ∈ s.received, other.rev ≤ push.rev
    | _ => True

instance (trace : List RelayEvent) (s : RosterSystem) (input : RosterInput) :
    Decidable (inOrder mine trace s input) := by
  unfold inOrder
  split <;> infer_instance

end Rosters

/-- A roster with a higher number was not snapshotted before one with a lower number; and a client
that has received a roster has one with the highest number of those it has received. -/
structure RosterFresh (mine : Nat → Bool) (trace : List RelayEvent) (s : RosterSystem) : Prop where
  snapshots : (rostersTo mine trace).Pairwise fun earlier later => earlier.rev ≤ later.rev
  newest : s.received ≠ [] → ∃ push ∈ s.received, s.roster = push.devices ∧
    ∀ other ∈ s.received, other.rev ≤ push.rev

namespace RelayServer

variable {mine : Nat → Bool} {s next : RelayServer} {input : RelayInput}
  {trace emitted : List RelayEvent}

/-- The relay pushes the rosters of a client in the order of their numbers, and has handed out only
numbers below `rosterRev`. -/
structure Ordered (mine : Nat → Bool) (trace : List RelayEvent) (s : RelayServer) : Prop where
  snapshots : (rostersTo mine trace).Pairwise fun earlier later => earlier.rev ≤ later.rev
  pushed : ∀ push ∈ rostersTo mine trace, push.rev < s.rosterRev
  owed : ∀ owner op, s.Pending owner op → ∀ rev, op.owesRev mine = some rev →
    rev < s.rosterRev ∧ ∀ push ∈ rostersTo mine trace, push.rev ≤ rev
  plain : ∀ owner fp conn msg, s.Pending owner (.push fp conn msg) →
    ∀ rev devices, msg ≠ .roster rev devices

theorem rosters_append (before after : List RelayEvent) :
    rostersTo mine (before ++ after) = rostersTo mine before ++ rostersTo mine after :=
  List.filterMap_append

/-- A roster that a step pushes is the snapshot of that moment, under the number it was given
before. -/
theorem Ordered.roster_emitted (hinv : s.Ordered mine trace)
    (h : step s input = some (next, emitted)) {push : RosterPush}
    (hmem : push ∈ rostersTo mine emitted) :
    ∃ fp conn, mine conn = true ∧ s.Runs input (.roster fp conn push.rev) ∧
      push.devices = s.table.snapshotRoster fp s.publicIp := by
  obtain ⟨event, hevent, hroster⟩ := List.mem_filterMap.mp hmem
  cases step_emits h hevent with
  | @pushed op conn msg hruns hmsg hfits =>
    cases op with
    | roster fp conn' rev =>
      obtain ⟨rfl, rfl⟩ := answer_inj hmsg
      simp only [RelayEvent.rosterTo] at hroster
      split at hroster
      · next hmine =>
        obtain rfl := Option.some.inj hroster
        exact ⟨fp, conn', hmine, hruns, rfl⟩
      · cases hroster
    | push fp conn' msg' =>
      obtain ⟨rfl, rfl⟩ := answer_inj hmsg
      obtain ⟨owner, hpending⟩ := pending_of_runs hruns
      -- What is pushed apart from the rosters belongs to a punch.
      cases msg' with
      | roster rev devices =>
        exact absurd rfl (hinv.plain owner fp conn' _ hpending rev devices)
      | _ => cases hroster
    | ack conn' lease observed =>
      obtain ⟨rfl, rfl⟩ := answer_inj hmsg
      cases hroster
    | _ => cases hmsg
  | _ => cases hroster

/-- Numbering a roster pushes nothing. -/
theorem step_numbers {i : Nat} {written : Bool} {owner : Option Nat} {op : RelayOp}
    {rest : List RelayOp} (h : step s (.run i written) = some (next, emitted))
    (hthread : s.threads[i]? = some ⟨owner, op :: rest⟩)
    (hop : (∃ except, op = .announce except) ∨ ∃ fp conn, op = .pong fp conn) :
    next.rosterRev = s.rosterRev + 1 ∧ emitted = [] := by
  obtain ⟨who, first, others, hfound, hrun⟩ := step_run h
  obtain ⟨rfl, rfl, rfl⟩ : owner = who ∧ op = first ∧ rest = others := by
    simpa using hthread.symm.trans hfound
  rcases hop with ⟨except, rfl⟩ | ⟨fp, conn, rfl⟩
  · obtain ⟨rfl, rfl⟩ := Prod.mk.inj hrun
    exact ⟨rfl, rfl⟩
  · obtain ⟨rfl, rfl⟩ := Prod.mk.inj hrun
    exact ⟨rfl, rfl⟩

/-- A roster that is still to be pushed after a step was to be pushed before, or has just got the
next number. -/
theorem owed_step (h : step s input = some (next, emitted)) {owner : Option Nat} {op : RelayOp}
    (hpending : next.Pending owner op) {rev : Nat} (howes : op.owesRev mine = some rev) :
    (∃ who old, s.Pending who old ∧ old.owesRev mine = some rev) ∨
      rev = s.rosterRev ∧ next.rosterRev = s.rosterRev + 1 ∧ emitted = [] := by
  rcases step_pending h hpending with hold | hbegins
  · exact .inl ⟨owner, op, hold, howes⟩
  · cases hbegins with
    | spawn hspawns hmem =>
      cases hspawns with
      | leave | closed =>
        simp only [List.mem_cons, List.not_mem_nil, or_false] at hmem
        rcases hmem with rfl | rfl | rfl | rfl <;> cases howes
      | _ =>
        obtain rfl := List.mem_singleton.mp hmem
        cases howes
    | run hthread hyields =>
      cases hyields with
      | fanOut =>
        obtain rfl := Option.some.inj howes
        exact .inr ⟨rfl, step_numbers h hthread (.inl ⟨_, rfl⟩)⟩
      | pong =>
        simp only [RelayOp.owesRev] at howes
        split at howes
        · obtain rfl := Option.some.inj howes
          exact .inr ⟨rfl, step_numbers h hthread (.inr ⟨_, _, rfl⟩)⟩
        · cases howes
      | broadcast =>
        simp only [RelayOp.owesRev] at howes
        split at howes
        · obtain rfl := Option.some.inj howes
          exact .inl ⟨_, _, pending_of_thread hthread, rfl⟩
        · cases howes
      | evict _ _ _ _ hlater => rcases hlater with rfl | rfl <;> cases howes
      | _ => cases howes

/-- What a push carries that is still to be pushed apart from the rosters. -/
theorem plain_step (h : step s input = some (next, emitted))
    (hplain : ∀ owner fp conn msg, s.Pending owner (.push fp conn msg) →
      ∀ rev devices, msg ≠ .roster rev devices) {owner : Option Nat} {fp : Fingerprint}
    {conn : Nat} {msg : RelayMsg} (hpending : next.Pending owner (.push fp conn msg)) (rev : Nat)
    (devices : List RemoteDevice) : msg ≠ .roster rev devices := by
  rintro rfl
  rcases step_pending h hpending with hold | hbegins
  · exact hplain owner fp conn _ hold rev devices rfl
  · cases hbegins with
    | spawn hspawns hmem => cases hspawns <;> simp [punchFailed] at hmem
    | run _ hyields =>
      cases hyields with
      | evict _ _ _ _ hlater => rcases hlater with hlater | hlater <;> cases hlater

theorem start_ordered (portStart portEnd : UInt16) (publicIp : IpAddr) :
    (start portStart portEnd publicIp).Ordered mine [] := by
  refine ⟨.nil, by simp [rostersTo], ?_, ?_⟩
  · rintro owner op ⟨thread, hmem, -⟩
    cases hmem
  · rintro owner fp conn msg ⟨thread, hmem, -⟩
    cases hmem

theorem Ordered.step (hinv : s.Ordered mine trace)
    (hguard : ∀ i written, input = .run i written → ∀ thread ∈ s.threads[i]?,
      ∀ op ∈ thread.ops.head?, ∀ rev ∈ op.pushesRev mine, s.LowestRev mine rev)
    (h : s.step input = some (next, emitted)) : next.Ordered mine (trace ++ emitted) := by
  -- The roster that is pushed has the lowest number of those that are to be pushed.
  have hlowest : ∀ push ∈ rostersTo mine emitted,
      push.rev < s.rosterRev ∧ s.LowestRev mine push.rev ∧
        ∀ earlier ∈ rostersTo mine trace, earlier.rev ≤ push.rev := by
    intro push hmem
    obtain ⟨fp, conn, hmine, ⟨i, written, owner, rest, hinput, hthread⟩, -⟩ :=
      hinv.roster_emitted h hmem
    have hpushes : (RelayOp.roster fp conn push.rev).pushesRev mine = some push.rev := if_pos hmine
    have hlow := hguard i written hinput _ hthread _ rfl _ hpushes
    have howed := hinv.owed owner _ (pending_of_thread hthread) push.rev (if_pos hmine)
    exact ⟨howed.1, hlow, howed.2⟩
  have hle := (step_change h).rev
  refine ⟨?_, fun push hmem => ?_, fun owner op hpending rev howes => ?_,
    fun owner fp conn msg hpending rev devices => plain_step h hinv.plain hpending rev devices⟩
  · rw [rosters_append]
    refine List.pairwise_append.mpr ⟨hinv.snapshots, ?_, ?_⟩
    · refine List.pairwise_of_forall_mem_list fun push hpush other hother => ?_
      -- One step runs one operation, and so pushes under one number.
      obtain ⟨_, conn, hmine, ⟨i, written, owner, rest, rfl, hthread⟩, -⟩ :=
        hinv.roster_emitted h hother
      exact (hlowest push hpush).2.1 _ (List.mem_of_getElem? hthread) _ List.mem_cons_self _
        (if_pos hmine)
    · exact fun earlier hearlier push hpush => (hlowest push hpush).2.2 earlier hearlier
  · rw [rosters_append] at hmem
    rcases List.mem_append.mp hmem with hold | hnew
    · exact Nat.lt_of_lt_of_le (hinv.pushed push hold) hle
    · exact Nat.lt_of_lt_of_le (hlowest push hnew).1 hle
  · rw [rosters_append]
    rcases owed_step h hpending howes with ⟨who, old, hold, howed⟩ | ⟨rfl, hnext, rfl⟩
    · obtain ⟨hlt, hpushed⟩ := hinv.owed who old hold rev howed
      refine ⟨Nat.lt_of_lt_of_le hlt hle, fun push hmem => ?_⟩
      rcases List.mem_append.mp hmem with hmem | hnew
      · exact hpushed push hmem
      · obtain ⟨thread, hthread, -, hop⟩ := hold
        exact (hlowest push hnew).2.1 thread hthread old hop rev howed
    · refine ⟨by omega, fun push hmem => ?_⟩
      have hold : push ∈ rostersTo mine trace := by simpa [rostersTo] using hmem
      exact Nat.le_of_lt (hinv.pushed push hold)

end RelayServer

namespace RosterSystem

variable {mine : Nat → Bool} {s : RosterSystem} {push : RosterPush}

/-- The client has a roster with the highest number of those it has received. -/
def Newest (s : RosterSystem) : Prop :=
  s.received ≠ [] → ∃ push ∈ s.received, s.roster = push.devices ∧
    ∀ other ∈ s.received, other.rev ≤ push.rev
deriving Decidable

theorem Newest.receive (hinv : s.Newest)
    (hguard : push.devices = s.roster ∨ ∀ other ∈ s.received, other.rev ≤ push.rev) :
    (s.handlePush push).Newest := by
  intro _
  have hmem : push ∈ s.received ++ [push] := by simp
  by_cases hhighest : ∀ other ∈ s.received, other.rev ≤ push.rev
  · refine ⟨push, hmem, rfl, fun other hother => ?_⟩
    rcases List.mem_append.mp hother with hold | hnew
    · exact hhighest other hold
    · exact Nat.le_of_eq (congrArg RosterPush.rev (List.mem_singleton.mp hnew))
  · -- The roster is the one that the client has already, under a higher number.
    have hsame := hguard.resolve_right hhighest
    obtain ⟨higher, hhigher, hlt⟩ : ∃ other ∈ s.received, push.rev < other.rev := by
      simpa using hhighest
    obtain ⟨best, hbest, hroster, hmost⟩ := hinv (List.ne_nil_of_mem hhigher)
    refine ⟨best, List.mem_append_left _ hbest, hsame.trans hroster, fun other hother => ?_⟩
    rcases List.mem_append.mp hother with hold | hnew
    · exact hmost other hold
    · obtain rfl := List.mem_singleton.mp hnew
      have hle := hmost higher hhigher
      omega

end RosterSystem

/-- A relay that nobody has registered with, and a client without a roster. -/
def RosterSystem.start (portStart portEnd : UInt16) (publicIp : IpAddr) : RosterSystem :=
  { relay := .start portStart portEnd publicIp, flying := [], received := [], roster := [] }

/-- In a run in which the rosters of a client are pushed and received in order, they are fresh. -/
theorem ordered_rosters_fresh {mine : Nat → Bool} {portStart portEnd : UInt16} {publicIp : IpAddr}
    {inputs : List RosterInput} {trace : List RelayEvent} {s : RosterSystem}
    (h : Exec (RosterSystem.step mine) (inOrder mine) (.start portStart portEnd publicIp) inputs
      trace s) : RosterFresh mine trace s := by
  suffices hinv : s.relay.Ordered mine trace ∧ s.Newest from ⟨hinv.1.snapshots, hinv.2⟩
  induction h with
  | start =>
    exact ⟨RelayServer.start_ordered portStart portEnd publicIp, fun hne => absurd rfl hne⟩
  | @step _ _ s _ input _ _ hguard hnext ih =>
    obtain ⟨hordered, hnewest⟩ := ih
    cases input with
    | relay input =>
      simp only [RosterSystem.step] at hnext
      split at hnext
      · next relay events hstep =>
        obtain ⟨rfl, rfl⟩ := answer_inj hnext
        refine ⟨hordered.step ?_ hstep, hnewest⟩
        rintro i written rfl
        exact hguard
      · cases hnext
    | receive i =>
      simp only [RosterSystem.step] at hnext
      split at hnext
      · next push hpush =>
        obtain ⟨rfl, rfl⟩ := answer_inj hnext
        rw [List.append_nil]
        exact ⟨hordered, RosterSystem.Newest.receive (s := { s with flying := _ }) hnewest
          (hguard push hpush)⟩
      · cases hnext

/-- The connection of the phone. -/
def phoneConn (conn : Nat) : Bool := conn = 0

/-- The phone registers and pings, and gets its roster before or after the laptop registers, of
which it is told too. -/
def pingAndNews (early : Bool) : List RosterInput :=
  let asked : List RelayInput := registration 1 "phone" 0 ++ [.ping 0, .run 1 true]
  let answer : List RelayInput := [.run 1 true]
  let news : List RelayInput := registration 2 "laptop" 2 ++ [.run 3 true]
  (asked ++ if early then answer ++ news else news ++ answer).map .relay

/-- A system with the sample relay. -/
def sampleRosters : RosterSystem := .start 9000 9010 (.v4 10 0 0 2)

/-- The answer to the ping is pushed and received before the news: the client knows the laptop. -/
theorem rosters_fresh_in_order :
    ∃ trace s, Exec (RosterSystem.step phoneConn) (inOrder phoneConn) sampleRosters
        (pingAndNews true ++ [.receive 0, .receive 0]) trace s ∧
      s.roster.map RemoteDevice.name = ["laptop"] ∧ RosterFresh phoneConn trace s := by
  have hrun : (Machine.run (RosterSystem.step phoneConn) (inOrder phoneConn) [] sampleRosters
      (pingAndNews true ++ [.receive 0, .receive 0])).map
        (fun result => result.1.roster.map RemoteDevice.name) = some ["laptop"] := by decide +kernel
  obtain ⟨⟨s, trace⟩, hrun, hroster⟩ := Option.map_eq_some_iff.mp hrun
  have hexec := Exec.start.append_run hrun
  exact ⟨trace, s, hexec, hroster, ordered_rosters_fresh hexec⟩

/-- The answer to the ping is numbered before the news and snapshotted after it. And where the news
is received before the answer, the client forgets the laptop. -/
theorem rosters_not_fresh :
    (¬ ∀ (inputs : List RosterInput) (trace : List RelayEvent) (s : RosterSystem),
      Exec (RosterSystem.step phoneConn) Guard.free sampleRosters inputs trace s →
        (rostersTo phoneConn trace).Pairwise fun earlier later => earlier.rev ≤ later.rev) ∧
    ¬ ∀ (inputs : List RosterInput) (trace : List RelayEvent) (s : RosterSystem),
      Exec (RosterSystem.step phoneConn) Guard.free sampleRosters inputs trace s → s.Newest := by
  constructor
  · intro hall
    have hrun : (Machine.run (RosterSystem.step phoneConn) Guard.free [] sampleRosters
        (pingAndNews false)).map (fun result => (rostersTo phoneConn result.2).map RosterPush.rev) =
          some [2, 1] := by decide +kernel
    obtain ⟨⟨s, trace⟩, hrun, hrevs⟩ := Option.map_eq_some_iff.mp hrun
    have hsorted := List.pairwise_map.mpr (hall _ trace s (Exec.start.append_run hrun))
    rw [show (rostersTo phoneConn trace).map RosterPush.rev = [2, 1] from hrevs] at hsorted
    exact absurd hsorted (by decide)
  · intro hall
    have hrun : (Machine.run (RosterSystem.step phoneConn) Guard.free [] sampleRosters
        (pingAndNews true ++ [.receive 1, .receive 0])).map
          (fun result => decide result.1.Newest) = some false := by decide +kernel
    obtain ⟨⟨s, trace⟩, hrun, hstale⟩ := Option.map_eq_some_iff.mp hrun
    exact of_decide_eq_false hstale (hall _ trace s (Exec.start.append_run hrun))

end LocalTrans.Relay
