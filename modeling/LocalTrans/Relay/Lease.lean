import LocalTrans.Foundation.Execution
import LocalTrans.Foundation.ReverseIndex
import LocalTrans.Relay.Messages
import Mathlib.Data.Finset.Basic

/-!
# The tables of the leases

`lease.rs` with all its tables: the leases, the two maps that lead from a port and from a token back
to the fingerprint, the session ports with their members, and when each was last active. The tokens
that are drawn and the times that are read come with the input. `Represents` says how the tables
belong together, and `apart` when device ports and session ports do not meet.
-/

namespace LocalTrans.Relay.Lease

open Foundation

/-- `LeaseEntry`. -/
structure LeaseEntry where
  fingerprint : Fingerprint
  name : String
  port : UInt16
  token : BitVec 128
  lastActive : Nat
  punchFrom : Option SocketAddr
  lastPing : Nat
  hidden : Bool
deriving DecidableEq

/-- `AllocatedLease`. -/
structure AllocatedLease where
  port : UInt16
  token : BitVec 128
deriving DecidableEq

/-- `LeaseTable`. -/
structure LeaseTable where
  leases : Map Fingerprint LeaseEntry
  portStart : UInt16
  portEnd : UInt16
  portMap : Map UInt16 Fingerprint
  tokenMap : Map (BitVec 128) Fingerprint
  tokensAcceptedCount : Nat
  sessionPorts : Finset UInt16
  sessionMembers : Map UInt16 (Fingerprint × Fingerprint)
  sessionActivity : Map UInt16 Nat
  nonmemberRejectCount : Nat

namespace LeaseTable

/-- `LeaseTable::new`. -/
def new (portStart portEnd : UInt16) : LeaseTable :=
  { leases := ∅, portStart, portEnd, portMap := ∅, tokenMap := ∅, tokensAcceptedCount := 0
    sessionPorts := ∅, sessionMembers := ∅, sessionActivity := ∅, nonmemberRejectCount := 0 }

/-- The ports of the range, in order. -/
def ports (t : LeaseTable) : List UInt16 :=
  (List.range' t.portStart.toNat (t.portEnd.toNat - t.portStart.toNat)).map UInt16.ofNat

/-- The port that the next lease gets. -/
def freePort (t : LeaseTable) : Option UInt16 :=
  t.ports.find? fun port => port ∉ t.portMap

/-- `LeaseTable::alloc`. -/
def alloc (t : LeaseTable) (fp : Fingerprint) (name : String) (hidden : Bool) (token : BitVec 128)
    (now : Nat) : LeaseTable × Option AllocatedLease :=
  match t.leases.lookup fp with
  | some existing =>
    let renewed := { existing with token, name, hidden, lastActive := now, lastPing := now }
    ({ t with
      leases := t.leases.insert fp renewed
      tokenMap := (t.tokenMap.erase existing.token).insert token fp },
      some { port := existing.port, token })
  | none =>
    match t.freePort with
    | none => (t, none)
    | some port =>
      ({ t with
        tokenMap := t.tokenMap.insert token fp
        portMap := t.portMap.insert port fp
        leases := t.leases.insert fp {
          fingerprint := fp, name, port, token, lastActive := now, punchFrom := none
          lastPing := now, hidden } }, some { port, token })

/-- `get_by_token`. -/
def getByToken (t : LeaseTable) (token : BitVec 128) (now : Nat) : LeaseTable × Option Fingerprint :=
  match t.tokenMap.lookup token with
  | none => (t, none)
  | some fp =>
    let leases := match t.leases.lookup fp with
      | some entry => t.leases.insert fp { entry with lastActive := now }
      | none => t.leases
    ({ t with leases, tokensAcceptedCount := t.tokensAcceptedCount + 1 }, some fp)

/-- `LeaseTable::remove`. -/
def remove (t : LeaseTable) (fp : Fingerprint) : LeaseTable × Bool :=
  match t.leases.lookup fp with
  | some entry =>
    ({ t with
      leases := t.leases.erase fp
      portMap := t.portMap.erase entry.port
      tokenMap := t.tokenMap.erase entry.token }, true)
  | none => (t, false)

/-- `punch_seen`. -/
def punchSeen (t : LeaseTable) (fp : Fingerprint) (addr : SocketAddr) : LeaseTable × Bool :=
  match t.leases.lookup fp with
  | some entry =>
    ({ t with leases := t.leases.insert fp { entry with punchFrom := some addr } }, true)
  | none => (t, false)

/-- `heartbeat`. -/
def heartbeat (t : LeaseTable) (fp : Fingerprint) (now : Nat) : LeaseTable :=
  match t.leases.lookup fp with
  | some entry => { t with leases := t.leases.insert fp { entry with lastPing := now } }
  | none => t

/-- `alloc_session_port`. -/
def allocSessionPort (t : LeaseTable) (fpA fpB : Fingerprint) (now : Nat) :
    LeaseTable × Option UInt16 :=
  match t.ports.find? fun port => port ∉ t.portMap ∧ port ∉ t.sessionPorts with
  | none => (t, none)
  | some port =>
    ({ t with
      sessionPorts := insert port t.sessionPorts
      sessionMembers := t.sessionMembers.insert port (fpA, fpB)
      sessionActivity := t.sessionActivity.insert port now }, some port)

/-- `remove_session_port`. -/
def removeSessionPort (t : LeaseTable) (port : UInt16) : LeaseTable :=
  { t with
    sessionPorts := t.sessionPorts.erase port
    sessionMembers := t.sessionMembers.erase port
    sessionActivity := t.sessionActivity.erase port }

/-- `touch_session`. -/
def touchSession (t : LeaseTable) (port : UInt16) (now : Nat) : LeaseTable :=
  if port ∈ t.sessionActivity then
    { t with sessionActivity := t.sessionActivity.insert port now }
  else t

/-- `session_members_of`. -/
def sessionMembersOf (t : LeaseTable) (port : UInt16) : Option (Fingerprint × Fingerprint) :=
  t.sessionMembers.lookup port

/-- `session_member_ok_inner`. -/
def sessionMemberOkInner (t : LeaseTable) (port : UInt16) (fp : Fingerprint) : Bool :=
  match t.sessionMembersOf port with
  | some (a, b) => a = fp || b = fp
  | none => false

/-- `session_member_ok`. -/
def sessionMemberOk (t : LeaseTable) (port : UInt16) (fp : Fingerprint) : LeaseTable × Bool :=
  if t.sessionMemberOkInner port fp then (t, true)
  else ({ t with nonmemberRejectCount := t.nonmemberRejectCount + 1 }, false)

/-- The leases that have expired. -/
def expired (t : LeaseTable) (ttl now : Nat) : List Fingerprint :=
  (t.leases.entries.filter fun entry =>
    ttl < now - entry.2.lastActive ∧ ttl < now - entry.2.lastPing).map Sigma.fst

/-- The session ports that have been idle for twice the time. -/
def idlePorts (t : LeaseTable) (ttl now : Nat) : List UInt16 :=
  (t.sessionActivity.entries.filter fun entry => ttl * 2 < now - entry.2).map Sigma.fst

/-- `reap_expired`. -/
def reapExpired (t : LeaseTable) (ttl now : Nat) : LeaseTable × List Fingerprint :=
  let removed := (t.expired ttl now).foldl (fun t fp => (t.remove fp).1) t
  ((removed.idlePorts ttl now).foldl removeSessionPort removed, t.expired ttl now)

end LeaseTable

/-- The operations of the table. -/
inductive LeaseInput where
  | alloc (fp : Fingerprint) (name : String) (hidden : Bool) (token : BitVec 128) (now : Nat)
  | getByToken (token : BitVec 128) (now : Nat)
  | remove (fp : Fingerprint)
  | punchSeen (fp : Fingerprint) (addr : SocketAddr)
  | heartbeat (fp : Fingerprint) (now : Nat)
  | reapExpired (ttl now : Nat)
  | allocSessionPort (fpA fpB : Fingerprint) (now : Nat)
  | removeSessionPort (port : UInt16)
  | touchSession (port : UInt16) (now : Nat)
deriving DecidableEq

/-- A lease is given out with its port and token; a token is replaced, or removed with its lease; a
session port is given to two members, or taken back. -/
inductive LeaseEvent where
  | issued (fp : Fingerprint) (port : UInt16) (token : BitVec 128)
  | revoked (token : BitVec 128)
  | opened (port : UInt16) (fpA fpB : Fingerprint)
  | closed (port : UInt16)
deriving DecidableEq

namespace LeaseTable

/-- The token of a lease. -/
def tokenOf (t : LeaseTable) (fp : Fingerprint) : Option (BitVec 128) :=
  (t.leases.lookup fp).map LeaseEntry.token

/-- One operation. -/
def step : Machine LeaseTable LeaseInput LeaseEvent
  | t, .alloc fp name hidden token now =>
    match t.alloc fp name hidden token now with
    | (next, some lease) =>
      some (next, (t.tokenOf fp).toList.map .revoked ++ [.issued fp lease.port lease.token])
    | (next, none) => some (next, [])
  | t, .getByToken token now => some ((t.getByToken token now).1, [])
  | t, .remove fp => some ((t.remove fp).1, (t.tokenOf fp).toList.map .revoked)
  | t, .punchSeen fp addr => some ((t.punchSeen fp addr).1, [])
  | t, .heartbeat fp now => some (t.heartbeat fp now, [])
  | t, .reapExpired ttl now =>
    some ((t.reapExpired ttl now).1,
      ((t.expired ttl now).filterMap t.tokenOf).map .revoked ++
        (t.idlePorts ttl now).map .closed)
  | t, .allocSessionPort fpA fpB now =>
    match t.allocSessionPort fpA fpB now with
    | (next, some port) => some (next, [.opened port fpA fpB])
    | (next, none) => some (next, [])
  | t, .removeSessionPort port =>
    some (t.removeSessionPort port, if port ∈ t.sessionPorts then [.closed port] else [])
  | t, .touchSession port now => some (t.touchSession port now, [])

/-- Nothing leads to a fingerprint. -/
def NoEntry (t : LeaseTable) (fp : Fingerprint) : Prop :=
  t.leases.lookup fp = none ∧ (∀ port, t.portMap.lookup port ≠ some fp) ∧
    ∀ token, t.tokenMap.lookup token ≠ some fp

/-- How the tables belong together: a port and a token lead to the lease that has them, the ports
are those of the range, and the side tables are those of the session ports. -/
structure Represents (t : LeaseTable) : Prop where
  keyed : ∀ fp entry, t.leases.lookup fp = some entry → entry.fingerprint = fp
  portMap : ReverseIndex t.leases t.portMap LeaseEntry.port
  tokenMap : ReverseIndex t.leases t.tokenMap LeaseEntry.token
  leased : ∀ port ∈ t.portMap, port ∈ t.ports
  sessions : ∀ port ∈ t.sessionPorts, port ∈ t.ports
  members : ∀ port, port ∈ t.sessionMembers ↔ port ∈ t.sessionPorts
  activity : ∀ port, port ∈ t.sessionActivity ↔ port ∈ t.sessionPorts

end LeaseTable

/-- The token that is given out. -/
def LeaseEvent.drawn : LeaseEvent → Option (BitVec 128)
  | .issued _ _ token => some token
  | _ => none

/-- A token that is drawn was not given out before. -/
def freshTokens : Guard LeaseTable LeaseInput LeaseEvent :=
  fun trace _ input =>
    match input with
    | .alloc _ _ _ token _ => ∀ event ∈ trace, event.drawn ≠ some token
    | _ => True

/-- The condition on one step: a token that is drawn was not given out before, and the first port of
the range that no lease has is not a session port when a new lease gets it. -/
def apart : Guard LeaseTable LeaseInput LeaseEvent :=
  fun trace t input => freshTokens trace t input ∧
    match input with
    | .alloc fp _ _ _ _ => fp ∉ t.leases →
        match t.freePort with
        | some port => port ∉ t.sessionPorts
        | none => True
    | _ => True

instance (trace : List LeaseEvent) (t : LeaseTable) (input : LeaseInput) :
    Decidable (freshTokens trace t input) := by
  unfold freshTokens
  split <;> infer_instance

instance (trace : List LeaseEvent) (t : LeaseTable) (input : LeaseInput) :
    Decidable (apart trace t input) := by
  unfold apart
  split
  · split <;> infer_instance
  · infer_instance

/-- What the tables say after a history: they belong together, what was allocated is in the range, a
token that was replaced or removed leads nowhere, and no entry is left of a lease that is removed. -/
structure Accounted (trace : List LeaseEvent) (t : LeaseTable) : Prop where
  represents : t.Represents
  leased : ∀ fp port token, .issued fp port token ∈ trace → port ∈ t.ports
  opened : ∀ port fpA fpB, .opened port fpA fpB ∈ trace → port ∈ t.ports
  revoked : ∀ token, .revoked token ∈ trace → t.tokenMap.lookup token = none
  removed : ∀ fp, (t.remove fp).1.NoEntry fp
  reaped : ∀ ttl now, ∀ fp ∈ t.expired ttl now, (t.reapExpired ttl now).1.NoEntry fp

/-- No port is a device port and a session port. -/
def LeaseTable.Disjoint (t : LeaseTable) : Prop :=
  ∀ port ∈ t.portMap, port ∉ t.sessionPorts

namespace LeaseTable

variable {t next : LeaseTable} {input : LeaseInput} {trace emitted : List LeaseEvent}
  {fp : Fingerprint} {token : BitVec 128} {port : UInt16} {now : Nat}

theorem mem_map_iff {items : Map UInt16 Fingerprint} :
    port ∈ items ↔ ∃ fp, items.lookup port = some fp := by
  rw [← AList.lookup_isSome, Option.isSome_iff_exists]

theorem new_represents (portStart portEnd : UInt16) : (new portStart portEnd).Represents where
  keyed fp entry h := by cases h
  portMap := .empty
  tokenMap := .empty
  leased port h := absurd h (AList.notMem_empty port)
  sessions port h := absurd h (Finset.notMem_empty port)
  members port := iff_of_false (AList.notMem_empty port) (Finset.notMem_empty port)
  activity port := iff_of_false (AList.notMem_empty port) (Finset.notMem_empty port)

/-- A lease changes in other fields than its port and its token. -/
theorem Represents.touch (h : t.Represents) {entry changed : LeaseEntry} {count : Nat}
    (hentry : t.leases.lookup fp = some entry) (hfp : changed.fingerprint = entry.fingerprint)
    (hport : changed.port = entry.port) (htoken : changed.token = entry.token) :
    LeaseTable.Represents
      { t with leases := t.leases.insert fp changed, tokensAcceptedCount := count } where
  __ := h
  keyed fp' entry' hlookup := by
    rcases lookup_insert_iff.mp hlookup with ⟨rfl, rfl⟩ | ⟨-, hold⟩
    · exact hfp.trans (h.keyed _ _ hentry)
    · exact h.keyed _ _ hold
  portMap := h.portMap.update hentry hport
  tokenMap := h.tokenMap.update hentry htoken

/-- What a removal leaves. -/
theorem Represents.remove (h : t.Represents) (fp : Fingerprint) : (t.remove fp).1.Represents := by
  unfold LeaseTable.remove
  split
  · next entry hentry =>
    exact { h with
      keyed := fun fp' entry' hlookup => h.keyed _ _ (lookup_erase_iff.mp hlookup).2
      portMap := h.portMap.erase hentry
      tokenMap := h.tokenMap.erase hentry
      leased := fun port hport => h.leased port (AList.mem_erase.mp hport).2
      activity := h.activity }
  · exact h

theorem Represents.no_entry (h : t.Represents) (hfp : t.leases.lookup fp = none) : t.NoEntry fp := by
  refine ⟨hfp, fun port hport => ?_, fun token htoken => ?_⟩
  · obtain ⟨entry, hentry, -⟩ := (h.portMap fp port).mp hport
    rw [hfp] at hentry
    cases hentry
  · obtain ⟨entry, hentry, -⟩ := (h.tokenMap fp token).mp htoken
    rw [hfp] at hentry
    cases hentry

theorem lookup_remove (fp : Fingerprint) : (t.remove fp).1.leases.lookup fp = none := by
  unfold LeaseTable.remove
  split
  · exact AList.lookup_erase fp t.leases
  · assumption

theorem lookup_of_remove {fp' : Fingerprint} {entry : LeaseEntry}
    (h : (t.remove fp).1.leases.lookup fp' = some entry) : t.leases.lookup fp' = some entry := by
  unfold LeaseTable.remove at h
  split at h
  · exact (lookup_erase_iff.mp h).2
  · exact h

/-- The tables after the leases of some fingerprints are removed. -/
theorem Represents.remove_all (h : t.Represents) (fps : List Fingerprint) :
    (fps.foldl (fun t fp => (t.remove fp).1) t).Represents := by
  induction fps generalizing t with
  | nil => exact h
  | cons fp fps ih => exact ih (h.remove fp)

theorem lookup_of_remove_all {fps : List Fingerprint} {fp' : Fingerprint} {entry : LeaseEntry}
    (h : (fps.foldl (fun t fp => (t.remove fp).1) t).leases.lookup fp' = some entry) :
    fp' ∉ fps ∧ t.leases.lookup fp' = some entry := by
  induction fps generalizing t with
  | nil => exact ⟨List.not_mem_nil, h⟩
  | cons fp fps ih =>
    obtain ⟨hnot, hlookup⟩ := ih h
    refine ⟨?_, lookup_of_remove hlookup⟩
    intro hmem
    rcases List.mem_cons.mp hmem with rfl | hlater
    · rw [lookup_remove] at hlookup
      cases hlookup
    · exact hnot hlater

theorem Represents.remove_session_port (h : t.Represents) (port : UInt16) :
    (t.removeSessionPort port).Represents where
  __ := h
  sessions port' hport := h.sessions port' (Finset.mem_of_mem_erase hport)
  members port' := by
    show port' ∈ t.sessionMembers.erase port ↔ port' ∈ t.sessionPorts.erase port
    rw [AList.mem_erase, Finset.mem_erase, h.members]
  activity port' := by
    show port' ∈ t.sessionActivity.erase port ↔ port' ∈ t.sessionPorts.erase port
    rw [AList.mem_erase, Finset.mem_erase, h.activity]

/-- The tables after some session ports are taken back: the leases are untouched. -/
theorem remove_session_ports (idle : List UInt16) :
    (t.Represents → (idle.foldl removeSessionPort t).Represents) ∧
      (idle.foldl removeSessionPort t).leases = t.leases ∧
      (idle.foldl removeSessionPort t).portMap = t.portMap ∧
      (idle.foldl removeSessionPort t).tokenMap = t.tokenMap ∧
      (idle.foldl removeSessionPort t).sessionPorts ⊆ t.sessionPorts := by
  induction idle generalizing t with
  | nil => exact ⟨id, rfl, rfl, rfl, Finset.Subset.refl _⟩
  | cons port idle ih =>
    obtain ⟨hrepresents, hleases, hports, htokens, hsub⟩ := ih (t := t.removeSessionPort port)
    exact ⟨fun h => hrepresents (h.remove_session_port port), hleases, hports, htokens,
      hsub.trans (Finset.erase_subset _ _)⟩

/-- A lease is given out: the token leads nowhere yet. -/
theorem Represents.alloc (h : t.Represents) (fp : Fingerprint) (name : String) (hidden : Bool)
    (now : Nat) (hfresh : t.tokenMap.lookup token = none) :
    (t.alloc fp name hidden token now).1.Represents := by
  unfold LeaseTable.alloc
  split
  · next existing hexisting =>
    exact { h with
      keyed := fun fp' entry hlookup => by
        rcases lookup_insert_iff.mp hlookup with ⟨rfl, rfl⟩ | ⟨-, hold⟩
        · show existing.fingerprint = fp'
          exact h.keyed _ _ hexisting
        · exact h.keyed _ _ hold
      portMap := h.portMap.update hexisting rfl
      tokenMap := h.tokenMap.rekey hexisting hfresh
      activity := h.activity }
  · next hnew =>
    split
    · exact h
    · next port hfree =>
      have hport : port ∉ t.portMap := by simpa using List.find?_some hfree
      exact { h with
        keyed := fun fp' entry hlookup => by
          rcases lookup_insert_iff.mp hlookup with ⟨rfl, rfl⟩ | ⟨-, hold⟩
          · rfl
          · exact h.keyed _ _ hold
        portMap := h.portMap.insert hnew (AList.lookup_eq_none.mpr hport)
        tokenMap := h.tokenMap.insert hnew hfresh
        leased := fun port' hport' => by
          rcases (AList.mem_insert _).mp hport' with rfl | hold
          · exact List.mem_of_find?_eq_some hfree
          · exact h.leased port' hold
        activity := h.activity }

/-- A session port is one that neither a lease nor a session has. -/
theorem alloc_session_port_cases (t : LeaseTable) (fpA fpB : Fingerprint) (now : Nat) :
    (t.allocSessionPort fpA fpB now = (t, none)) ∨ ∃ port ∈ t.ports, port ∉ t.portMap ∧
      port ∉ t.sessionPorts ∧ t.allocSessionPort fpA fpB now = ({ t with
        sessionPorts := insert port t.sessionPorts
        sessionMembers := t.sessionMembers.insert port (fpA, fpB)
        sessionActivity := t.sessionActivity.insert port now }, some port) := by
  unfold allocSessionPort
  split
  · exact .inl rfl
  · next port hfree =>
    have hport : port ∉ t.portMap ∧ port ∉ t.sessionPorts := by simpa using List.find?_some hfree
    exact .inr ⟨port, List.mem_of_find?_eq_some hfree, hport.1, hport.2, rfl⟩

theorem Represents.alloc_session_port (h : t.Represents) (fpA fpB : Fingerprint) (now : Nat) :
    (t.allocSessionPort fpA fpB now).1.Represents := by
  rcases alloc_session_port_cases t fpA fpB now with
    heq | ⟨port, hport, -, -, heq⟩
  · rw [heq]
    exact h
  · rw [heq]
    exact { h with
      sessions := fun port' hport' => by
        rcases Finset.mem_insert.mp hport' with rfl | hold
        · exact hport
        · exact h.sessions port' hold
      members := fun port' => by rw [AList.mem_insert, Finset.mem_insert, h.members]
      activity := fun port' => by rw [AList.mem_insert, Finset.mem_insert, h.activity] }

theorem Represents.get_by_token (h : t.Represents) :
    (t.getByToken token now).1.Represents := by
  unfold LeaseTable.getByToken
  split
  · exact h
  · next found hfound =>
    obtain ⟨entry, hentry, -⟩ := (h.tokenMap found token).mp hfound
    rw [hentry]
    exact h.touch hentry rfl rfl rfl

theorem Represents.punch_seen (h : t.Represents) {addr : SocketAddr} :
    (t.punchSeen fp addr).1.Represents := by
  unfold LeaseTable.punchSeen
  split
  · next entry hentry => exact h.touch hentry rfl rfl rfl
  · exact h

theorem Represents.heartbeat (h : t.Represents) : (t.heartbeat fp now).Represents := by
  unfold LeaseTable.heartbeat
  split
  · next entry hentry => exact h.touch hentry rfl rfl rfl
  · exact h

theorem Represents.touch_session (h : t.Represents) : (t.touchSession port now).Represents := by
  unfold LeaseTable.touchSession
  split
  · next hport =>
    exact { h with
      activity := fun port' => by
        rw [AList.mem_insert, h.activity]
        exact ⟨fun hor => hor.elim (fun heq => heq ▸ (h.activity port).mp hport) id, .inr⟩ }
  · exact h

theorem Represents.reap_expired (h : t.Represents) {ttl : Nat} :
    (t.reapExpired ttl now).1.Represents :=
  (remove_session_ports _).1 (h.remove_all _)

/-- Every operation keeps the tables together. -/
theorem Represents.step (h : t.Represents)
    (hfresh : ∀ fp name hidden token now, input = .alloc fp name hidden token now →
      t.tokenMap.lookup token = none)
    (hnext : step t input = some (next, emitted)) : next.Represents := by
  cases input with
  | alloc fp name hidden token now =>
    have halloc := h.alloc fp name hidden now (hfresh fp name hidden token now rfl)
    simp only [LeaseTable.step] at hnext
    split at hnext
    · next table lease heq =>
      obtain ⟨rfl, -⟩ := answer_inj hnext
      rw [heq] at halloc
      exact halloc
    · next table heq =>
      obtain ⟨rfl, -⟩ := answer_inj hnext
      rw [heq] at halloc
      exact halloc
  | allocSessionPort fpA fpB now =>
    have halloc := h.alloc_session_port fpA fpB now
    simp only [LeaseTable.step] at hnext
    split at hnext
    · next table port heq =>
      obtain ⟨rfl, -⟩ := answer_inj hnext
      rw [heq] at halloc
      exact halloc
    · next table heq =>
      obtain ⟨rfl, -⟩ := answer_inj hnext
      rw [heq] at halloc
      exact halloc
  | getByToken =>
    obtain ⟨rfl, -⟩ := answer_inj hnext
    exact h.get_by_token
  | remove fp =>
    obtain ⟨rfl, -⟩ := answer_inj hnext
    exact h.remove fp
  | punchSeen =>
    obtain ⟨rfl, -⟩ := answer_inj hnext
    exact h.punch_seen
  | heartbeat =>
    obtain ⟨rfl, -⟩ := answer_inj hnext
    exact h.heartbeat
  | reapExpired =>
    obtain ⟨rfl, -⟩ := answer_inj hnext
    exact h.reap_expired
  | removeSessionPort port =>
    obtain ⟨rfl, -⟩ := answer_inj hnext
    exact h.remove_session_port port
  | touchSession =>
    obtain ⟨rfl, -⟩ := answer_inj hnext
    exact h.touch_session

/-- What an operation tells: a token leads to the lease for which it was given out; a token that is
replaced or removed has led to a lease, and leads nowhere; what is allocated is in the range. -/
structure Tells (t next : LeaseTable) (emitted : List LeaseEvent) : Prop where
  ports : next.ports = t.ports
  resolves : ∀ token fp, next.tokenMap.lookup token = some fp → t.tokenMap.lookup token = some fp ∨
    ∃ port, .issued fp port token ∈ emitted
  issued : ∀ fp port token, .issued fp port token ∈ emitted → port ∈ t.ports
  revoked : ∀ token, .revoked token ∈ emitted → next.tokenMap.lookup token = none ∧
    ∃ fp, t.tokenMap.lookup token = some fp
  opened : ∀ port fpA fpB, .opened port fpA fpB ∈ emitted → port ∈ t.ports

/-- An operation that leaves the tokens. -/
theorem Tells.still (hports : next.ports = t.ports) (htokens : next.tokenMap = t.tokenMap)
    (hissued : ∀ event ∈ emitted, event.drawn = none ∧ ∀ token, event ≠ .revoked token)
    (hopened : ∀ port fpA fpB, .opened port fpA fpB ∈ emitted → port ∈ t.ports) :
    Tells t next emitted where
  ports := hports
  resolves token fp hlookup := .inl (htokens ▸ hlookup)
  issued fp port token hmem := by cases (hissued _ hmem).1
  revoked token hmem := absurd rfl ((hissued _ hmem).2 token)
  opened := hopened

theorem Represents.leased_port (h : t.Represents) {entry : LeaseEntry}
    (hentry : t.leases.lookup fp = some entry) : entry.port ∈ t.ports :=
  h.leased _ (mem_map_iff.mpr ⟨fp, (h.portMap fp entry.port).mpr ⟨entry, hentry, rfl⟩⟩)

theorem Represents.token_of (h : t.Represents) (htoken : t.tokenOf fp = some token) :
    t.tokenMap.lookup token = some fp := by
  obtain ⟨entry, hentry, rfl⟩ := Option.map_eq_some_iff.mp htoken
  exact (h.tokenMap fp entry.token).mpr ⟨entry, hentry, rfl⟩

theorem tells_alloc (h : t.Represents) {name : String} {hidden : Bool}
    (hfresh : t.tokenMap.lookup token = none)
    (hnext : step t (.alloc fp name hidden token now) = some (next, emitted)) :
    Tells t next emitted := by
  simp only [step, alloc, tokenOf] at hnext
  cases hlookup : t.leases.lookup fp with
  | some existing =>
    simp only [hlookup] at hnext
    obtain ⟨rfl, rfl⟩ := answer_inj hnext
    have hold : t.tokenMap.lookup existing.token = some fp :=
      (h.tokenMap fp existing.token).mpr ⟨existing, hlookup, rfl⟩
    refine ⟨rfl, fun token' fp' hresolves => ?_, fun fp' port token' hmem => ?_,
      fun token' hmem => ?_, fun port fpA fpB hmem => by simp at hmem⟩
    · rcases lookup_insert_iff.mp hresolves with ⟨rfl, rfl⟩ | ⟨-, hkept⟩
      · exact .inr ⟨existing.port, by simp⟩
      · exact .inl (lookup_erase_iff.mp hkept).2
    · obtain ⟨rfl, rfl, rfl⟩ : fp' = fp ∧ port = existing.port ∧ token' = token := by
        simpa using hmem
      exact h.leased_port hlookup
    · obtain rfl : token' = existing.token := by simpa using hmem
      refine ⟨Option.eq_none_iff_forall_ne_some.mpr fun fp' hresolves => ?_, fp, hold⟩
      rcases lookup_insert_iff.mp hresolves with ⟨heq, -⟩ | ⟨-, hkept⟩
      · rw [heq, hfresh] at hold
        cases hold
      · exact (lookup_erase_iff.mp hkept).1 rfl
  | none =>
    simp only [hlookup] at hnext
    cases hfree : t.freePort with
    | none =>
      simp only [hfree] at hnext
      obtain ⟨rfl, rfl⟩ := answer_inj hnext
      exact .still rfl rfl (by simp) (by simp)
    | some port =>
      simp only [hfree] at hnext
      obtain ⟨rfl, rfl⟩ := answer_inj hnext
      refine ⟨rfl, fun token' fp' hresolves => ?_, fun fp' port' token' hmem => ?_, by simp,
        by simp⟩
      · rcases lookup_insert_iff.mp hresolves with ⟨rfl, rfl⟩ | ⟨-, hkept⟩
        · exact .inr ⟨port, by simp⟩
        · exact .inl hkept
      · obtain ⟨rfl, rfl, rfl⟩ : fp' = fp ∧ port' = port ∧ token' = token := by
          simpa using hmem
        exact List.mem_of_find?_eq_some hfree

theorem tells_remove (h : t.Represents) :
    Tells t (t.remove fp).1 ((t.tokenOf fp).toList.map .revoked) := by
  unfold LeaseTable.remove tokenOf
  split
  · next entry hentry =>
    refine ⟨rfl, fun token fp' hresolves => .inl (lookup_erase_iff.mp hresolves).2, by simp,
      fun token hmem => ?_, by simp⟩
    obtain rfl : token = entry.token := by simpa [hentry] using hmem
    exact ⟨AList.lookup_erase entry.token t.tokenMap, fp, (h.tokenMap _ _).mpr ⟨entry, hentry, rfl⟩⟩
  · next hentry => exact .still rfl rfl (by simp [hentry]) (by simp)

theorem ports_remove_all (fps : List Fingerprint) :
    (fps.foldl (fun t fp => (t.remove fp).1) t).ports = t.ports := by
  induction fps generalizing t with
  | nil => rfl
  | cons fp fps ih =>
    refine (ih (t := (t.remove fp).1)).trans ?_
    unfold LeaseTable.remove
    split <;> rfl

theorem ports_remove_session_ports (idle : List UInt16) :
    (idle.foldl removeSessionPort t).ports = t.ports := by
  induction idle generalizing t with
  | nil => rfl
  | cons port idle ih => exact ih (t := t.removeSessionPort port)

theorem tokens_of_remove_all (h : t.Represents) {fps : List Fingerprint}
    (hlookup : (fps.foldl (fun t fp => (t.remove fp).1) t).tokenMap.lookup token = some fp) :
    fp ∉ fps ∧ t.tokenMap.lookup token = some fp := by
  obtain ⟨entry, hentry, rfl⟩ := ((h.remove_all fps).tokenMap fp token).mp hlookup
  obtain ⟨hnot, hold⟩ := lookup_of_remove_all hentry
  exact ⟨hnot, (h.tokenMap fp entry.token).mpr ⟨entry, hold, rfl⟩⟩

theorem tells_reap (h : t.Represents) {ttl : Nat} :
    Tells t (t.reapExpired ttl now).1 (((t.expired ttl now).filterMap t.tokenOf).map .revoked ++
      (t.idlePorts ttl now).map .closed) := by
  have htokens : (t.reapExpired ttl now).1.tokenMap =
      ((t.expired ttl now).foldl (fun t fp => (t.remove fp).1) t).tokenMap :=
    (remove_session_ports _).2.2.2.1
  refine ⟨?_, fun token fp hresolves => ?_, by simp, fun token hmem => ?_, by simp⟩
  · exact (ports_remove_session_ports _).trans (ports_remove_all _)
  · rw [htokens] at hresolves
    exact .inl (tokens_of_remove_all h hresolves).2
  · obtain ⟨fp, hexpired, htoken⟩ :
        ∃ fp ∈ t.expired ttl now, t.tokenOf fp = some token := by simpa using hmem
    have hold := h.token_of htoken
    rw [htokens]
    refine ⟨Option.eq_none_iff_forall_ne_some.mpr fun fp' hresolves => ?_, fp, hold⟩
    obtain ⟨hnot, hsame⟩ := tokens_of_remove_all h hresolves
    obtain rfl := Option.some.inj (hold.symm.trans hsame)
    exact hnot hexpired

/-- A lease is given out by a registration. -/
theorem step_draws (hnext : step t input = some (next, emitted))
    (hissued : .issued fp port token ∈ emitted) :
    ∃ fp name hidden now, input = .alloc fp name hidden token now := by
  cases input with
  | alloc fp' name hidden token' now =>
    simp only [step] at hnext
    split at hnext
    · next table lease heq =>
      obtain ⟨rfl, rfl⟩ := answer_inj hnext
      obtain ⟨-, -, rfl⟩ : fp = fp' ∧ port = lease.port ∧ token = lease.token := by
        simpa using hissued
      have htoken : lease.token = token' := by
        unfold alloc at heq
        split at heq
        · exact (congrArg AllocatedLease.token (Option.some.inj (congrArg Prod.snd heq))).symm
        · split at heq
          · cases congrArg Prod.snd heq
          · exact (congrArg AllocatedLease.token (Option.some.inj (congrArg Prod.snd heq))).symm
      exact ⟨fp', name, hidden, now, by rw [htoken]⟩
    · obtain ⟨-, rfl⟩ := answer_inj hnext
      cases hissued
  | allocSessionPort =>
    simp only [step] at hnext
    split at hnext
    · obtain ⟨-, rfl⟩ := answer_inj hnext
      cases List.mem_singleton.mp hissued
    · obtain ⟨-, rfl⟩ := answer_inj hnext
      cases hissued
  | removeSessionPort =>
    obtain ⟨-, rfl⟩ := answer_inj hnext
    split at hissued
    · cases List.mem_singleton.mp hissued
    · cases hissued
  | _ =>
    obtain ⟨-, rfl⟩ := answer_inj hnext
    simp at hissued

/-- An operation that leaves everything but times, addresses and counts. -/
structure Quiet (t next : LeaseTable) : Prop where
  ports : next.ports = t.ports
  portMap : next.portMap = t.portMap
  tokenMap : next.tokenMap = t.tokenMap
  sessionPorts : next.sessionPorts = t.sessionPorts
  sessionMembers : next.sessionMembers = t.sessionMembers

theorem Quiet.refl (t : LeaseTable) : Quiet t t := ⟨rfl, rfl, rfl, rfl, rfl⟩

theorem Quiet.trans {between : LeaseTable} (h : Quiet t between) (h' : Quiet between next) :
    Quiet t next :=
  ⟨h'.ports.trans h.ports, h'.portMap.trans h.portMap, h'.tokenMap.trans h.tokenMap,
    h'.sessionPorts.trans h.sessionPorts, h'.sessionMembers.trans h.sessionMembers⟩

theorem Quiet.tells (h : Quiet t next) : Tells t next [] :=
  .still h.ports h.tokenMap (by simp) (by simp)

theorem quiet_get_by_token (token : BitVec 128) (now : Nat) :
    Quiet t (t.getByToken token now).1 := by
  unfold LeaseTable.getByToken
  split
  · exact .refl t
  · exact ⟨rfl, rfl, rfl, rfl, rfl⟩

theorem quiet_punch_seen (fp : Fingerprint) (addr : SocketAddr) :
    Quiet t (t.punchSeen fp addr).1 := by
  unfold LeaseTable.punchSeen
  split
  · exact ⟨rfl, rfl, rfl, rfl, rfl⟩
  · exact .refl t

theorem quiet_heartbeat (fp : Fingerprint) (now : Nat) : Quiet t (t.heartbeat fp now) := by
  unfold LeaseTable.heartbeat
  split
  · exact ⟨rfl, rfl, rfl, rfl, rfl⟩
  · exact .refl t

theorem quiet_touch_session (port : UInt16) (now : Nat) : Quiet t (t.touchSession port now) := by
  unfold LeaseTable.touchSession
  split
  · exact ⟨rfl, rfl, rfl, rfl, rfl⟩
  · exact .refl t

/-- What every operation tells. -/
theorem step_tells (h : t.Represents)
    (hfresh : ∀ fp name hidden token now, input = .alloc fp name hidden token now →
      t.tokenMap.lookup token = none)
    (hnext : step t input = some (next, emitted)) : Tells t next emitted := by
  cases input with
  | alloc fp name hidden token now => exact tells_alloc h (hfresh _ _ _ _ _ rfl) hnext
  | remove fp =>
    obtain ⟨rfl, rfl⟩ := answer_inj hnext
    exact tells_remove h
  | reapExpired ttl now =>
    obtain ⟨rfl, rfl⟩ := answer_inj hnext
    exact tells_reap h
  | allocSessionPort fpA fpB now =>
    simp only [step] at hnext
    rcases alloc_session_port_cases t fpA fpB now with
      heq | ⟨port, hport, -, -, heq⟩
    · rw [heq] at hnext
      obtain ⟨rfl, rfl⟩ := answer_inj hnext
      exact .still rfl rfl (by simp) (by simp)
    · rw [heq] at hnext
      obtain ⟨rfl, rfl⟩ := answer_inj hnext
      refine .still rfl rfl (by simp [LeaseEvent.drawn]) fun port' fpA' fpB' hmem => ?_
      obtain ⟨rfl, -⟩ : port' = port ∧ _ := by simpa using hmem
      exact hport
  | removeSessionPort port =>
    obtain ⟨rfl, rfl⟩ := answer_inj hnext
    refine .still rfl rfl (fun event hmem => ?_) fun port' fpA fpB hmem => ?_
    · split at hmem
      · obtain rfl := List.mem_singleton.mp hmem
        exact ⟨rfl, fun token heq => by cases heq⟩
      · cases hmem
    · split at hmem
      · cases List.mem_singleton.mp hmem
      · cases hmem
  | getByToken token now =>
    obtain ⟨rfl, rfl⟩ := answer_inj hnext
    exact (quiet_get_by_token token now).tells
  | punchSeen fp addr =>
    obtain ⟨rfl, rfl⟩ := answer_inj hnext
    exact (quiet_punch_seen fp addr).tells
  | heartbeat fp now =>
    obtain ⟨rfl, rfl⟩ := answer_inj hnext
    exact (quiet_heartbeat fp now).tells
  | touchSession port now =>
    obtain ⟨rfl, rfl⟩ := answer_inj hnext
    exact (quiet_touch_session port now).tells

/-- The invariant of a history: what leads to a lease was given out, and what was replaced or removed
leads nowhere. -/
structure Accounting (trace : List LeaseEvent) (t : LeaseTable) : Prop where
  represents : t.Represents
  resolves : ∀ token fp, t.tokenMap.lookup token = some fp → ∃ port, .issued fp port token ∈ trace
  revoked : ∀ token, .revoked token ∈ trace → t.tokenMap.lookup token = none ∧
    ∃ fp port, .issued fp port token ∈ trace
  issued : ∀ fp port token, .issued fp port token ∈ trace → port ∈ t.ports
  opened : ∀ port fpA fpB, .opened port fpA fpB ∈ trace → port ∈ t.ports

theorem new_accounting (portStart portEnd : UInt16) :
    (new portStart portEnd).Accounting [] where
  represents := new_represents portStart portEnd
  resolves token fp hlookup := by cases hlookup
  revoked token hmem := by cases hmem
  issued fp port token hmem := by cases hmem
  opened port fpA fpB hmem := by cases hmem

/-- A token that was not given out leads nowhere. -/
theorem Accounting.fresh (hinv : t.Accounting trace) (hguard : freshTokens trace t input) :
    ∀ fp name hidden token now, input = .alloc fp name hidden token now →
      t.tokenMap.lookup token = none := by
  rintro fp name hidden token now rfl
  refine Option.eq_none_iff_forall_ne_some.mpr fun fp' hlookup => ?_
  obtain ⟨port, hissued⟩ := hinv.resolves token fp' hlookup
  exact hguard _ hissued rfl

theorem Accounting.step (hinv : t.Accounting trace) (hguard : freshTokens trace t input)
    (hnext : step t input = some (next, emitted)) : next.Accounting (trace ++ emitted) := by
  have hfresh := hinv.fresh hguard
  have htells := step_tells hinv.represents hfresh hnext
  refine ⟨hinv.represents.step hfresh hnext, fun token fp hlookup => ?_, fun token hmem => ?_,
    fun fp port token hmem => ?_, fun port fpA fpB hmem => ?_⟩
  · rcases htells.resolves token fp hlookup with hold | ⟨port, hnew⟩
    · obtain ⟨port, hissued⟩ := hinv.resolves token fp hold
      exact ⟨port, List.mem_append_left _ hissued⟩
    · exact ⟨port, List.mem_append_right _ hnew⟩
  · rcases List.mem_append.mp hmem with hold | hnew
    · obtain ⟨hnone, fp, port, hissued⟩ := hinv.revoked token hold
      refine ⟨Option.eq_none_iff_forall_ne_some.mpr fun fp' hlookup => ?_, fp, port,
        List.mem_append_left _ hissued⟩
      -- Only a token that is drawn now leads somewhere anew, and it was not given out.
      rcases htells.resolves token fp' hlookup with hsame | ⟨port', hdrawn⟩
      · rw [hnone] at hsame
        cases hsame
      · obtain ⟨fp, name, hidden, now, rfl⟩ := step_draws hnext hdrawn
        exact hguard _ hissued rfl
    · obtain ⟨hnone, fp, hlookup⟩ := htells.revoked token hnew
      obtain ⟨port, hissued⟩ := hinv.resolves token fp hlookup
      exact ⟨hnone, fp, port, List.mem_append_left _ hissued⟩
  · rw [htells.ports]
    rcases List.mem_append.mp hmem with hold | hnew
    · exact hinv.issued fp port token hold
    · exact htells.issued fp port token hnew
  · rw [htells.ports]
    rcases List.mem_append.mp hmem with hold | hnew
    · exact hinv.opened port fpA fpB hold
    · exact htells.opened port fpA fpB hnew

theorem Accounting.accounted (hinv : t.Accounting trace) : Accounted trace t where
  __ := hinv
  leased := hinv.issued
  revoked token hmem := (hinv.revoked token hmem).1
  removed fp := (hinv.represents.remove fp).no_entry (lookup_remove fp)
  reaped ttl now fp hexpired := by
    refine hinv.represents.reap_expired.no_entry ?_
    refine Option.eq_none_iff_forall_ne_some.mpr fun entry hentry => ?_
    have hleases : (t.reapExpired ttl now).1.leases =
        ((t.expired ttl now).foldl (fun t fp => (t.remove fp).1) t).leases :=
      (remove_session_ports _).2.1
    rw [hleases] at hentry
    exact (lookup_of_remove_all hentry).1 hexpired

theorem mem_of_remove (h : port ∈ (t.remove fp).1.portMap) : port ∈ t.portMap := by
  unfold LeaseTable.remove at h
  split at h
  · exact (AList.mem_erase.mp h).2
  · exact h

theorem mem_of_remove_all {fps : List Fingerprint}
    (h : port ∈ (fps.foldl (fun t fp => (t.remove fp).1) t).portMap) : port ∈ t.portMap := by
  induction fps generalizing t with
  | nil => exact h
  | cons fp fps ih => exact mem_of_remove (ih h)

theorem session_ports_remove_all (fps : List Fingerprint) :
    (fps.foldl (fun t fp => (t.remove fp).1) t).sessionPorts = t.sessionPorts := by
  induction fps generalizing t with
  | nil => rfl
  | cons fp fps ih =>
    refine (ih (t := (t.remove fp).1)).trans ?_
    unfold LeaseTable.remove
    split <;> rfl

theorem Quiet.disjoint (h : Quiet t next) (hinv : t.Disjoint) : next.Disjoint := by
  intro port hport
  rw [h.sessionPorts]
  exact hinv port (h.portMap ▸ hport)

/-- Device ports and session ports stay apart if a new lease gets no session port. -/
theorem Disjoint.step (hinv : t.Disjoint) (hguard : apart trace t input)
    (hnext : step t input = some (next, emitted)) : next.Disjoint := by
  cases input with
  | alloc fp name hidden token now =>
    simp only [LeaseTable.step, alloc] at hnext
    cases hlookup : t.leases.lookup fp with
    | some existing =>
      simp only [hlookup] at hnext
      obtain ⟨rfl, -⟩ := answer_inj hnext
      exact hinv
    | none =>
      simp only [hlookup] at hnext
      cases hfree : t.freePort with
      | none =>
        simp only [hfree] at hnext
        obtain ⟨rfl, -⟩ := answer_inj hnext
        exact hinv
      | some port =>
        simp only [hfree] at hnext
        obtain ⟨rfl, -⟩ := answer_inj hnext
        intro port' hport'
        rcases (AList.mem_insert _).mp hport' with rfl | hold
        · have hfresh := hguard.2 (AList.lookup_eq_none.mp hlookup)
          rw [hfree] at hfresh
          exact hfresh
        · exact hinv port' hold
  | remove fp =>
    obtain ⟨rfl, -⟩ := answer_inj hnext
    intro port hport
    have hsame := session_ports_remove_all (t := t) [fp]
    rw [show (t.remove fp).1.sessionPorts = t.sessionPorts from hsame]
    exact hinv port (mem_of_remove hport)
  | reapExpired ttl now =>
    obtain ⟨rfl, -⟩ := answer_inj hnext
    intro port hport hsession
    obtain ⟨-, -, hports, -, hsub⟩ := remove_session_ports
      (t := (t.expired ttl now).foldl (fun t fp => (t.remove fp).1) t)
      (((t.expired ttl now).foldl (fun t fp => (t.remove fp).1) t).idlePorts ttl now)
    have hkept := hsub hsession
    rw [session_ports_remove_all] at hkept
    have hleased : port ∈ ((t.expired ttl now).foldl (fun t fp => (t.remove fp).1) t).portMap :=
      hports ▸ hport
    exact hinv port (mem_of_remove_all hleased) hkept
  | allocSessionPort fpA fpB now =>
    simp only [LeaseTable.step] at hnext
    rcases alloc_session_port_cases t fpA fpB now with
      heq | ⟨port, -, hfree, -, heq⟩
    · rw [heq] at hnext
      obtain ⟨rfl, -⟩ := answer_inj hnext
      exact hinv
    · rw [heq] at hnext
      obtain ⟨rfl, -⟩ := answer_inj hnext
      intro port' hport' hsession
      rcases Finset.mem_insert.mp hsession with rfl | hold
      · exact hfree hport'
      · exact hinv port' hport' hold
  | removeSessionPort port =>
    obtain ⟨rfl, -⟩ := answer_inj hnext
    exact fun port' hport' hsession => hinv port' hport' (Finset.mem_of_mem_erase hsession)
  | getByToken token now =>
    obtain ⟨rfl, -⟩ := answer_inj hnext
    exact (quiet_get_by_token token now).disjoint hinv
  | punchSeen fp addr =>
    obtain ⟨rfl, -⟩ := answer_inj hnext
    exact (quiet_punch_seen fp addr).disjoint hinv
  | heartbeat fp now =>
    obtain ⟨rfl, -⟩ := answer_inj hnext
    exact (quiet_heartbeat fp now).disjoint hinv
  | touchSession port now =>
    obtain ⟨rfl, -⟩ := answer_inj hnext
    exact (quiet_touch_session port now).disjoint hinv

end LeaseTable

/-- In every history the tables belong together. Where a new lease gets no session port, device
ports and session ports stay apart. -/
theorem lease_table_sound {portStart portEnd : UInt16} {inputs : List LeaseInput}
    {trace : List LeaseEvent} {t : LeaseTable}
    (h : Exec LeaseTable.step apart (.new portStart portEnd) inputs trace t) :
    Accounted trace t ∧ t.Disjoint := by
  suffices hinv : t.Accounting trace ∧ t.Disjoint from ⟨hinv.1.accounted, hinv.2⟩
  induction h with
  | start =>
    exact ⟨LeaseTable.new_accounting portStart portEnd, fun port hport =>
      absurd hport (AList.notMem_empty port)⟩
  | step _ hguard hnext ih => exact ⟨ih.1.step hguard.1 hnext, ih.2.step hguard hnext⟩

/-- Three devices register, two of them meet, one registers again and one leaves. -/
def meeting : List LeaseInput :=
  [.alloc 1 "phone" false 7 0, .alloc 2 "desk" false 8 0, .alloc 3 "tower" false 9 0,
    .allocSessionPort 1 2 1, .alloc 1 "phone" true 10 2, .remove 3]

/-- A device registers when two others meet. -/
def lateDevice : List LeaseInput :=
  [.alloc 1 "phone" false 7 0, .alloc 2 "desk" false 8 0, .allocSessionPort 1 2 1,
    .alloc 3 "tower" false 9 2]

theorem meeting_sound : ∃ trace t,
    Exec LeaseTable.step apart (.new 9000 9010) meeting trace t ∧ 9003 ∈ t.sessionPorts ∧
      t.tokenMap.lookup 10 = some 1 ∧ Accounted trace t ∧ t.Disjoint := by
  have hrun : (Machine.run LeaseTable.step apart [] (.new 9000 9010) meeting).map
      (fun result => (decide (9003 ∈ result.1.sessionPorts), result.1.tokenMap.lookup 10)) =
        some (true, some 1) := by decide +kernel
  obtain ⟨⟨t, trace⟩, hrun, hviews⟩ := Option.map_eq_some_iff.mp hrun
  obtain ⟨hport, htoken⟩ := Prod.mk.inj hviews
  have hexec := Exec.start.append_run hrun
  exact ⟨trace, t, hexec, of_decide_eq_true hport, htoken, lease_table_sound hexec⟩

/-- The third device gets the port of the session. -/
theorem device_gets_session_port :
    ¬ ∀ (inputs : List LeaseInput) (trace : List LeaseEvent) (t : LeaseTable),
      Exec LeaseTable.step freshTokens (.new 9000 9010) inputs trace t → t.Disjoint := by
  intro hall
  have hrun : (Machine.run LeaseTable.step freshTokens [] (.new 9000 9010) lateDevice).map
      (fun result => (decide (9002 ∈ result.1.portMap), decide (9002 ∈ result.1.sessionPorts))) =
        some (true, true) := by decide +kernel
  obtain ⟨⟨t, trace⟩, hrun, hviews⟩ := Option.map_eq_some_iff.mp hrun
  obtain ⟨hdevice, hsession⟩ := Prod.mk.inj hviews
  exact hall _ trace t (Exec.start.append_run hrun) 9002 (of_decide_eq_true hdevice)
    (of_decide_eq_true hsession)

end LocalTrans.Relay.Lease
