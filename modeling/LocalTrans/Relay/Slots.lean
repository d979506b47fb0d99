import LocalTrans.Foundation.Execution
import LocalTrans.Foundation.Places
import LocalTrans.Relay.Messages
import Mathlib.Logic.Function.Basic

/-!
# The slots of control connections

The accept loop of `control.rs`, the task of each connection, and `ConnGuard`. `active_conns` counts
all connections and `ip_conns` those of an address, behind a lock; the tasks run in any order. Only
the accept loop looks at `active_conns`, and it does not wait between the reservation of a slot and
its return, so that to refuse a connection is one step. `accounts` says what the counters count in
every run, and `slots_right` when these are exactly the connections that hold a slot.
-/

namespace LocalTrans.Relay

open Foundation

/-- Where the task of a connection is: it waits for the handshake; it waits for the lock of the
counters of addresses, has it, and was found to be one too many; `handle_conn` runs; in `release`, it
waits for the lock and has it, and then drops the guard; after a panic in `handle_conn`, the guard is
dropped, which takes the connection off `active_conns`, tries the lock, and may have it; the task has
ended. -/
inductive SlotPhase where
  | handshake
  | entering (ip : IpAddr)
  | counting (ip : IpAddr)
  | tooMany
  | serving (ip : IpAddr)
  | releasing (ip : IpAddr)
  | discounting (ip : IpAddr)
  | leaving
  | unwinding (ip : IpAddr)
  | trying (ip : IpAddr)
  | uncounting (ip : IpAddr)
  | ended
deriving DecidableEq

/-- The connection holds a slot of the relay. -/
def SlotPhase.holdsSlot : SlotPhase → Bool
  | .trying _ | .uncounting _ | .ended => false
  | _ => true

/-- The connection holds a slot of the address. -/
def SlotPhase.holdsAddress (ip : IpAddr) : SlotPhase → Bool
  | .serving peer | .releasing peer | .discounting peer | .unwinding peer | .trying peer
  | .uncounting peer => peer = ip
  | _ => false

/-- The counters, the task that has the lock of the counters of addresses, and the tasks. -/
structure SlotTable where
  activeConns : Nat
  ipConns : IpAddr → Option Nat
  lock : Option Nat
  conns : List SlotPhase

/-- A connection comes in; its handshake succeeds, from an address, or fails; its `handle_conn`
returns or panics; its task goes on. -/
inductive SlotInput where
  | accept
  | handshake (conn : Nat) (peer : Option IpAddr)
  | close (conn : Nat)
  | panicked (conn : Nat)
  | run (conn : Nat)
deriving DecidableEq

/-- A connection is accepted, or refused; a task ends; it ends without counting its connection off
the address. -/
inductive SlotEvent where
  | accepted (conn : Nat)
  | refused
  | ended (conn : Nat)
  | leaked (ip : IpAddr)
deriving DecidableEq

/-- `MAX_CONNS`. -/
def maxConns : Nat := 512

/-- `MAX_CONNS_PER_IP`. -/
def maxConnsPerIp : Nat := 8

namespace SlotTable

/-- The counters of a new server. -/
def new : SlotTable where
  activeConns := 0
  ipConns _ := none
  lock := none
  conns := []

/-- The count of an address. -/
def ipCount (table : SlotTable) (ip : IpAddr) : Nat := (table.ipConns ip).getD 0

/-- The task of a connection is at another point. -/
def goto (table : SlotTable) (conn : Nat) (phase : SlotPhase) : SlotTable :=
  { table with conns := table.conns.set conn phase }

/-- `active_conns.fetch_sub`. -/
def fetchSub (table : SlotTable) : SlotTable := { table with activeConns := table.activeConns - 1 }

/-- The task of a connection takes the lock. -/
def acquire (table : SlotTable) (conn : Nat) : SlotTable := { table with lock := some conn }

/-- The lock is given back. -/
def unlock (table : SlotTable) : SlotTable := { table with lock := none }

/-- One more connection of the address. -/
def count (table : SlotTable) (ip : IpAddr) : SlotTable :=
  { table with ipConns := Function.update table.ipConns ip (some (table.ipCount ip + 1)) }

/-- One connection of the address less; an entry that reaches zero is taken out. -/
def discount (table : SlotTable) (ip : IpAddr) : SlotTable :=
  match table.ipConns ip with
  | some n =>
    { table with
      ipConns := Function.update table.ipConns ip (if n - 1 = 0 then none else some (n - 1)) }
  | none => table

/-- The task of a connection that waits for nobody, or for the lock, goes on. -/
def advance (table : SlotTable) (conn : Nat) :
    SlotPhase → Option (SlotTable × List SlotEvent)
  | .entering ip =>
    if table.lock = none then some ((table.acquire conn).goto conn (.counting ip), []) else none
  | .counting ip =>
    if maxConnsPerIp ≤ table.ipCount ip then some (table.unlock.goto conn .tooMany, [])
    else some ((table.count ip).unlock.goto conn (.serving ip), [])
  | .tooMany => some (table.fetchSub.goto conn .ended, [.ended conn])
  | .releasing ip =>
    if table.lock = none then some ((table.acquire conn).goto conn (.discounting ip), [])
    else none
  | .discounting ip => some ((table.discount ip).unlock.goto conn .leaving, [])
  | .leaving => some (table.fetchSub.goto conn .ended, [.ended conn])
  | .unwinding ip => some (table.fetchSub.goto conn (.trying ip), [])
  | .trying ip =>
    if table.lock = none then some ((table.acquire conn).goto conn (.uncounting ip), [])
    else some (table.goto conn .ended, [.leaked ip, .ended conn])
  | .uncounting ip => some ((table.discount ip).unlock.goto conn .ended, [.ended conn])
  | .handshake | .serving _ | .ended => none

/-- One step of the accept loop or of a task. -/
def step : Machine SlotTable SlotInput SlotEvent := fun table input =>
  match input with
  | .accept =>
    if maxConns < table.activeConns + 1 then some (table, [.refused])
    else some ({ table with
        activeConns := table.activeConns + 1, conns := table.conns ++ [.handshake] },
      [.accepted table.conns.length])
  | .handshake conn peer =>
    if table.conns[conn]? = some .handshake then
      match peer with
      | some ip => some (table.goto conn (.entering ip), [])
      | none => some (table.fetchSub.goto conn .ended, [.ended conn])
    else none
  | .close conn =>
    match table.conns[conn]? with
    | some (.serving ip) => some (table.goto conn (.releasing ip), [])
    | _ => none
  | .panicked conn =>
    match table.conns[conn]? with
    | some (.serving ip) => some (table.goto conn (.unwinding ip), [])
    | _ => none
  | .run conn =>
    match table.conns[conn]? with
    | some phase => table.advance conn phase
    | none => none

theorem count_of_ip {table next : SlotTable} (h : next.ipConns = table.ipConns) :
    next.ipCount = table.ipCount := by
  funext ip
  unfold ipCount
  rw [h]

/-- A connection more changes the count of its address only. -/
theorem ip_count_count (table : SlotTable) (ip other : IpAddr) :
    (table.count ip).ipCount other =
      if other = ip then table.ipCount ip + 1 else table.ipCount other := by
  show (Function.update table.ipConns ip (some (table.ipCount ip + 1)) other).getD 0 = _
  by_cases hown : other = ip
  · rw [if_pos hown, hown, Function.update_self]
    rfl
  · rw [if_neg hown, Function.update_of_ne hown]
    rfl

/-- A connection less changes the entry of its address only. -/
theorem ip_conns_discount (table : SlotTable) (ip other : IpAddr) :
    (table.discount ip).ipConns other =
      if other = ip then (table.ipConns ip).bind fun n => if n - 1 = 0 then none else some (n - 1)
      else table.ipConns other := by
  unfold discount
  split
  · next n hentry =>
    by_cases hown : other = ip
    · rw [if_pos hown, hown, hentry]
      exact Function.update_self ..
    · rw [if_neg hown]
      exact Function.update_of_ne hown ..
  · next hentry =>
    by_cases hown : other = ip
    · rw [if_pos hown, hown, hentry]
      rfl
    · rw [if_neg hown]

theorem ip_count_discount (table : SlotTable) (ip other : IpAddr) :
    (table.discount ip).ipCount other =
      if other = ip then table.ipCount ip - 1 else table.ipCount other := by
  unfold ipCount
  rw [ip_conns_discount]
  by_cases hown : other = ip
  · rw [if_pos hown, if_pos hown]
    cases table.ipConns ip with
    | none => rfl
    | some n =>
      show (if n - 1 = 0 then none else some (n - 1)).getD 0 = n - 1
      split
      · next hzero => exact hzero.symm
      · rfl
  · rw [if_neg hown, if_neg hown]

theorem discount_active (table : SlotTable) (ip : IpAddr) :
    (table.discount ip).activeConns = table.activeConns := by
  unfold discount
  split <;> rfl

theorem discount_conns (table : SlotTable) (ip : IpAddr) :
    (table.discount ip).conns = table.conns := by
  unfold discount
  split <;> rfl

end SlotTable

/-- What the counters count: the connections that hold a slot, and for an address also those that
ended without being counted off. The limits hold, and no entry is zero. -/
structure Accounts (trace : List SlotEvent) (table : SlotTable) : Prop where
  active : table.activeConns = table.conns.countP SlotPhase.holdsSlot
  activeLimit : table.activeConns ≤ maxConns
  address : ∀ ip, table.ipCount ip =
    table.conns.countP (SlotPhase.holdsAddress ip) + trace.count (.leaked ip)
  addressLimit : ∀ ip, table.ipCount ip ≤ maxConnsPerIp
  positive : ∀ ip, table.ipConns ip ≠ some 0

namespace Accounts

variable {trace emitted : List SlotEvent} {table next : SlotTable} {conn : Nat}
  {before after : SlotPhase} {ip : IpAddr}

/-- A task that holds a slot is counted. -/
theorem active_pos (h : Accounts trace table) (hphase : table.conns[conn]? = some before)
    (hholds : before.holdsSlot = true) : 0 < table.activeConns := by
  rw [h.active]
  exact List.countP_pos_iff.mpr ⟨before, List.mem_of_getElem? hphase, hholds⟩

/-- A task that holds a slot of an address is counted there. -/
theorem address_pos (h : Accounts trace table) (hphase : table.conns[conn]? = some before)
    (hholds : before.holdsAddress ip = true) : 0 < table.ipCount ip := by
  have hpos : 0 < table.conns.countP (SlotPhase.holdsAddress ip) :=
    List.countP_pos_iff.mpr ⟨before, List.mem_of_getElem? hphase, hholds⟩
  rw [h.address]
  omega

/-- A task goes from one point to another, and the counters change by what it held there and holds
now. -/
theorem move (h : Accounts trace table) (hphase : table.conns[conn]? = some before)
    (hconns : next.conns = table.conns.set conn after)
    (hactive : next.activeConns + (if before.holdsSlot = true then 1 else 0) =
      table.activeConns + (if after.holdsSlot = true then 1 else 0))
    (hless : next.activeConns ≤ table.activeConns)
    (haddress : ∀ ip, next.ipCount ip + (if before.holdsAddress ip = true then 1 else 0) =
      table.ipCount ip + (if after.holdsAddress ip = true then 1 else 0) +
        emitted.count (.leaked ip))
    (hlimit : ∀ ip, next.ipCount ip ≤ maxConnsPerIp)
    (hpositive : ∀ ip, next.ipConns ip ≠ some 0) : Accounts (trace ++ emitted) next where
  active := by
    have hcount := countP_set_add (b := after) SlotPhase.holdsSlot hphase
    have hbefore := h.active
    rw [hconns]
    omega
  activeLimit := Nat.le_trans hless h.activeLimit
  address := by
    intro ip
    have hcount := countP_set_add (b := after) (SlotPhase.holdsAddress ip) hphase
    have hbefore := h.address ip
    have hchange := haddress ip
    rw [hconns, List.count_append]
    omega
  addressLimit := hlimit
  positive := hpositive

/-- A task that holds what it held before. -/
theorem quiet (h : Accounts trace table) (hphase : table.conns[conn]? = some before)
    (hconns : next.conns = table.conns.set conn after)
    (hslot : after.holdsSlot = before.holdsSlot)
    (haddress : ∀ ip, after.holdsAddress ip = before.holdsAddress ip)
    (hactive : next.activeConns = table.activeConns) (hip : next.ipConns = table.ipConns) :
    Accounts (trace ++ []) next := by
  have hcount := SlotTable.count_of_ip hip
  refine h.move hphase hconns ?_ (Nat.le_of_eq hactive) ?_ ?_ ?_
  · rw [hslot, hactive]
  · intro ip
    rw [hcount, haddress]
    rfl
  · rw [hcount]
    exact h.addressLimit
  · rw [hip]
    exact h.positive

/-- A task gives back its slot of the relay. -/
theorem fetch_sub (h : Accounts trace table) (hphase : table.conns[conn]? = some before)
    (hheld : before.holdsSlot = true) (hslot : after.holdsSlot = false)
    (haddress : ∀ ip, after.holdsAddress ip = before.holdsAddress ip)
    (hsilent : ∀ ip, emitted.count (.leaked ip) = 0) :
    Accounts (trace ++ emitted) (table.fetchSub.goto conn after) := by
  have hpos := h.active_pos hphase hheld
  refine h.move hphase rfl ?_ (Nat.sub_le ..) ?_ h.addressLimit h.positive
  · rw [if_pos hheld, hslot]
    exact Nat.sub_add_cancel hpos
  · intro ip
    rw [haddress, hsilent]
    rfl

/-- A task gives back its slot of the address. -/
theorem discount (h : Accounts trace table) (hphase : table.conns[conn]? = some before)
    (hslot : after.holdsSlot = before.holdsSlot)
    (hheld : ∀ peer, before.holdsAddress peer = decide (ip = peer))
    (haddress : ∀ peer, after.holdsAddress peer = false)
    (hsilent : ∀ ip, emitted.count (.leaked ip) = 0) :
    Accounts (trace ++ emitted) ((table.discount ip).unlock.goto conn after) := by
  have hpos : 0 < table.ipCount ip := h.address_pos hphase ((hheld ip).trans (decide_eq_true rfl))
  have hcount : ∀ peer, ((table.discount ip).unlock.goto conn after).ipCount peer =
      if peer = ip then table.ipCount ip - 1 else table.ipCount peer :=
    table.ip_count_discount ip
  have hconns : ((table.discount ip).unlock.goto conn after).conns = table.conns.set conn after :=
    congrArg (fun conns => conns.set conn after) (table.discount_conns ip)
  refine h.move hphase hconns ?_ (Nat.le_of_eq (table.discount_active ip)) ?_ ?_ ?_
  · show (table.discount ip).activeConns + _ = _
    rw [SlotTable.discount_active, hslot]
  · intro peer
    rw [hcount, hheld, haddress, hsilent]
    by_cases hown : peer = ip
    · subst hown
      simp only [if_pos, decide_true]
      simpa using Nat.sub_add_cancel hpos
    · simp [hown, Ne.symm hown]
  · intro peer
    have hlimit := h.addressLimit peer
    rw [hcount]
    split
    · next hown =>
      subst hown
      omega
    · exact hlimit
  · intro peer
    show (table.discount ip).ipConns peer ≠ some 0
    rw [SlotTable.ip_conns_discount]
    split
    · cases table.ipConns ip with
      | none => simp
      | some n =>
        by_cases hlast : n - 1 = 0
        · simp [hlast]
        · simp [hlast]
    · exact h.positive peer

/-- A task takes a slot of the address. -/
theorem count (h : Accounts trace table) (hphase : table.conns[conn]? = some (.counting ip))
    (hroom : ¬ maxConnsPerIp ≤ table.ipCount ip) :
    Accounts (trace ++ []) ((table.count ip).unlock.goto conn (.serving ip)) := by
  have hcount : ∀ peer, ((table.count ip).unlock.goto conn (.serving ip)).ipCount peer =
      if peer = ip then table.ipCount ip + 1 else table.ipCount peer :=
    table.ip_count_count ip
  refine h.move hphase rfl rfl (Nat.le_refl _) ?_ ?_ ?_
  · intro peer
    rw [hcount]
    by_cases hown : peer = ip
    · subst hown
      simp [SlotPhase.holdsAddress]
    · simp [SlotPhase.holdsAddress, hown, Ne.symm hown]
  · intro peer
    have hlimit := h.addressLimit peer
    rw [hcount]
    split
    · omega
    · exact hlimit
  · intro peer
    show Function.update table.ipConns ip (some (table.ipCount ip + 1)) peer ≠ some 0
    by_cases hown : peer = ip
    · rw [hown, Function.update_self]
      simp
    · rw [Function.update_of_ne hown]
      exact h.positive peer

/-- A task ends without counting its connection off the address. -/
theorem leak (h : Accounts trace table) (hphase : table.conns[conn]? = some (.trying ip)) :
    Accounts (trace ++ [.leaked ip, .ended conn]) (table.goto conn .ended) := by
  refine h.move hphase rfl rfl (Nat.le_refl _) ?_ h.addressLimit h.positive
  intro peer
  show table.ipCount peer + _ = table.ipCount peer + _ + _
  by_cases hown : peer = ip
  · subst hown
    simp [SlotPhase.holdsAddress]
  · simp [SlotPhase.holdsAddress, Ne.symm hown]

/-- A connection comes in. -/
theorem accept (h : Accounts trace table) (hroom : ¬ maxConns < table.activeConns + 1) :
    Accounts (trace ++ [.accepted table.conns.length])
      { table with activeConns := table.activeConns + 1, conns := table.conns ++ [.handshake] } where
  __ := h
  active := by
    rw [List.countP_append, h.active]
    rfl
  activeLimit := Nat.le_of_not_lt hroom
  address := by
    intro ip
    rw [List.countP_append, List.count_append]
    exact h.address ip

/-- A task goes on. -/
theorem advance (h : Accounts trace table) (hphase : table.conns[conn]? = some before)
    (hnext : table.advance conn before = some (next, emitted)) :
    Accounts (trace ++ emitted) next := by
  cases before with
  | handshake | serving ip | ended => cases hnext
  | entering ip | releasing ip =>
    simp only [SlotTable.advance] at hnext
    obtain ⟨-, rfl, rfl⟩ := when_answer hnext
    exact h.quiet hphase rfl rfl (fun _ => rfl) rfl rfl
  | counting ip =>
    simp only [SlotTable.advance] at hnext
    split at hnext
    · obtain ⟨rfl, rfl⟩ := answer_inj hnext
      exact h.quiet hphase rfl rfl (fun _ => rfl) rfl rfl
    · next hroom =>
      obtain ⟨rfl, rfl⟩ := answer_inj hnext
      exact h.count hphase hroom
  | tooMany | leaving | unwinding ip =>
    obtain ⟨rfl, rfl⟩ := answer_inj hnext
    exact h.fetch_sub hphase rfl rfl (fun _ => rfl) fun _ => rfl
  | discounting ip | uncounting ip =>
    obtain ⟨rfl, rfl⟩ := answer_inj hnext
    exact h.discount hphase rfl (fun _ => rfl) (fun _ => rfl) fun _ => rfl
  | trying ip =>
    simp only [SlotTable.advance] at hnext
    split at hnext
    · obtain ⟨rfl, rfl⟩ := answer_inj hnext
      exact h.quiet hphase rfl rfl (fun _ => rfl) rfl rfl
    · obtain ⟨rfl, rfl⟩ := answer_inj hnext
      exact h.leak hphase

/-- Every step keeps the accounts. -/
theorem step {input : SlotInput} (h : Accounts trace table)
    (hnext : SlotTable.step table input = some (next, emitted)) :
    Accounts (trace ++ emitted) next := by
  cases input with simp only [SlotTable.step] at hnext
  | accept =>
    split at hnext
    · obtain ⟨rfl, rfl⟩ := answer_inj hnext
      exact ⟨h.active, h.activeLimit, by simpa using h.address, h.addressLimit, h.positive⟩
    · next hroom =>
      obtain ⟨rfl, rfl⟩ := answer_inj hnext
      exact h.accept hroom
  | handshake conn peer =>
    obtain ⟨hphase, hnext⟩ := of_when hnext
    cases peer with
    | some ip =>
      obtain ⟨rfl, rfl⟩ := answer_inj hnext
      exact h.quiet hphase rfl rfl (fun _ => rfl) rfl rfl
    | none =>
      obtain ⟨rfl, rfl⟩ := answer_inj hnext
      exact h.fetch_sub hphase rfl rfl (fun _ => rfl) fun _ => rfl
  | close conn | panicked conn =>
    split at hnext
    · next hphase =>
      obtain ⟨rfl, rfl⟩ := answer_inj hnext
      exact h.quiet hphase rfl rfl (fun _ => rfl) rfl rfl
    · cases hnext
  | run conn =>
    split at hnext
    · next hphase => exact h.advance hphase hnext
    · cases hnext

end Accounts

variable {guard : Guard SlotTable SlotInput SlotEvent} {inputs : List SlotInput}
  {trace : List SlotEvent} {table : SlotTable}

/-- The accounts hold in every run. -/
theorem accounts (h : Exec SlotTable.step guard .new inputs trace table) :
    Accounts trace table := by
  refine h.invariant ?_ ?_
  · exact ⟨rfl, Nat.zero_le _, fun _ => rfl, fun _ => Nat.zero_le _, fun _ => nofun⟩
  · intro trace table input next emitted haccounts _ hnext
    exact haccounts.step hnext

/-- The counters are the numbers of the connections that hold a slot, keep to their limits, and are
back at zero, with no entry left, when all connections have ended. -/
structure SlotsRight (table : SlotTable) : Prop where
  active : table.activeConns = table.conns.countP SlotPhase.holdsSlot
  activeLimit : table.activeConns ≤ maxConns
  address : ∀ ip, table.ipCount ip = table.conns.countP (SlotPhase.holdsAddress ip)
  addressLimit : ∀ ip, table.ipCount ip ≤ maxConnsPerIp
  empty : (∀ phase ∈ table.conns, phase = .ended) →
    table.activeConns = 0 ∧ ∀ ip, table.ipConns ip = none

/-- Where no connection was left uncounted, the counters are right. -/
theorem Accounts.right (h : Accounts trace table) (hnone : ∀ ip, trace.count (.leaked ip) = 0) :
    SlotsRight table where
  __ := h
  address := by
    intro ip
    rw [h.address, hnone]
    rfl
  empty := by
    intro hended
    constructor
    · rw [h.active]
      refine List.countP_eq_zero.mpr fun phase hmem => ?_
      rw [hended phase hmem]
      exact Bool.false_ne_true
    · intro ip
      have hzero : table.ipCount ip = 0 := by
        rw [h.address, hnone, List.countP_eq_zero.mpr]
        intro phase hmem
        rw [hended phase hmem]
        exact Bool.false_ne_true
      have hpositive := h.positive ip
      unfold SlotTable.ipCount at hzero
      cases hentry : table.ipConns ip with
      | none => rfl
      | some n =>
        rw [hentry] at hzero hpositive
        exact absurd (congrArg some hzero) hpositive

/-- The guard of the connection is about to try the lock. -/
def SlotPhase.tries : SlotPhase → Bool
  | .trying _ => true
  | _ => false

/-- No guard of a connection whose task panicked tries the lock while another task has it. -/
def LockFree : Guard SlotTable SlotInput SlotEvent := fun _ table input =>
  match input with
  | .run conn => table.conns[conn]?.any SlotPhase.tries = true → table.lock = none
  | _ => True

instance (trace : List SlotEvent) (table : SlotTable) (input : SlotInput) :
    Decidable (LockFree trace table input) :=
  match input with
  | .run conn => inferInstanceAs
      (Decidable (table.conns[conn]?.any SlotPhase.tries = true → table.lock = none))
  | .accept | .handshake .. | .close _ | .panicked _ => inferInstanceAs (Decidable True)

/-- Only a guard that finds the lock taken leaves a connection uncounted. -/
theorem SlotTable.step_leaked {table next : SlotTable} {input : SlotInput}
    {emitted : List SlotEvent} {ip : IpAddr}
    (hnext : SlotTable.step table input = some (next, emitted)) (hleaked : .leaked ip ∈ emitted) :
    ∃ conn, input = .run conn ∧ table.conns[conn]? = some (.trying ip) ∧ table.lock ≠ none := by
  cases input with simp only [SlotTable.step] at hnext
  | accept =>
    split at hnext
    · obtain ⟨-, rfl⟩ := answer_inj hnext
      simp at hleaked
    · obtain ⟨-, rfl⟩ := answer_inj hnext
      simp at hleaked
  | handshake conn peer =>
    obtain ⟨-, hnext⟩ := of_when hnext
    cases peer with
    | some ip | none =>
      obtain ⟨-, rfl⟩ := answer_inj hnext
      simp at hleaked
  | close conn | panicked conn =>
    split at hnext
    · obtain ⟨-, rfl⟩ := answer_inj hnext
      simp at hleaked
    · cases hnext
  | run conn =>
    split at hnext
    · next phase hphase =>
      cases phase with
      | handshake | serving ip | ended => cases hnext
      | tooMany | leaving | unwinding ip | discounting ip | uncounting ip =>
        obtain ⟨-, rfl⟩ := answer_inj hnext
        simp at hleaked
      | entering ip | releasing ip =>
        simp only [SlotTable.advance] at hnext
        obtain ⟨-, hnext⟩ := of_when hnext
        obtain ⟨-, rfl⟩ := answer_inj hnext
        simp at hleaked
      | counting ip =>
        simp only [SlotTable.advance] at hnext
        split at hnext
        · obtain ⟨-, rfl⟩ := answer_inj hnext
          simp at hleaked
        · obtain ⟨-, rfl⟩ := answer_inj hnext
          simp at hleaked
      | trying peer =>
        simp only [SlotTable.advance] at hnext
        split at hnext
        · obtain ⟨-, rfl⟩ := answer_inj hnext
          simp at hleaked
        · next htaken =>
          obtain ⟨-, rfl⟩ := answer_inj hnext
          obtain rfl : ip = peer := by simpa using hleaked
          exact ⟨conn, rfl, hphase, htaken⟩
    · cases hnext

/-- In every run in which no guard of a connection whose task panicked tries the lock while another
task has it, the counters are right. -/
theorem slots_right (h : Exec SlotTable.step LockFree .new inputs trace table) :
    SlotsRight table := by
  have hnone : ∀ ip, trace.count (.leaked ip) = 0 := by
    induction h with
    | start =>
      intro ip
      rfl
    | step _ hguard hnext ih =>
      intro ip
      rw [List.count_append, ih, Nat.zero_add, List.count_eq_zero]
      intro hleaked
      obtain ⟨conn, rfl, hphase, htaken⟩ := SlotTable.step_leaked hnext hleaked
      exact htaken (hguard (by rw [hphase]; rfl))
  exact (accounts h).right hnone

/-- A connection is accepted, comes from the address, and is served. -/
def served (conn : Nat) (ip : IpAddr) : List SlotInput :=
  [.accept, .handshake conn (some ip), .run conn, .run conn]

/-- Two connections of an address; the task of the first panics, the second ends; the handshake of a
third fails. -/
def threeEnds : List SlotInput :=
  served 0 (.v4 203 0 113 9) ++ served 1 (.v4 203 0 113 9) ++
    [.accept, .panicked 0, .run 0, .close 1, .run 0, .run 0, .run 1, .run 1, .run 1,
      .handshake 2 none]

theorem slots_right_sample :
    ∃ trace table, Exec SlotTable.step LockFree .new threeEnds trace table ∧
      table.conns = [.ended, .ended, .ended] ∧
      table.activeConns = 0 ∧ ∀ ip, table.ipConns ip = none := by
  obtain ⟨trace, table, hrun, hconns⟩ := exec_reaches SlotTable.step LockFree .new threeEnds
    SlotTable.conns [.ended, .ended, .ended] (by decide +kernel)
  refine ⟨trace, table, hrun, hconns, (slots_right hrun).empty fun phase hmem => ?_⟩
  rw [hconns] at hmem
  simpa using hmem

/-- The task of a connection panics, and its guard tries the lock while the task of a connection of
another address has it. -/
def lockTaken : List SlotInput :=
  served 0 (.v4 203 0 113 9) ++
    [.accept, .handshake 1 (some (.v4 198 51 100 4)), .panicked 0, .run 0, .run 1, .run 0, .run 1,
      .close 1, .run 1, .run 1, .run 1]

theorem slots_leaked :
    ∃ trace table, Exec SlotTable.step Guard.free .new lockTaken trace table ∧
      table.conns = [.ended, .ended] ∧ table.activeConns = 0 ∧
      table.ipConns (.v4 203 0 113 9) = some 1 ∧ ¬ SlotsRight table := by
  obtain ⟨trace, table, hrun, hview⟩ := exec_reaches SlotTable.step Guard.free .new lockTaken
    (fun table => (table.conns, table.activeConns, table.ipConns (.v4 203 0 113 9)))
    ([.ended, .ended], 0, some 1) (by decide +kernel)
  obtain ⟨hconns, hrest⟩ := Prod.mk.inj hview
  obtain ⟨hactive, hentry⟩ := Prod.mk.inj hrest
  refine ⟨trace, table, hrun, hconns, hactive, hentry, fun hright => ?_⟩
  have hempty := (hright.empty fun phase hmem => by rw [hconns] at hmem; simpa using hmem).2
  rw [hempty] at hentry
  cases hentry

end LocalTrans.Relay
