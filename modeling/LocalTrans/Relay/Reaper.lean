import LocalTrans.Foundation.History
import LocalTrans.Foundation.Places
import LocalTrans.Relay.Lease

/-!
# The reaper of leases

`reap_expired` of `lease.rs` beside the other tasks of the relay. It reads the time, selects the
leases that have expired under the lock of the leases, gives the lock back, and removes what it
selected, one fingerprint after the other. A removal takes the lease, the port and the token under
one lock each, the use of a token finds the lease under one lock and refreshes it under another, and
a registration holds all three. The session ports, which the reaper takes back last, are left out.
`reap_spares` says when no lease is removed that was refreshed within the time to live.
-/

namespace LocalTrans.Relay.Lease

open Foundation

namespace LeaseTable

/-- The second half of `get_by_token`: the lease is refreshed, if it is still there. -/
def touchLease (t : LeaseTable) (fp : Fingerprint) (now : Nat) : LeaseTable :=
  { t with
    leases := match t.leases.lookup fp with
      | some entry => t.leases.insert fp { entry with lastActive := now }
      | none => t.leases
    tokensAcceptedCount := t.tokensAcceptedCount + 1 }

/-- `leases.remove(fp)` of `remove`. -/
def dropLease (t : LeaseTable) (fp : Fingerprint) : LeaseTable :=
  { t with leases := t.leases.erase fp }

/-- `port_map.remove(&e.port)` of `remove`. -/
def dropPort (t : LeaseTable) (port : UInt16) : LeaseTable :=
  { t with portMap := t.portMap.erase port }

/-- `token_map.remove(&e.token)` of `remove`. -/
def dropToken (t : LeaseTable) (token : BitVec 128) : LeaseTable :=
  { t with tokenMap := t.tokenMap.erase token }

end LeaseTable

/-- A removal that has taken the lease: the port is next, or the token, or all is done. -/
inductive LeaseRemoval where
  | port (port : UInt16) (token : BitVec 128)
  | token (token : BitVec 128)
  | done
deriving DecidableEq

/-- Where the reaper is: it does not run; it has read the time; it removes the fingerprints that are
left of those it selected, and a removal of its own may be under way. -/
inductive ReaperPhase where
  | idle
  | started (now : Nat)
  | removing (expired : List Fingerprint) (current : Option Nat)
deriving DecidableEq

/-- The tables, the time, the fingerprints whose token was found but whose lease is not yet
refreshed, the removals, and the reaper. -/
structure Reaping where
  table : LeaseTable
  clock : Nat
  lookups : List Fingerprint
  removals : List LeaseRemoval
  reaper : ReaperPhase

/-- Time passes, or a task goes on: a device registers, the token of a packet is found, the lease
that was found is refreshed, a device pings, the control plane removes a lease, a removal or the
reaper goes on. -/
inductive ReapInput where
  | tick (elapsed : Nat)
  | alloc (fp : Fingerprint) (name : String) (hidden : Bool) (token : BitVec 128)
  | findToken (token : BitVec 128)
  | touch (place : Nat)
  | heartbeat (fp : Fingerprint)
  | remove (fp : Fingerprint)
  | finish (removal : Nat)
  | reap
deriving DecidableEq

/-- A device is told its port and token; a lease is refreshed; it is removed by the control plane,
or by the reaper. -/
inductive ReapEvent where
  | told (fp : Fingerprint) (lease : AllocatedLease) (time : Nat)
  | refreshed (fp : Fingerprint) (time : Nat)
  | removed (fp : Fingerprint)
  | reaped (fp : Fingerprint) (time : Nat)
deriving DecidableEq

namespace ReapEvent

/-- The lease that the event refreshes, and when. -/
def refresh : ReapEvent → Option (Fingerprint × Nat)
  | .told fp _ time | .refreshed fp time => some (fp, time)
  | .removed _ | .reaped _ _ => none

/-- The token that is drawn. -/
def drawn : ReapEvent → Option (BitVec 128)
  | .told _ lease _ => some lease.token
  | _ => none

/-- The device is told a port and a token. -/
def tells (fp : Fingerprint) : ReapEvent → Prop
  | .told fp' _ _ => fp' = fp
  | _ => False

/-- What the device was told no longer holds: it is told anew, or the control plane removes its
lease. -/
def replaces (fp : Fingerprint) : ReapEvent → Prop
  | .told fp' _ _ | .removed fp' => fp' = fp
  | _ => False

/-- What the device was told no longer holds, or the reaper has removed its lease. -/
def ends (fp : Fingerprint) : ReapEvent → Prop
  | .told fp' _ _ | .removed fp' | .reaped fp' _ => fp' = fp
  | .refreshed _ _ => False

end ReapEvent

namespace Reaping

/-- Before anything has happened. -/
def new (portStart portEnd : UInt16) : Reaping :=
  { table := .new portStart portEnd, clock := 0, lookups := [], removals := [], reaper := .idle }

/-- The fingerprints that the reaper has selected and not yet removed. -/
def selected (s : Reaping) : List Fingerprint :=
  match s.reaper with
  | .removing expired _ => expired
  | .idle | .started _ => []

/-- A refresh is one if the lease is there. -/
def refreshes (s : Reaping) (fp : Fingerprint) : List ReapEvent :=
  if fp ∈ s.table.leases then [.refreshed fp s.clock] else []

/-- The first part of a removal. -/
def take (s : Reaping) (fp : Fingerprint) (entry : LeaseEntry) : Reaping :=
  { s with
    table := s.table.dropLease fp
    removals := s.removals ++ [.port entry.port entry.token] }

/-- The removal under way, if there is one, is done. -/
def free (s : Reaping) (current : Option Nat) : Bool :=
  match current with
  | none => true
  | some removal => s.removals[removal]? = some .done

/-- `reap_expired`, from one lock to the next. -/
def reap (ttl : Nat) (s : Reaping) : Option (Reaping × List ReapEvent) :=
  match s.reaper with
  | .idle => some ({ s with reaper := .started s.clock }, [])
  | .started now => some ({ s with reaper := .removing (s.table.expired ttl now) none }, [])
  | .removing expired current =>
    if s.free current then
      match expired with
      | [] => some ({ s with reaper := .idle }, [])
      | fp :: rest =>
        match s.table.leases.lookup fp with
        | some entry =>
          some ({ s.take fp entry with reaper := .removing rest (some s.removals.length) },
            [.reaped fp s.clock])
        | none => some ({ s with reaper := .removing rest none }, [])
    else none

/-- One step. -/
def step (ttl : Nat) : Machine Reaping ReapInput ReapEvent
  | s, .tick elapsed => some ({ s with clock := s.clock + elapsed }, [])
  | s, .alloc fp name hidden token =>
    match s.table.alloc fp name hidden token s.clock with
    | (table, some lease) => some ({ s with table }, [.told fp lease s.clock])
    | (table, none) => some ({ s with table }, [])
  | s, .findToken token =>
    some ({ s with lookups := s.lookups ++ (s.table.tokenMap.lookup token).toList }, [])
  | s, .touch place =>
    match s.lookups[place]? with
    | some fp =>
      some ({ s with
        table := s.table.touchLease fp s.clock
        lookups := s.lookups.eraseIdx place }, s.refreshes fp)
    | none => none
  | s, .heartbeat fp =>
    some ({ s with table := s.table.heartbeat fp s.clock }, s.refreshes fp)
  | s, .remove fp =>
    match s.table.leases.lookup fp with
    | some entry => some (s.take fp entry, [.removed fp])
    | none => some (s, [])
  | s, .finish removal =>
    match s.removals[removal]? with
    | some (.port port token) =>
      some ({ s with
        table := s.table.dropPort port
        removals := s.removals.set removal (.token token) }, [])
    | some (.token token) =>
      some ({ s with
        table := s.table.dropToken token
        removals := s.removals.set removal .done }, [])
    | _ => none
  | s, .reap => s.reap ttl

/-- The lease of a device is the one it was told, and its port and token lead to it. -/
def Holds (s : Reaping) (fp : Fingerprint) (lease : AllocatedLease) : Prop :=
  (∃ entry, s.table.leases.lookup fp = some entry ∧ entry.port = lease.port ∧
    entry.token = lease.token) ∧
    s.table.portMap.lookup lease.port = some fp ∧ s.table.tokenMap.lookup lease.token = some fp

end Reaping

/-- A lease was refreshed. -/
def Refreshed (trace : List ReapEvent) (fp : Fingerprint) (time : Nat) : Prop :=
  ∃ event ∈ trace, event.refresh = some (fp, time)

/-- What the reaper removes was not refreshed within the time to live. -/
def Spared (ttl : Nat) (before : List ReapEvent) (event : ReapEvent) : Prop :=
  match event with
  | .reaped fp now => ∀ time, Refreshed before fp time → time + ttl < now
  | _ => True

/-- No lease is reaped that was refreshed within the time to live, and a device with such a lease
keeps the port and the token that it was told. -/
structure ReapSpares (ttl : Nat) (trace : List ReapEvent) (s : Reaping) : Prop where
  spared : EachEvent (Spared ttl) trace
  kept : ∀ fp lease told later, Standing (ReapEvent.replaces fp) trace (.told fp lease told) later →
    ∀ time, Refreshed trace fp time → s.clock ≤ time + ttl → s.Holds fp lease

/-- No token is drawn twice. -/
def drawnOnce : Guard Reaping ReapInput ReapEvent := fun trace _ input =>
  match input with
  | .alloc _ _ _ token => ∀ event ∈ trace, event.drawn ≠ some token
  | _ => True

/-- No token is drawn twice, and no lease is refreshed, and no device registers, whose fingerprint
the reaper has selected and not yet removed. -/
def unselected : Guard Reaping ReapInput ReapEvent := fun trace s input =>
  drawnOnce trace s input ∧
    match input with
    | .alloc fp _ _ _ => fp ∉ s.selected
    | .touch place =>
      match s.lookups[place]? with
      | some fp => fp ∈ s.table.leases → fp ∉ s.selected
      | none => True
    | .heartbeat fp => fp ∈ s.table.leases → fp ∉ s.selected
    | _ => True

instance (trace : List ReapEvent) (s : Reaping) (input : ReapInput) :
    Decidable (drawnOnce trace s input) := by
  unfold drawnOnce
  split <;> infer_instance

instance (s : Reaping) (fp : Fingerprint) : Decidable (fp ∉ s.selected) :=
  decidable_of_iff (¬ s.selected.elem fp) (by simp)

instance (trace : List ReapEvent) (s : Reaping) (input : ReapInput) :
    Decidable (unselected trace s input) := by
  unfold unselected
  split
  · infer_instance
  · split <;> infer_instance
  · infer_instance
  · infer_instance

section Refreshes

variable {trace more : List ReapEvent} {fp : Fingerprint} {time : Nat}

theorem refreshed_append :
    Refreshed (trace ++ more) fp time ↔ Refreshed trace fp time ∨ Refreshed more fp time := by
  simp only [Refreshed, List.mem_append, or_and_right, exists_or]

theorem refreshed_singleton {event : ReapEvent} :
    Refreshed [event] fp time ↔ event.refresh = some (fp, time) := by
  simp [Refreshed]

end Refreshes

namespace Reaping

variable {ttl : Nat} {trace : List ReapEvent} {s next : Reaping} {fp : Fingerprint}
  {event : ReapEvent} {entry renewed : LeaseEntry}

theorem selected_eq (hreaper : next.reaper = s.reaper) : next.selected = s.selected := by
  unfold selected
  rw [hreaper]

/-- When the leases were refreshed: not later than now, as their entries say, and the leases that
the reaper has selected not within the time to live. -/
structure Dated (ttl : Nat) (trace : List ReapEvent) (s : Reaping) : Prop where
  past : ∀ fp time, Refreshed trace fp time → time ≤ s.clock
  noted : ∀ fp time entry, Refreshed trace fp time → s.table.leases.lookup fp = some entry →
    time ≤ entry.lastActive ∨ time ≤ entry.lastPing
  selected : ∀ fp ∈ s.selected, ∀ time, Refreshed trace fp time → time + ttl < s.clock
  started : ∀ now, s.reaper = .started now → now ≤ s.clock

variable {emitted : List ReapEvent}

namespace Dated

/-- No lease is refreshed. -/
theorem still (h : Dated ttl trace s) (hsilent : ∀ fp time, ¬ Refreshed emitted fp time)
    (hleases : ∀ fp entry, next.table.leases.lookup fp = some entry →
      s.table.leases.lookup fp = some entry) (hclock : s.clock ≤ next.clock)
    (hselected : ∀ fp ∈ next.selected, ∀ time, Refreshed trace fp time → time + ttl < next.clock)
    (hstarted : ∀ now, next.reaper = .started now → now ≤ next.clock) :
    Dated ttl (trace ++ emitted) next := by
  have hold : ∀ fp time, Refreshed (trace ++ emitted) fp time → Refreshed trace fp time :=
    fun fp time hrefreshed =>
      (refreshed_append.mp hrefreshed).resolve_right (hsilent fp time)
  constructor
  · intro fp time hrefreshed
    exact Nat.le_trans (h.past fp time (hold fp time hrefreshed)) hclock
  · intro fp time entry hrefreshed hentry
    exact h.noted fp time entry (hold fp time hrefreshed) (hleases fp entry hentry)
  · intro fp hfp time hrefreshed
    exact hselected fp hfp time (hold fp time hrefreshed)
  · exact hstarted

/-- The lease of a device that the reaper has not selected is refreshed, or new. -/
theorem renew (h : Dated ttl trace s) (hevent : event.refresh = some (fp, s.clock))
    (hnot : fp ∉ s.selected)
    (hleases : next.table.leases = s.table.leases.insert fp renewed)
    (hnow : s.clock ≤ renewed.lastActive ∨ s.clock ≤ renewed.lastPing)
    (hclock : next.clock = s.clock) (hreaper : next.reaper = s.reaper) :
    Dated ttl (trace ++ [event]) next := by
  have hnew : ∀ fp' time, Refreshed (trace ++ [event]) fp' time →
      Refreshed trace fp' time ∨ fp' = fp ∧ time = s.clock := by
    intro fp' time hrefreshed
    rcases refreshed_append.mp hrefreshed with hold | hnew
    · exact .inl hold
    · obtain ⟨rfl, rfl⟩ : fp = fp' ∧ s.clock = time := by
        simpa [hevent] using refreshed_singleton.mp hnew
      exact .inr ⟨rfl, rfl⟩
  have hpast : ∀ fp' time, Refreshed (trace ++ [event]) fp' time → time ≤ s.clock := by
    intro fp' time hrefreshed
    rcases hnew fp' time hrefreshed with hold | ⟨-, rfl⟩
    · exact h.past fp' time hold
    · exact Nat.le_refl _
  constructor
  · rw [hclock]
    exact hpast
  · intro fp' time entry hrefreshed hentry
    rw [hleases] at hentry
    rcases lookup_insert_iff.mp hentry with ⟨rfl, rfl⟩ | ⟨hne, hentry⟩
    · have hle := hpast _ time hrefreshed
      exact hnow.imp (Nat.le_trans hle) (Nat.le_trans hle)
    · have hold := (hnew fp' time hrefreshed).resolve_right fun hsame => hne hsame.1
      exact h.noted fp' time entry hold hentry
  · intro fp' hmem time hrefreshed
    rw [selected_eq hreaper] at hmem
    have hne : fp' ≠ fp := fun heq => hnot (heq ▸ hmem)
    rw [hclock]
    exact h.selected fp' hmem time
      ((hnew fp' time hrefreshed).resolve_right fun hsame => hne hsame.1)
  · rw [hclock, hreaper]
    exact h.started

/-- The leases that have expired were not refreshed within the time to live. -/
theorem expired (h : Dated ttl trace s) {now : Nat} (hnow : now ≤ s.clock)
    (hfp : fp ∈ s.table.expired ttl now) {time : Nat} (hrefreshed : Refreshed trace fp time) :
    time + ttl < s.clock := by
  obtain ⟨⟨fp', entry⟩, hmem, rfl⟩ := List.mem_map.mp hfp
  obtain ⟨hentry, hold⟩ := List.mem_filter.mp hmem
  have hold : ttl < now - entry.lastActive ∧ ttl < now - entry.lastPing := by simpa using hold
  have hnoted := h.noted fp' time entry hrefreshed (mem_entries_iff.mp hentry)
  omega

end Dated

/-- What became of the leases: none was reaped too early, a device whose lease was not removed has
the one that it was told, and a device whose lease was reaped has none and did not refresh it within
the time to live. -/
structure Tracked (ttl : Nat) (trace : List ReapEvent) (s : Reaping) : Prop where
  spared : EachEvent (Spared ttl) trace
  told : ∀ fp lease time later, Standing (ReapEvent.ends fp) trace (.told fp lease time) later →
    ∃ entry, s.table.leases.lookup fp = some entry ∧ entry.port = lease.port ∧
      entry.token = lease.token
  gone : ∀ fp time later, Standing (ReapEvent.tells fp) trace (.reaped fp time) later →
    s.table.leases.lookup fp = none ∧ ∀ time, Refreshed trace fp time → time + ttl < s.clock

variable {lease : AllocatedLease}

namespace Tracked

/-- Nothing happens to the leases. -/
theorem still (h : Tracked ttl trace s) (hleases : next.table.leases = s.table.leases)
    (hclock : s.clock ≤ next.clock) : Tracked ttl trace next := by
  refine ⟨h.spared, ?_, ?_⟩
  · rw [hleases]
    exact h.told
  · intro fp time later hreaped
    obtain ⟨hnone, hold⟩ := h.gone fp time later hreaped
    rw [hleases]
    exact ⟨hnone, fun time hrefreshed => Nat.lt_of_lt_of_le (hold time hrefreshed) hclock⟩

/-- A lease is refreshed. -/
theorem refresh (h : Tracked ttl trace s) (hentry : s.table.leases.lookup fp = some entry)
    (hleases : next.table.leases = s.table.leases.insert fp renewed)
    (hport : renewed.port = entry.port) (htoken : renewed.token = entry.token)
    (hclock : next.clock = s.clock) :
    Tracked ttl (trace ++ [.refreshed fp s.clock]) next := by
  constructor
  · exact each_event_append.mpr ⟨h.spared, each_event_singleton.mpr trivial⟩
  · intro fp' lease time later htold
    rw [hleases]
    rcases htold.of_append with hnew | ⟨before, hbefore, -⟩
    · simp at hnew
    · obtain ⟨old, hold, hsame⟩ := h.told fp' lease time before hbefore
      by_cases heq : fp' = fp
      · subst heq
        obtain rfl := Option.some.inj (hentry.symm.trans hold)
        exact ⟨renewed, AList.lookup_insert _, hport.trans hsame.1, htoken.trans hsame.2⟩
      · exact ⟨old, lookup_insert_iff.mpr (.inr ⟨heq, hold⟩), hsame⟩
  · intro fp' time later hreaped
    rw [hleases, hclock]
    rcases hreaped.of_append with hnew | ⟨before, hbefore, -⟩
    · simp at hnew
    · obtain ⟨hnone, hold⟩ := h.gone fp' time before hbefore
      have hne : fp' ≠ fp := by
        rintro rfl
        rw [hentry] at hnone
        cases hnone
      refine ⟨(AList.lookup_insert_ne hne).trans hnone, fun time hrefreshed => ?_⟩
      rcases refreshed_append.mp hrefreshed with hearlier | hnew
      · exact hold time hearlier
      · have hsame := refreshed_singleton.mp hnew
        exact absurd (answer_inj hsame).1.symm hne

/-- A device is told a lease. -/
theorem tell (h : Tracked ttl trace s)
    (hleases : next.table.leases = s.table.leases.insert fp renewed)
    (hport : renewed.port = lease.port) (htoken : renewed.token = lease.token)
    (hclock : next.clock = s.clock) : Tracked ttl (trace ++ [.told fp lease s.clock]) next := by
  constructor
  · exact each_event_append.mpr ⟨h.spared, each_event_singleton.mpr trivial⟩
  · intro fp' lease' time later htold
    rw [hleases]
    rcases htold.of_append with hnew | ⟨before, hbefore, hmore⟩
    · obtain ⟨rfl, rfl, -⟩ : fp' = fp ∧ lease' = lease ∧ time = s.clock := by simpa using hnew
      exact ⟨renewed, AList.lookup_insert _, hport, htoken⟩
    · have hne : fp' ≠ fp := fun heq => hmore _ List.mem_cons_self heq.symm
      obtain ⟨old, hold, hsame⟩ := h.told fp' lease' time before hbefore
      exact ⟨old, lookup_insert_iff.mpr (.inr ⟨hne, hold⟩), hsame⟩
  · intro fp' time later hreaped
    rw [hleases, hclock]
    rcases hreaped.of_append with hnew | ⟨before, hbefore, hmore⟩
    · simp at hnew
    · have hne : fp' ≠ fp := fun heq => hmore _ List.mem_cons_self heq.symm
      obtain ⟨hnone, hold⟩ := h.gone fp' time before hbefore
      refine ⟨(AList.lookup_insert_ne hne).trans hnone, fun time hrefreshed => ?_⟩
      rcases refreshed_append.mp hrefreshed with hearlier | hnew
      · exact hold time hearlier
      · have hsame := refreshed_singleton.mp hnew
        exact absurd (answer_inj hsame).1.symm hne

/-- A lease is removed by the control plane, or by the reaper, which had selected it. -/
theorem take (h : Tracked ttl trace s)
    (hevent : event = .removed fp ∨ event = .reaped fp s.clock ∧
      ∀ time, Refreshed trace fp time → time + ttl < s.clock)
    (hleases : next.table.leases = s.table.leases.erase fp) (hclock : next.clock = s.clock) :
    Tracked ttl (trace ++ [event]) next := by
  have hends : ReapEvent.ends fp event := by
    rcases hevent with rfl | ⟨rfl, -⟩
    · rfl
    · rfl
  have hsilent : event.refresh = none := by
    rcases hevent with rfl | ⟨rfl, -⟩
    · rfl
    · rfl
  have hold : ∀ fp time, Refreshed (trace ++ [event]) fp time → Refreshed trace fp time := by
    intro fp time hrefreshed
    rcases refreshed_append.mp hrefreshed with hearlier | hnew
    · exact hearlier
    · rw [refreshed_singleton, hsilent] at hnew
      cases hnew
  constructor
  · refine each_event_append.mpr ⟨h.spared, each_event_singleton.mpr ?_⟩
    rcases hevent with rfl | ⟨rfl, hexpired⟩
    · trivial
    · rw [List.append_nil]
      exact hexpired
  · intro fp' lease time later htold
    rw [hleases]
    rcases htold.of_append with hnew | ⟨before, hbefore, hmore⟩
    · rcases hevent with rfl | ⟨rfl, -⟩
      · simp at hnew
      · simp at hnew
    · obtain ⟨old, hlookup, hsame⟩ := h.told fp' lease time before hbefore
      refine ⟨old, lookup_erase_iff.mpr ⟨?_, hlookup⟩, hsame⟩
      rintro rfl
      exact hmore event List.mem_cons_self hends
  · intro fp' time later hreaped
    rw [hleases, hclock]
    rcases hreaped.of_append with hnew | ⟨before, hbefore, -⟩
    · rcases hevent with rfl | ⟨rfl, hexpired⟩
      · simp at hnew
      · obtain ⟨rfl, -⟩ : fp' = fp ∧ time = s.clock := by simpa using hnew
        exact ⟨AList.lookup_erase _ _, fun time hrefreshed => hexpired time (hold _ time hrefreshed)⟩
    · obtain ⟨hnone, hexpired⟩ := h.gone fp' time before hbefore
      refine ⟨?_, fun time hrefreshed => hexpired time (hold _ time hrefreshed)⟩
      by_cases heq : fp' = fp
      · rw [heq]
        exact AList.lookup_erase _ _
      · exact (AList.lookup_erase_ne heq).trans hnone

end Tracked

/-- The token that a removal has yet to take. -/
def leaving : LeaseRemoval → Option (BitVec 128)
  | .port _ token | .token token => some token
  | .done => none

/-- A token was given out. -/
def Drawn (trace : List ReapEvent) (token : BitVec 128) : Prop :=
  ∃ event ∈ trace, event.drawn = some token

/-- How the tables belong together between the locks: the port and the token of a lease lead to it,
the port and the token that a removal has yet to take are those of no lease, no two removals take one
port, and the port is not free before it is taken. -/
structure Coherent (trace : List ReapEvent) (s : Reaping) : Prop where
  port : ∀ fp entry, s.table.leases.lookup fp = some entry →
    s.table.portMap.lookup entry.port = some fp
  token : ∀ fp entry, s.table.leases.lookup fp = some entry →
    s.table.tokenMap.lookup entry.token = some fp
  drawn : ∀ fp entry, s.table.leases.lookup fp = some entry → Drawn trace entry.token
  leavingPort : ∀ (i : Nat) port token, s.removals[i]? = some (.port port token) →
    port ∈ s.table.portMap ∧ ∀ fp entry, s.table.leases.lookup fp = some entry → entry.port ≠ port
  apart : ∀ (i j : Nat) port token token', s.removals[i]? = some (.port port token) →
    s.removals[j]? = some (.port port token') → i = j
  leavingToken : ∀ (i : Nat) removal token, s.removals[i]? = some removal →
    leaving removal = some token → Drawn trace token ∧
      ∀ fp entry, s.table.leases.lookup fp = some entry → entry.token ≠ token

variable {token : BitVec 128}

theorem Drawn.append {more : List ReapEvent} (h : Drawn trace token) :
    Drawn (trace ++ more) token := by
  obtain ⟨event, hmem, hdrawn⟩ := h
  exact ⟨event, List.mem_append_left _ hmem, hdrawn⟩

namespace Coherent

/-- The tables and the removals stay. -/
theorem still (h : Coherent trace s) (hleases : next.table.leases = s.table.leases)
    (hports : next.table.portMap = s.table.portMap)
    (htokens : next.table.tokenMap = s.table.tokenMap) (hremovals : next.removals = s.removals) :
    Coherent trace next := by
  constructor
  · rw [hleases, hports]
    exact h.port
  · rw [hleases, htokens]
    exact h.token
  · rw [hleases]
    exact h.drawn
  · rw [hleases, hports, hremovals]
    exact h.leavingPort
  · rw [hremovals]
    exact h.apart
  · rw [hleases, hremovals]
    exact h.leavingToken

/-- A lease changes in other fields than its port and its token. -/
theorem refresh (h : Coherent trace s) (hentry : s.table.leases.lookup fp = some entry)
    (hleases : next.table.leases = s.table.leases.insert fp renewed)
    (hport : renewed.port = entry.port) (htoken : renewed.token = entry.token)
    (hports : next.table.portMap = s.table.portMap)
    (htokens : next.table.tokenMap = s.table.tokenMap) (hremovals : next.removals = s.removals) :
    Coherent (trace ++ [event]) next := by
  have hold : ∀ fp' entry', next.table.leases.lookup fp' = some entry' →
      ∃ old, s.table.leases.lookup fp' = some old ∧ entry'.port = old.port ∧
        entry'.token = old.token := by
    intro fp' entry' hlookup
    rw [hleases] at hlookup
    rcases lookup_insert_iff.mp hlookup with ⟨rfl, rfl⟩ | ⟨-, hlookup⟩
    · exact ⟨entry, hentry, hport, htoken⟩
    · exact ⟨entry', hlookup, rfl, rfl⟩
  constructor
  · intro fp' entry' hlookup
    obtain ⟨old, hlookup, hsame, -⟩ := hold fp' entry' hlookup
    rw [hports, hsame]
    exact h.port fp' old hlookup
  · intro fp' entry' hlookup
    obtain ⟨old, hlookup, -, hsame⟩ := hold fp' entry' hlookup
    rw [htokens, hsame]
    exact h.token fp' old hlookup
  · intro fp' entry' hlookup
    obtain ⟨old, hlookup, -, hsame⟩ := hold fp' entry' hlookup
    rw [hsame]
    exact (h.drawn fp' old hlookup).append
  · intro i port token hi
    rw [hremovals] at hi
    obtain ⟨htaken, hnone⟩ := h.leavingPort i port token hi
    rw [hports]
    refine ⟨htaken, fun fp' entry' hlookup => ?_⟩
    obtain ⟨old, hlookup, hsame, -⟩ := hold fp' entry' hlookup
    rw [hsame]
    exact hnone fp' old hlookup
  · rw [hremovals]
    exact h.apart
  · intro i removal token hi hleaving
    rw [hremovals] at hi
    obtain ⟨hdrawn, hnone⟩ := h.leavingToken i removal token hi hleaving
    refine ⟨hdrawn.append, fun fp' entry' hlookup => ?_⟩
    obtain ⟨old, hlookup, -, hsame⟩ := hold fp' entry' hlookup
    rw [hsame]
    exact hnone fp' old hlookup

/-- A token that was not given out before leads nowhere and is that of no lease. -/
theorem fresh (h : Coherent trace s) (hfresh : ¬ Drawn trace token)
    (hentry : s.table.leases.lookup fp = some entry) : entry.token ≠ token := by
  rintro rfl
  exact hfresh (h.drawn fp entry hentry)

/-- A device that has a lease is told a new token. -/
theorem renew (h : Coherent trace s) {time : Nat} (hentry : s.table.leases.lookup fp = some entry)
    (hfresh : ¬ Drawn trace lease.token)
    (hleases : next.table.leases = s.table.leases.insert fp renewed)
    (hport : renewed.port = entry.port) (htoken : renewed.token = lease.token)
    (hports : next.table.portMap = s.table.portMap) (htokens : next.table.tokenMap =
      (s.table.tokenMap.erase entry.token).insert lease.token fp)
    (hremovals : next.removals = s.removals) : Coherent (trace ++ [.told fp lease time]) next := by
  have hdrawn : Drawn (trace ++ [.told fp lease time]) lease.token :=
    ⟨_, List.mem_append_right _ List.mem_cons_self, rfl⟩
  have hold : ∀ fp' entry', next.table.leases.lookup fp' = some entry' →
      fp' = fp ∧ entry' = renewed ∨ fp' ≠ fp ∧ s.table.leases.lookup fp' = some entry' := by
    intro fp' entry' hlookup
    rw [hleases] at hlookup
    exact lookup_insert_iff.mp hlookup
  constructor
  · intro fp' entry' hlookup
    rw [hports]
    rcases hold fp' entry' hlookup with ⟨rfl, rfl⟩ | ⟨-, hlookup⟩
    · rw [hport]
      exact h.port _ entry hentry
    · exact h.port fp' entry' hlookup
  · intro fp' entry' hlookup
    rw [htokens]
    rcases hold fp' entry' hlookup with ⟨rfl, rfl⟩ | ⟨hne, hlookup⟩
    · rw [htoken]
      exact AList.lookup_insert _
    · rw [AList.lookup_insert_ne (h.fresh hfresh hlookup)]
      refine lookup_erase_iff.mpr ⟨fun heq => hne ?_, h.token fp' entry' hlookup⟩
      have hsecond := h.token fp entry hentry
      rw [← heq, h.token fp' entry' hlookup] at hsecond
      exact Option.some.inj hsecond
  · intro fp' entry' hlookup
    rcases hold fp' entry' hlookup with ⟨rfl, rfl⟩ | ⟨-, hlookup⟩
    · rw [htoken]
      exact hdrawn
    · exact (h.drawn fp' entry' hlookup).append
  · intro i port token hi
    rw [hremovals] at hi
    obtain ⟨htaken, hnone⟩ := h.leavingPort i port token hi
    rw [hports]
    refine ⟨htaken, fun fp' entry' hlookup => ?_⟩
    rcases hold fp' entry' hlookup with ⟨rfl, rfl⟩ | ⟨-, hlookup⟩
    · rw [hport]
      exact hnone _ entry hentry
    · exact hnone fp' entry' hlookup
  · rw [hremovals]
    exact h.apart
  · intro i removal token hi hleaving
    rw [hremovals] at hi
    obtain ⟨hgiven, hnone⟩ := h.leavingToken i removal token hi hleaving
    refine ⟨hgiven.append, fun fp' entry' hlookup => ?_⟩
    rcases hold fp' entry' hlookup with ⟨rfl, rfl⟩ | ⟨-, hlookup⟩
    · rw [htoken]
      rintro rfl
      exact hfresh hgiven
    · exact hnone fp' entry' hlookup

/-- A device gets a port that was free. -/
theorem grant (h : Coherent trace s) {time : Nat} (hentry : s.table.leases.lookup fp = none)
    (hfree : lease.port ∉ s.table.portMap) (hfresh : ¬ Drawn trace lease.token)
    (hleases : next.table.leases = s.table.leases.insert fp renewed)
    (hport : renewed.port = lease.port) (htoken : renewed.token = lease.token)
    (hports : next.table.portMap = s.table.portMap.insert lease.port fp)
    (htokens : next.table.tokenMap = s.table.tokenMap.insert lease.token fp)
    (hremovals : next.removals = s.removals) : Coherent (trace ++ [.told fp lease time]) next := by
  have hold : ∀ fp' entry', next.table.leases.lookup fp' = some entry' →
      fp' = fp ∧ entry' = renewed ∨ fp' ≠ fp ∧ s.table.leases.lookup fp' = some entry' := by
    intro fp' entry' hlookup
    rw [hleases] at hlookup
    exact lookup_insert_iff.mp hlookup
  constructor
  · intro fp' entry' hlookup
    rw [hports]
    rcases hold fp' entry' hlookup with ⟨rfl, rfl⟩ | ⟨-, hlookup⟩
    · rw [hport]
      exact AList.lookup_insert _
    · have hleads := h.port fp' entry' hlookup
      rw [AList.lookup_insert_ne]
      · exact hleads
      · intro heq
        exact hfree (LeaseTable.mem_map_iff.mpr ⟨fp', heq ▸ hleads⟩)
  · intro fp' entry' hlookup
    rw [htokens]
    rcases hold fp' entry' hlookup with ⟨rfl, rfl⟩ | ⟨-, hlookup⟩
    · rw [htoken]
      exact AList.lookup_insert _
    · rw [AList.lookup_insert_ne (h.fresh hfresh hlookup)]
      exact h.token fp' entry' hlookup
  · intro fp' entry' hlookup
    rcases hold fp' entry' hlookup with ⟨rfl, rfl⟩ | ⟨-, hlookup⟩
    · rw [htoken]
      exact ⟨_, List.mem_append_right _ List.mem_cons_self, rfl⟩
    · exact (h.drawn fp' entry' hlookup).append
  · intro i port token hi
    rw [hremovals] at hi
    obtain ⟨htaken, hnone⟩ := h.leavingPort i port token hi
    rw [hports]
    refine ⟨(AList.mem_insert _).mpr (.inr htaken), fun fp' entry' hlookup => ?_⟩
    rcases hold fp' entry' hlookup with ⟨rfl, rfl⟩ | ⟨-, hlookup⟩
    · rw [hport]
      rintro rfl
      exact hfree htaken
    · exact hnone fp' entry' hlookup
  · rw [hremovals]
    exact h.apart
  · intro i removal token hi hleaving
    rw [hremovals] at hi
    obtain ⟨hgiven, hnone⟩ := h.leavingToken i removal token hi hleaving
    refine ⟨hgiven.append, fun fp' entry' hlookup => ?_⟩
    rcases hold fp' entry' hlookup with ⟨rfl, rfl⟩ | ⟨-, hlookup⟩
    · rw [htoken]
      rintro rfl
      exact hfresh hgiven
    · exact hnone fp' entry' hlookup

/-- A removal takes a lease. -/
theorem take (h : Coherent trace s) (hentry : s.table.leases.lookup fp = some entry)
    (hleases : next.table.leases = s.table.leases.erase fp)
    (hports : next.table.portMap = s.table.portMap)
    (htokens : next.table.tokenMap = s.table.tokenMap)
    (hremovals : next.removals = s.removals ++ [.port entry.port entry.token]) :
    Coherent (trace ++ [event]) next := by
  have hold : ∀ fp' entry', next.table.leases.lookup fp' = some entry' →
      fp' ≠ fp ∧ s.table.leases.lookup fp' = some entry' := by
    intro fp' entry' hlookup
    rw [hleases] at hlookup
    exact lookup_erase_iff.mp hlookup
  have hleads := h.port fp entry hentry
  constructor
  · intro fp' entry' hlookup
    rw [hports]
    exact h.port fp' entry' (hold fp' entry' hlookup).2
  · intro fp' entry' hlookup
    rw [htokens]
    exact h.token fp' entry' (hold fp' entry' hlookup).2
  · intro fp' entry' hlookup
    exact (h.drawn fp' entry' (hold fp' entry' hlookup).2).append
  · intro i port token hi
    rw [hremovals, get_append] at hi
    rw [hports]
    split at hi
    · obtain ⟨rfl, rfl⟩ : entry.port = port ∧ entry.token = token := by simpa using hi
      refine ⟨LeaseTable.mem_map_iff.mpr ⟨fp, hleads⟩, fun fp' entry' hlookup hsame => ?_⟩
      obtain ⟨hne, hlookup⟩ := hold fp' entry' hlookup
      have hother := h.port fp' entry' hlookup
      rw [hsame, hleads] at hother
      exact hne (Option.some.inj hother).symm
    · obtain ⟨htaken, hnone⟩ := h.leavingPort i port token hi
      exact ⟨htaken, fun fp' entry' hlookup => hnone fp' entry' (hold fp' entry' hlookup).2⟩
  · intro i j port token token' hi hj
    rw [hremovals, get_append] at hi hj
    split at hi
    · next hlast =>
      split at hj
      · next hlast' => exact hlast.trans hlast'.symm
      · obtain ⟨rfl, -⟩ : entry.port = port ∧ entry.token = token := by simpa using hi
        exact absurd rfl ((h.leavingPort j _ token' hj).2 fp entry hentry)
    · split at hj
      · obtain ⟨rfl, -⟩ : entry.port = port ∧ entry.token = token' := by simpa using hj
        exact absurd rfl ((h.leavingPort i _ token hi).2 fp entry hentry)
      · exact h.apart i j port token token' hi hj
  · intro i removal token hi hleaving
    rw [hremovals, get_append] at hi
    split at hi
    · obtain rfl := Option.some.inj hi
      obtain rfl := Option.some.inj hleaving
      refine ⟨(h.drawn fp entry hentry).append, fun fp' entry' hlookup hsame => ?_⟩
      obtain ⟨hne, hlookup⟩ := hold fp' entry' hlookup
      have hother := h.token fp' entry' hlookup
      rw [hsame, h.token fp entry hentry] at hother
      exact hne (Option.some.inj hother).symm
    · obtain ⟨hgiven, hnone⟩ := h.leavingToken i removal token hi hleaving
      exact ⟨hgiven.append, fun fp' entry' hlookup => hnone fp' entry' (hold fp' entry' hlookup).2⟩

/-- A removal takes its port. -/
theorem finish_port (h : Coherent trace s) {i : Nat} {port : UInt16}
    (hi : s.removals[i]? = some (.port port token)) :
    Coherent trace { s with
      table := s.table.dropPort port
      removals := s.removals.set i (.token token) } := by
  constructor
  · intro fp entry hlookup
    have hne := (h.leavingPort i port token hi).2 fp entry hlookup
    exact (AList.lookup_erase_ne hne).trans (h.port fp entry hlookup)
  · exact h.token
  · exact h.drawn
  · intro j port' token' hj
    rw [get_set hi] at hj
    split at hj
    · cases hj
    · next hne =>
      obtain ⟨htaken, hnone⟩ := h.leavingPort j port' token' hj
      refine ⟨AList.mem_erase.mpr ⟨?_, htaken⟩, hnone⟩
      rintro rfl
      exact hne (h.apart j i _ token' token hj hi)
  · intro j k port' token' token'' hj hk
    rw [get_set hi] at hj hk
    split at hj
    · cases hj
    · split at hk
      · cases hk
      · exact h.apart j k port' token' token'' hj hk
  · intro j removal token' hj hleaving
    rw [get_set hi] at hj
    split at hj
    · obtain rfl := Option.some.inj hj
      exact h.leavingToken i _ token' hi hleaving
    · exact h.leavingToken j removal token' hj hleaving

/-- A removal takes its token. -/
theorem finish_token (h : Coherent trace s) {i : Nat} (hi : s.removals[i]? = some (.token token)) :
    Coherent trace { s with
      table := s.table.dropToken token
      removals := s.removals.set i .done } := by
  constructor
  · exact h.port
  · intro fp entry hlookup
    have hne := (h.leavingToken i _ token hi rfl).2 fp entry hlookup
    exact (AList.lookup_erase_ne hne).trans (h.token fp entry hlookup)
  · exact h.drawn
  · intro j port' token' hj
    rw [get_set hi] at hj
    split at hj
    · cases hj
    · exact h.leavingPort j port' token' hj
  · intro j k port' token' token'' hj hk
    rw [get_set hi] at hj hk
    split at hj
    · cases hj
    · split at hk
      · cases hk
      · exact h.apart j k port' token' token'' hj hk
  · intro j removal token' hj hleaving
    rw [get_set hi] at hj
    split at hj
    · obtain rfl := Option.some.inj hj
      cases hleaving
    · exact h.leavingToken j removal token' hj hleaving

end Coherent

/-- What holds in every run without a refresh or a registration of what the reaper selected. -/
structure Sound (ttl : Nat) (trace : List ReapEvent) (s : Reaping) : Prop where
  dated : Dated ttl trace s
  tracked : Tracked ttl trace s
  coherent : Coherent trace s

namespace Sound

/-- Nothing happens to the leases. -/
theorem quiet (h : Sound ttl trace s) (hcoherent : Coherent trace next)
    (hleases : next.table.leases = s.table.leases) (hclock : s.clock ≤ next.clock)
    (hselected : ∀ fp ∈ next.selected, ∀ time, Refreshed trace fp time → time + ttl < next.clock)
    (hstarted : ∀ now, next.reaper = .started now → now ≤ next.clock) :
    Sound ttl (trace ++ []) next := by
  refine ⟨?_, ?_, ?_⟩
  · refine h.dated.still ?_ ?_ hclock hselected hstarted
    · rintro fp time ⟨event, hmem, -⟩
      cases hmem
    · rw [hleases]
      exact fun _ _ => id
  · rw [List.append_nil]
    exact h.tracked.still hleases hclock
  · rw [List.append_nil]
    exact hcoherent

/-- The tables and the removals stay. -/
theorem still (h : Sound ttl trace s) (htable : next.table = s.table)
    (hremovals : next.removals = s.removals) (hclock : s.clock ≤ next.clock)
    (hselected : ∀ fp ∈ next.selected, ∀ time, Refreshed trace fp time → time + ttl < next.clock)
    (hstarted : ∀ now, next.reaper = .started now → now ≤ next.clock) :
    Sound ttl (trace ++ []) next :=
  h.quiet (h.coherent.still (by rw [htable]) (by rw [htable]) (by rw [htable]) hremovals)
    (by rw [htable]) hclock hselected hstarted

/-- A lease that the reaper has not selected is refreshed, if it is there. -/
theorem refresh (h : Sound ttl trace s) (change : LeaseEntry → LeaseEntry)
    (hnot : fp ∈ s.table.leases → fp ∉ s.selected)
    (hleases : next.table.leases = match s.table.leases.lookup fp with
      | some entry => s.table.leases.insert fp (change entry)
      | none => s.table.leases)
    (hport : ∀ entry, (change entry).port = entry.port)
    (htoken : ∀ entry, (change entry).token = entry.token)
    (hnow : ∀ entry, s.clock ≤ (change entry).lastActive ∨ s.clock ≤ (change entry).lastPing)
    (hports : next.table.portMap = s.table.portMap)
    (htokens : next.table.tokenMap = s.table.tokenMap) (hremovals : next.removals = s.removals)
    (hclock : next.clock = s.clock) (hreaper : next.reaper = s.reaper) :
    Sound ttl (trace ++ s.refreshes fp) next := by
  unfold refreshes
  cases hentry : s.table.leases.lookup fp with
  | some entry =>
    have hmem : fp ∈ s.table.leases := AList.lookup_isSome.mp (by rw [hentry]; rfl)
    rw [hentry] at hleases
    rw [if_pos hmem]
    exact ⟨h.dated.renew rfl (hnot hmem) hleases (hnow entry) hclock hreaper,
      h.tracked.refresh hentry hleases (hport entry) (htoken entry) hclock,
      h.coherent.refresh hentry hleases (hport entry) (htoken entry) hports htokens hremovals⟩
  | none =>
    rw [hentry] at hleases
    rw [if_neg (AList.lookup_eq_none.mp hentry)]
    refine h.quiet (h.coherent.still hleases hports htokens hremovals) hleases
      (Nat.le_of_eq hclock.symm) ?_ ?_
    · rw [selected_eq hreaper, hclock]
      exact h.dated.selected
    · rw [hreaper, hclock]
      exact h.dated.started

/-- A device that the reaper has not selected registers. -/
theorem alloc (h : Sound ttl trace s) {name : String} {hidden : Bool} (hnot : fp ∉ s.selected)
    (hfresh : ¬ Drawn trace token)
    (hnext : step ttl s (.alloc fp name hidden token) = some (next, emitted)) :
    Sound ttl (trace ++ emitted) next := by
  simp only [step, LeaseTable.alloc] at hnext
  cases hentry : s.table.leases.lookup fp with
  | some existing =>
    simp only [hentry] at hnext
    obtain ⟨rfl, rfl⟩ := answer_inj hnext
    exact ⟨h.dated.renew rfl hnot rfl (.inl (Nat.le_refl _)) rfl rfl,
      h.tracked.tell rfl rfl rfl rfl,
      h.coherent.renew hentry hfresh rfl rfl rfl rfl rfl rfl⟩
  | none =>
    simp only [hentry] at hnext
    cases hport : s.table.freePort with
    | some port =>
      have hfree : port ∉ s.table.portMap := by simpa using List.find?_some hport
      simp only [hport] at hnext
      obtain ⟨rfl, rfl⟩ := answer_inj hnext
      exact ⟨h.dated.renew rfl hnot rfl (.inl (Nat.le_refl _)) rfl rfl,
        h.tracked.tell rfl rfl rfl rfl,
        h.coherent.grant hentry hfree hfresh rfl rfl rfl rfl rfl rfl⟩
    | none =>
      simp only [hport] at hnext
      obtain ⟨rfl, rfl⟩ := answer_inj hnext
      exact h.still rfl rfl (Nat.le_refl _) h.dated.selected h.dated.started

/-- A removal takes a lease: for the control plane, or for the reaper, which had selected it. -/
theorem take (h : Sound ttl trace s) (hentry : s.table.leases.lookup fp = some entry)
    (hevent : event = .removed fp ∨ event = .reaped fp s.clock ∧ fp ∈ s.selected)
    {reaper : ReaperPhase}
    (hselected : ∀ fp ∈ ({ s.take fp entry with reaper } : Reaping).selected, fp ∈ s.selected)
    (hstarted : ∀ now, reaper = .started now → now ≤ s.clock) :
    Sound ttl (trace ++ [event]) { s.take fp entry with reaper } := by
  have hsilent : event.refresh = none := by
    rcases hevent with rfl | ⟨rfl, -⟩
    · rfl
    · rfl
  refine ⟨?_, h.tracked.take (hevent.imp_right ?_) rfl rfl, h.coherent.take hentry rfl rfl rfl rfl⟩
  · refine h.dated.still ?_ ?_ (Nat.le_refl _) ?_ hstarted
    · intro fp' time hrefreshed
      rw [refreshed_singleton, hsilent] at hrefreshed
      cases hrefreshed
    · intro fp' entry' hlookup
      exact (lookup_erase_iff.mp hlookup).2
    · intro fp' hmem
      exact h.dated.selected fp' (hselected fp' hmem)
  · rintro ⟨rfl, hmem⟩
    exact ⟨rfl, h.dated.selected fp hmem⟩

/-- The reaper goes on. -/
theorem reap (h : Sound ttl trace s) (hnext : s.reap ttl = some (next, emitted)) :
    Sound ttl (trace ++ emitted) next := by
  unfold Reaping.reap at hnext
  cases hphase : s.reaper with
  | idle =>
    simp only [hphase] at hnext
    obtain ⟨rfl, rfl⟩ := answer_inj hnext
    refine h.still rfl rfl (Nat.le_refl _) (fun fp hmem => absurd hmem List.not_mem_nil) ?_
    intro now hnow
    obtain rfl : s.clock = now := by simpa using hnow
    exact Nat.le_refl _
  | started now =>
    simp only [hphase] at hnext
    obtain ⟨rfl, rfl⟩ := answer_inj hnext
    refine h.still rfl rfl (Nat.le_refl _) ?_ nofun
    intro fp hmem time hrefreshed
    exact h.dated.expired (h.dated.started now hphase) hmem hrefreshed
  | removing expired current =>
    have hsame : s.selected = expired := by
      unfold selected
      rw [hphase]
    simp only [hphase] at hnext
    split at hnext
    · cases expired with
      | nil =>
        obtain ⟨rfl, rfl⟩ := answer_inj hnext
        exact h.still rfl rfl (Nat.le_refl _) (fun fp hmem => absurd hmem List.not_mem_nil) nofun
      | cons fp rest =>
        have hrest : ∀ fp' ∈ rest, fp' ∈ s.selected := fun fp' hmem =>
          hsame ▸ List.mem_cons_of_mem _ hmem
        cases hentry : s.table.leases.lookup fp with
        | some entry =>
          simp only [hentry] at hnext
          obtain ⟨rfl, rfl⟩ := answer_inj hnext
          exact h.take hentry (.inr ⟨rfl, hsame ▸ List.mem_cons_self⟩) hrest nofun
        | none =>
          simp only [hentry] at hnext
          obtain ⟨rfl, rfl⟩ := answer_inj hnext
          refine h.still rfl rfl (Nat.le_refl _) ?_ nofun
          intro fp' hmem
          exact h.dated.selected fp' (hrest fp' hmem)
    · cases hnext

/-- Every step without a refresh or a registration of what the reaper selected. -/
theorem step {input : ReapInput} (h : Sound ttl trace s) (hguard : unselected trace s input)
    (hnext : Reaping.step ttl s input = some (next, emitted)) :
    Sound ttl (trace ++ emitted) next := by
  obtain ⟨honce, hguard⟩ := hguard
  cases input with
  | tick elapsed =>
    obtain ⟨rfl, rfl⟩ := answer_inj hnext
    have hlater : s.clock ≤ s.clock + elapsed := Nat.le_add_right _ _
    refine h.still rfl rfl hlater ?_ ?_
    · intro fp hmem time hrefreshed
      exact Nat.lt_of_lt_of_le (h.dated.selected fp hmem time hrefreshed) hlater
    · intro now hstarted
      exact Nat.le_trans (h.dated.started now hstarted) hlater
  | alloc fp name hidden token =>
    refine h.alloc hguard ?_ hnext
    rintro ⟨event, hmem, hdrawn⟩
    exact honce event hmem hdrawn
  | findToken token =>
    obtain ⟨rfl, rfl⟩ := answer_inj hnext
    exact h.still rfl rfl (Nat.le_refl _) h.dated.selected h.dated.started
  | touch place =>
    simp only [Reaping.step] at hnext
    split at hnext
    · next fp hplace =>
      obtain ⟨rfl, rfl⟩ := answer_inj hnext
      simp only [hplace] at hguard
      exact h.refresh (fun entry => { entry with lastActive := s.clock }) hguard rfl
        (fun _ => rfl) (fun _ => rfl) (fun _ => .inl (Nat.le_refl _)) rfl rfl rfl rfl rfl
    · cases hnext
  | heartbeat fp =>
    obtain ⟨rfl, rfl⟩ := answer_inj hnext
    have hquiet := s.table.quiet_heartbeat fp s.clock
    refine h.refresh (fun entry => { entry with lastPing := s.clock }) hguard ?_ (fun _ => rfl)
      (fun _ => rfl) (fun _ => .inr (Nat.le_refl _)) hquiet.portMap hquiet.tokenMap rfl rfl rfl
    show (s.table.heartbeat fp s.clock).leases = _
    unfold LeaseTable.heartbeat
    cases s.table.leases.lookup fp with
    | some entry => rfl
    | none => rfl
  | remove fp =>
    simp only [Reaping.step] at hnext
    split at hnext
    · next entry hentry =>
      obtain ⟨rfl, rfl⟩ := answer_inj hnext
      exact h.take hentry (.inl rfl) (fun _ => id) h.dated.started
    · obtain ⟨rfl, rfl⟩ := answer_inj hnext
      exact h.still rfl rfl (Nat.le_refl _) h.dated.selected h.dated.started
  | finish removal =>
    simp only [Reaping.step] at hnext
    split at hnext
    · next port token hi =>
      obtain ⟨rfl, rfl⟩ := answer_inj hnext
      exact h.quiet (h.coherent.finish_port hi) rfl (Nat.le_refl _) h.dated.selected
        h.dated.started
    · next token hi =>
      obtain ⟨rfl, rfl⟩ := answer_inj hnext
      exact h.quiet (h.coherent.finish_token hi) rfl (Nat.le_refl _) h.dated.selected
        h.dated.started
    · cases hnext
  | reap => exact h.reap hnext

end Sound

end Reaping

variable {ttl : Nat} {portStart portEnd : UInt16} {inputs : List ReapInput}
  {trace : List ReapEvent} {s : Reaping}

/-- Before anything has happened, everything is as it should be. -/
theorem Reaping.new_sound : (Reaping.new portStart portEnd).Sound ttl [] where
  dated := {
    past := by
      rintro fp time ⟨event, hmem, -⟩
      cases hmem
    noted := by
      rintro fp time entry ⟨event, hmem, -⟩
      cases hmem
    selected := fun fp hmem => absurd hmem List.not_mem_nil
    started := nofun }
  tracked := {
    spared := each_event_nil
    told := fun fp lease time later htold => absurd htold.mem List.not_mem_nil
    gone := fun fp time later hreaped => absurd hreaped.mem List.not_mem_nil }
  coherent := ⟨nofun, nofun, nofun, nofun, nofun, nofun⟩

/-- In every run in which no token is drawn twice, and nothing is refreshed or registered that the
reaper has selected and not yet removed, the reaper spares what was refreshed within the time to
live, and a device with such a lease keeps the port and the token that it was told. -/
theorem reap_spares
    (h : Exec (Reaping.step ttl) unselected (.new portStart portEnd) inputs trace s) :
    ReapSpares ttl trace s := by
  have hsound : s.Sound ttl trace := by
    refine h.invariant Reaping.new_sound ?_
    intro trace s input next emitted hsound hguard hnext
    exact hsound.step hguard hnext
  refine ⟨hsound.tracked.spared, ?_⟩
  intro fp lease told later htold time hrefreshed hrecent
  have hends : Standing (ReapEvent.ends fp) trace (.told fp lease told) later := by
    obtain ⟨older, hsplit, hlater⟩ := htold
    refine ⟨older, hsplit, fun event hmem hevent => ?_⟩
    cases event with
    | told | removed => exact hlater _ hmem hevent
    | refreshed => exact hevent
    | reaped fp' now =>
      -- The lease was reaped since, and nothing refreshed it afterwards.
      obtain rfl : fp' = fp := hevent
      obtain ⟨between, after, rfl⟩ := List.append_of_mem hmem
      have hreaped : Standing (ReapEvent.tells fp') trace (.reaped fp' now) after := by
        refine ⟨older ++ .told fp' lease told :: between, by simpa using hsplit, ?_⟩
        intro other hother htells
        refine hlater other (List.mem_append_right _ (List.mem_cons_of_mem _ hother)) ?_
        cases other with
        | told => exact htells
        | refreshed | removed | reaped => exact htells.elim
      have hold := (hsound.tracked.gone fp' now after hreaped).2 time hrefreshed
      omega
  obtain ⟨entry, hentry, hport, htoken⟩ := hsound.tracked.told fp lease told later hends
  refine ⟨⟨entry, hentry, hport, htoken⟩, ?_, ?_⟩
  · rw [← hport]
    exact hsound.coherent.port fp entry hentry
  · rw [← htoken]
    exact hsound.coherent.token fp entry hentry

/-- Two devices register, one of them pings, the other is reaped, and registers again; the first
uses its token. -/
def oneSilent : List ReapInput :=
  [.alloc 1 "phone" false 7, .alloc 2 "desk" false 8, .tick 40, .heartbeat 1, .tick 6, .reap, .reap,
    .reap, .finish 0, .findToken 7, .finish 0, .touch 0, .reap, .alloc 2 "desk" false 9]

theorem reap_spares_sample :
    ∃ trace s, Exec (Reaping.step 45) unselected (.new 9000 9010) oneSilent trace s ∧
      trace = [.told 1 ⟨9000, 7⟩ 0, .told 2 ⟨9001, 8⟩ 0, .refreshed 1 40, .reaped 2 46,
        .refreshed 1 46, .told 2 ⟨9001, 9⟩ 46] ∧
      s.Holds 1 ⟨9000, 7⟩ ∧ s.Holds 2 ⟨9001, 9⟩ := by
  obtain ⟨⟨s, trace⟩, hrun, hview⟩ := Option.map_eq_some_iff.mp
    (show (Machine.run (Reaping.step 45) unselected [] (.new 9000 9010) oneSilent).map
        (fun result => (result.2, result.1.clock)) =
      some ([.told 1 ⟨9000, 7⟩ 0, .told 2 ⟨9001, 8⟩ 0, .refreshed 1 40, .reaped 2 46,
        .refreshed 1 46, .told 2 ⟨9001, 9⟩ 46], 46) by decide +kernel)
  obtain ⟨rfl, hclock⟩ := Prod.mk.inj hview
  have hexec := Exec.start.append_run hrun
  have hspares := reap_spares hexec
  refine ⟨_, s, hexec, rfl, ?_, ?_⟩
  · refine hspares.kept 1 ⟨9000, 7⟩ 0 _ ⟨[], rfl, ?_⟩ 46 ⟨.refreshed 1 46, by decide, rfl⟩ ?_
    · simp [ReapEvent.replaces]
    · exact Nat.le_trans (Nat.le_of_eq hclock) (by omega)
  · refine hspares.kept 2 ⟨9001, 9⟩ 46 [] ⟨[.told 1 ⟨9000, 7⟩ 0, .told 2 ⟨9001, 8⟩ 0,
      .refreshed 1 40, .reaped 2 46, .refreshed 1 46], rfl, ?_⟩ 46
      ⟨.told 2 ⟨9001, 9⟩ 46, by decide, rfl⟩ ?_
    · exact fun event hmem => absurd hmem List.not_mem_nil
    · exact Nat.le_trans (Nat.le_of_eq hclock) (by omega)

/-- A device registers, is silent, is selected, and registers again before it is removed. -/
def registersAgain : List ReapInput :=
  [.alloc 1 "phone" false 7, .tick 46, .reap, .reap, .alloc 1 "phone" false 8, .reap]

theorem fresh_lease_reaped :
    ∃ trace s, Exec (Reaping.step 45) drawnOnce (.new 9000 9010) registersAgain trace s ∧
      trace = [.told 1 ⟨9000, 7⟩ 0, .told 1 ⟨9000, 8⟩ 46, .reaped 1 46] ∧
      s.table.leases.lookup 1 = none ∧ ¬ ReapSpares 45 trace s := by
  obtain ⟨⟨s, trace⟩, hrun, hview⟩ := Option.map_eq_some_iff.mp
    (show (Machine.run (Reaping.step 45) drawnOnce [] (.new 9000 9010) registersAgain).map
        (fun result => (result.2, result.1.table.leases.lookup 1)) =
      some ([.told 1 ⟨9000, 7⟩ 0, .told 1 ⟨9000, 8⟩ 46, .reaped 1 46], none) by decide +kernel)
  obtain ⟨rfl, hnone⟩ := Prod.mk.inj hview
  refine ⟨_, s, Exec.start.append_run hrun, rfl, hnone, fun hspares => ?_⟩
  have hlate := hspares.spared [.told 1 ⟨9000, 7⟩ 0, .told 1 ⟨9000, 8⟩ 46] _ [] rfl 46
    ⟨.told 1 ⟨9000, 8⟩ 46, by decide, rfl⟩
  omega

end LocalTrans.Relay.Lease
