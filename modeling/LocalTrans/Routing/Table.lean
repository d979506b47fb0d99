import LocalTrans.Foundation.Execution
import LocalTrans.Protocol
import LocalTrans.Routing.Score
import Mathlib.Data.List.Induction

/-!
# The table of channels

`ChannelTable` of `routing/mod.rs`: the channels of every device and the one last connected, as a
machine whose events say what became of each channel. `pastOf` reads from these events what a record
should hold, and `Recorded` says that it does.
-/

namespace LocalTrans.Routing

open Foundation

/-- `ProbeKind`. -/
inductive ProbeKind where
  | full
  | quick
deriving DecidableEq

/-- `LOSS_WINDOW_CAP`. -/
def lossWindowCap : Nat := 10

/-- `REMOVE_AFTER_TIMEOUTS`. -/
def removeAfterTimeouts : Nat := 3

/-- `DEGRADE_AFTER_RTT_DOUBLES`. -/
def degradeAfterRttDoubles : Nat := 3

/-- `rtt_doubled`, with the doubling that stays at the largest `u64`. -/
def rttDoubled (prev cur : UInt64) : Bool :=
  0 < prev && min (2 * prev.toNat) (2 ^ 64 - 1) ≤ cur.toNat

/-- `push_loss_sample`. -/
def pushLossSample (window : List Bool) (ok : Bool) : List Bool :=
  (if lossWindowCap ≤ window.length then window.tail else window) ++ [ok]

namespace ChannelRecord

/-- The change of `record_rtt`. -/
def withRtt (record : ChannelRecord) (rttMs : UInt64) : ChannelRecord :=
  { record with
    rttDoubleStreak :=
      if record.rttMs.any fun prev => rttDoubled prev rttMs then
        min (record.rttDoubleStreak + 1) (2 ^ 32 - 1)
      else 0
    rttMs := some rttMs }

/-- The change of `record_bandwidth`. -/
def withBandwidth (record : ChannelRecord) (kind : ProbeKind) (estBps : UInt64) : ChannelRecord :=
  { record with
    estBps := some estBps
    lastFullBps := if kind = .full then some estBps else record.lastFullBps }

/-- The change of `record_probe_sample`, with the counter of a release build. -/
def withSample (record : ChannelRecord) (ok : Bool) : ChannelRecord :=
  { record with
    lossWindow := pushLossSample record.lossWindow ok
    consecutiveTimeouts := if ok then 0 else (record.consecutiveTimeouts + 1) % 2 ^ 32
    probeDisabled := record.probeDisabled || !ok }

/-- The change of `take_rtt_degradation`, where it answers `true`. -/
def consumed (record : ChannelRecord) : ChannelRecord := { record with rttDoubleStreak := 0 }

end ChannelRecord

/-- What becomes of a channel. -/
inductive ChannelEvent where
  | recorded
  | renewed
  | removed
  | measured (rttMs : UInt64)
  | estimated (kind : ProbeKind) (estBps : UInt64)
  | sampled (ok : Bool)
  | checked (degraded : Bool)
deriving DecidableEq

/-- An event of the table. -/
inductive TableEvent where
  | channel (peer : Fingerprint) (addr : SocketAddr) (event : ChannelEvent)
  | connected (peer : Fingerprint) (addr : SocketAddr)
deriving DecidableEq

/-- The event is about a channel of the device. -/
def TableEvent.Concerns (peer : Fingerprint) : TableEvent → Prop
  | .channel other _ _ => other = peer
  | .connected .. => False

/-- `ChannelTable`. -/
structure ChannelTable where
  channels : Fingerprint → List ChannelRecord
  currents : Fingerprint → Option SocketAddr

namespace ChannelTable

/-- `ChannelTable::new`. -/
def new : ChannelTable := { channels := fun _ => [], currents := fun _ => none }

/-- `ChannelTable::current`. -/
def current (table : ChannelTable) (peer : Fingerprint) : Option SocketAddr := table.currents peer

/-- `ChannelTable::snapshot`. -/
def snapshot (table : ChannelTable) (peer : Fingerprint) : List ChannelRecord :=
  table.channels peer

/-- `ChannelTable::probe_disabled`. -/
def probeDisabled (table : ChannelTable) (peer : Fingerprint) (addr : SocketAddr) : Bool :=
  (((table.channels peer).find? fun r => r.addr = addr).map ChannelRecord.probeDisabled).getD false

/-- The channels of a device are written. -/
def setRecords (table : ChannelTable) (peer : Fingerprint) (records : List ChannelRecord) :
    ChannelTable :=
  { table with channels := Function.update table.channels peer records }

@[simp] theorem set_records_own (table : ChannelTable) (peer : Fingerprint)
    (records : List ChannelRecord) : (table.setRecords peer records).channels peer = records :=
  Function.update_self _ _ _

theorem set_records_other (table : ChannelTable) {peer other : Fingerprint} (h : other ≠ peer)
    (records : List ChannelRecord) :
    (table.setRecords peer records).channels other = table.channels other :=
  Function.update_of_ne h _ _

/-- A change to one record, with its event; nothing if there is no record. -/
def change (table : ChannelTable) (peer : Fingerprint) (addr : SocketAddr)
    (change : ChannelRecord → ChannelRecord) (event : ChannelEvent) :
    ChannelTable × List TableEvent :=
  if (table.channels peer).any fun r => r.addr = addr then
    (table.setRecords peer (updateRecord (table.channels peer) addr change),
      [.channel peer addr event])
  else (table, [])

/-- `ChannelTable::register`. It answers `true` where the channel is `recorded`. -/
def register (table : ChannelTable) (peer : Fingerprint) (addr : SocketAddr) (viaRelay : Bool) :
    ChannelTable × List TableEvent :=
  let records := table.channels peer
  let dropped := if viaRelay then records.filter fun r => r.viaRelay && r.addr ≠ addr else []
  let known := records.any fun r => r.addr = addr
  (table.setRecords peer (Routing.register records addr viaRelay),
    (dropped.map fun r => .channel peer r.addr .removed) ++
      [.channel peer addr (if known then .renewed else .recorded)])

/-- `ChannelTable::take_rtt_degradation`. -/
def takeRttDegradation (table : ChannelTable) (peer : Fingerprint) (addr : SocketAddr) :
    ChannelTable × Bool :=
  match (table.channels peer).find? fun r => r.addr = addr with
  | some record =>
    if degradeAfterRttDoubles ≤ record.rttDoubleStreak then
      (table.setRecords peer (updateRecord (table.channels peer) addr .consumed), true)
    else (table, false)
  | none => (table, false)

/-- `ChannelTable::reap_timeouts`. -/
def reapTimeouts (table : ChannelTable) (peer : Fingerprint) : ChannelTable × List TableEvent :=
  let records := table.channels peer
  (table.setRecords peer (records.filter fun r => r.consecutiveTimeouts < removeAfterTimeouts),
    (records.filter fun r => removeAfterTimeouts ≤ r.consecutiveTimeouts).map
      fun r => .channel peer r.addr .removed)

end ChannelTable

/-- The calls of the table. -/
inductive TableCall where
  | register (peer : Fingerprint) (addr : SocketAddr) (viaRelay : Bool)
  | noteConnected (peer : Fingerprint) (addr : SocketAddr) (viaRelay : Bool)
  | recordRtt (peer : Fingerprint) (addr : SocketAddr) (rttMs : UInt64)
  | recordBandwidth (peer : Fingerprint) (addr : SocketAddr) (kind : ProbeKind) (estBps : UInt64)
  | recordProbeSample (peer : Fingerprint) (addr : SocketAddr) (ok : Bool)
  | takeRttDegradation (peer : Fingerprint) (addr : SocketAddr)
  | reapTimeouts (peer : Fingerprint)
deriving DecidableEq

namespace ChannelTable

/-- One call. -/
def call (table : ChannelTable) : TableCall → ChannelTable × List TableEvent
  | .register peer addr viaRelay => table.register peer addr viaRelay
  | .noteConnected peer addr viaRelay =>
    let (next, events) := table.register peer addr viaRelay
    ({ next with currents := Function.update next.currents peer (some addr) },
      events ++ [.connected peer addr])
  | .recordRtt peer addr rttMs => table.change peer addr (·.withRtt rttMs) (.measured rttMs)
  | .recordBandwidth peer addr kind estBps =>
    table.change peer addr (·.withBandwidth kind estBps) (.estimated kind estBps)
  | .recordProbeSample peer addr ok => table.change peer addr (·.withSample ok) (.sampled ok)
  | .takeRttDegradation peer addr =>
    let (next, degraded) := table.takeRttDegradation peer addr
    (next, [.channel peer addr (.checked degraded)])
  | .reapTimeouts peer => table.reapTimeouts peer

/-- The table as a machine. -/
def step : Machine ChannelTable TableCall TableEvent :=
  fun table call => some (table.call call)

end ChannelTable

/-- What a record should hold of the history of its channel: the last round trip, how many in a row
doubled, and the samples. -/
structure ChannelPast where
  lastRtt : Option UInt64
  doublings : Nat
  samples : List Bool

/-- Nothing happened yet. -/
def ChannelPast.blank : ChannelPast := { lastRtt := none, doublings := 0, samples := [] }

/-- The past after an event. -/
def ChannelPast.after (past : ChannelPast) : ChannelEvent → ChannelPast
  | .recorded | .removed => .blank
  | .renewed | .checked true => { past with doublings := 0 }
  | .measured rttMs =>
    { past with
      lastRtt := some rttMs
      doublings := if past.lastRtt.any fun prev => rttDoubled prev rttMs then past.doublings + 1
        else 0 }
  | .sampled ok => { past with samples := past.samples ++ [ok] }
  | .estimated _ _ | .checked false => past

/-- The past of a channel, from its history. -/
def pastOf (events : List ChannelEvent) : ChannelPast := events.foldl .after .blank

/-- The newest entries of a list. -/
def newest (count : Nat) (entries : List Bool) : List Bool :=
  entries.drop (entries.length - count)

section Histories

variable (peer : Fingerprint) (addr : SocketAddr)

/-- What became of one channel. -/
def channelHistory (trace : List TableEvent) : List ChannelEvent :=
  trace.filterMap fun
    | .channel other place event => if other = peer ∧ place = addr then some event else none
    | .connected .. => none

/-- The channel that was last connected. -/
def lastConnected (trace : List TableEvent) : Option SocketAddr :=
  (trace.filterMap fun
    | .connected other place => if other = peer then some place else none
    | .channel .. => none).getLast?

end Histories

/-- The event is a measurement of the round trip, or starts the count of doublings again. -/
def ChannelEvent.marksRtt : ChannelEvent → Bool
  | .recorded | .renewed | .removed | .measured _ | .checked true => true
  | .estimated _ _ | .sampled _ | .checked false => false

/-- The last three round trips doubled, each against the one before, and nothing started the count
again since. -/
def DoubledThrice (events : List ChannelEvent) : Prop :=
  ∃ start r0 r1 r2 r3, events.filter ChannelEvent.marksRtt =
      start ++ [.measured r1, .measured r2, .measured r3] ∧
    (pastOf start).lastRtt = some r0 ∧
    rttDoubled r0 r1 = true ∧ rttDoubled r1 r2 = true ∧ rttDoubled r2 r3 = true

section Past

variable {events : List ChannelEvent} {event : ChannelEvent} {past : ChannelPast}

@[simp] theorem past_of_nil : pastOf [] = .blank := rfl

theorem past_of_concat : pastOf (events ++ [event]) = (pastOf events).after event := by
  simp [pastOf]

/-- The round trips and the doublings depend on the marks only. -/
theorem past_of_marks :
    (pastOf (events.filter ChannelEvent.marksRtt)).lastRtt = (pastOf events).lastRtt ∧
      (pastOf (events.filter ChannelEvent.marksRtt)).doublings = (pastOf events).doublings := by
  induction events using List.reverseRecOn with
  | nil => exact ⟨rfl, rfl⟩
  | append_singleton events event ih =>
    obtain ⟨hrtt, hdoublings⟩ := ih
    rw [List.filter_append, List.filter_singleton, past_of_concat]
    cases hmark : event.marksRtt with
    | true =>
      rw [cond_true, past_of_concat]
      cases event with
      | checked degraded => cases degraded <;> simp [ChannelPast.after, hrtt, hdoublings]
      | _ => simp [ChannelPast.after, hrtt, hdoublings]
    | false =>
      rw [cond_false, List.append_nil]
      cases event with
      | estimated kind estBps | sampled ok => exact ⟨hrtt, hdoublings⟩
      | checked degraded =>
        cases degraded with
        | true => cases hmark
        | false => exact ⟨hrtt, hdoublings⟩
      | _ => cases hmark

/-- A doubling was counted at the last mark, and the others before it. -/
theorem doublings_succ {count : Nat} (hmarks : ∀ event ∈ events, event.marksRtt = true) :
    count + 1 ≤ (pastOf events).doublings ↔
      ∃ start prev rttMs, events = start ++ [.measured rttMs] ∧
        (pastOf start).lastRtt = some prev ∧ rttDoubled prev rttMs = true ∧
        count ≤ (pastOf start).doublings := by
  cases events using List.reverseRecOn with
  | nil =>
    constructor
    · intro hcount
      simp [ChannelPast.blank] at hcount
    · rintro ⟨start, prev, rttMs, hevents, -⟩
      simp at hevents
  | append_singleton events event =>
    have hmark := hmarks event (by simp)
    rw [past_of_concat]
    constructor
    · intro hcount
      cases event with
      | measured rttMs =>
        unfold ChannelPast.after at hcount
        dsimp only at hcount
        split at hcount
        · next hdoubled =>
          obtain ⟨prev, hprev, hdoubled⟩ := (Option.any_eq_true _ _).mp hdoubled
          exact ⟨events, prev, rttMs, rfl, hprev, hdoubled, by omega⟩
        · omega
      | recorded | renewed | removed => simp [ChannelPast.after, ChannelPast.blank] at hcount
      | estimated kind estBps | sampled ok => cases hmark
      | checked degraded =>
        cases degraded with
        | true => simp [ChannelPast.after] at hcount
        | false => cases hmark
    · rintro ⟨start, prev, rttMs, hevents, hprev, hdoubled, hcount⟩
      obtain ⟨rfl, rfl⟩ : events = start ∧ event = .measured rttMs := by simpa using hevents
      simp [ChannelPast.after, hprev, hdoubled, hcount]

/-- Three doublings were counted exactly if the last three round trips doubled. -/
theorem doubled_thrice_iff :
    DoubledThrice events ↔ degradeAfterRttDoubles ≤ (pastOf events).doublings := by
  have hmarks : ∀ event ∈ events.filter ChannelEvent.marksRtt, event.marksRtt = true :=
    fun event hmem => List.of_mem_filter hmem
  rw [← past_of_marks.2]
  unfold DoubledThrice degradeAfterRttDoubles
  generalize events.filter ChannelEvent.marksRtt = marks at hmarks
  constructor
  · rintro ⟨start, r0, r1, r2, r3, rfl, hfirst, h1, h2, h3⟩
    have hshape : start ++ [.measured r1, .measured r2, .measured r3] =
        ((start ++ [.measured r1]) ++ [.measured r2]) ++ [ChannelEvent.measured r3] := by simp
    rw [hshape, past_of_concat, past_of_concat, past_of_concat]
    simp [ChannelPast.after, hfirst, h1, h2, h3]
  · intro hthree
    obtain ⟨marks, r2, r3, rfl, hr2, h3, htwo⟩ := (doublings_succ hmarks).mp hthree
    have hmarks : ∀ event ∈ marks, event.marksRtt = true :=
      fun event hmem => hmarks event (List.mem_append_left _ hmem)
    obtain ⟨marks, r1, r2', rfl, hr1, h2, hone⟩ := (doublings_succ hmarks).mp htwo
    have hmarks : ∀ event ∈ marks, event.marksRtt = true :=
      fun event hmem => hmarks event (List.mem_append_left _ hmem)
    obtain ⟨start, r0, r1', rfl, hr0, h1, -⟩ := (doublings_succ hmarks).mp hone
    -- The round trip a measurement is compared with is the one measured before.
    rw [past_of_concat] at hr1 hr2
    obtain rfl : r2' = r2 := Option.some.inj hr2
    obtain rfl : r1' = r1 := Option.some.inj hr1
    exact ⟨start, r0, r1', r2', r3, by simp, hr0, h1, h2, h3⟩

theorem newest_length (count : Nat) (entries : List Bool) :
    (newest count entries).length ≤ count := by
  unfold newest
  rw [List.length_drop]
  omega

/-- A window that holds the newest samples holds them after another one. -/
theorem push_newest (samples : List Bool) (ok : Bool) :
    pushLossSample (newest lossWindowCap samples) ok = newest lossWindowCap (samples ++ [ok]) := by
  unfold pushLossSample newest lossWindowCap
  rw [List.length_drop, List.length_append, List.length_singleton]
  split
  · next hfull =>
    have hlong : samples.length + 1 - 10 ≤ samples.length := by omega
    rw [List.tail_drop, List.drop_append_of_le_length hlong]
    congr 2
    omega
  · next hroom =>
    have hshort : samples.length - 10 = 0 ∧ samples.length + 1 - 10 = 0 := by omega
    rw [hshort.1, hshort.2]
    rfl

end Past

/-- The record holds what its past says. -/
structure Tells (record : ChannelRecord) (past : ChannelPast) : Prop where
  lastRtt : record.rttMs = past.lastRtt
  doublings : record.rttDoubleStreak = min past.doublings (2 ^ 32 - 1)
  samples : record.lossWindow = newest lossWindowCap past.samples

/-- What holds of the table after every call: a device has one record for an address and one through
the relay, a record holds what its past says, and an address without a record has no past. -/
structure Recorded (trace : List TableEvent) (table : ChannelTable) : Prop where
  distinct : ∀ peer, ((table.channels peer).map ChannelRecord.addr).Nodup
  relayed : ∀ peer, ((table.channels peer).filter ChannelRecord.viaRelay).length ≤ 1
  told : ∀ peer, ∀ r ∈ table.channels peer, Tells r (pastOf (channelHistory peer r.addr trace))
  unknown : ∀ peer addr, (∀ r ∈ table.channels peer, r.addr ≠ addr) →
    pastOf (channelHistory peer addr trace) = .blank
  connected : ∀ peer, table.current peer = lastConnected peer trace

section Records

variable {records : List ChannelRecord} {record : ChannelRecord} {addr : SocketAddr}
  {change : ChannelRecord → ChannelRecord}

/-- With distinct addresses an update changes the record of its address and no other. -/
theorem mem_update_record (hdistinct : (records.map ChannelRecord.addr).Nodup) :
    record ∈ updateRecord records addr change ↔
      (∃ r ∈ records, r.addr = addr ∧ change r = record) ∨ record ∈ records ∧ record.addr ≠ addr := by
  induction records with
  | nil => simp [updateRecord]
  | cons first rest ih =>
    rw [List.map_cons, List.nodup_cons] at hdistinct
    obtain ⟨hfirst, hrest⟩ := hdistinct
    unfold updateRecord
    by_cases hsame : first.addr = addr
    · have hothers : ∀ r ∈ rest, r.addr ≠ addr := by
        rintro r hmem rfl
        exact hfirst (hsame ▸ List.mem_map_of_mem hmem)
      rw [if_pos hsame]
      grind
    · rw [if_neg hsame, List.mem_cons, ih hrest]
      grind

/-- A change that leaves the path leaves the records through the relay. -/
theorem update_record_relayed (hchange : ∀ r, (change r).viaRelay = r.viaRelay) :
    ((updateRecord records addr change).filter ChannelRecord.viaRelay).length =
      (records.filter ChannelRecord.viaRelay).length := by
  induction records with
  | nil => rfl
  | cons first rest ih =>
    unfold updateRecord
    split
    · simp only [List.filter_cons, hchange]
      split <;> rfl
    · simp only [List.filter_cons]
      split <;> simp [ih]

end Records

section Histories

variable {peer other : Fingerprint} {addr place : SocketAddr} {before after : List TableEvent}
  {events : List ChannelEvent} {event : ChannelEvent}

@[simp] theorem channel_history_append : channelHistory peer addr (before ++ after) =
    channelHistory peer addr before ++ channelHistory peer addr after := by
  simp [channelHistory]

@[simp] theorem channel_history_channel : channelHistory peer addr [.channel other place event] =
    if other = peer ∧ place = addr then [event] else [] := by
  unfold channelHistory
  split <;> simp [*]

@[simp] theorem channel_history_connected :
    channelHistory peer addr [.connected other place] = [] := rfl

/-- Records that were dropped leave their channels removed. -/
theorem channel_history_dropped (peer : Fingerprint) (addr : SocketAddr)
    (dropped : List ChannelRecord) :
    (∀ event ∈ channelHistory peer addr (dropped.map fun r => .channel peer r.addr .removed),
      event = .removed) ∧
    (channelHistory peer addr (dropped.map fun r => .channel peer r.addr .removed) = [] ↔
      ∀ r ∈ dropped, r.addr ≠ addr) := by
  unfold channelHistory
  rw [List.filterMap_map]
  refine ⟨fun event hmem => ?_, ?_⟩
  · obtain ⟨r, -, hevent⟩ := List.mem_filterMap.mp hmem
    dsimp only [Function.comp_apply] at hevent
    split at hevent
    · exact (Option.some.inj hevent).symm
    · cases hevent
  · rw [List.filterMap_eq_nil_iff]
    simp

/-- A removal, or several, leave nothing of the past. -/
theorem past_of_removed {removals : List ChannelEvent} (h : ∀ event ∈ removals, event = .removed) :
    pastOf (events ++ removals) = if removals = [] then pastOf events else .blank := by
  cases removals using List.reverseRecOn with
  | nil => simp
  | append_singleton removals event =>
    obtain rfl := h event (by simp)
    rw [← List.append_assoc, past_of_concat, if_neg (by simp)]
    rfl

end Histories

section Recorded

variable {trace events : List TableEvent} {table : ChannelTable} {peer : Fingerprint}
  {addr : SocketAddr} {records : List ChannelRecord} {change : ChannelRecord → ChannelRecord}
  {event : ChannelEvent}

theorem set_records_twice (table : ChannelTable) (peer : Fingerprint)
    (records later : List ChannelRecord) :
    (table.setRecords peer records).setRecords peer later = table.setRecords peer later := by
  simp [ChannelTable.setRecords]

/-- The channels of one device are written: only those have to be looked at. -/
theorem Recorded.write (h : Recorded trace table) (hevents : ∀ event ∈ events, event.Concerns peer)
    (hdistinct : (records.map ChannelRecord.addr).Nodup)
    (hrelayed : (records.filter ChannelRecord.viaRelay).length ≤ 1)
    (htold : ∀ r ∈ records, Tells r (pastOf (channelHistory peer r.addr (trace ++ events))))
    (hunknown : ∀ place, (∀ r ∈ records, r.addr ≠ place) →
      pastOf (channelHistory peer place (trace ++ events)) = .blank) :
    Recorded (trace ++ events) (table.setRecords peer records) := by
  have hsame : ∀ other place, other ≠ peer →
      channelHistory other place (trace ++ events) = channelHistory other place trace := by
    intro other place hne
    have hnone : channelHistory other place events = [] := by
      refine List.filterMap_eq_nil_iff.mpr fun event hmem => ?_
      cases event with
      | channel found place kind =>
        obtain rfl : found = peer := hevents _ hmem
        exact if_neg fun hboth => hne hboth.1.symm
      | connected found place => rfl
    rw [channel_history_append, hnone, List.append_nil]
  have hchannels : ∀ other, other ≠ peer →
      (table.setRecords peer records).channels other = table.channels other :=
    fun other hne => table.set_records_other hne records
  have hown := table.set_records_own peer records
  refine ⟨fun other => ?_, fun other => ?_, fun other => ?_, fun other place => ?_, fun other => ?_⟩
  · by_cases hpeer : other = peer
    · subst hpeer
      rwa [hown]
    · rw [hchannels other hpeer]
      exact h.distinct other
  · by_cases hpeer : other = peer
    · subst hpeer
      rwa [hown]
    · rw [hchannels other hpeer]
      exact h.relayed other
  · by_cases hpeer : other = peer
    · subst hpeer
      rwa [hown]
    · intro r
      rw [hchannels other hpeer, hsame other r.addr hpeer]
      exact h.told other r
  · by_cases hpeer : other = peer
    · subst hpeer
      rw [hown]
      exact hunknown place
    · rw [hchannels other hpeer, hsame other place hpeer]
      exact h.unknown other place
  · have hconnected : lastConnected other (trace ++ events) = lastConnected other trace := by
      unfold lastConnected
      rw [List.filterMap_append]
      have hnone : (events.filterMap fun
          | .connected found place => if found = other then some place else none
          | .channel .. => none) = ([] : List SocketAddr) := by
        refine List.filterMap_eq_nil_iff.mpr fun event hmem => ?_
        cases event with
        | channel found place kind => rfl
        | connected found place => exact absurd (hevents _ hmem) id
      rw [hnone, List.append_nil]
    rw [hconnected]
    exact h.connected other

/-- One record is changed as its event says. -/
theorem Recorded.update (h : Recorded trace table) (peer : Fingerprint) (addr : SocketAddr)
    (change : ChannelRecord → ChannelRecord) (event : ChannelEvent)
    (hthere : (table.channels peer).any (fun r => r.addr = addr) = true)
    (haddr : ∀ r, (change r).addr = r.addr) (hpath : ∀ r, (change r).viaRelay = r.viaRelay)
    (htells : ∀ r past, Tells r past → Tells (change r) (past.after event)) :
    Recorded (trace ++ [.channel peer addr event])
      (table.setRecords peer (updateRecord (table.channels peer) addr change)) := by
  refine h.write (by simp [TableEvent.Concerns]) ?_ ?_ ?_ ?_
  · rw [update_record_addrs haddr]
    exact h.distinct peer
  · rw [update_record_relayed hpath]
    exact h.relayed peer
  · intro r hmem
    rcases (mem_update_record (h.distinct peer)).mp hmem with ⟨before, hbefore, rfl, rfl⟩ | ⟨hold, hne⟩
    · rw [channel_history_append, channel_history_channel, haddr, if_pos ⟨rfl, rfl⟩, past_of_concat]
      exact htells before _ (h.told peer before hbefore)
    · rw [channel_history_append, channel_history_channel, if_neg fun hboth => hne hboth.2.symm,
        List.append_nil]
      exact h.told peer r hold
  · intro place hnone
    obtain ⟨r, hmem, hr⟩ := List.any_eq_true.mp hthere
    have hr : r.addr = addr := by simpa using hr
    have hne : addr ≠ place := by
      rintro rfl
      refine hnone (change r) ((mem_update_record (h.distinct peer)).mpr (.inl ⟨r, hmem, hr, rfl⟩)) ?_
      exact (haddr r).trans hr
    rw [channel_history_append, channel_history_channel, if_neg fun hboth => hne hboth.2,
      List.append_nil]
    refine h.unknown peer place fun found hfound hplace => ?_
    refine hnone found ((mem_update_record (h.distinct peer)).mpr (.inr ⟨hfound, ?_⟩)) hplace
    exact fun hsame => hne (hsame.symm.trans hplace)

/-- Some records of a device are dropped. -/
theorem Recorded.drop (h : Recorded trace table) (peer : Fingerprint)
    (keep : ChannelRecord → Bool) :
    Recorded (trace ++ ((table.channels peer).filter fun r => !keep r).map
        fun r => .channel peer r.addr .removed)
      (table.setRecords peer ((table.channels peer).filter keep)) := by
  have hsub : ((table.channels peer).filter keep).Sublist (table.channels peer) :=
    List.filter_sublist
  have hremovals : ∀ place, pastOf (channelHistory peer place (trace ++
      ((table.channels peer).filter fun r => !keep r).map fun r => .channel peer r.addr .removed)) =
        if ∀ r ∈ (table.channels peer).filter fun r => !keep r, r.addr ≠ place then
          pastOf (channelHistory peer place trace)
        else .blank := by
    intro place
    obtain ⟨hremoved, hnone⟩ := channel_history_dropped peer place
      ((table.channels peer).filter fun r => !keep r)
    rw [channel_history_append, past_of_removed hremoved]
    exact if_congr hnone rfl rfl
  refine h.write ?_ ((hsub.map _).nodup (h.distinct peer))
    (Nat.le_trans (hsub.filter _).length_le (h.relayed peer)) ?_ ?_
  · intro event hmem
    obtain ⟨r, -, rfl⟩ := List.mem_map.mp hmem
    rfl
  · intro r hmem
    obtain ⟨hr, hkeep⟩ := List.mem_filter.mp hmem
    rw [hremovals, if_pos]
    · exact h.told peer r hr
    · -- A dropped record of the same address would be this one.
      intro found hfound hsame
      obtain ⟨hthere, hdropped⟩ := List.mem_filter.mp hfound
      obtain rfl := List.inj_on_of_nodup_map (h.distinct peer) hthere hr hsame
      simp [hkeep] at hdropped
  · intro place hnone
    rw [hremovals]
    split
    · next hkept =>
      refine h.unknown peer place fun found hfound hplace => ?_
      cases hkeep : keep found with
      | true => exact hnone found (List.mem_filter.mpr ⟨hfound, hkeep⟩) hplace
      | false => exact hkept found (List.mem_filter.mpr ⟨hfound, by simp [hkeep]⟩) hplace
    · rfl

/-- A channel is recorded. -/
theorem Recorded.add (h : Recorded trace table) (peer : Fingerprint) (addr : SocketAddr)
    (viaRelay : Bool)
    (hnew : ∀ r ∈ table.channels peer, r.addr ≠ addr)
    (honly : viaRelay = true → ∀ r ∈ table.channels peer, r.viaRelay = false) :
    Recorded (trace ++ [.channel peer addr .recorded])
      (table.setRecords peer (table.channels peer ++ [.new addr viaRelay])) := by
  refine h.write (by simp [TableEvent.Concerns]) ?_ ?_ ?_ ?_
  · rw [List.map_append, List.nodup_append]
    refine ⟨h.distinct peer, List.nodup_singleton _, ?_⟩
    rintro found hfound other hother rfl
    obtain ⟨r, hmem, hr⟩ := List.mem_map.mp hfound
    rw [List.map_singleton, List.mem_singleton] at hother
    exact hnew r hmem (hr.trans hother)
  · rw [List.filter_append, List.length_append]
    cases viaRelay with
    | false => simpa [ChannelRecord.new] using h.relayed peer
    | true =>
      have hnone : (table.channels peer).filter ChannelRecord.viaRelay = [] :=
        List.filter_eq_nil_iff.mpr fun r hmem => by simp [honly rfl r hmem]
      simp [hnone, ChannelRecord.new]
  · intro r hmem
    rcases List.mem_append.mp hmem with hold | hlast
    · rw [channel_history_append, channel_history_channel,
        if_neg fun hboth => hnew r hold hboth.2.symm, List.append_nil]
      exact h.told peer r hold
    · obtain rfl := List.mem_singleton.mp hlast
      rw [channel_history_append, channel_history_channel, if_pos ⟨rfl, rfl⟩, past_of_concat]
      exact ⟨rfl, rfl, rfl⟩
  · intro place hnone
    have hne : addr ≠ place := hnone (.new addr viaRelay) (by simp)
    rw [channel_history_append, channel_history_channel, if_neg fun hboth => hne hboth.2,
      List.append_nil]
    exact h.unknown peer place fun r hmem => hnone r (List.mem_append_left _ hmem)

/-- A registration drops the other channels through the relay, and records or renews its own. -/
theorem Recorded.register (h : Recorded trace table) (peer : Fingerprint) (addr : SocketAddr)
    (viaRelay : Bool) :
    Recorded (trace ++ (table.register peer addr viaRelay).2)
      (table.register peer addr viaRelay).1 := by
  let keep : ChannelRecord → Bool := fun r => !viaRelay || !r.viaRelay || r.addr = addr
  have hkept := h.drop peer keep
  have hrecords : (if viaRelay then (table.channels peer).filter fun r => !r.viaRelay || r.addr = addr
      else table.channels peer) = (table.channels peer).filter keep := by
    cases viaRelay <;> simp [keep]
  have hdropped : (if viaRelay then (table.channels peer).filter fun r => r.viaRelay && r.addr ≠ addr
      else []) = (table.channels peer).filter fun r => !keep r := by
    cases viaRelay <;> simp [keep]
  have hknown : ((table.channels peer).filter keep).any (fun r => r.addr = addr) =
      (table.channels peer).any fun r => r.addr = addr := by
    rw [List.any_filter]
    refine List.any_congr rfl fun r => ?_
    by_cases hsame : r.addr = addr <;> simp [keep, hsame]
  unfold ChannelTable.register Routing.register
  simp only [hrecords, hdropped, hknown]
  rw [← List.append_assoc, ← set_records_twice table peer ((table.channels peer).filter keep)]
  have hown := table.set_records_own peer ((table.channels peer).filter keep)
  cases hthere : (table.channels peer).any fun r => r.addr = addr with
  | true =>
    have hrenewed : ∀ (r : ChannelRecord) past, Tells r past →
        Tells r.renew (past.after .renewed) :=
      fun r past htells => ⟨htells.lastRtt, rfl, htells.samples⟩
    have hnext := hkept.update peer addr .renew .renewed (by rw [hown, hknown, hthere])
      (fun _ => rfl) (fun _ => rfl) hrenewed
    rwa [hown] at hnext
  | false =>
    have hnone : ∀ r ∈ (table.channels peer).filter keep, r.addr ≠ addr := by
      intro r hmem hsame
      have hany := List.any_eq_false.mp hthere r (List.mem_of_mem_filter hmem)
      simp [hsame] at hany
    have honly : viaRelay = true → ∀ r ∈ (table.channels peer).filter keep,
        r.viaRelay = false := by
      rintro rfl r hmem
      obtain ⟨-, hkeep⟩ := List.mem_filter.mp hmem
      simpa [keep, hnone r hmem] using hkeep
    rw [← hown] at hnone honly
    have hnext := hkept.add peer addr viaRelay hnone honly
    rwa [hown] at hnext

theorem tells_measured {record : ChannelRecord} {past : ChannelPast} (rttMs : UInt64)
    (h : Tells record past) : Tells (record.withRtt rttMs) (past.after (.measured rttMs)) := by
  refine ⟨rfl, ?_, h.samples⟩
  show (if record.rttMs.any fun prev => rttDoubled prev rttMs then
      min (record.rttDoubleStreak + 1) (2 ^ 32 - 1) else 0) =
    min (if past.lastRtt.any fun prev => rttDoubled prev rttMs then past.doublings + 1 else 0)
      (2 ^ 32 - 1)
  rw [h.lastRtt, h.doublings]
  split <;> omega

theorem tells_sampled {record : ChannelRecord} {past : ChannelPast} (ok : Bool)
    (h : Tells record past) : Tells (record.withSample ok) (past.after (.sampled ok)) := by
  refine ⟨h.lastRtt, h.doublings, ?_⟩
  show pushLossSample record.lossWindow ok = newest lossWindowCap (past.samples ++ [ok])
  rw [h.samples, push_newest]

/-- An event that leaves the past as it is. -/
theorem Recorded.ignore (h : Recorded trace table)
    (hevent : ∀ past : ChannelPast, past.after event = past) :
    Recorded (trace ++ [.channel peer addr event]) table := by
  have hpast : ∀ other place, pastOf (channelHistory other place
      (trace ++ [.channel peer addr event])) = pastOf (channelHistory other place trace) := by
    intro other place
    rw [channel_history_append, channel_history_channel]
    split
    · rw [past_of_concat, hevent]
    · rw [List.append_nil]
  refine ⟨h.distinct, h.relayed, ?_, ?_, ?_⟩
  · intro other r hmem
    rw [hpast]
    exact h.told other r hmem
  · intro other place hnone
    rw [hpast]
    exact h.unknown other place hnone
  · intro other
    rw [h.connected other]
    simp [lastConnected]

/-- A record that is not there is not changed. -/
theorem Recorded.changed (h : Recorded trace table) (haddr : ∀ r, (change r).addr = r.addr)
    (hpath : ∀ r, (change r).viaRelay = r.viaRelay)
    (htells : ∀ r past, Tells r past → Tells (change r) (past.after event)) :
    Recorded (trace ++ (table.change peer addr change event).2)
      (table.change peer addr change event).1 := by
  unfold ChannelTable.change
  split
  · next hthere => exact h.update peer addr change event hthere haddr hpath htells
  · simpa using h

/-- The record that a look-up finds. -/
theorem find_record {record : ChannelRecord}
    (hfind : (table.channels peer).find? (fun r => r.addr = addr) = some record) :
    record ∈ table.channels peer ∧ record.addr = addr :=
  ⟨List.mem_of_find?_eq_some hfind, by simpa using List.find?_some hfind⟩

/-- A degradation is reported exactly after three doublings in a row. -/
theorem Recorded.degraded_iff (h : Recorded trace table) :
    (table.takeRttDegradation peer addr).2 = true ↔
      DoubledThrice (channelHistory peer addr trace) := by
  rw [doubled_thrice_iff]
  unfold ChannelTable.takeRttDegradation
  cases hfind : (table.channels peer).find? fun r => r.addr = addr with
  | none =>
    have hunknown : pastOf (channelHistory peer addr trace) = .blank := by
      refine h.unknown peer addr fun r hmem hsame => ?_
      have hnot := List.find?_eq_none.mp hfind r hmem
      simp [hsame] at hnot
    simp [hunknown, ChannelPast.blank, degradeAfterRttDoubles]
  | some record =>
    obtain ⟨hmem, rfl⟩ := find_record hfind
    have hstreak := (h.told peer record hmem).doublings
    dsimp only
    split
    · next hless =>
      refine iff_of_true rfl ?_
      omega
    · next hless =>
      refine iff_of_false (by simp) ?_
      unfold degradeAfterRttDoubles at hless ⊢
      omega

/-- Every call keeps the table as its history says. -/
theorem Recorded.call (h : Recorded trace table) (call : TableCall) :
    Recorded (trace ++ (table.call call).2) (table.call call).1 := by
  cases call with
  | register peer addr viaRelay => exact h.register peer addr viaRelay
  | noteConnected peer addr viaRelay =>
    have hnext := h.register peer addr viaRelay
    have hhistory : ∀ other place, channelHistory other place
        (trace ++ ((table.register peer addr viaRelay).2 ++ [.connected peer addr])) =
          channelHistory other place (trace ++ (table.register peer addr viaRelay).2) := by
      intro other place
      rw [← List.append_assoc, channel_history_append, channel_history_connected,
        List.append_nil]
    refine ⟨hnext.distinct, hnext.relayed, ?_, ?_, fun other => ?_⟩
    · intro other r hmem
      show Tells r (pastOf (channelHistory other r.addr
        (trace ++ ((table.register peer addr viaRelay).2 ++ [.connected peer addr]))))
      rw [hhistory]
      exact hnext.told other r hmem
    · intro other place hnone
      show pastOf (channelHistory other place
        (trace ++ ((table.register peer addr viaRelay).2 ++ [.connected peer addr]))) = .blank
      rw [hhistory]
      exact hnext.unknown other place hnone
    · show Function.update (table.register peer addr viaRelay).1.currents peer (some addr) other =
        lastConnected other
          (trace ++ ((table.register peer addr viaRelay).2 ++ [.connected peer addr]))
      rw [← List.append_assoc]
      by_cases hpeer : other = peer
      · subst hpeer
        simp [lastConnected]
      · have hbefore := hnext.connected other
        unfold ChannelTable.current at hbefore
        rw [Function.update_of_ne hpeer, hbefore]
        simp [lastConnected, Ne.symm hpeer]
  | recordRtt peer addr rttMs =>
    exact h.changed (fun _ => rfl) (fun _ => rfl) fun r past => tells_measured rttMs
  | recordBandwidth peer addr kind estBps =>
    refine h.changed (fun _ => rfl) (fun _ => rfl) fun r past htells => ?_
    exact { htells with }
  | recordProbeSample peer addr ok =>
    exact h.changed (fun _ => rfl) (fun _ => rfl) fun r past => tells_sampled ok
  | takeRttDegradation peer addr =>
    show Recorded (trace ++ [.channel peer addr (.checked (table.takeRttDegradation peer addr).2)])
      (table.takeRttDegradation peer addr).1
    unfold ChannelTable.takeRttDegradation
    cases hfind : (table.channels peer).find? fun r => r.addr = addr with
    | none => exact h.ignore fun _ => rfl
    | some record =>
      obtain ⟨hmem, hrecord⟩ := find_record hfind
      dsimp only
      split
      · refine h.update peer addr .consumed (.checked true) ?_ (fun _ => rfl) (fun _ => rfl) ?_
        · exact List.any_eq_true.mpr ⟨record, hmem, by simpa using hrecord⟩
        · exact fun r past htells => ⟨htells.lastRtt, rfl, htells.samples⟩
      · exact h.ignore fun _ => rfl
  | reapTimeouts peer =>
    have hreaped := h.drop peer fun r => r.consecutiveTimeouts < removeAfterTimeouts
    have hlate : ((table.channels peer).filter fun r =>
        !Decidable.decide (r.consecutiveTimeouts < removeAfterTimeouts)) =
          (table.channels peer).filter fun r => removeAfterTimeouts ≤ r.consecutiveTimeouts :=
      List.filter_congr fun r _ => by simp only [← decide_not, Nat.not_lt]
    rwa [hlate] at hreaped

/-- Only a look at the degradation of a channel is a check. -/
theorem checked_of_call {call : TableCall} {degraded : Bool}
    (hmem : .channel peer addr (.checked degraded) ∈ (table.call call).2) :
    call = .takeRttDegradation peer addr ∧ degraded = (table.takeRttDegradation peer addr).2 := by
  have hregister : ∀ other place viaRelay,
      .channel peer addr (.checked degraded) ∉ (table.register other place viaRelay).2 := by
    intro other place viaRelay hmem
    rcases List.mem_append.mp hmem with hdropped | hown
    · obtain ⟨r, -, hevent⟩ := List.mem_map.mp hdropped
      cases hevent
    · have hevent := List.mem_singleton.mp hown
      split at hevent <;> cases hevent
  have hchange : ∀ other place change event, event ≠ .checked degraded →
      .channel peer addr (.checked degraded) ∉ (table.change other place change event).2 := by
    intro other place change event hne hmem
    unfold ChannelTable.change at hmem
    split at hmem
    · cases List.mem_singleton.mp hmem
      exact hne rfl
    · cases hmem
  cases call with
  | register other place viaRelay => exact absurd hmem (hregister _ _ _)
  | noteConnected other place viaRelay =>
    rcases List.mem_append.mp hmem with hbefore | hlast
    · exact absurd hbefore (hregister _ _ _)
    · cases List.mem_singleton.mp hlast
  | recordRtt other place rttMs => exact absurd hmem (hchange _ _ _ _ (by simp))
  | recordBandwidth other place kind estBps => exact absurd hmem (hchange _ _ _ _ (by simp))
  | recordProbeSample other place ok => exact absurd hmem (hchange _ _ _ _ (by simp))
  | takeRttDegradation other place =>
    cases List.mem_singleton.mp hmem
    exact ⟨rfl, rfl⟩
  | reapTimeouts other =>
    obtain ⟨r, -, hevent⟩ := List.mem_map.mp hmem
    cases hevent

/-- The table begins without channels. -/
theorem recorded_new : Recorded [] .new :=
  { distinct := fun _ => List.nodup_nil
    relayed := fun _ => Nat.zero_le 1
    told := fun _ _ hmem => absurd hmem List.not_mem_nil
    unknown := fun _ _ _ => rfl
    connected := fun _ => rfl }

/-- The invariant of every run. -/
theorem recorded_run {calls : List TableCall} {last : ChannelTable}
    (h : Exec ChannelTable.step Guard.free .new calls trace last) : Recorded trace last := by
  refine h.invariant recorded_new ?_
  intro trace table call next emitted hbefore _ hstep
  obtain ⟨rfl, rfl⟩ := answer_inj hstep
  exact hbefore.call call

end Recorded

/-- In every run a device has one record for an address and one through the relay, and a loss window
holds the newest samples. A decision about the current channel, which is the one last connected,
picks a channel that is recorded, and is made as if there were no current channel where that was
removed. A degradation is reported exactly if the last three round trips since the last report, or
registration, doubled. -/
theorem channel_table_invariants {calls : List TableCall} {trace : List TableEvent}
    {last : ChannelTable} (h : Exec ChannelTable.step Guard.free .new calls trace last) :
    (∀ peer, ((last.snapshot peer).map ChannelRecord.addr).Nodup ∧
      ((last.snapshot peer).filter ChannelRecord.viaRelay).length ≤ 1) ∧
    (∀ peer, ∀ r ∈ last.snapshot peer, r.lossWindow.length ≤ lossWindowCap ∧
      r.lossWindow =
        newest lossWindowCap (pastOf (channelHistory peer r.addr trace)).samples) ∧
    (∀ peer, last.current peer = lastConnected peer trace ∧
      (∀ addr, decide (last.snapshot peer) (last.current peer) = some addr →
        ∃ r ∈ last.snapshot peer, r.addr = addr) ∧
      ((∀ r ∈ last.snapshot peer, last.current peer ≠ some r.addr) →
        decide (last.snapshot peer) (last.current peer) = decide (last.snapshot peer) none)) ∧
    EachEvent (fun before event => ∀ peer addr degraded,
      event = .channel peer addr (.checked degraded) →
        (degraded = true ↔ DoubledThrice (channelHistory peer addr before))) trace := by
  have hlast := recorded_run h
  refine ⟨fun peer => ⟨hlast.distinct peer, hlast.relayed peer⟩, ?_, fun peer => ⟨?_, ?_, ?_⟩, ?_⟩
  · intro peer r hmem
    have hsamples := (hlast.told peer r hmem).samples
    exact ⟨hsamples ▸ newest_length _ _, hsamples⟩
  · exact hlast.connected peer
  · intro addr hdecide
    obtain ⟨entry, hchoice, rfl⟩ := choice_of_decide hdecide
    exact ⟨entry.2, (choice_scored hchoice).1, rfl⟩
  · intro hgone
    cases hcurrent : last.current peer with
    | none => rfl
    | some cur =>
      have hnone : (scoredRecords (last.snapshot peer)).find? (fun entry => entry.2.addr = cur) =
          none := by
        refine List.find?_eq_none.mpr fun entry hmem => ?_
        have hne := hgone entry.2 (mem_scored_records.mp hmem).1
        rw [hcurrent] at hne
        simpa using fun hsame => hne (congrArg some hsame.symm)
      rw [decide_eq, decide_eq]
      dsimp only
      rw [hnone]
  · induction h with
    | start => exact each_event_nil
    | @step calls trace table call next emitted hbefore _ hnext ih =>
      obtain ⟨rfl, rfl⟩ := answer_inj hnext
      have hbefore := recorded_run hbefore
      refine each_event_append.mpr ⟨ih hbefore, ?_⟩
      rintro between event rest hsplit peer addr degraded rfl
      obtain ⟨rfl, rfl⟩ := checked_of_call (hsplit ▸ List.mem_append_right _ List.mem_cons_self)
      -- The check is the only event of its call.
      have hone : between = [] := by
        have hsplit : [TableEvent.channel peer addr
            (.checked (table.takeRttDegradation peer addr).2)] = between ++ _ := hsplit
        cases between with
        | nil => rfl
        | cons first others => simp at hsplit
      subst hone
      rw [List.append_nil]
      exact hbefore.degraded_iff

/-- Two channels of a device. -/
def firstAddr : SocketAddr := toLex (.inl (toLex (167772161, 9000)))

def secondAddr : SocketAddr := toLex (.inl (toLex (167772162, 9000)))

/-- The current channel fails three times and is removed. -/
def currentReaped : List TableCall :=
  [.register 7 secondAddr false, .noteConnected 7 firstAddr false,
    .recordProbeSample 7 firstAddr false, .recordProbeSample 7 firstAddr false,
    .recordProbeSample 7 firstAddr false, .reapTimeouts 7]

/-- Three doublings with a registration between them. -/
def doubledAcrossSessions : List TableCall :=
  [.register 7 firstAddr false, .recordRtt 7 firstAddr 10, .recordRtt 7 firstAddr 20,
    .recordRtt 7 firstAddr 40, .register 7 firstAddr false, .recordRtt 7 firstAddr 80,
    .takeRttDegradation 7 firstAddr]

/-- Three doublings of one session. -/
def doubledInSession : List TableCall :=
  [.register 7 firstAddr false, .recordRtt 7 firstAddr 10, .recordRtt 7 firstAddr 20,
    .recordRtt 7 firstAddr 40, .recordRtt 7 firstAddr 80, .takeRttDegradation 7 firstAddr]

theorem channel_table_invariants_sample :
    DoubledThrice [.recorded, .measured 10, .measured 20, .measured 40, .measured 80] := by
  obtain ⟨last, hexec⟩ := exec_of_run ChannelTable.step Guard.free .new doubledInSession (by decide)
  obtain ⟨-, -, -, hchecked⟩ := channel_table_invariants hexec
  have htrace : Machine.history ChannelTable.step Guard.free .new doubledInSession =
      [.channel 7 firstAddr .recorded, .channel 7 firstAddr (.measured 10),
        .channel 7 firstAddr (.measured 20), .channel 7 firstAddr (.measured 40),
        .channel 7 firstAddr (.measured 80)] ++ [.channel 7 firstAddr (.checked true)] := by
    decide
  exact (hchecked _ _ [] htrace 7 firstAddr true rfl).mp rfl

/-- The current channel can be one that was removed, and three doublings across a registration are
not reported. -/
theorem channel_table_exceptions :
    (¬ ∀ (calls : List TableCall) (trace : List TableEvent) (last : ChannelTable),
      Exec ChannelTable.step Guard.free .new calls trace last →
      ∀ peer cur, last.current peer = some cur → ∃ r ∈ last.snapshot peer, r.addr = cur) ∧
    ¬ ∀ (calls : List TableCall) (trace : List TableEvent) (last : ChannelTable),
      Exec ChannelTable.step Guard.free .new calls trace last →
      ∀ peer addr start r0 r1 r2 r3 degraded,
        channelHistory peer addr trace = start ++ [.checked degraded] → .checked true ∉ start →
        start.filter (fun event => event matches .measured _) =
          [.measured r0, .measured r1, .measured r2, .measured r3] →
        rttDoubled r0 r1 = true → rttDoubled r1 r2 = true → rttDoubled r2 r3 = true →
        degraded = true := by
  refine ⟨fun hclaim => ?_, fun hclaim => ?_⟩
  · have hview : (Machine.run ChannelTable.step Guard.free [] .new currentReaped).map
        (fun result => ((result.1.current 7).any fun cur => cur = firstAddr,
          (result.1.snapshot 7).any fun r => r.addr = firstAddr)) = some (true, false) := by decide
    obtain ⟨⟨last, trace⟩, hrun, hseen⟩ := Option.map_eq_some_iff.mp hview
    obtain ⟨hcurrent, hnone⟩ := Prod.mk.inj hseen
    obtain ⟨cur, hcurrent, hsame⟩ := (Option.any_eq_true _ _).mp hcurrent
    obtain ⟨r, hmem, hr⟩ := hclaim _ _ _ (Exec.start.append_run hrun) 7 cur hcurrent
    have hany := List.any_eq_false.mp hnone r hmem
    rw [hr] at hany
    exact hany hsame
  · obtain ⟨last, hexec⟩ :=
      exec_of_run ChannelTable.step Guard.free .new doubledAcrossSessions (by decide)
    have hdegraded := hclaim _ _ _ hexec 7 firstAddr
      [.recorded, .measured 10, .measured 20, .measured 40, .renewed, .measured 80] 10 20 40 80 false
      (by decide) (by decide) (by decide) (by decide) (by decide) (by decide)
    cases hdegraded

end LocalTrans.Routing
