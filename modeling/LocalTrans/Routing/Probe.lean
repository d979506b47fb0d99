import LocalTrans.Routing.Table

/-!
# Probing runs

`probe_full`, `probe_quick` of `routing/probe.rs` and `demote_channel` of the shell, as the calls they
make of the table from the answers they get. `probe_full_meaning` says when a full run records what
the scores take it for. `Prober` lets the runs follow each other; `Steady` full runs add one strike at
most (`steady_iff`), and with them a channel is removed only after three failed runs
(`strikes_disciplined`).
-/

namespace LocalTrans.Routing

open Foundation

/-- `TIER_SIZES`. -/
def tierSizes : List Nat := [64 * 1024, 512 * 1024, 4 * 1024 * 1024]

/-- `median3`. -/
def median3 (a b c : UInt64) : UInt64 :=
  if a ≤ b then if b ≤ c then b else if a ≤ c then c else a
  else if a ≤ c then a else if b ≤ c then c else b

/-- The rate of `ladder_once`, from the milliseconds a tier took. No tier comes near the bound of
`u64`. -/
def ladderRate (size : Nat) (ms : UInt64) : Nat :=
  if ms = 0 then size * 1000 else size * 1000 / ms.toNat

/-- `ladder_est_bps`, with the sum that stays at the largest `u64`. -/
def ladderEstBps (_warmUp second third : Nat) : Nat := min (second + third) (2 ^ 64 - 1) / 2

/-- What a full run hears: the round trip of each ping and the time of each tier, in milliseconds,
none where it fails. The tiers after one that fails are not begun. -/
structure ProbeAnswers where
  ping1 : Option UInt64
  ping2 : Option UInt64
  ping3 : Option UInt64
  tiers : List (Option UInt64)
  three : tiers.length = tierSizes.length

namespace ProbeAnswers

/-- The pings, in order. -/
def pings (answers : ProbeAnswers) : List (Option UInt64) :=
  [answers.ping1, answers.ping2, answers.ping3]

/-- The sizes and times of the tiers before the first that fails. -/
def completed (answers : ProbeAnswers) : List (Nat × UInt64) :=
  ((tierSizes.zip answers.tiers).takeWhile fun tier => tier.2.isSome).filterMap fun tier =>
    tier.2.map fun ms => (tier.1, ms)

end ProbeAnswers

/-- The estimate of `probe_full` from the rates of the completed tiers. -/
def fullEstimate : List Nat → Option Nat
  | [] => none
  | [first] => some first
  | [first, second] => some (ladderEstBps 0 first second)
  | first :: second :: third :: _ => some (ladderEstBps first second third)

section Runs

variable (peer : Fingerprint) (addr : SocketAddr)

/-- The samples of the pings, and the first look at the timeouts. -/
def pingCalls (answers : ProbeAnswers) : List TableCall :=
  (answers.pings.map fun ping => .recordProbeSample peer addr ping.isSome) ++ [.reapTimeouts peer]

/-- What `probe_full` calls after the pings, from the estimate and whether a tier failed. -/
def ladderCalls (failed : Bool) (estimate : Option Nat) : List TableCall :=
  (if failed then [.recordProbeSample peer addr false, .reapTimeouts peer] else []) ++
    match estimate with
    | some est =>
      [.recordProbeSample peer addr true, .recordBandwidth peer addr .full (.ofNat est)]
    | none => []

/-- `probe_full`: its calls, and its answer. A ping that is lost leaves its slot at 0. -/
def probeFull (answers : ProbeAnswers) : List TableCall × Option Nat :=
  if answers.pings.all Option.isNone then (pingCalls peer addr answers, none)
  else
    let rtt := median3 (answers.ping1.getD 0) (answers.ping2.getD 0) (answers.ping3.getD 0)
    let rates := answers.completed.map fun tier => ladderRate tier.1 tier.2
    let estimate := fullEstimate rates
    (pingCalls peer addr answers ++ .recordRtt peer addr rtt ::
      ladderCalls peer addr (rates.length < tierSizes.length) estimate, estimate)

/-- `probe_quick`. -/
def probeQuick (ping tier : Option UInt64) : List TableCall × Option Nat :=
  match ping with
  | none => ([.recordProbeSample peer addr false, .reapTimeouts peer], none)
  | some rtt =>
    let begun := [.recordProbeSample peer addr true, .recordRtt peer addr rtt]
    match tier with
    | some ms =>
      let rate := ladderRate (64 * 1024) ms
      (begun ++ [.recordProbeSample peer addr true,
        .recordBandwidth peer addr .quick (.ofNat rate)], some rate)
    | none => (begun ++ [.recordProbeSample peer addr false, .reapTimeouts peer], none)

/-- `demote_channel`. -/
def demoteChannel : List TableCall :=
  [.recordProbeSample peer addr false, .reapTimeouts peer]

end Runs

/-- A median of a list: half of it is no larger, and half is no smaller. -/
def IsMedian (middle : UInt64) (values : List UInt64) : Prop :=
  values.length ≤ 2 * values.countP (· ≤ middle) ∧ values.length ≤ 2 * values.countP (middle ≤ ·)
deriving Decidable

/-- The rate of a tier in bits per second, the unit of `bw_score`. -/
def bitRate (size : Nat) (ms : UInt64) : Nat :=
  if ms = 0 then 8 * size * 1000 else 8 * size * 1000 / ms.toNat

/-- The mean of the last two of the completed tiers, or the one there is. -/
def lastTiersMean (rates : List Nat) : Option Nat :=
  match rates.reverse with
  | [] => none
  | [only] => some only
  | last :: before :: _ => some ((before + last) / 2)

/-- What the scores take the records of a full run for: the round trip is a median of the pings that
were answered, and the bandwidth the mean of the last tiers, in bits per second. -/
def Meaningful (peer : Fingerprint) (addr : SocketAddr) (answers : ProbeAnswers) : Prop :=
  (∀ rtt, .recordRtt peer addr rtt ∈ (probeFull peer addr answers).1 →
    IsMedian rtt (answers.pings.filterMap id)) ∧
  ∀ kind est, .recordBandwidth peer addr kind est ∈ (probeFull peer addr answers).1 →
    lastTiersMean (answers.completed.map fun tier => bitRate tier.1 tier.2) = some est.toNat

section Meaning

variable {peer : Fingerprint} {addr : SocketAddr} {answers : ProbeAnswers}

theorem median3_spec (a b c : UInt64) : IsMedian (median3 a b c) [a, b, c] := by
  unfold IsMedian median3
  simp only [List.countP_cons, List.countP_nil, List.length_cons, List.length_nil]
  grind

/-- A lost ping among three leaves the smaller of the other two. -/
theorem median3_zero (a b : UInt64) : IsMedian (median3 0 a b) [a, b] ∧
    IsMedian (median3 a 0 b) [a, b] ∧ IsMedian (median3 a b 0) [a, b] := by
  unfold IsMedian median3
  simp only [List.countP_cons, List.countP_nil, List.length_cons, List.length_nil]
  grind

/-- Two lost pings leave nothing. -/
theorem median3_zeros (a : UInt64) :
    median3 a 0 0 = 0 ∧ median3 0 a 0 = 0 ∧ median3 0 0 a = 0 := by
  unfold median3
  grind

theorem median_singleton (middle a : UInt64) : IsMedian middle [a] ↔ a = middle := by
  unfold IsMedian
  simp only [List.countP_cons, List.countP_nil, List.length_cons, List.length_nil]
  grind

theorem rate_le (size : Nat) (ms : UInt64) :
    ladderRate size ms ≤ size * 1000 ∧ 8 * ladderRate size ms ≤ bitRate size ms := by
  unfold ladderRate bitRate
  split
  · omega
  · refine ⟨Nat.div_le_self _ _, ?_⟩
    calc 8 * (size * 1000 / ms.toNat) ≤ 8 * (size * 1000) / ms.toNat := Nat.mul_div_le_mul_div_assoc ..
      _ = 8 * size * 1000 / ms.toNat := by rw [Nat.mul_assoc]

/-- At most three tiers are completed, none of more than 4 MiB. -/
theorem completed_small (answers : ProbeAnswers) : answers.completed.length ≤ 3 ∧
    ∀ tier ∈ answers.completed, tier.1 ≤ 4 * 1024 * 1024 := by
  unfold ProbeAnswers.completed
  refine ⟨?_, ?_⟩
  · refine Nat.le_trans (List.length_filterMap_le _ _) 
      (Nat.le_trans (List.takeWhile_sublist _).length_le ?_)
    rw [List.length_zip]
    exact Nat.min_le_left _ _
  · intro tier hmem
    obtain ⟨⟨size, time⟩, hzip, htier⟩ := List.mem_filterMap.mp hmem
    obtain ⟨ms, -, rfl⟩ := Option.map_eq_some_iff.mp htier
    have hsize : size ∈ tierSizes :=
      (List.of_mem_zip ((List.takeWhile_sublist _).subset hzip)).1
    simp only [tierSizes, List.mem_cons, List.not_mem_nil, or_false] at hsize
    show size ≤ 4 * 1024 * 1024
    omega

/-- The estimate counts bytes, so it is the mean of the bit rates only where that is 0. -/
theorem estimate_bits {tiers : List (Nat × UInt64)} {estimate : Nat} (hfew : tiers.length ≤ 3)
    (hsmall : ∀ tier ∈ tiers, tier.1 ≤ 4 * 1024 * 1024)
    (h : fullEstimate (tiers.map fun tier => ladderRate tier.1 tier.2) = some estimate) :
    ∃ mean, lastTiersMean (tiers.map fun tier => bitRate tier.1 tier.2) = some mean ∧
      estimate < 2 ^ 64 ∧ (mean = estimate ↔ mean = 0) := by
  have hrates : ∀ tier ∈ tiers, ladderRate tier.1 tier.2 ≤ 4 * 1024 * 1024 * 1000 ∧
      8 * ladderRate tier.1 tier.2 ≤ bitRate tier.1 tier.2 := by
    intro tier hmem
    obtain ⟨hbound, hbits⟩ := rate_le tier.1 tier.2
    exact ⟨Nat.le_trans hbound (Nat.mul_le_mul_right _ (hsmall tier hmem)), hbits⟩
  match tiers with
  | [] => cases h
  | [only] =>
    simp only [List.map_cons, List.map_nil] at h ⊢
    obtain rfl := Option.some.inj h
    have honly := hrates only (by simp)
    exact ⟨_, rfl, by omega, by omega⟩
  | [first, second] =>
    simp only [List.map_cons, List.map_nil] at h ⊢
    obtain rfl := Option.some.inj h
    have hfirst := hrates first (by simp)
    have hsecond := hrates second (by simp)
    refine ⟨_, rfl, ?_, ?_⟩ <;> unfold ladderEstBps <;> omega
  | [first, second, third] =>
    simp only [List.map_cons, List.map_nil] at h ⊢
    obtain rfl := Option.some.inj h
    have hsecond := hrates second (by simp)
    have hthird := hrates third (by simp)
    refine ⟨_, rfl, ?_, ?_⟩ <;> unfold ladderEstBps <;> omega
  | _ :: _ :: _ :: _ :: _ =>
    simp only [List.length_cons] at hfew
    omega

/-- The calls of a full run that measure something. -/
theorem mem_probe_full :
    (∀ rtt, .recordRtt peer addr rtt ∈ (probeFull peer addr answers).1 ↔
      answers.pings.all Option.isNone = false ∧
        rtt = median3 (answers.ping1.getD 0) (answers.ping2.getD 0) (answers.ping3.getD 0)) ∧
    ∀ kind est, .recordBandwidth peer addr kind est ∈ (probeFull peer addr answers).1 ↔
      answers.pings.all Option.isNone = false ∧ kind = .full ∧
        ∃ estimate, fullEstimate (answers.completed.map fun tier => ladderRate tier.1 tier.2) =
          some estimate ∧ est = .ofNat estimate := by
  have hpings : ∀ call ∈ pingCalls peer addr answers,
      (∀ rtt, call ≠ .recordRtt peer addr rtt) ∧
        ∀ kind est, call ≠ .recordBandwidth peer addr kind est := by
    intro call hmem
    rcases List.mem_append.mp hmem with hsample | hreap
    · obtain ⟨ping, -, rfl⟩ := List.mem_map.mp hsample
      simp
    · obtain rfl := List.mem_singleton.mp hreap
      simp
  unfold probeFull
  cases hlost : answers.pings.all Option.isNone with
  | true =>
    refine ⟨fun rtt => ?_, fun kind est => ?_⟩
    · simpa using fun hmem => (hpings _ hmem).1 rtt rfl
    · simpa using fun hmem => (hpings _ hmem).2 kind est rfl
  | false =>
    refine ⟨fun rtt => ?_, fun kind est => ?_⟩
    · have hladder : ∀ failed estimate,
          .recordRtt peer addr rtt ∉ ladderCalls peer addr failed estimate := by
        intro failed estimate
        cases failed <;> cases estimate <;> simp [ladderCalls]
      have hnone : .recordRtt peer addr rtt ∉ pingCalls peer addr answers :=
        fun hmem => (hpings _ hmem).1 rtt rfl
      simp [hladder, hnone]
    · have hnone : .recordBandwidth peer addr kind est ∉ pingCalls peer addr answers :=
        fun hmem => (hpings _ hmem).2 kind est rfl
      have hladder : ∀ failed estimate,
          .recordBandwidth peer addr kind est ∈ ladderCalls peer addr failed estimate ↔
            kind = .full ∧ ∃ found, estimate = some found ∧ est = .ofNat found := by
        intro failed estimate
        cases failed <;> cases estimate <;> simp [ladderCalls]
      simp [hladder, hnone]

/-- A full run records what the scores take it for exactly if not just one ping was answered, or that
one took no time, and if no tier was completed, or the tiers were so slow that their rate rounds
to 0. -/
theorem probe_full_meaning (peer : Fingerprint) (addr : SocketAddr) (answers : ProbeAnswers) :
    Meaningful peer addr answers ↔
      (∀ ms, answers.pings.filterMap id = [ms] → ms = 0) ∧
        (answers.pings.filterMap id = [] ∨ answers.completed = [] ∨
          lastTiersMean (answers.completed.map fun tier => bitRate tier.1 tier.2) = some 0) := by
  obtain ⟨hrtt, hbandwidth⟩ := @mem_probe_full peer addr answers
  have hlost : answers.pings.all Option.isNone = true ↔ answers.pings.filterMap id = [] := by
    simp [List.filterMap_eq_nil_iff, List.all_eq_true]
  unfold Meaningful
  refine and_congr ?_ ?_
  · simp only [hrtt]
    obtain ⟨p1, p2, p3, tiers, three⟩ := answers
    simp only [ProbeAnswers.pings]
    -- One case for each set of pings that were answered.
    rcases p1 with _ | a <;> rcases p2 with _ | b <;> rcases p3 with _ | c
    case none.none.none => simp
    case none.none.some => simp [median3_zeros, median_singleton]
    case none.some.none => simp [median3_zeros, median_singleton]
    case some.none.none => simp [median3_zeros, median_singleton]
    case none.some.some => simpa using (median3_zero b c).1
    case some.none.some => simpa using (median3_zero a c).2.1
    case some.some.none => simpa using (median3_zero a b).2.2
    case some.some.some => simpa using median3_spec a b c
  · obtain ⟨hfew, hsmall⟩ := completed_small answers
    have hnat : ∀ estimate < 2 ^ 64, (UInt64.ofNat estimate).toNat = estimate :=
      fun estimate hbound => Nat.mod_eq_of_lt hbound
    constructor
    · intro hmean
      by_cases hnone : answers.pings.filterMap id = []
      · exact .inl hnone
      refine .inr ?_
      by_cases hempty : answers.completed = []
      · exact .inl hempty
      right
      obtain ⟨estimate, hestimate⟩ : ∃ estimate, fullEstimate (answers.completed.map fun tier =>
          ladderRate tier.1 tier.2) = some estimate := by
        match hcompleted : answers.completed with
        | [] => exact absurd hcompleted hempty
        | [_] | [_, _] | _ :: _ :: _ :: _ => exact ⟨_, rfl⟩
      obtain ⟨mean, hmeans, hbound, hsame⟩ := estimate_bits hfew hsmall hestimate
      have hanswered : answers.pings.all Option.isNone = false :=
        Bool.eq_false_iff.mpr (mt hlost.mp hnone)
      have hrecorded := hmean .full (.ofNat estimate)
        ((hbandwidth _ _).mpr ⟨hanswered, rfl, estimate, hestimate, rfl⟩)
      rw [hnat estimate hbound, hmeans] at hrecorded
      rw [hmeans, hsame.mp (Option.some.inj hrecorded)]
    · intro hslow kind est hmem
      obtain ⟨hanswered, -, estimate, hestimate, rfl⟩ := (hbandwidth kind est).mp hmem
      obtain ⟨mean, hmeans, hbound, hsame⟩ := estimate_bits hfew hsmall hestimate
      have hzero : mean = 0 := by
        rcases hslow with hnone | hempty | hzero
        · rw [hlost.mpr hnone] at hanswered
          cases hanswered
        · rw [hempty] at hestimate
          cases hestimate
        · exact Option.some.inj (hmeans.symm.trans hzero)
      rw [hnat estimate hbound, hmeans, hsame.mpr hzero]

/-- One ping of 400 ms and two lost ones, and then tiers of 1 s each. -/
def lossyAnswers : ProbeAnswers where
  ping1 := none
  ping2 := some 400
  ping3 := none
  tiers := [some 1000, some 1000, some 1000]
  three := rfl

/-- The run records a round trip of 0 ms, and bytes per second. -/
theorem probe_full_misreads :
    (¬ ∀ (peer : Fingerprint) (addr : SocketAddr) (answers : ProbeAnswers) (rtt : UInt64),
      .recordRtt peer addr rtt ∈ (probeFull peer addr answers).1 →
      IsMedian rtt (answers.pings.filterMap id)) ∧
    ¬ ∀ (peer : Fingerprint) (addr : SocketAddr) (answers : ProbeAnswers) (kind : ProbeKind)
        (est : UInt64), .recordBandwidth peer addr kind est ∈ (probeFull peer addr answers).1 →
      lastTiersMean (answers.completed.map fun tier => bitRate tier.1 tier.2) = some est.toNat := by
  refine ⟨fun hclaim => ?_, fun hclaim => ?_⟩
  · have hmedian := hclaim 7 firstAddr lossyAnswers 0 (by decide)
    revert hmedian
    decide
  · have hbits := hclaim 7 firstAddr lossyAnswers .full 2359296 (by decide)
    revert hbits
    decide

end Meaning

/-- Calls of the table, one after the other. -/
def ChannelTable.calls (table : ChannelTable) : List TableCall → ChannelTable × List TableEvent
  | [] => (table, [])
  | call :: rest =>
    let (next, events) := table.call call
    let (last, later) := next.calls rest
    (last, events ++ later)

/-- The strikes of a channel, if it has a record. -/
def strikes (table : ChannelTable) (peer : Fingerprint) (addr : SocketAddr) : Option Nat :=
  ((table.channels peer).find? fun r => r.addr = addr).map ChannelRecord.consecutiveTimeouts

/-- The runs, and the registrations between them. -/
inductive ProberInput where
  | register (peer : Fingerprint) (addr : SocketAddr) (viaRelay : Bool)
  | noteConnected (peer : Fingerprint) (addr : SocketAddr) (viaRelay : Bool)
  | full (peer : Fingerprint) (addr : SocketAddr) (answers : ProbeAnswers)
  | quick (peer : Fingerprint) (addr : SocketAddr) (ping tier : Option UInt64)
  | demote (peer : Fingerprint) (addr : SocketAddr)

namespace ProberInput

/-- The calls of an input, and its answer. -/
def run : ProberInput → List TableCall × Option Nat
  | .register peer addr viaRelay => ([.register peer addr viaRelay], none)
  | .noteConnected peer addr viaRelay => ([.noteConnected peer addr viaRelay], none)
  | .full peer addr answers => probeFull peer addr answers
  | .quick peer addr ping tier => probeQuick peer addr ping tier
  | .demote peer addr => (demoteChannel peer addr, none)

/-- The input registers a channel. -/
def registers : ProberInput → Bool
  | .register .. | .noteConnected .. => true
  | _ => false

/-- The input finds a failure of the channel. -/
def fails (peer : Fingerprint) (addr : SocketAddr) (input : ProberInput) : Bool :=
  input.run.1.any fun call => call = .recordProbeSample peer addr false

/-- The input is a run on the channel that gives an estimate. -/
def succeeds (peer : Fingerprint) (addr : SocketAddr) (input : ProberInput) : Bool :=
  match input with
  | .full other place _ | .quick other place _ _ =>
    other = peer && place = addr && input.run.2.isSome
  | _ => false

end ProberInput

/-- A run, and what it did to the channels. -/
structure ProberEvent where
  input : ProberInput
  events : List TableEvent

/-- The table under probing runs. -/
def Prober.step : Machine ChannelTable ProberInput ProberEvent := fun table input =>
  let (next, events) := table.calls input.run.1
  some (next, [{ input, events }])

/-- The pings that were lost after the last one that was answered. -/
def lostAtEnd (answers : ProbeAnswers) : Nat :=
  (answers.pings.reverse.takeWhile Option.isNone).length

/-- A ping was answered; where a tier fails, one ping at most was lost after it, and where it is the
first tier, none. -/
def Steady (answers : ProbeAnswers) : Prop :=
  answers.pings.all Option.isNone = false ∧
    (answers.completed.length < 3 → lostAtEnd answers ≤ 1) ∧
    (answers.completed = [] → lostAtEnd answers = 0)
deriving Decidable

/-- The condition on full runs. -/
def Prober.steady : Guard ChannelTable ProberInput ProberEvent := fun _ _ input =>
  (match input with
    | .full _ _ answers => Decidable.decide (Steady answers)
    | _ => true) = true
deriving Decidable

/-- The run adds one strike at most to its channel, which keeps its record or had all its strikes but
one before. -/
def AddsOneStrike (run : Fingerprint → SocketAddr → List TableCall) : Prop :=
  ∀ (table : ChannelTable) (peer : Fingerprint) (addr : SocketAddr) (count : Nat),
    (∀ other, ((table.channels other).map ChannelRecord.addr).Nodup) →
    strikes table peer addr = some count → count < removeAfterTimeouts →
    (∃ after, strikes (table.calls (run peer addr)).1 peer addr = some after ∧
      after ≤ count + 1) ∨
    strikes (table.calls (run peer addr)).1 peer addr = none ∧ removeAfterTimeouts ≤ count + 1

/-- The failed runs of a channel since it was recorded, or since its last run with an estimate. -/
def failedRuns (peer : Fingerprint) (addr : SocketAddr) (trace : List ProberEvent) : Nat :=
  trace.foldl (fun failed event =>
    if .channel peer addr .recorded ∈ event.events ∨ event.input.succeeds peer addr then 0
    else if event.input.fails peer addr then failed + 1
    else failed) 0

section Strikes

variable {table : ChannelTable} {peer other : Fingerprint} {addr place : SocketAddr}
  {call : TableCall} {calls : List TableCall} {count : Nat} {answers : ProbeAnswers}

/-- The call is one of a run on the channel. -/
def TableCall.OfRun (peer : Fingerprint) (addr : SocketAddr) : TableCall → Prop
  | .recordRtt other place _ | .recordBandwidth other place _ _ | .recordProbeSample other place _ =>
    other = peer ∧ place = addr
  | .reapTimeouts other => other = peer
  | _ => False

/-- What a call of a run does to the strikes of its channel. -/
def TableCall.strike (before : Option Nat) : TableCall → Option Nat
  | .recordProbeSample _ _ ok => before.map fun count => if ok then 0 else (count + 1) % 2 ^ 32
  | .reapTimeouts _ => before.filter fun count => count < removeAfterTimeouts
  | _ => before

/-- The record that a look-up finds after a change. -/
theorem find_update_record {records : List ChannelRecord} {change : ChannelRecord → ChannelRecord}
    (haddr : ∀ r, (change r).addr = r.addr) :
    (updateRecord records addr change).find? (fun r => r.addr = place) =
      if place = addr then (records.find? fun r => r.addr = place).map change
      else records.find? fun r => r.addr = place := by
  induction records with
  | nil => simp [updateRecord]
  | cons first rest ih =>
    unfold updateRecord
    by_cases hsame : first.addr = addr
    · rw [if_pos hsame]
      by_cases hplace : place = addr
      · subst hplace
        simp [haddr, hsame]
      · have hne : first.addr ≠ place := fun h => hplace (h.symm.trans hsame)
        simp [haddr, hne, hplace]
    · rw [if_neg hsame, List.find?_cons, List.find?_cons, ih]
      by_cases hplace : first.addr = place
      · have hne : place ≠ addr := fun h => hsame (hplace.trans h)
        simp [hplace, hne]
      · simp [hplace]

/-- The record that a look-up finds among those that are kept. -/
theorem find_filter_record {records : List ChannelRecord} {keep : ChannelRecord → Bool}
    (hdistinct : (records.map ChannelRecord.addr).Nodup) :
    (records.filter keep).find? (fun r => r.addr = addr) =
      (records.find? fun r => r.addr = addr).filter keep := by
  induction records with
  | nil => rfl
  | cons first rest ih =>
    rw [List.map_cons, List.nodup_cons] at hdistinct
    obtain ⟨hfirst, hrest⟩ := hdistinct
    by_cases hsame : first.addr = addr
    · have hnone : (rest.filter keep).find? (fun r => r.addr = addr) = none := by
        refine List.find?_eq_none.mpr fun r hmem hr => hfirst ?_
        have hr : r.addr = addr := by simpa using hr
        exact hsame.trans hr.symm ▸ List.mem_map_of_mem (List.mem_of_mem_filter hmem)
      cases hkeep : keep first <;> simp [hkeep, hsame, hnone, Option.filter]
    · cases hkeep : keep first <;> simp [hkeep, hsame, ih hrest]

/-- A change of a record that is not there changes nothing. -/
theorem change_channels (change : ChannelRecord → ChannelRecord) (event : ChannelEvent) :
    (table.change peer addr change event).1.channels peer =
      updateRecord (table.channels peer) addr change := by
  unfold ChannelTable.change
  split
  · exact table.set_records_own _ _
  · next hnone =>
    have hrest : ∀ records : List ChannelRecord, (∀ r ∈ records, r.addr ≠ addr) →
        updateRecord records addr change = records := by
      intro records hrecords
      induction records with
      | nil => rfl
      | cons first rest ih =>
        unfold updateRecord
        rw [if_neg (hrecords first List.mem_cons_self),
          ih fun r hmem => hrecords r (List.mem_cons_of_mem _ hmem)]
    refine (hrest _ fun r hmem hsame => hnone ?_).symm
    exact List.any_eq_true.mpr ⟨r, hmem, by simpa using hsame⟩

/-- A call of a run leaves the channels of other devices. -/
theorem TableCall.OfRun.channels (h : call.OfRun peer addr) (hne : other ≠ peer) :
    (table.call call).1.channels other = table.channels other := by
  have hwritten := table.set_records_other hne
  have hchange : ∀ change event, (table.change peer addr change event).1.channels other =
      table.channels other := by
    intro change event
    unfold ChannelTable.change
    split
    · exact hwritten _
    · rfl
  cases call with
  | recordRtt | recordBandwidth | recordProbeSample =>
    obtain ⟨rfl, rfl⟩ := h
    exact hchange _ _
  | reapTimeouts =>
    obtain rfl := h
    exact hwritten _
  | _ => cases h

/-- Calls of a run keep the addresses distinct. -/
theorem TableCall.OfRun.distinct (h : call.OfRun peer addr)
    (hdistinct : ∀ other, ((table.channels other).map ChannelRecord.addr).Nodup) (other : Fingerprint) :
    (((table.call call).1.channels other).map ChannelRecord.addr).Nodup := by
  by_cases hsame : other = peer
  · subst hsame
    cases call with
    | recordRtt | recordBandwidth | recordProbeSample =>
      obtain ⟨rfl, rfl⟩ := h
      show (((table.change _ _ _ _).1.channels _).map ChannelRecord.addr).Nodup
      rw [change_channels, update_record_addrs]
      · exact hdistinct _
      · exact fun _ => rfl
    | reapTimeouts =>
      obtain rfl := h
      show (((table.setRecords _ _).channels _).map ChannelRecord.addr).Nodup
      rw [ChannelTable.set_records_own]
      exact (List.filter_sublist.map _).nodup (hdistinct _)
    | _ => cases h
  · rw [h.channels hsame]
    exact hdistinct other

/-- The strikes of the channel of a run after a call. -/
theorem TableCall.OfRun.strikes_own (h : call.OfRun peer addr)
    (hdistinct : ((table.channels peer).map ChannelRecord.addr).Nodup) :
    strikes (table.call call).1 peer addr = call.strike (strikes table peer addr) := by
  have hchange : ∀ (change : ChannelRecord → ChannelRecord) event, (∀ r, (change r).addr = r.addr) →
      strikes (table.change peer addr change event).1 peer addr =
        ((table.channels peer).find? fun r => r.addr = addr).map fun r =>
          (change r).consecutiveTimeouts := by
    intro change event haddr
    unfold strikes
    rw [change_channels, find_update_record haddr, if_pos rfl, Option.map_map]
    rfl
  cases call with
  | recordRtt | recordBandwidth =>
    obtain ⟨rfl, rfl⟩ := h
    exact hchange _ _ fun _ => rfl
  | recordProbeSample _ _ ok =>
    obtain ⟨rfl, rfl⟩ := h
    refine (hchange (·.withSample ok) (.sampled ok) fun _ => rfl).trans ?_
    show _ = Option.map _ (Option.map _ _)
    rw [Option.map_map]
    rfl
  | reapTimeouts =>
    obtain rfl := h
    show (((table.setRecords _ _).channels _).find? _).map _ = _
    rw [ChannelTable.set_records_own, find_filter_record hdistinct]
    unfold strikes TableCall.strike
    cases (table.channels _).find? fun r => r.addr = addr <;> simp [Option.filter]
  | _ => cases h

/-- The strikes of another channel after a call of a run. -/
theorem TableCall.OfRun.strikes_other (h : call.OfRun peer addr) (hne : (other, place) ≠ (peer, addr))
    (hdistinct : ((table.channels other).map ChannelRecord.addr).Nodup) :
    strikes (table.call call).1 other place = strikes table other place ∨
      strikes (table.call call).1 other place =
        (strikes table other place).filter fun count => count < removeAfterTimeouts := by
  by_cases hpeer : other = peer
  · subst hpeer
    have hplace : place ≠ addr := fun hsame => hne (hsame ▸ rfl)
    have hchange : ∀ (change : ChannelRecord → ChannelRecord) event,
        (∀ r, (change r).addr = r.addr) →
        strikes (table.change other addr change event).1 other place = strikes table other place := by
      intro change event haddr
      unfold strikes
      rw [change_channels, find_update_record haddr, if_neg hplace]
    cases call with
    | recordRtt | recordBandwidth | recordProbeSample =>
      obtain ⟨rfl, rfl⟩ := h
      exact .inl (hchange _ _ fun _ => rfl)
    | reapTimeouts =>
      obtain rfl := h
      right
      show (((table.setRecords _ _).channels _).find? _).map _ = _
      rw [ChannelTable.set_records_own, find_filter_record hdistinct]
      unfold strikes
      cases (table.channels _).find? fun r => r.addr = place <;> simp [Option.filter]
    | _ => cases h
  · left
    unfold strikes
    rw [h.channels hpeer]

/-- The calls of a run, one after the other. -/
theorem TableCall.OfRun.run (h : ∀ call ∈ calls, call.OfRun peer addr)
    (hdistinct : ∀ other, ((table.channels other).map ChannelRecord.addr).Nodup) :
    (∀ other, (((table.calls calls).1.channels other).map ChannelRecord.addr).Nodup) ∧
      strikes (table.calls calls).1 peer addr =
        calls.foldl TableCall.strike (strikes table peer addr) ∧
      ∀ other place count, (other, place) ≠ (peer, addr) →
        (strikes table other place = some count → count < removeAfterTimeouts →
          strikes (table.calls calls).1 other place = some count) ∧
        (strikes (table.calls calls).1 other place = some count →
          strikes table other place = some count) := by
  induction calls generalizing table with
  | nil => exact ⟨hdistinct, rfl, fun _ _ _ _ => ⟨fun h _ => h, id⟩⟩
  | cons call rest ih =>
    have hcall := h call List.mem_cons_self
    obtain ⟨hlast, hown, hothers⟩ := @ih (table.call call).1
      (fun later hmem => h later (List.mem_cons_of_mem _ hmem)) (hcall.distinct hdistinct)
    refine ⟨hlast, ?_, ?_⟩
    · rw [List.foldl_cons, ← hcall.strikes_own (hdistinct peer)]
      exact hown
    · intro other place count hne
      obtain ⟨hkept, hback⟩ := hothers other place count hne
      rcases hcall.strikes_other hne (hdistinct other) with hsame | hfiltered
      · rw [hsame] at hkept hback
        exact ⟨hkept, hback⟩
      · rw [hfiltered] at hkept hback
        refine ⟨fun hcount hfew => hkept (by simp [hcount, hfew]) hfew, fun hcount => ?_⟩
        exact Option.filter_eq_some_iff.mp (hback hcount) |>.1

/-- A removal by a call finds three strikes. -/
theorem TableCall.OfRun.removed_now (h : call.OfRun peer addr)
    (hdistinct : ∀ other, ((table.channels other).map ChannelRecord.addr).Nodup)
    (hmem : .channel other place .removed ∈ (table.call call).2) :
    call = .reapTimeouts peer ∧ ∃ count, strikes table other place = some count ∧
      removeAfterTimeouts ≤ count := by
  have hchange : ∀ (change : ChannelRecord → ChannelRecord) event, event ≠ .removed →
      .channel other place .removed ∉ (table.change peer addr change event).2 := by
    intro change event hne hmem
    unfold ChannelTable.change at hmem
    split at hmem
    · cases List.mem_singleton.mp hmem
      exact hne rfl
    · cases hmem
  cases call with
  | recordRtt | recordBandwidth | recordProbeSample =>
    obtain ⟨rfl, rfl⟩ := h
    exact absurd hmem (hchange _ _ (by simp))
  | reapTimeouts =>
    obtain rfl := h
    obtain ⟨r, hr, hevent⟩ := List.mem_map.mp hmem
    obtain ⟨hthere, hlate⟩ := List.mem_filter.mp hr
    obtain ⟨rfl, rfl⟩ : _ = other ∧ r.addr = place := by simpa using hevent
    refine ⟨rfl, r.consecutiveTimeouts, ?_, by simpa using hlate⟩
    unfold strikes
    cases hfind : (table.channels _).find? fun found => found.addr = r.addr with
    | none =>
      have hnot := List.find?_eq_none.mp hfind r hthere
      simp at hnot
    | some found =>
      obtain ⟨hfound, hsame⟩ := find_record hfind
      obtain rfl := List.inj_on_of_nodup_map (hdistinct _) hfound hthere hsame
      rfl
  | _ => cases h

/-- A removal in a run finds three strikes at a look at the timeouts. -/
theorem TableCall.OfRun.removed (h : ∀ call ∈ calls, call.OfRun peer addr)
    (hdistinct : ∀ other, ((table.channels other).map ChannelRecord.addr).Nodup)
    (hmem : .channel other place .removed ∈ (table.calls calls).2) :
    ∃ before after, calls = before ++ .reapTimeouts peer :: after ∧
      ∃ count, strikes (table.calls before).1 other place = some count ∧
        removeAfterTimeouts ≤ count := by
  induction calls generalizing table with
  | nil => cases hmem
  | cons call rest ih =>
    have hcall := h call List.mem_cons_self
    rcases List.mem_append.mp hmem with hnow | hlater
    · obtain ⟨rfl, hcount⟩ := hcall.removed_now hdistinct hnow
      exact ⟨[], rest, rfl, hcount⟩
    · obtain ⟨before, after, rfl, hcount⟩ := ih
        (fun later hmem => h later (List.mem_cons_of_mem _ hmem)) (hcall.distinct hdistinct) hlater
      exact ⟨call :: before, after, rfl, hcount⟩

/-- A record that is gone stays away during a run. -/
theorem strike_none : calls.foldl TableCall.strike none = none := by
  induction calls with
  | nil => rfl
  | cons call rest ih => cases call <;> exact ih

/-- A channel that is removed in its own run had a record, and has none afterwards. -/
theorem TableCall.OfRun.removed_own (h : ∀ call ∈ calls, call.OfRun peer addr)
    (hdistinct : ∀ other, ((table.channels other).map ChannelRecord.addr).Nodup)
    (hmem : .channel peer addr .removed ∈ (table.calls calls).2) :
    (∃ count, strikes table peer addr = some count) ∧
      strikes (table.calls calls).1 peer addr = none := by
  obtain ⟨before, after, rfl, count, hcount, hlate⟩ := TableCall.OfRun.removed h hdistinct hmem
  have hbefore : ∀ call ∈ before, call.OfRun peer addr :=
    fun call hcall => h call (List.mem_append_left _ hcall)
  rw [(TableCall.OfRun.run hbefore hdistinct).2.1] at hcount
  refine ⟨?_, ?_⟩
  · cases hstart : strikes table peer addr with
    | some found => exact ⟨found, rfl⟩
    | none =>
      rw [hstart, strike_none] at hcount
      cases hcount
  · rw [(TableCall.OfRun.run h hdistinct).2.1, List.foldl_append, hcount, List.foldl_cons]
    have hgone : TableCall.strike (some count) (.reapTimeouts peer) = none := by
      simp [TableCall.strike, Option.filter, hlate]
    rw [hgone, strike_none]

/-- The calls of a full run. -/
theorem probe_full_of_run : ∀ call ∈ (probeFull peer addr answers).1, call.OfRun peer addr := by
  have hpings : ∀ call ∈ pingCalls peer addr answers, call.OfRun peer addr := by
    intro call hmem
    rcases List.mem_append.mp hmem with hsample | hreap
    · obtain ⟨ping, -, rfl⟩ := List.mem_map.mp hsample
      exact ⟨rfl, rfl⟩
    · obtain rfl := List.mem_singleton.mp hreap
      rfl
  have hladder : ∀ failed estimate, ∀ call ∈ ladderCalls peer addr failed estimate,
      call.OfRun peer addr := by
    intro failed estimate
    cases failed <;> cases estimate <;> simp [ladderCalls, TableCall.OfRun]
  intro call hmem
  unfold probeFull at hmem
  split at hmem
  · exact hpings call hmem
  · rcases List.mem_append.mp hmem with hping | hrest
    · exact hpings call hping
    · rcases List.mem_cons.mp hrest with rfl | hladderMem
      · exact ⟨rfl, rfl⟩
      · exact hladder _ _ call hladderMem

/-- The calls of a quick run. -/
theorem probe_quick_of_run {ping tier : Option UInt64} :
    ∀ call ∈ (probeQuick peer addr ping tier).1, call.OfRun peer addr := by
  cases ping <;> cases tier <;> simp [probeQuick, TableCall.OfRun]

theorem demote_of_run : ∀ call ∈ demoteChannel peer addr, call.OfRun peer addr := by
  simp [demoteChannel, TableCall.OfRun]

/-- The pings leave a strike for each one that was lost at the end, if one was answered. -/
theorem ping_strikes (peer : Fingerprint) (addr : SocketAddr) (answers : ProbeAnswers)
    (hcount : count < removeAfterTimeouts) :
    (pingCalls peer addr answers).foldl TableCall.strike (some count) =
      (if answers.pings.all Option.isNone then none else some (lostAtEnd answers)) ∧
    (answers.pings.all Option.isNone = false → lostAtEnd answers ≤ 2) := by
  obtain ⟨p1, p2, p3, tiers, three⟩ := answers
  have hthree : ¬ count + 1 + 1 + 1 < 3 := by omega
  have hsmall : (count + 1) % 4294967296 = count + 1 ∧
      (count + 1 + 1) % 4294967296 = count + 1 + 1 ∧
      (count + 1 + 1 + 1) % 4294967296 = count + 1 + 1 + 1 := by
    unfold removeAfterTimeouts at hcount
    omega
  cases p1 <;> cases p2 <;> cases p3 <;>
    simp [pingCalls, ProbeAnswers.pings, TableCall.strike, lostAtEnd, removeAfterTimeouts,
      Option.filter, hsmall, hthree]

/-- No estimate is made exactly if no tier was completed. -/
theorem full_estimate_none (answers : ProbeAnswers) :
    fullEstimate (answers.completed.map fun tier => ladderRate tier.1 tier.2) = none ↔
      answers.completed = [] := by
  match hcompleted : answers.completed with
  | [] => simp [fullEstimate]
  | [_] | [_, _] | _ :: _ :: _ :: _ => simp [fullEstimate]

/-- The strikes after a full run, and its answer. -/
theorem full_strikes (peer : Fingerprint) (addr : SocketAddr) (answers : ProbeAnswers)
    (hcount : count < removeAfterTimeouts) :
    (probeFull peer addr answers).1.foldl TableCall.strike (some count) =
      (if answers.pings.all Option.isNone then none
      else if answers.completed = [] then
        if lostAtEnd answers ≤ 1 then some (lostAtEnd answers + 1) else none
      else if answers.completed.length < 3 ∧ lostAtEnd answers = 2 then none
      else some 0) ∧
    ((probeFull peer addr answers).2.isSome = true ↔
      answers.pings.all Option.isNone = false ∧ answers.completed ≠ []) := by
  obtain ⟨hpings, hlost⟩ := ping_strikes peer addr answers hcount
  obtain ⟨hthree, -⟩ := completed_small answers
  unfold probeFull
  cases hall : answers.pings.all Option.isNone with
  | true =>
    rw [hall] at hpings
    simpa using hpings
  | false =>
    have hlost := hlost hall
    rw [hall] at hpings
    simp only [Bool.false_eq_true, if_false] at hpings ⊢
    rw [List.foldl_append, hpings, List.foldl_cons]
    have hnone := full_estimate_none answers
    cases hestimate : fullEstimate (answers.completed.map fun tier => ladderRate tier.1 tier.2) with
    | none =>
      have hempty := hnone.mp hestimate
      by_cases hone : lostAtEnd answers ≤ 1
      · have hfew : lostAtEnd answers + 1 < 3 ∧ (lostAtEnd answers + 1) % 4294967296 =
            lostAtEnd answers + 1 := by omega
        simp [hempty, hone, hfew, ladderCalls, tierSizes, TableCall.strike, Option.filter,
          removeAfterTimeouts]
      · have hmany : ¬ lostAtEnd answers + 1 < 3 ∧ (lostAtEnd answers + 1) % 4294967296 =
            lostAtEnd answers + 1 := by omega
        simp [hempty, hone, hmany, ladderCalls, tierSizes, TableCall.strike, Option.filter,
          removeAfterTimeouts]
    | some estimate =>
      have hsome : answers.completed ≠ [] := fun hempty => by
        rw [hnone.mpr hempty] at hestimate
        cases hestimate
      by_cases hfailed : answers.completed.length < 3
      · by_cases htwo : lostAtEnd answers = 2
        · simp [hsome, hfailed, htwo, ladderCalls, tierSizes, TableCall.strike, Option.filter,
            removeAfterTimeouts]
        · have hfew : lostAtEnd answers + 1 < 3 ∧ (lostAtEnd answers + 1) % 4294967296 =
              lostAtEnd answers + 1 := by omega
          simp [hsome, hfailed, htwo, hfew, ladderCalls, tierSizes, TableCall.strike,
            Option.filter, removeAfterTimeouts]
      · simp [hsome, hfailed, ladderCalls, tierSizes, TableCall.strike]

/-- The strikes after a quick run, and its answer; a demotion is as a ping that is lost. -/
theorem quick_strikes (peer : Fingerprint) (addr : SocketAddr) (ping tier : Option UInt64)
    (hcount : count < removeAfterTimeouts) :
    (probeQuick peer addr ping tier).1.foldl TableCall.strike (some count) =
      (if ping = none then if count + 1 < removeAfterTimeouts then some (count + 1) else none
      else if tier = none then some 1 else some 0) ∧
    (demoteChannel peer addr).foldl TableCall.strike (some count) =
      (if count + 1 < removeAfterTimeouts then some (count + 1) else none) ∧
    ((probeQuick peer addr ping tier).2.isSome = true ↔ ping ≠ none ∧ tier ≠ none) := by
  have hsmall : (count + 1) % 4294967296 = count + 1 := by
    unfold removeAfterTimeouts at hcount
    omega
  by_cases hfew : count + 1 < 3 <;> cases ping <;> cases tier <;>
    simp [probeQuick, demoteChannel, TableCall.strike, Option.filter, removeAfterTimeouts, hsmall,
      hfew]

/-- The strikes after a run, from its calls. -/
theorem strikes_of_run (hrun : ∀ call ∈ calls, call.OfRun peer addr)
    (hdistinct : ∀ other, ((table.channels other).map ChannelRecord.addr).Nodup)
    (hcount : strikes table peer addr = some count) :
    strikes (table.calls calls).1 peer addr = calls.foldl TableCall.strike (some count) := by
  rw [(TableCall.OfRun.run hrun hdistinct).2.1, hcount]

/-- A quick run adds one strike at most. -/
theorem quick_adds_one (ping tier : Option UInt64) :
    AddsOneStrike fun peer addr => (probeQuick peer addr ping tier).1 := by
  intro table peer addr count hdistinct hcount hfew
  rw [strikes_of_run probe_quick_of_run hdistinct hcount,
    (quick_strikes peer addr ping tier hfew).1]
  split
  · split
    · exact .inl ⟨_, rfl, Nat.le_refl _⟩
    · next hmany => exact .inr ⟨rfl, Nat.le_of_not_lt hmany⟩
  · split
    · exact .inl ⟨1, rfl, by omega⟩
    · exact .inl ⟨0, rfl, Nat.zero_le _⟩

/-- A full run adds one strike at most exactly if it is steady. -/
theorem steady_iff (answers : ProbeAnswers) :
    AddsOneStrike (fun peer addr => (probeFull peer addr answers).1) ↔ Steady answers := by
  constructor
  · intro hadds
    -- A channel that was just recorded has no strikes yet.
    let table := (ChannelTable.new.register 0 firstAddr false).1
    have hdistinct : ∀ other, ((table.channels other).map ChannelRecord.addr).Nodup :=
      (recorded_new.register 0 _ false).distinct
    have hfresh : strikes table 0 firstAddr = some 0 := by decide
    have hone := hadds table 0 firstAddr 0 hdistinct hfresh (by decide)
    rw [strikes_of_run probe_full_of_run hdistinct hfresh,
      (full_strikes _ _ answers (by decide)).1] at hone
    rcases hone with ⟨after, hafter, hsmall⟩ | ⟨-, hmany⟩
    · cases hall : answers.pings.all Option.isNone with
      | true =>
        rw [hall] at hafter
        cases hafter
      | false =>
        have hlost := (ping_strikes 0 firstAddr answers (by decide : 0 < _)).2 hall
        simp only [hall, Bool.false_eq_true, if_false] at hafter
        by_cases hempty : answers.completed = []
        · rw [if_pos hempty] at hafter
          obtain ⟨-, hafter⟩ := of_when hafter
          obtain rfl := Option.some.inj hafter
          exact ⟨hall, fun _ => by omega, fun _ => by omega⟩
        · rw [if_neg hempty] at hafter
          obtain ⟨htwo, hafter⟩ := of_unless hafter
          refine ⟨hall, fun hless => ?_, fun hnone => absurd hnone hempty⟩
          have hne : lostAtEnd answers ≠ 2 := fun h => htwo ⟨hless, h⟩
          omega
    · exact absurd hmany (by decide)
  · rintro ⟨hanswered, hfailed, hfirst⟩ table peer addr count hdistinct hcount hfew
    left
    rw [strikes_of_run probe_full_of_run hdistinct hcount,
      (full_strikes peer addr answers hfew).1, hanswered]
    by_cases hempty : answers.completed = []
    · simp [hempty, hfirst hempty]
    · have htwo : ¬ (answers.completed.length < 3 ∧ lostAtEnd answers = 2) := by
        rintro ⟨hless, htwo⟩
        have := hfailed hless
        omega
      simp [hempty, htwo]

/-- A registration leaves the strikes of a channel, or begins a record without one. -/
theorem strikes_register {viaRelay : Bool}
    (hdistinct : ((table.channels other).map ChannelRecord.addr).Nodup)
    (h : strikes (table.register other place viaRelay).1 peer addr = some count) :
    strikes table peer addr = some count ∧
        .channel peer addr .recorded ∉ (table.register other place viaRelay).2 ∨ count = 0 := by
  have hdropped : ∀ dropped : List ChannelRecord, TableEvent.channel peer addr .recorded ∉
      dropped.map fun r => .channel other r.addr .removed := by simp
  by_cases hpeer : peer = other
  · subst hpeer
    unfold strikes at h ⊢
    unfold ChannelTable.register Routing.register at h ⊢
    dsimp only at h ⊢
    rw [ChannelTable.set_records_own] at h
    have hkept : ∀ found, (if viaRelay then (table.channels peer).filter fun r =>
        !r.viaRelay || r.addr = place else table.channels peer).find? (fun r => r.addr = addr) =
          some found → (table.channels peer).find? (fun r => r.addr = addr) = some found := by
      intro found hfound
      split at hfound
      · rw [find_filter_record hdistinct] at hfound
        exact (Option.filter_eq_some_iff.mp hfound).1
      · exact hfound
    have hsub : ∀ r ∈ (if viaRelay then (table.channels peer).filter fun r =>
        !r.viaRelay || r.addr = place else table.channels peer), r ∈ table.channels peer := by
      intro r hmem
      split at hmem
      · exact List.mem_of_mem_filter hmem
      · exact hmem
    generalize (if viaRelay then (table.channels peer).filter fun r => !r.viaRelay || r.addr = place
      else table.channels peer) = kept at h hkept hsub
    obtain ⟨found, hfound, hcount⟩ := Option.map_eq_some_iff.mp h
    split at hfound
    · next hknown =>
      have haddrs : ∀ r : ChannelRecord, r.renew.addr = r.addr := fun _ => rfl
      rw [find_update_record haddrs] at hfound
      obtain ⟨before, hbefore, hsame⟩ : ∃ before,
          kept.find? (fun r => r.addr = addr) = some before ∧
            before.consecutiveTimeouts = found.consecutiveTimeouts := by
        split at hfound
        · obtain ⟨before, hbefore, rfl⟩ := Option.map_eq_some_iff.mp hfound
          exact ⟨before, hbefore, rfl⟩
        · exact ⟨found, hfound, rfl⟩
      refine .inl ⟨by rw [hkept before hbefore, Option.map_some, hsame, hcount], ?_⟩
      obtain ⟨r, hr, hplace⟩ := List.any_eq_true.mp hknown
      have hthere : ((table.channels peer).any fun r => r.addr = place) = true :=
        List.any_eq_true.mpr ⟨r, hsub r hr, hplace⟩
      rw [hthere, if_pos rfl]
      intro hmem
      rcases List.mem_append.mp hmem with hmem | hmem
      · exact hdropped _ hmem
      · cases List.mem_singleton.mp hmem
    · next hnew =>
      rw [List.find?_append] at hfound
      rcases Option.or_eq_some_iff.mp hfound with hold | ⟨-, hadded⟩
      · refine .inl ⟨by rw [hkept found hold, Option.map_some, hcount], fun hmem => ?_⟩
        have haddr : found.addr = addr := by simpa using List.find?_some hold
        have hne : addr ≠ place := by
          rintro rfl
          refine hnew (List.any_eq_true.mpr ⟨found, List.mem_of_find?_eq_some hold, ?_⟩)
          simpa using haddr
        rcases List.mem_append.mp hmem with hmem | hmem
        · exact hdropped _ hmem
        · have hsame := List.mem_singleton.mp hmem
          injection hsame with _ haddr
          exact hne haddr
      · obtain rfl := List.mem_singleton.mp (List.mem_of_find?_eq_some hadded)
        exact .inr hcount.symm
  · left
    refine ⟨?_, ?_⟩
    · unfold strikes at h ⊢
      rwa [ChannelTable.register, ChannelTable.set_records_other _ hpeer] at h
    · intro hmem
      rcases List.mem_append.mp hmem with hmem | hmem
      · exact hdropped _ hmem
      · obtain ⟨hsame, -⟩ : peer = other ∧ _ := by simpa using List.mem_singleton.mp hmem
        exact hpeer hsame

/-- Nothing is recorded in a run. -/
theorem TableCall.OfRun.unrecorded (h : ∀ call ∈ calls, call.OfRun peer addr) :
    .channel other place .recorded ∉ (table.calls calls).2 := by
  have hchange : ∀ (table : ChannelTable) (change : ChannelRecord → ChannelRecord) event,
      event ≠ .recorded → .channel other place .recorded ∉ (table.change peer addr change event).2 := by
    intro table change event hne hmem
    unfold ChannelTable.change at hmem
    split at hmem
    · cases List.mem_singleton.mp hmem
      exact hne rfl
    · cases hmem
  induction calls generalizing table with
  | nil => exact List.not_mem_nil
  | cons call rest ih =>
    intro hmem
    rcases List.mem_append.mp hmem with hnow | hlater
    · have hcall := h call List.mem_cons_self
      cases call with
      | recordRtt | recordBandwidth | recordProbeSample =>
        obtain ⟨rfl, rfl⟩ := hcall
        exact hchange _ _ _ (by simp) hnow
      | reapTimeouts =>
        obtain ⟨r, -, hevent⟩ := List.mem_map.mp hnow
        cases hevent
      | _ => cases hcall
    · exact ih (fun later hlast => h later (List.mem_cons_of_mem _ hlast)) hlater

end Strikes

/-- What holds of the strikes after every input: they stay below three, and there are no more of them
than failed runs. -/
structure Disciplined (trace : List ProberEvent) (table : ChannelTable) : Prop where
  distinct : ∀ peer, ((table.channels peer).map ChannelRecord.addr).Nodup
  bounded : ∀ peer addr count, strikes table peer addr = some count →
    count < removeAfterTimeouts ∧ count ≤ failedRuns peer addr trace

section Runs

variable {table : ChannelTable} {peer other : Fingerprint} {addr place : SocketAddr}
  {trace : List ProberEvent} {input : ProberInput} {count : Nat}

/-- The channel of a run. -/
def ProberInput.channel : ProberInput → Fingerprint × SocketAddr
  | .register peer addr _ | .noteConnected peer addr _ | .full peer addr _ | .quick peer addr _ _
  | .demote peer addr => (peer, addr)

theorem failed_runs_concat (event : ProberEvent) : failedRuns peer addr (trace ++ [event]) =
    if .channel peer addr .recorded ∈ event.events ∨ event.input.succeeds peer addr then 0
    else if event.input.fails peer addr then failedRuns peer addr trace + 1
    else failedRuns peer addr trace := by
  simp [failedRuns]

/-- An input that registers nothing is a run on its channel. -/
theorem run_of_input (h : input.registers = false) :
    ∀ call ∈ input.run.1, call.OfRun input.channel.1 input.channel.2 := by
  cases input with
  | register | noteConnected => cases h
  | full peer addr answers => exact probe_full_of_run
  | quick peer addr ping tier => exact probe_quick_of_run
  | demote peer addr => exact demote_of_run

/-- A run neither fails nor succeeds on another channel. -/
theorem elsewhere (h : input.registers = false) (hne : (other, place) ≠ input.channel) :
    input.fails other place = false ∧ input.succeeds other place = false := by
  refine ⟨?_, ?_⟩
  · refine List.any_eq_false.mpr fun call hmem hcall => hne ?_
    obtain rfl : call = .recordProbeSample other place false := by simpa using hcall
    obtain ⟨hpeer, hplace⟩ := run_of_input h _ hmem
    exact Prod.ext hpeer hplace
  · cases input with
    | register | noteConnected => cases h
    | demote => rfl
    | full peer addr answers | quick peer addr ping tier =>
      have hsame : ¬ (peer = other ∧ addr = place) := fun ⟨hpeer, haddr⟩ => hne (by
        rw [← hpeer, ← haddr]
        rfl)
      unfold ProberInput.succeeds
      simp only [Bool.and_eq_false_iff, decide_eq_false_iff_not]
      tauto

/-- What a steady run does to its channel: the strikes end, or there is one more failed run. -/
theorem own_strikes (hregisters : input.registers = false)
    (hsteady : Prober.steady trace table input) (hcount : count < removeAfterTimeouts) :
    (input.run.1.foldl TableCall.strike (some count) = some 0) ∨
      input.succeeds input.channel.1 input.channel.2 = false ∧
        input.fails input.channel.1 input.channel.2 = true ∧
        (input.run.1.foldl TableCall.strike (some count) = some 1 ∨
          input.run.1.foldl TableCall.strike (some count) =
            if count + 1 < removeAfterTimeouts then some (count + 1) else none) := by
  cases input with
  | register | noteConnected => cases hregisters
  | full peer addr answers =>
    obtain ⟨hanswered, hfailed, hfirst⟩ : Steady answers := of_decide_eq_true hsteady
    obtain ⟨hstrikes, hsome⟩ := full_strikes peer addr answers hcount
    by_cases hempty : answers.completed = []
    · refine .inr ⟨?_, ?_, .inl ?_⟩
      · have hnone : (probeFull peer addr answers).2.isSome = false :=
          Bool.eq_false_iff.mpr fun h => (hsome.mp h).2 hempty
        simp [ProberInput.succeeds, ProberInput.run, hnone]
      · refine List.any_eq_true.mpr ⟨.recordProbeSample peer addr false, ?_, by simp [ProberInput.channel]⟩
        simp [ProberInput.run, probeFull, hanswered, hempty, ladderCalls, tierSizes]
      · show (probeFull peer addr answers).1.foldl TableCall.strike (some count) = some 1
        rw [hstrikes, hanswered, hempty, hfirst hempty]
        rfl
    · have htwo : ¬ (answers.completed.length < 3 ∧ lostAtEnd answers = 2) := by
        rintro ⟨hless, htwo⟩
        have hone := hfailed hless
        omega
      left
      show (probeFull peer addr answers).1.foldl TableCall.strike (some count) = some 0
      rw [hstrikes, hanswered, if_neg (by simp), if_neg hempty, if_neg htwo]
  | quick peer addr ping tier =>
    obtain ⟨hstrikes, -, hsome⟩ := quick_strikes peer addr ping tier hcount
    cases ping with
    | none =>
      refine .inr ⟨?_, ?_, .inr ?_⟩
      · simp [ProberInput.succeeds, ProberInput.run, probeQuick]
      · simp [ProberInput.fails, ProberInput.run, probeQuick, ProberInput.channel]
      · exact hstrikes.trans (if_pos rfl)
    | some rtt =>
      cases tier with
      | none =>
        refine .inr ⟨?_, ?_, .inl hstrikes⟩
        · simp [ProberInput.succeeds, ProberInput.run, probeQuick]
        · simp [ProberInput.fails, ProberInput.run, probeQuick, ProberInput.channel]
      | some ms => exact .inl hstrikes
  | demote peer addr =>
    refine .inr ⟨rfl, ?_, .inr (quick_strikes peer addr none none hcount).2.1⟩
    simp [ProberInput.fails, ProberInput.run, demoteChannel, ProberInput.channel]

/-- A registration keeps the strikes below the failed runs. -/
theorem Disciplined.registered (h : Disciplined trace table) (hregisters : input.registers = true)
    (viaRelay : Bool) {events : List TableEvent} {next : ChannelTable}
    (hevents : ∀ peer addr, .channel peer addr .recorded ∈ events →
      .channel peer addr .recorded ∈ (table.register other place viaRelay).2)
    (hnext : next.channels = (table.register other place viaRelay).1.channels) :
    Disciplined (trace ++ [{ input := input, events := events }]) next := by
  have hquiet : ∀ peer addr, input.fails peer addr = false ∧ input.succeeds peer addr = false := by
    intro peer addr
    cases input with
    | register | noteConnected => exact ⟨rfl, rfl⟩
    | _ => cases hregisters
  refine ⟨fun peer => ?_, fun peer addr count hcount => ?_⟩
  · rw [hnext]
    unfold ChannelTable.register
    by_cases hpeer : peer = other
    · subst hpeer
      rw [ChannelTable.set_records_own]
      exact register_distinct (h.distinct peer) _ _
    · rw [ChannelTable.set_records_other _ hpeer]
      exact h.distinct peer
  · have hcount : strikes (table.register other place viaRelay).1 peer addr = some count := by
      unfold strikes at hcount ⊢
      rwa [hnext] at hcount
    rcases strikes_register (h.distinct other) hcount with ⟨hbefore, hnone⟩ | rfl
    · obtain ⟨hfails, hsucceeds⟩ := hquiet peer addr
      have hunrecorded := mt (hevents peer addr) hnone
      rw [failed_runs_concat, if_neg (by simp [hunrecorded, hsucceeds]), if_neg (by simp [hfails])]
      exact h.bounded peer addr count hbefore
    · exact ⟨by decide, Nat.zero_le _⟩

/-- A steady run keeps the strikes below the failed runs. -/
theorem Disciplined.ran (h : Disciplined trace table) (hregisters : input.registers = false)
    (hsteady : Prober.steady trace table input) :
    Disciplined (trace ++ [{ input := input, events := (table.calls input.run.1).2 }])
      (table.calls input.run.1).1 := by
  have hrun := run_of_input hregisters
  obtain ⟨hdistinct, -, hothers⟩ := TableCall.OfRun.run hrun h.distinct
  refine ⟨hdistinct, fun peer addr count hcount => ?_⟩
  rw [failed_runs_concat]
  have hunrecorded : .channel peer addr .recorded ∉ (table.calls input.run.1).2 :=
    TableCall.OfRun.unrecorded hrun
  by_cases hown : (peer, addr) = input.channel
  · obtain ⟨rfl, rfl⟩ : peer = input.channel.1 ∧ addr = input.channel.2 := Prod.ext_iff.mp hown
    cases hstart : strikes table input.channel.1 input.channel.2 with
    | none =>
      rw [(TableCall.OfRun.run hrun h.distinct).2.1, hstart, strike_none] at hcount
      cases hcount
    | some before =>
      obtain ⟨hfew, hbefore⟩ := h.bounded _ _ before hstart
      rw [strikes_of_run hrun h.distinct hstart] at hcount
      rcases own_strikes hregisters hsteady hfew with hzero | ⟨hsucceeds, hfails, hmore⟩
      · rw [hzero] at hcount
        obtain rfl := Option.some.inj hcount
        exact ⟨by decide, Nat.zero_le _⟩
      · rw [if_neg (by simp [hunrecorded, hsucceeds]), if_pos hfails]
        rcases hmore with hone | hnext
        · rw [hone] at hcount
          obtain rfl := Option.some.inj hcount
          exact ⟨by decide, by omega⟩
        · rw [hnext] at hcount
          obtain ⟨hless, hcount⟩ := of_when hcount
          obtain rfl := Option.some.inj hcount
          exact ⟨hless, by omega⟩
  · obtain ⟨hfails, hsucceeds⟩ := elsewhere hregisters hown
    rw [if_neg (by simp [hunrecorded, hsucceeds]), if_neg (by simp [hfails])]
    exact h.bounded peer addr count ((hothers peer addr count hown).2 hcount)

/-- A steady run removes a channel only after two other failed runs. -/
theorem Disciplined.removal (h : Disciplined trace table) (hregisters : input.registers = false)
    (hsteady : Prober.steady trace table input)
    (hmem : .channel peer addr .removed ∈ (table.calls input.run.1).2) :
    input.fails peer addr = true ∧ 2 ≤ failedRuns peer addr trace := by
  have hrun := run_of_input hregisters
  by_cases hown : (peer, addr) = input.channel
  · obtain ⟨rfl, rfl⟩ : peer = input.channel.1 ∧ addr = input.channel.2 := Prod.ext_iff.mp hown
    obtain ⟨⟨count, hcount⟩, hnone⟩ := TableCall.OfRun.removed_own hrun h.distinct hmem
    obtain ⟨hfew, hbound⟩ := h.bounded _ _ count hcount
    rw [strikes_of_run hrun h.distinct hcount] at hnone
    rcases own_strikes hregisters hsteady hfew with hzero | ⟨-, hfails, hone | hnext⟩
    · rw [hzero] at hnone
      cases hnone
    · rw [hone] at hnone
      cases hnone
    · rw [hnext] at hnone
      split at hnone
      · cases hnone
      · next hmany =>
        unfold removeAfterTimeouts at hmany
        exact ⟨hfails, by omega⟩
  · -- The strikes of another channel do not change before the removal.
    obtain ⟨before, after, hcalls, count, hcount, hlate⟩ :=
      TableCall.OfRun.removed hrun h.distinct hmem
    have hbefore : ∀ call ∈ before, call.OfRun input.channel.1 input.channel.2 :=
      fun call hcall => hrun call (hcalls ▸ List.mem_append_left _ hcall)
    obtain ⟨-, -, hothers⟩ := TableCall.OfRun.run hbefore h.distinct
    have hfew := (h.bounded peer addr count ((hothers peer addr count hown).2 hcount)).1
    omega

/-- Every steady input keeps the strikes below the failed runs. -/
theorem Disciplined.step {next : ChannelTable} {emitted : List ProberEvent}
    (h : Disciplined trace table) (hsteady : Prober.steady trace table input)
    (hstep : Prober.step table input = some (next, emitted)) :
    Disciplined (trace ++ emitted) next ∧
      emitted = [{ input := input, events := (table.calls input.run.1).2 }] := by
  obtain ⟨rfl, rfl⟩ : (table.calls input.run.1).1 = next ∧
      [{ input := input, events := (table.calls input.run.1).2 }] = emitted :=
    answer_inj hstep
  refine ⟨?_, rfl⟩
  cases hregisters : input.registers with
  | false => exact h.ran hregisters hsteady
  | true =>
    cases input with
    | register peer addr viaRelay =>
      refine h.registered rfl viaRelay (fun other place hmem => ?_) rfl
      simpa [ProberInput.run, ChannelTable.calls, ChannelTable.call] using hmem
    | noteConnected peer addr viaRelay =>
      refine h.registered rfl viaRelay (fun other place hmem => ?_) rfl
      simpa [ProberInput.run, ChannelTable.calls, ChannelTable.call] using hmem
    | _ => cases hregisters

/-- The strikes of a run of steady inputs. -/
theorem disciplined_run {inputs : List ProberInput}
    (h : Exec Prober.step Prober.steady .new inputs trace table) :
    Disciplined trace table ∧ EachEvent (fun before event => ∀ peer addr,
      event.input.registers = false → .channel peer addr .removed ∈ event.events →
      event.input.fails peer addr = true ∧ 2 ≤ failedRuns peer addr before) trace := by
  induction h with
  | start =>
    refine ⟨⟨fun _ => List.nodup_nil, fun peer addr count hcount => ?_⟩, each_event_nil⟩
    cases hcount
  | step _ hsteady hnext ih =>
    obtain ⟨hbefore, heach⟩ := ih
    obtain ⟨hlast, rfl⟩ := hbefore.step hsteady hnext
    refine ⟨hlast, each_event_append.mpr ⟨heach, each_event_singleton.mpr ?_⟩⟩
    intro peer addr hregisters hmem
    rw [List.append_nil]
    exact hbefore.removal hregisters hsteady hmem

end Runs

/-- A full run adds one strike at most exactly if it is steady, and a quick run always does. Where the
full runs are steady, a channel has no more strikes than failed runs since it was recorded or last gave
an estimate, a run that gives one leaves none, and a channel is removed by a run only if that run failed
and two others did before. -/
theorem strikes_disciplined (answers : ProbeAnswers) (ping tier : Option UInt64)
    (inputs : List ProberInput) (trace : List ProberEvent) (last : ChannelTable) :
    (AddsOneStrike (fun peer addr => (probeFull peer addr answers).1) ↔ Steady answers) ∧
    AddsOneStrike (fun peer addr => (probeQuick peer addr ping tier).1) ∧
    (Exec Prober.step Prober.steady .new inputs trace last →
      (∀ peer addr count, strikes last peer addr = some count →
        count ≤ failedRuns peer addr trace) ∧
      (∀ before event, trace = before ++ [event] → ∀ peer addr,
        event.input.succeeds peer addr = true → ∀ count, strikes last peer addr = some count →
        count = 0) ∧
      EachEvent (fun before event => ∀ peer addr, event.input.registers = false →
        .channel peer addr .removed ∈ event.events →
        event.input.fails peer addr = true ∧ 2 ≤ failedRuns peer addr before) trace) := by
  refine ⟨steady_iff answers, quick_adds_one ping tier, fun h => ?_⟩
  obtain ⟨hlast, heach⟩ := disciplined_run h
  refine ⟨fun peer addr count hcount => (hlast.bounded peer addr count hcount).2, ?_, heach⟩
  rintro before event rfl peer addr hsucceeds count hcount
  have hbound := (hlast.bounded peer addr count hcount).2
  rw [failed_runs_concat, if_pos (.inr hsucceeds)] at hbound
  omega

/-- A channel that fails three quick runs. -/
def threeFailedRuns : List ProberInput :=
  [.register 7 firstAddr false, .quick 7 firstAddr none none, .quick 7 firstAddr none none,
    .quick 7 firstAddr none none]

/-- The first ping is answered, the other two and the first tier are not. -/
def fadingAnswers : ProbeAnswers where
  ping1 := some 10
  ping2 := none
  ping3 := none
  tiers := [none, none, none]
  three := rfl

/-- A channel, and one full run on it. -/
def oneFadingRun : List ProberInput :=
  [.register 7 firstAddr false, .full 7 firstAddr fadingAnswers]

theorem strikes_disciplined_sample :
    2 ≤ failedRuns 7 firstAddr
      ((Machine.history Prober.step Prober.steady .new threeFailedRuns).take 3) := by
  obtain ⟨last, hexec⟩ := exec_of_run Prober.step Prober.steady .new threeFailedRuns (by decide)
  obtain ⟨-, -, heach⟩ := (strikes_disciplined fadingAnswers none none _ _ _).2.2 hexec
  -- The last of the three runs removes the record.
  have hsplit : Machine.history Prober.step Prober.steady .new threeFailedRuns =
      (Machine.history Prober.step Prober.steady .new threeFailedRuns).take 3 ++
        [⟨.quick 7 firstAddr none none,
          [.channel 7 firstAddr (.sampled false), .channel 7 firstAddr .removed]⟩] := rfl
  exact (heach _ _ _ hsplit 7 firstAddr rfl (by decide)).2

/-- One full run can add more than one strike, and remove a channel that had none. -/
theorem strikes_undisciplined :
    (¬ ∀ answers, AddsOneStrike fun peer addr => (probeFull peer addr answers).1) ∧
    ¬ ∀ (inputs : List ProberInput) (trace : List ProberEvent) (last : ChannelTable),
      Exec Prober.step Guard.free .new inputs trace last →
      EachEvent (fun before event => ∀ peer addr, event.input.registers = false →
        .channel peer addr .removed ∈ event.events → 2 ≤ failedRuns peer addr before) trace := by
  refine ⟨fun hclaim => ?_, fun hclaim => ?_⟩
  · have hsteady := (steady_iff fadingAnswers).mp (hclaim fadingAnswers)
    revert hsteady
    decide
  · obtain ⟨last, hexec⟩ := exec_of_run Prober.step Guard.free .new oneFadingRun (by decide)
    have hsplit : Machine.history Prober.step Guard.free .new oneFadingRun =
        [⟨.register 7 firstAddr false, [.channel 7 firstAddr .recorded]⟩,
          ⟨.full 7 firstAddr fadingAnswers, [.channel 7 firstAddr (.sampled true),
            .channel 7 firstAddr (.sampled false), .channel 7 firstAddr (.sampled false),
            .channel 7 firstAddr (.measured 0), .channel 7 firstAddr (.sampled false),
            .channel 7 firstAddr .removed]⟩] := rfl
    have hfailed := hclaim _ _ _ hexec [_] _ [] hsplit 7 firstAddr rfl (by decide)
    revert hfailed
    decide

end LocalTrans.Routing
