import LocalTrans.Foundation.Sorting
import Mathlib.Algebra.Order.Ring.Nat
import Mathlib.Data.Prod.Lex
import Mathlib.Data.Sum.Order

/-!
# Scores of channels and the choice among them

`routing/score.rs`, with the records of `routing/mod.rs` it reads, and `failover_plan` of the shell.
A channel has a score once its round trip and its bandwidth are measured. `decide` sorts the scored
records and prefers a direct channel within `hysteresis` points of the best, and a channel in use is
only left for one that leads it by as much. The scores are computed with `f64`, of which the proofs
use nothing: `decide_stable` and `decide_led` hold of any scores.
-/

namespace LocalTrans.Routing

open Foundation

/-- `SocketAddrV4`: the address and the port. -/
abbrev SocketAddrV4 := Fin (2 ^ 32) ×ₗ Fin (2 ^ 16)

instance addresses : NeZero (2 ^ 32) := ⟨by decide⟩

instance ports : NeZero (2 ^ 16) := ⟨by decide⟩

/-- `SocketAddrV6`: the address, the port, the flow and the scope. -/
abbrev SocketAddrV6 := Fin (2 ^ 128) ×ₗ Fin (2 ^ 16) ×ₗ Fin (2 ^ 32) ×ₗ Fin (2 ^ 32)

/-- `SocketAddr`, in its derived order. -/
abbrev SocketAddr := SocketAddrV4 ⊕ₗ SocketAddrV6

/-- `ChannelRecord`, without the time of its last change, which nothing reads. -/
structure ChannelRecord where
  addr : SocketAddr
  viaRelay : Bool
  rttMs : Option UInt64
  estBps : Option UInt64
  lastFullBps : Option UInt64
  lossWindow : List Bool
  consecutiveTimeouts : Nat
  probeDisabled : Bool
  rttDoubleStreak : Nat

/-- `HYSTERESIS`. -/
def hysteresis : Nat := 15

/-- `lerp`. -/
def lerp (sHi sLo vLo vHi v : Float) : Float := sHi + (sLo - sHi) * (v - vLo) / (vHi - vLo)

/-- `f64::round`: the nearest integer, and of two the one away from zero. From `2 ^ 52` on every value
is an integer. -/
def round (x : Float) : Float :=
  let magnitude := x.abs
  if magnitude < 4503599627370496.0 then
    let whole := magnitude.toUInt64.toFloat
    let nearest := if 0.5 ≤ magnitude - whole then whole + 1.0 else whole
    if x < 0.0 then -nearest else nearest
  else x

/-- `rtt_score`. -/
def rttScore (rttMs : UInt64) : Nat :=
  let rtt := rttMs.toFloat
  let s :=
    if rtt ≤ 5.0 then 100.0
    else if rtt ≤ 50.0 then lerp 100.0 60.0 5.0 50.0 rtt
    else if rtt ≤ 200.0 then lerp 60.0 20.0 50.0 200.0 rtt
    else if rtt < 500.0 then lerp 20.0 0.0 200.0 500.0 rtt
    else 0.0
  (round s).toUInt32.toNat

/-- `f64::clamp`. -/
def clamp (value low high : Float) : Float :=
  if value < low then low else if high < value then high else value

/-- `bw_score`. -/
def bwScore (bps : UInt64) : Nat :=
  let mb10 : Float := 10.0 * 1000000.0
  let mb100 : Float := 100.0 * 1000000.0
  let b := bps.toFloat
  let s :=
    if b ≤ 1000000.0 then 0.0
    else if b < mb10 then 50.0 * (b.log10 - 6.0)
    else if b < mb100 then
      50.0 + 50.0 * (b.log10 - mb10.log10) / (mb100.log10 - mb10.log10)
    else 100.0
  (clamp (round s) 0.0 100.0).toUInt32.toNat

/-- `stability_score`. -/
def stabilityScore (lossRate : Float) : Nat :=
  if ¬ lossRate.isFinite ∨ lossRate ≤ 0.0 then 100
  else if 0.1 ≤ lossRate then 0
  else (round (100.0 * (1.0 - lossRate * 10.0))).toUInt32.toNat

/-- `score`. The weighted parts are sums of `u64` that do not overflow. -/
def score (rttMs estBps : Option UInt64) (loss10 : Float) : Option Nat :=
  match rttMs, estBps with
  | some rtt, some bps =>
    some ((50 * rttScore rtt + 35 * bwScore bps + 15 * stabilityScore loss10) / 100)
  | _, _ => none

/-- `loss_rate`. -/
def lossRate (window : List Bool) : Float :=
  if window = [] then 0.0
  else (window.countP fun ok => !ok).toFloat / window.length.toFloat

namespace ChannelRecord

/-- `ChannelRecord::loss_rate`. -/
def lossRate (record : ChannelRecord) : Float := Routing.lossRate record.lossWindow

/-- `ChannelRecord::new`. -/
def new (addr : SocketAddr) (viaRelay : Bool) : ChannelRecord :=
  { addr, viaRelay, rttMs := none, estBps := none, lastFullBps := none, lossWindow := [],
    consecutiveTimeouts := 0, probeDisabled := false, rttDoubleStreak := 0 }

/-- The score of a record, if both measurements are there. -/
def scored (record : ChannelRecord) : Option Nat :=
  score record.rttMs record.estBps record.lossRate

end ChannelRecord

/-- `find_rec`, and a change to the record that it finds. -/
def updateRecord (records : List ChannelRecord) (addr : SocketAddr)
    (change : ChannelRecord → ChannelRecord) : List ChannelRecord :=
  match records with
  | [] => []
  | r :: rest => if r.addr = addr then change r :: rest else r :: updateRecord rest addr change

/-- A new session gives a known channel another try. -/
def ChannelRecord.renew (record : ChannelRecord) : ChannelRecord :=
  { record with probeDisabled := false, rttDoubleStreak := 0 }

/-- `ChannelTable::register`, on the records of one device. A device has one channel through the
relay at a time. -/
def register (records : List ChannelRecord) (addr : SocketAddr) (viaRelay : Bool) :
    List ChannelRecord :=
  let kept := if viaRelay then records.filter fun r => !r.viaRelay || r.addr = addr else records
  if kept.any fun r => r.addr = addr then updateRecord kept addr .renew
  else kept ++ [.new addr viaRelay]

/-- How `decide` sorts: by falling score, direct channels first, and by address. -/
def rank (entry : Nat × ChannelRecord) : Natᵒᵈ ×ₗ Bool ×ₗ SocketAddr :=
  toLex (OrderDual.toDual entry.1, toLex (entry.2.viaRelay, entry.2.addr))

/-- How `decide` compares direct channels: by score, and by falling address. -/
def merit (entry : Nat × ChannelRecord) : Nat ×ₗ SocketAddrᵒᵈ :=
  toLex (entry.1, OrderDual.toDual entry.2.addr)

/-- The records that have a score, sorted. -/
def scoredRecords (records : List ChannelRecord) : List (Nat × ChannelRecord) :=
  sortBy rank (records.filterMap fun r => r.scored.map fun s => (s, r))

/-- The preferred one of sorted records: the best direct one in the band of the best, else the
best. -/
def preferred (best : Nat × ChannelRecord) (scored : List (Nat × ChannelRecord)) :
    Nat × ChannelRecord :=
  (maxByKey merit (scored.filter fun entry =>
    best.1 - entry.1 ≤ hysteresis && !entry.2.viaRelay)).getD best

/-- `decide`. -/
def decide (records : List ChannelRecord) (current : Option SocketAddr) : Option SocketAddr :=
  match scoredRecords records with
  | [] => none
  | best :: rest =>
    let preferred := preferred best (best :: rest)
    match current with
    | none => some preferred.2.addr
    | some cur =>
      match (best :: rest).find? fun entry => entry.2.addr = cur with
      | none => some preferred.2.addr
      | some (curScore, _) =>
        if preferred.2.addr = cur then none
        else if hysteresis ≤ preferred.1 - curScore then some preferred.2.addr
        else none

/-- `FailoverPlan`. -/
structure FailoverPlan where
  addr : SocketAddr
  viaRelay : Bool

/-- The records that `failover_plan` hands to `decide`. -/
def candidates (records : List ChannelRecord) (relayUp : Bool) : List ChannelRecord :=
  if relayUp then records else records.filter fun r => !r.viaRelay

/-- `failover_plan`. -/
def failoverPlan (records : List ChannelRecord) (current : SocketAddr) (relayUp : Bool) :
    Option FailoverPlan :=
  (decide (candidates records relayUp) (some current)).map fun addr =>
    { addr, viaRelay := (((candidates records relayUp).find? fun r => r.addr = addr).map
        ChannelRecord.viaRelay).getD false }

section Choice

variable {records records' : List ChannelRecord} {record : ChannelRecord}
  {current : Option SocketAddr} {addr cur : SocketAddr} {points curScore : Nat}

/-- The preferred record does not depend on the channel in use. -/
def choice (records : List ChannelRecord) : Option (Nat × ChannelRecord) :=
  match scoredRecords records with
  | [] => none
  | best :: rest => some (preferred best (best :: rest))

theorem mem_scored_records :
    (points, record) ∈ scoredRecords records ↔ record ∈ records ∧ record.scored = some points := by
  simp only [scoredRecords, mem_sort_by, List.mem_filterMap, Option.map_eq_some_iff,
    Prod.mk.injEq]
  constructor
  · rintro ⟨found, hmem, found, hscored, rfl, rfl⟩
    exact ⟨hmem, hscored⟩
  · rintro ⟨hmem, hscored⟩
    exact ⟨record, hmem, points, hscored, rfl, rfl⟩

/-- With distinct addresses the sorted records do not depend on the order of the records. -/
theorem scored_records_congr (h : records.Perm records')
    (hdistinct : (records.map ChannelRecord.addr).Nodup) :
    scoredRecords records = scoredRecords records' := by
  refine sort_by_congr (h.filterMap _) ?_
  have hpairwise : records.Pairwise fun a b => a.addr ≠ b.addr := List.pairwise_map.mp hdistinct
  refine List.pairwise_map.mpr (hpairwise.filterMap _ fun a b hne entry hentry other hother => ?_)
  obtain ⟨_, -, rfl⟩ := Option.map_eq_some_iff.mp hentry
  obtain ⟨_, -, rfl⟩ := Option.map_eq_some_iff.mp hother
  intro hrank
  have hinner := congrArg (fun key => (ofLex (ofLex key).2).2) hrank
  exact hne hinner

/-- What is preferred is one of the records. -/
theorem preferred_mem {best : Nat × ChannelRecord} {scored : List (Nat × ChannelRecord)}
    (hbest : best ∈ scored) : preferred best scored ∈ scored := by
  unfold preferred
  cases hmax : maxByKey merit (scored.filter fun entry =>
      best.1 - entry.1 ≤ hysteresis && !entry.2.viaRelay) with
  | none => exact hbest
  | some found => exact List.mem_of_mem_filter (max_by_key_mem hmax)

/-- The preferred record has a score. -/
theorem choice_scored {entry : Nat × ChannelRecord} (h : choice records = some entry) :
    entry.2 ∈ records ∧ entry.2.scored = some entry.1 := by
  unfold choice at h
  cases hsorted : scoredRecords records with
  | nil =>
    rw [hsorted] at h
    cases h
  | cons best rest =>
    rw [hsorted] at h
    obtain rfl := Option.some.inj h
    have hmem : preferred best (best :: rest) ∈ scoredRecords records := by
      rw [hsorted]
      exact preferred_mem List.mem_cons_self
    exact mem_scored_records.mp hmem

/-- The channel in use, among the sorted records. -/
theorem find_scored (hdistinct : (records.map ChannelRecord.addr).Nodup) (hmem : record ∈ records)
    (hscored : record.scored = some points) :
    (scoredRecords records).find? (fun entry => entry.2.addr = record.addr) =
      some (points, record) := by
  have hthere : (points, record) ∈ scoredRecords records :=
    mem_scored_records.mpr ⟨hmem, hscored⟩
  cases hfind : (scoredRecords records).find? fun entry => entry.2.addr = record.addr with
  | none =>
    have hnot := List.find?_eq_none.mp hfind _ hthere
    simp at hnot
  | some found =>
    obtain ⟨foundScore, foundRecord⟩ := found
    have haddr : foundRecord.addr = record.addr := by simpa using List.find?_some hfind
    obtain ⟨hfound, hpoints⟩ := mem_scored_records.mp (List.mem_of_find?_eq_some hfind)
    obtain rfl := List.inj_on_of_nodup_map hdistinct hfound hmem haddr
    rw [hscored] at hpoints
    obtain rfl := Option.some.inj hpoints
    rfl

/-- `decide` picks the preferred record, unless the channel in use has a score and is the preferred
one, or is led by less than the hysteresis. -/
theorem decide_eq : decide records current =
    (choice records).bind fun preferred =>
      match current with
      | none => some preferred.2.addr
      | some cur =>
        match (scoredRecords records).find? fun entry => entry.2.addr = cur with
        | none => some preferred.2.addr
        | some (curScore, _) =>
          if preferred.2.addr = cur then none
          else if hysteresis ≤ preferred.1 - curScore then some preferred.2.addr
          else none := by
  unfold decide choice
  cases hsorted : scoredRecords records with
  | nil => rfl
  | cons best rest => rfl

/-- Only the preferred record is ever picked. -/
theorem choice_of_decide (h : decide records current = some addr) :
    ∃ entry, choice records = some entry ∧ entry.2.addr = addr := by
  rw [decide_eq] at h
  obtain ⟨entry, hchoice, hpick⟩ := Option.bind_eq_some_iff.mp h
  refine ⟨entry, hchoice, ?_⟩
  cases current with
  | none => exact Option.some.inj hpick
  | some cur =>
    dsimp only at hpick
    split at hpick
    · exact Option.some.inj hpick
    · split at hpick
      · cases hpick
      · split at hpick
        · exact Option.some.inj hpick
        · cases hpick

/-- The channel that is in use after a decision. -/
def nextCurrent (records : List ChannelRecord) (current : Option SocketAddr) :
    Option SocketAddr :=
  (decide records current).or current

/-- A record that was picked is kept. -/
theorem decide_picked (hdistinct : (records.map ChannelRecord.addr).Nodup)
    (h : decide records current = some addr) : decide records (some addr) = none := by
  obtain ⟨entry, hchoice, rfl⟩ := choice_of_decide h
  obtain ⟨hmem, hscored⟩ := choice_scored hchoice
  rw [decide_eq, hchoice, Option.bind_some]
  dsimp only
  rw [find_scored hdistinct hmem hscored]
  exact if_pos rfl

/-- Once decided, nothing changes. -/
theorem decide_again (hdistinct : (records.map ChannelRecord.addr).Nodup) :
    decide records (nextCurrent records current) = none := by
  unfold nextCurrent
  cases h : decide records current with
  | none => exact h
  | some addr => exact decide_picked hdistinct h

/-- A channel with a score is left for one that leads it. -/
theorem decide_leads (hdistinct : (records.map ChannelRecord.addr).Nodup)
    (hmem : record ∈ records) (hscored : record.scored = some curScore)
    (h : decide records (some record.addr) = some addr) :
    ∃ target ∈ records, target.addr = addr ∧
      ∃ points, target.scored = some points ∧ curScore + hysteresis ≤ points := by
  obtain ⟨entry, hchoice, rfl⟩ := choice_of_decide h
  obtain ⟨htarget, hpoints⟩ := choice_scored hchoice
  refine ⟨entry.2, htarget, rfl, entry.1, hpoints, ?_⟩
  rw [decide_eq, hchoice, Option.bind_some] at h
  dsimp only at h
  rw [find_scored hdistinct hmem hscored] at h
  dsimp only at h
  split at h
  · cases h
  · split at h
    · next hlead =>
      unfold hysteresis at hlead ⊢
      omega
    · cases h

/-- `decide` does not depend on the order of the records, picks one of those that have a score, is
content with what it picked or kept, and leaves a channel with a score only for one that leads it by
the hysteresis. -/
theorem decide_stable (records : List ChannelRecord) (current : Option SocketAddr)
    (hdistinct : (records.map ChannelRecord.addr).Nodup) :
    (∀ records', records.Perm records' → decide records' current = decide records current) ∧
    (∀ addr, decide records current = some addr →
      ∃ r ∈ records, r.addr = addr ∧ r.scored ≠ none) ∧
    (∀ addr, decide records current = some addr → decide records (some addr) = none) ∧
    decide records (nextCurrent records current) = none ∧
    (∀ r ∈ records, ∀ curScore, current = some r.addr → r.scored = some curScore →
      ∀ addr, decide records current = some addr → ∃ target ∈ records, target.addr = addr ∧
        ∃ points, target.scored = some points ∧ curScore + hysteresis ≤ points) := by
  refine ⟨fun records' hperm => ?_, fun addr h => ?_, fun addr h => decide_picked hdistinct h,
    decide_again hdistinct, ?_⟩
  · unfold decide
    rw [scored_records_congr hperm hdistinct]
  · obtain ⟨entry, hchoice, rfl⟩ := choice_of_decide h
    obtain ⟨hmem, hscored⟩ := choice_scored hchoice
    exact ⟨entry.2, hmem, rfl, by simp [hscored]⟩
  · rintro r hmem curScore rfl hscored addr h
    exact decide_leads hdistinct hmem hscored h

/-- Two channels: one direct, one through the relay. -/
def sampleRecords : List ChannelRecord :=
  let direct : SocketAddr := toLex (.inl (toLex (167772161, 9000)))
  let relayed : SocketAddr := toLex (.inl (toLex (3405803777, 9443)))
  [{ ChannelRecord.new direct false with rttMs := some 28, estBps := some 28000000 },
   { ChannelRecord.new relayed true with rttMs := some 2, estBps := some 100000000 }]

theorem decide_stable_sample :
    decide sampleRecords.reverse none = decide sampleRecords none ∧
      decide sampleRecords (nextCurrent sampleRecords none) = none := by
  obtain ⟨horder, -, -, hagain, -⟩ := decide_stable sampleRecords none (by decide)
  exact ⟨horder _ sampleRecords.reverse_perm.symm, hagain⟩

/-- The record is direct, and within the hysteresis of every other one. -/
def InBand (records : List ChannelRecord) (record : ChannelRecord) : Prop :=
  record.viaRelay = false ∧ ∃ points, record.scored = some points ∧
    ∀ other ∈ records, ∀ rival, other.scored = some rival → rival ≤ points + hysteresis

/-- The first of the sorted records has the most points. -/
theorem best_points {best : Nat × ChannelRecord} {rest : List (Nat × ChannelRecord)}
    (hsorted : scoredRecords records = best :: rest) (hmem : record ∈ records)
    (hscored : record.scored = some points) : points ≤ best.1 := by
  have hthere : (points, record) ∈ best :: rest :=
    hsorted ▸ mem_scored_records.mpr ⟨hmem, hscored⟩
  have hpairwise : (best :: rest).Pairwise fun a b => rank a ≤ rank b := by
    rw [← hsorted]
    exact sort_by_sorted rank _
  rcases List.mem_cons.mp hthere with rfl | hrest
  · exact le_refl _
  · have hrank := (List.pairwise_cons.mp hpairwise).1 _ hrest
    exact OrderDual.toDual_le_toDual.mp (Prod.Lex.monotone_fst _ _ hrank)

/-- What is preferred: the best direct record if one is in the band, else the best record. -/
theorem choice_spec {entry : Nat × ChannelRecord} (h : choice records = some entry) :
    ((∃ direct ∈ records, InBand records direct) → entry.2.viaRelay = false ∧
      ∀ direct ∈ records, direct.viaRelay = false → ∀ points, direct.scored = some points →
        points ≤ entry.1) ∧
    ((¬ ∃ direct ∈ records, InBand records direct) →
      ∀ other ∈ records, ∀ points, other.scored = some points → points ≤ entry.1) := by
  unfold choice at h
  cases hsorted : scoredRecords records with
  | nil =>
    rw [hsorted] at h
    cases h
  | cons best rest =>
    rw [hsorted] at h
    obtain rfl := Option.some.inj h
    have hbest : best.2 ∈ records ∧ best.2.scored = some best.1 :=
      mem_scored_records.mp (hsorted ▸ List.mem_cons_self)
    -- The records of the band are the direct ones within the hysteresis of the best.
    have hband : ∀ points record, (points, record) ∈ ((best :: rest).filter fun entry =>
        best.1 - entry.1 ≤ hysteresis && !entry.2.viaRelay) ↔
          (record ∈ records ∧ record.scored = some points) ∧ InBand records record := by
      intro points record
      rw [List.mem_filter, ← hsorted, mem_scored_records]
      refine and_congr_right fun hentry => ?_
      rw [Bool.and_eq_true, decide_eq_true_iff]
      constructor
      · rintro ⟨hnear, hdirect⟩
        refine ⟨by simpa using hdirect, points, hentry.2, fun other hmem rival hrival => ?_⟩
        have hless := best_points hsorted hmem hrival
        omega
      · rintro ⟨hdirect, found, hfound, hall⟩
        obtain rfl := Option.some.inj (hentry.2.symm.trans hfound)
        have hnear := hall best.2 hbest.1 best.1 hbest.2
        exact ⟨by omega, by simp [hdirect]⟩
    unfold preferred
    cases hmax : maxByKey merit ((best :: rest).filter fun entry =>
        best.1 - entry.1 ≤ hysteresis && !entry.2.viaRelay) with
    | none =>
      refine ⟨?_, fun _ other hmem points hscored => best_points hsorted hmem hscored⟩
      rintro ⟨direct, hmem, hrelay, points, hscored, hnear⟩
      have hthere := (hband points direct).mpr
        ⟨⟨hmem, hscored⟩, hrelay, points, hscored, hnear⟩
      rw [max_by_key_none.mp hmax] at hthere
      cases hthere
    | some found =>
      obtain ⟨⟨hmem, hscored⟩, hin⟩ := (hband found.1 found.2).mp (max_by_key_mem hmax)
      refine ⟨fun _ => ⟨hin.1, ?_⟩, fun hnone => absurd ⟨found.2, hmem, hin⟩ hnone⟩
      intro direct hdirect hrelay points hpoints
      show points ≤ found.1
      by_cases hnear : best.1 - points ≤ hysteresis
      · have hthere : (points, direct) ∈ (best :: rest).filter fun entry =>
            best.1 - entry.1 ≤ hysteresis && !entry.2.viaRelay := by
          rw [List.mem_filter, ← hsorted]
          exact ⟨mem_scored_records.mpr ⟨hdirect, hpoints⟩, by simp [hnear, hrelay]⟩
        exact Prod.Lex.monotone_fst _ _ (max_by_key_le hmax hthere)
      · obtain ⟨-, own, hown, hall⟩ := hin
        obtain rfl := Option.some.inj (hscored.symm.trans hown)
        have hall := hall best.2 hbest.1 best.1 hbest.2
        omega

/-- Where some record leads the channel in use by the hysteresis, the channel is kept exactly if a
direct channel is in the band of the best and none of the direct ones leads by as much. With twice
the hysteresis it is never kept. -/
theorem decide_led (records : List ChannelRecord) (record : ChannelRecord) (curScore : Nat)
    (hdistinct : (records.map ChannelRecord.addr).Nodup) (hmem : record ∈ records)
    (hscored : record.scored = some curScore)
    (hlead : ∃ better ∈ records, ∃ points, better.scored = some points ∧
      curScore + hysteresis ≤ points) :
    (decide records (some record.addr) = none ↔
      (∃ direct ∈ records, InBand records direct) ∧
        ∀ direct ∈ records, direct.viaRelay = false → ∀ points, direct.scored = some points →
          points < curScore + hysteresis) ∧
    ((∃ better ∈ records, ∃ points, better.scored = some points ∧
      curScore + 2 * hysteresis ≤ points) → decide records (some record.addr) ≠ none) := by
  obtain ⟨better, hbetter, lead, hleads, hmore⟩ := hlead
  have hchoice : ∃ entry, choice records = some entry := by
    have hthere := mem_scored_records.mpr ⟨hmem, hscored⟩
    unfold choice
    cases hsorted : scoredRecords records with
    | nil =>
      rw [hsorted] at hthere
      cases hthere
    | cons best rest => exact ⟨_, rfl⟩
  obtain ⟨entry, hchoice⟩ := hchoice
  obtain ⟨hpicked, hpoints⟩ := choice_scored hchoice
  obtain ⟨hdirect, hbest⟩ := choice_spec hchoice
  have hkeeps : decide records (some record.addr) = none ↔ entry.1 < curScore + hysteresis := by
    rw [decide_eq, hchoice, Option.bind_some]
    dsimp only
    rw [find_scored hdistinct hmem hscored]
    dsimp only
    by_cases hsame : entry.2.addr = record.addr
    · have hrecord := List.inj_on_of_nodup_map hdistinct hpicked hmem hsame
      rw [hrecord, hscored] at hpoints
      obtain rfl := Option.some.inj hpoints
      simp [hsame, hysteresis]
    · by_cases hless : hysteresis ≤ entry.1 - curScore
      · simp only [if_neg hsame, if_pos hless, reduceCtorEq, false_iff, not_lt]
        unfold hysteresis at hless ⊢
        omega
      · simp only [if_neg hsame, if_neg hless, true_iff]
        omega
  have hiff : decide records (some record.addr) = none ↔
      (∃ direct ∈ records, InBand records direct) ∧
        ∀ direct ∈ records, direct.viaRelay = false → ∀ points, direct.scored = some points →
          points < curScore + hysteresis := by
    rw [hkeeps]
    by_cases hband : ∃ direct ∈ records, InBand records direct
    · obtain ⟨hrelay, hmost⟩ := hdirect hband
      constructor
      · intro hless
        refine ⟨hband, fun direct hmem hrelay points hscored => ?_⟩
        exact lt_of_le_of_lt (hmost direct hmem hrelay points hscored) hless
      · rintro ⟨-, hall⟩
        exact hall entry.2 hpicked hrelay entry.1 hpoints
    · refine ⟨fun hless => ?_, fun hkeep => absurd hkeep.1 hband⟩
      have hmost := hbest hband better hbetter lead hleads
      omega
  refine ⟨hiff, ?_⟩
  rintro ⟨far, hfar, points, hscore, hpoints⟩ hnone
  obtain ⟨⟨direct, hmemDirect, hrelay, own, hown, hnear⟩, hall⟩ := hiff.mp hnone
  have hless := hall direct hmemDirect hrelay own hown
  have hnear := hnear far hfar points hscore
  omega

/-- Three channels: through the relay with 100 points, and direct ones with 90 and 85. -/
def ledRecords : List ChannelRecord :=
  let near : SocketAddr := toLex (.inl (toLex (167772161, 9000)))
  let used : SocketAddr := toLex (.inl (toLex (167772162, 9000)))
  let relayed : SocketAddr := toLex (.inl (toLex (3405803777, 9443)))
  [{ ChannelRecord.new relayed true with rttMs := some 2, estBps := some 100000000 },
   { ChannelRecord.new near false with rttMs := some 28, estBps := some 100000000 },
   { ChannelRecord.new used false with
      rttMs := some 5, estBps := some 100000000,
      lossWindow := [false, true, true, true, true, true, true, true, true, true] }]

/-- The relay leads the last channel by the hysteresis and the direct channel that is preferred leads
it by less, so it is kept. -/
theorem decide_led_kept :
    ¬ ∀ (records : List ChannelRecord) (record : ChannelRecord) (curScore : Nat),
      (records.map ChannelRecord.addr).Nodup → record ∈ records → record.scored = some curScore →
      (∃ better ∈ records, ∃ points, better.scored = some points ∧
        curScore + hysteresis ≤ points) →
      decide records (some record.addr) ≠ none := by
  intro hclaim
  have hscored : ledRecords.map ChannelRecord.scored = [some 100, some 90, some 85] := by
    decide +kernel
  obtain ⟨hrelayed, -, hused⟩ : (ledRecords.get ⟨0, by decide⟩).scored = some 100 ∧
      (ledRecords.get ⟨1, by decide⟩).scored = some 90 ∧
      (ledRecords.get ⟨2, by decide⟩).scored = some 85 := by
    simpa [ledRecords] using hscored
  refine hclaim ledRecords (ledRecords.get ⟨2, by decide⟩) 85 (by decide) (List.get_mem _ _) hused
    ⟨_, List.get_mem _ _, 100, hrelayed, by decide⟩ ?_
  decide +kernel

/-- Two channels: a slow direct one with 55 points, and one through the relay with 100. -/
def slowRecords : List ChannelRecord :=
  let direct : SocketAddr := toLex (.inl (toLex (167772161, 9000)))
  let relayed : SocketAddr := toLex (.inl (toLex (3405803777, 9443)))
  [{ ChannelRecord.new direct false with rttMs := some 28, estBps := some 1000000 },
   { ChannelRecord.new relayed true with rttMs := some 2, estBps := some 100000000 }]

theorem decide_led_sample :
    (slowRecords.get ⟨0, by decide⟩).scored = some 55 ∧
      decide slowRecords (some (slowRecords.get ⟨0, by decide⟩).addr) ≠ none := by
  have hscored : slowRecords.map ChannelRecord.scored = [some 55, some 100] := by decide +kernel
  obtain ⟨hdirect, hrelayed⟩ : (slowRecords.get ⟨0, by decide⟩).scored = some 55 ∧
      (slowRecords.get ⟨1, by decide⟩).scored = some 100 := by
    simpa [slowRecords] using hscored
  obtain ⟨-, hleft⟩ := decide_led slowRecords (slowRecords.get ⟨0, by decide⟩) 55 (by decide)
    (List.get_mem _ _) hdirect ⟨_, List.get_mem _ _, 100, hrelayed, by decide⟩
  exact ⟨hdirect, hleft ⟨_, List.get_mem _ _, 100, hrelayed, by decide⟩⟩

/-- A change that leaves the address leaves all of them. -/
theorem update_record_addrs {change : ChannelRecord → ChannelRecord}
    (hchange : ∀ r, (change r).addr = r.addr) :
    (updateRecord records addr change).map ChannelRecord.addr = records.map ChannelRecord.addr := by
  induction records with
  | nil => rfl
  | cons r rest ih =>
    unfold updateRecord
    split
    · simp [hchange]
    · simp [ih]

/-- Records keep distinct addresses when a channel is registered. -/
theorem register_distinct (hdistinct : (records.map ChannelRecord.addr).Nodup)
    (addr : SocketAddr) (viaRelay : Bool) :
    ((register records addr viaRelay).map ChannelRecord.addr).Nodup := by
  unfold register
  generalize hkept : (if viaRelay then records.filter fun r => !r.viaRelay || r.addr = addr
    else records) = kept
  have hsub : kept.Sublist records := by
    rw [← hkept]
    split
    · exact List.filter_sublist
    · exact List.Sublist.refl records
  have hnodup := (hsub.map ChannelRecord.addr).nodup hdistinct
  dsimp only
  split
  · have hsame : ∀ r : ChannelRecord, r.renew.addr = r.addr := fun _ => rfl
    rw [update_record_addrs hsame]
    exact hnodup
  · next hnew =>
    rw [List.map_append, List.nodup_append]
    refine ⟨hnodup, List.nodup_singleton _, ?_⟩
    rintro found hfound other hother rfl
    obtain ⟨r, hmem, hr⟩ := List.mem_map.mp hfound
    rw [List.map_singleton, List.mem_singleton] at hother
    have hsame : r.addr = addr := hr.trans hother
    exact hnew (List.any_eq_true.mpr ⟨r, hmem, by simpa using hsame⟩)

/-- The records of `failover_plan` have distinct addresses. -/
theorem candidates_distinct (hdistinct : (records.map ChannelRecord.addr).Nodup)
    (relayUp : Bool) : ((candidates records relayUp).map ChannelRecord.addr).Nodup := by
  unfold candidates
  split
  · exact hdistinct
  · exact (List.filter_sublist.map ChannelRecord.addr).nodup hdistinct

/-- A failover goes to one of the candidates, says rightly whether it is relayed, and is not followed
by another one. -/
theorem failover_plan_target (hdistinct : (records.map ChannelRecord.addr).Nodup)
    {relayUp : Bool} {plan : FailoverPlan} (h : failoverPlan records cur relayUp = some plan) :
    (∃ r ∈ candidates records relayUp, r.addr = plan.addr ∧ r.viaRelay = plan.viaRelay) ∧
      failoverPlan records plan.addr relayUp = none := by
  obtain ⟨addr, hdecide, rfl⟩ := Option.map_eq_some_iff.mp h
  have hcandidates := candidates_distinct hdistinct relayUp
  obtain ⟨⟨points, r⟩, hchoice, rfl⟩ := choice_of_decide hdecide
  have hmem : r ∈ candidates records relayUp := (choice_scored hchoice).1
  have hfind : (candidates records relayUp).find? (fun found => found.addr = r.addr) = some r := by
    cases hfind : (candidates records relayUp).find? fun found => found.addr = r.addr with
    | none => simpa using List.find?_eq_none.mp hfind r hmem
    | some found =>
      have haddr : found.addr = r.addr := by simpa using List.find?_some hfind
      exact congrArg some
        (List.inj_on_of_nodup_map hcandidates (List.mem_of_find?_eq_some hfind) hmem haddr)
  refine ⟨⟨r, hmem, rfl, ?_⟩, ?_⟩
  · dsimp only
    rw [hfind]
    rfl
  · show (decide _ (some r.addr)).map _ = none
    rw [decide_picked hcandidates hdecide]
    rfl

end Choice

end LocalTrans.Routing
