import LocalTrans.Discovery.Packets
import LocalTrans.Foundation.Execution

/-!
# Replayed discovery packets

A `Receiver` calls `verify_and_parse` with one `ReplayGuard` at times that do not go back. A nonce
is remembered with one time: a packet with the same nonce and another time takes the place of the
first one, and a packet that is as old as a packet may be is forgotten at the next call. A packet
is `Lasting` if neither happens; `accepted_once` says that then no bytes are accepted twice, and
`accepted_again` that otherwise some can be at once.
-/

namespace LocalTrans.Discovery

open Foundation

/-- The guard, and the time of the last call. -/
structure Receiver where
  guard : ReplayGuard
  clock : Nat

/-- What came of a call. -/
inductive Verdict where
  | accepted (bytes : List UInt8) (pkt : DiscoveryPacket)
  | refused (bytes : List UInt8) (error : DiscoveryError)

/-- The bytes that were accepted. -/
def acceptedBytes (trace : List Verdict) : List (List UInt8) :=
  trace.filterMap fun
    | .accepted bytes _ => some bytes
    | .refused _ _ => none

namespace Receiver

/-- No call was made yet. -/
def start : Receiver := { guard := .new, clock := 0 }

/-- A call of `verify_and_parse` with bytes and a time that is not before the last one. -/
def step (codec : Codec) : Machine Receiver (List UInt8 × Nat) Verdict :=
  fun s (bytes, nowMs) =>
    if nowMs < s.clock then none
    else match verifyAndParse codec bytes nowMs s.guard with
      | (guard, .ok pkt) => some ({ guard, clock := nowMs }, [.accepted bytes pkt])
      | (guard, .error error) => some ({ guard, clock := nowMs }, [.refused bytes error])

end Receiver

/-- A packet for which there is room is younger than the cutoff, and its nonce is not there with
another time. -/
def Lasting (guard : ReplayGuard) (pkt : DiscoveryPacket) (nowMs : Nat) : Prop :=
  (guard.kept nowMs).entries.length < nonceCapacity →
    ReplayGuard.cutoff nowMs < pkt.tsMs ∧
      ((guard.kept nowMs).lookup pkt.nonce = none ∨
        (guard.kept nowMs).lookup pkt.nonce = some pkt.tsMs)
deriving Decidable

/-- The signed packets whose time is near enough are lasting. -/
def lasting (codec : Codec) : Guard Receiver (List UInt8 × Nat) Verdict :=
  fun _ s (bytes, nowMs) =>
    match signedPacket codec bytes with
    | some pkt => InWindow pkt nowMs → Lasting s.guard pkt nowMs
    | none => True

instance (codec : Codec) (trace : List Verdict) (s : Receiver) (input : List UInt8 × Nat) :
    Decidable (lasting codec trace s input) :=
  match h : signedPacket codec input.1 with
  | some pkt => decidable_of_iff (InWindow pkt input.2 → Lasting s.guard pkt input.2) (by
      simp [lasting, h])
  | none => isTrue (by simp [lasting, h])

section Runs

variable {codec : Codec} {bytes : List UInt8} {pkt : DiscoveryPacket} {nonce : Nonce}
  {ts nowMs : Nat} {s next : Receiver} {emitted trace : List Verdict}
  {inputs : List (List UInt8 × Nat)} {guard : Guard Receiver (List UInt8 × Nat) Verdict}

/-- What a call does: it accepts a packet and enters its nonce, or refuses the bytes and leaves
the guard as it is or without the old nonces. -/
theorem step_cases (h : Receiver.step codec s (bytes, nowMs) = some (next, emitted)) :
    s.clock ≤ nowMs ∧ next.clock = nowMs ∧
      ((∃ pkt, emitted = [.accepted bytes pkt] ∧ Signed codec bytes pkt ∧ InWindow pkt nowMs ∧
          s.guard.checkNonce pkt.nonce pkt.tsMs nowMs = (next.guard, .ok ())) ∨
        ∃ error, emitted = [.refused bytes error] ∧
          (next.guard = s.guard ∨ next.guard = ⟨s.guard.kept nowMs⟩)) := by
  simp only [Receiver.step] at h
  split at h
  · cases h
  next hclock =>
  refine ⟨by omega, ?_⟩
  split at h
  · next after pkt hresult =>
    obtain ⟨rfl, rfl⟩ := answer_inj h
    obtain ⟨hsigned, hwindow, hcheck⟩ := accepted_iff.mp hresult
    exact ⟨rfl, .inl ⟨pkt, rfl, hsigned, hwindow, hcheck⟩⟩
  · next after error hresult =>
    obtain ⟨rfl, rfl⟩ := answer_inj h
    refine ⟨rfl, .inr ⟨error, rfl, ?_⟩⟩
    show after = s.guard ∨ after = ⟨s.guard.kept nowMs⟩
    rcases verify_and_parse_cases codec bytes nowMs s.guard with
      ⟨-, hcase | hcase⟩ | ⟨pkt, -, ⟨-, hcase⟩ | ⟨-, hcase⟩⟩
    · exact .inl (Prod.mk.inj (hresult.symm.trans hcase)).1
    · exact .inl (Prod.mk.inj (hresult.symm.trans hcase)).1
    · exact .inl (Prod.mk.inj (hresult.symm.trans hcase)).1
    · obtain ⟨hguard, herror⟩ := Prod.mk.inj (hresult.symm.trans hcase)
      cases hchecked : s.guard.checkNonce pkt.nonce pkt.tsMs nowMs with
      | mk checked result =>
        rw [hchecked] at hguard herror
        cases result with
        | ok _ => cases herror
        | error other =>
          exact .inr (hguard.trans (ReplayGuard.check_nonce_error hchecked))

theorem lasting_of_signed (h : lasting codec trace s (bytes, nowMs))
    (hsigned : Signed codec bytes pkt) (hwindow : InWindow pkt nowMs) :
    Lasting s.guard pkt nowMs := by
  simp only [lasting, signed_packet_iff.mpr hsigned] at h
  exact h hwindow

theorem cutoff_mono {earlier later : Nat} (h : earlier ≤ later) :
    ReplayGuard.cutoff earlier ≤ ReplayGuard.cutoff later :=
  Nat.sub_le_sub_right h _

theorem mem_accepted_bytes_iff :
    bytes ∈ acceptedBytes trace ↔ ∃ pkt, .accepted bytes pkt ∈ trace := by
  simp only [acceptedBytes, List.mem_filterMap]
  constructor
  · rintro ⟨verdict, hmem, hbytes⟩
    cases verdict with
    | accepted found pkt =>
      obtain rfl := Option.some.inj hbytes
      exact ⟨pkt, hmem⟩
    | refused found error => cases hbytes
  · rintro ⟨pkt, hmem⟩
    exact ⟨_, hmem, rfl⟩

/-- The guard is within its capacity, an accepted packet was signed and was not too far in the
future, and a nonce of the guard is that of an accepted packet. -/
structure Recorded (codec : Codec) (trace : List Verdict) (s : Receiver) : Prop where
  bounded : s.guard.nonces.entries.length ≤ nonceCapacity
  signed : ∀ bytes pkt, .accepted bytes pkt ∈ trace → Signed codec bytes pkt
  past : ∀ bytes pkt, .accepted bytes pkt ∈ trace → pkt.tsMs ≤ s.clock + clockSkewToleranceMs
  source : ∀ nonce ts, s.guard.nonces.lookup nonce = some ts →
    ∃ bytes pkt, .accepted bytes pkt ∈ trace ∧ pkt.nonce = nonce ∧ pkt.tsMs = ts

theorem recorded (h : Exec (Receiver.step codec) guard .start inputs trace s) :
    Recorded codec trace s := by
  induction h with
  | start =>
    refine ⟨Nat.zero_le _, fun _ _ hmem => (nomatch hmem), fun _ _ hmem => (nomatch hmem), ?_⟩
    intro nonce ts hlookup
    cases hlookup
  | @step inputs trace s next input emitted _ _ hnext ih =>
    obtain ⟨bytes, nowMs⟩ := input
    obtain ⟨hclock, hnow, ⟨pkt, rfl, hsigned, hwindow, hcheck⟩ | ⟨error, rfl, hguard⟩⟩ :=
      step_cases hnext
    · obtain ⟨-, hroom, hentered⟩ := ReplayGuard.check_nonce_ok_iff.mp hcheck
      refine ⟨?_, ?_, ?_, ?_⟩
      · have hbound : (s.guard.checkNonce pkt.nonce pkt.tsMs nowMs).1.nonces.entries.length ≤
            nonceCapacity := ReplayGuard.length_check_nonce_le ih.bounded
        rw [hcheck] at hbound
        exact hbound
      · intro found other hmem
        rcases List.mem_append.mp hmem with hold | hnew
        · exact ih.signed found other hold
        · cases List.mem_singleton.mp hnew
          exact hsigned
      · intro found other hmem
        rw [hnow]
        rcases List.mem_append.mp hmem with hold | hnew
        · have hpast := ih.past found other hold
          omega
        · cases List.mem_singleton.mp hnew
          exact hwindow.2
      · intro nonce ts hlookup
        rw [hentered] at hlookup
        rcases lookup_insert_iff.mp hlookup with ⟨rfl, rfl⟩ | ⟨-, hkept⟩
        · exact ⟨bytes, pkt, by simp, rfl, rfl⟩
        · obtain ⟨found, other, hmem, hsource⟩ :=
            ih.source nonce ts (ReplayGuard.lookup_kept_iff.mp hkept).1
          exact ⟨found, other, List.mem_append_left _ hmem, hsource⟩
    · have hold : ∀ found other, Verdict.accepted found other ∈ trace ++ [.refused bytes error] →
          Verdict.accepted found other ∈ trace := by
        intro found other hmem
        simpa using hmem
      have hlookup : ∀ nonce ts, next.guard.nonces.lookup nonce = some ts →
          s.guard.nonces.lookup nonce = some ts := by
        intro nonce ts hfound
        rcases hguard with hsame | hkept
        · rwa [hsame] at hfound
        · rw [hkept] at hfound
          exact (ReplayGuard.lookup_kept_iff.mp hfound).1
      refine ⟨?_, fun found other hmem => ih.signed found other (hold _ _ hmem), ?_, ?_⟩
      · rcases hguard with hsame | hkept
        · rw [hsame]
          exact ih.bounded
        · rw [hkept]
          exact Nat.le_trans length_retain_le ih.bounded
      · intro found other hmem
        have hpast := ih.past found other (hold _ _ hmem)
        omega
      · intro nonce ts hfound
        obtain ⟨found, other, hmem, hsource⟩ := ih.source nonce ts (hlookup nonce ts hfound)
        exact ⟨found, other, List.mem_append_left _ hmem, hsource⟩

/-- An accepted packet is too old by now, or its nonce is there with its time. -/
def Protected (trace : List Verdict) (s : Receiver) : Prop :=
  ∀ bytes pkt, .accepted bytes pkt ∈ trace →
    pkt.tsMs ≤ ReplayGuard.cutoff s.clock ∨ s.guard.nonces.lookup pkt.nonce = some pkt.tsMs

/-- What is protected is too old later, or kept. -/
theorem Protected.kept (h : Protected trace s) (hclock : s.clock ≤ nowMs)
    (hmem : .accepted bytes pkt ∈ trace) :
    pkt.tsMs ≤ ReplayGuard.cutoff nowMs ∨
      (s.guard.kept nowMs).lookup pkt.nonce = some pkt.tsMs := by
  have hmono := cutoff_mono hclock
  rcases h bytes pkt hmem with hold | hlookup
  · exact .inl (Nat.le_trans hold hmono)
  · by_cases hage : ReplayGuard.cutoff nowMs < pkt.tsMs
    · exact .inr (ReplayGuard.lookup_kept_iff.mpr ⟨hlookup, hage⟩)
    · exact .inl (by omega)

/-- Where all packets are lasting, accepted packets are protected. -/
theorem protected_of_lasting
    (h : Exec (Receiver.step codec) (lasting codec) .start inputs trace s) :
    Protected trace s := by
  induction h with
  | start => exact fun _ _ hmem => nomatch hmem
  | @step inputs trace s next input emitted _ hlasting hnext ih =>
    obtain ⟨bytes, nowMs⟩ := input
    obtain ⟨hclock, hnow, ⟨pkt, rfl, hsigned, hwindow, hcheck⟩ | ⟨error, rfl, hguard⟩⟩ :=
      step_cases hnext
    · obtain ⟨hnew, hroom, hentered⟩ := ReplayGuard.check_nonce_ok_iff.mp hcheck
      obtain ⟨-, hplace⟩ := lasting_of_signed hlasting hsigned hwindow hroom
      intro found other hmem
      rw [hnow, hentered]
      rcases List.mem_append.mp hmem with hold | hlast
      · refine (ih.kept hclock hold).imp id fun hkept => ?_
        refine lookup_insert_iff.mpr (.inr ⟨fun hsame => ?_, hkept⟩)
        -- the place of the nonce is free, or taken by this very packet
        rw [hsame] at hkept
        rcases hplace with hfree | htaken
        · rw [hfree] at hkept
          cases hkept
        · exact hnew htaken
      · cases List.mem_singleton.mp hlast
        exact .inr (lookup_insert_iff.mpr (.inl ⟨rfl, rfl⟩))
    · intro found other hmem
      have hold : Verdict.accepted found other ∈ trace := by simpa using hmem
      rw [hnow]
      rcases hguard with hsame | hkept
      · rw [hsame]
        exact (ih found other hold).imp (Nat.le_trans · (cutoff_mono hclock)) id
      · rw [hkept]
        exact ih.kept hclock hold

/-- Where all packets are lasting, no bytes are accepted twice, the guard stays within its
capacity, and bytes that are no signed packet leave it as it is. -/
theorem accepted_once (h : Exec (Receiver.step codec) (lasting codec) .start inputs trace s) :
    (acceptedBytes trace).Nodup ∧ s.guard.nonces.entries.length ≤ nonceCapacity ∧
      ∀ bytes nowMs next emitted, (∀ pkt, ¬ Signed codec bytes pkt) →
        Receiver.step codec s (bytes, nowMs) = some (next, emitted) → next.guard = s.guard := by
  refine ⟨?_, (recorded h).bounded, ?_⟩
  · induction h with
    | start => exact List.nodup_nil
    | @step inputs trace s next input emitted hbefore hlasting hnext ih =>
      obtain ⟨bytes, nowMs⟩ := input
      obtain ⟨hclock, -, ⟨pkt, rfl, hsigned, hwindow, hcheck⟩ | ⟨error, rfl, -⟩⟩ :=
        step_cases hnext
      · have hsplit : acceptedBytes (trace ++ [.accepted bytes pkt]) =
            acceptedBytes trace ++ [bytes] := by simp [acceptedBytes]
        rw [hsplit]
        refine List.Nodup.append ih (List.nodup_singleton _) ?_
        rw [List.disjoint_singleton]
        intro hagain
        obtain ⟨other, hmem⟩ := mem_accepted_bytes_iff.mp hagain
        obtain rfl := hsigned.unique ((recorded hbefore).signed bytes other hmem)
        obtain ⟨hnew, hroom, -⟩ := ReplayGuard.check_nonce_ok_iff.mp hcheck
        obtain ⟨hyoung, -⟩ := lasting_of_signed hlasting hsigned hwindow hroom
        rcases (protected_of_lasting hbefore).kept hclock hmem with hold | hkept
        · omega
        · exact hnew hkept
      · have hsplit : acceptedBytes (trace ++ [.refused bytes error]) = acceptedBytes trace := by
          simp [acceptedBytes]
        rw [hsplit]
        exact ih
  · intro bytes nowMs next emitted hnot hnext
    simp only [Receiver.step] at hnext
    split at hnext
    · cases hnext
    have hguard : (verifyAndParse codec bytes nowMs s.guard).1 = s.guard :=
      guard_of_not_signed hnot
    split at hnext
    · next after pkt hresult =>
      obtain ⟨rfl, -⟩ := answer_inj hnext
      rw [hresult] at hguard
      exact hguard
    · next after error hresult =>
      obtain ⟨rfl, -⟩ := answer_inj hnext
      rw [hresult] at hguard
      exact hguard

/-- A signed packet whose nonce is entered is accepted. -/
theorem step_of_entered {after : ReplayGuard} (hsigned : Signed codec bytes pkt)
    (hwindow : InWindow pkt nowMs) (hclock : s.clock ≤ nowMs)
    (hcheck : s.guard.checkNonce pkt.nonce pkt.tsMs nowMs = (after, .ok ())) :
    Receiver.step codec s (bytes, nowMs) =
      some ({ guard := after, clock := nowMs }, [.accepted bytes pkt]) := by
  have hresult := accepted_iff.mpr ⟨hsigned, hwindow, hcheck⟩
  simp only [Receiver.step, hresult]
  rw [if_neg (by omega)]

/-- After a packet that is not lasting, some bytes are accepted at once for the second time: the
packet itself, or the one whose place it has taken. -/
theorem accepted_again (h : Exec (Receiver.step codec) guard .start inputs trace s)
    (hsigned : Signed codec bytes pkt) (hwindow : InWindow pkt nowMs) (hclock : s.clock ≤ nowMs)
    (hnot : ¬ Lasting s.guard pkt nowMs) :
    ∃ next emitted again other last,
      Receiver.step codec s (bytes, nowMs) = some (next, emitted) ∧
        again ∈ acceptedBytes (trace ++ emitted) ∧
          Receiver.step codec next (again, nowMs) = some (last, [.accepted again other]) := by
  unfold Lasting at hnot
  push Not at hnot
  obtain ⟨hroom, hnot⟩ := hnot
  have hnew : (s.guard.kept nowMs).lookup pkt.nonce ≠ some pkt.tsMs := by
    intro hfound
    exact (hnot (ReplayGuard.lookup_kept_iff.mp hfound).2).2 hfound
  have hentered := ReplayGuard.check_nonce_ok_iff.mpr ⟨hnew, hroom, rfl⟩
  have hplace : ((s.guard.kept nowMs).insert pkt.nonce pkt.tsMs).lookup pkt.nonce =
      some pkt.tsMs := AList.lookup_insert _
  have hfirst := step_of_entered hsigned hwindow hclock hentered
  by_cases hyoung : ReplayGuard.cutoff nowMs < pkt.tsMs
  · obtain ⟨hsome, -⟩ := hnot hyoung
    obtain ⟨ts, hts⟩ := Option.ne_none_iff_exists'.mp hsome
    obtain ⟨hlookup, hage⟩ := ReplayGuard.lookup_kept_iff.mp hts
    obtain ⟨again, other, hmem, hnonce, rfl⟩ := (recorded h).source pkt.nonce ts hlookup
    have hpast := (recorded h).past again other hmem
    have hin : InWindow other nowMs := by
      unfold ReplayGuard.cutoff at hage
      exact ⟨by omega, by omega⟩
    refine ⟨_, _, again, other, _, hfirst, mem_accepted_bytes_iff.mpr
      ⟨other, List.mem_append_left _ hmem⟩, step_of_entered ((recorded h).signed again other hmem)
      hin (Nat.le_refl _) (ReplayGuard.check_nonce_ok_iff.mpr ⟨?_, ?_, rfl⟩)⟩
    · intro hfound
      have hthere := (ReplayGuard.lookup_kept_iff.mp hfound).1
      rw [hnonce] at hthere
      have hsame : pkt.tsMs = other.tsMs := Option.some.inj (hplace.symm.trans hthere)
      rw [hsame] at hnew
      exact hnew hts
    · refine Nat.lt_of_le_of_lt length_retain_le ?_
      show ((s.guard.kept nowMs).insert pkt.nonce pkt.tsMs).entries.length < nonceCapacity
      rw [length_insert_of_mem hts]
      exact hroom
  · refine ⟨_, _, bytes, pkt, _, hfirst, mem_accepted_bytes_iff.mpr ⟨pkt, by simp⟩,
      step_of_entered hsigned hwindow (Nat.le_refl _)
        (ReplayGuard.check_nonce_ok_iff.mpr ⟨?_, ?_, rfl⟩)⟩
    · intro hfound
      exact hyoung (ReplayGuard.lookup_kept_iff.mp hfound).2
    · have hfewer : (ReplayGuard.kept ⟨(s.guard.kept nowMs).insert pkt.nonce pkt.tsMs⟩
          nowMs).entries.length < ((s.guard.kept nowMs).insert pkt.nonce pkt.tsMs).entries.length :=
        length_retain_lt hplace (by simpa using hyoung)
      have hgrow : ((s.guard.kept nowMs).insert pkt.nonce pkt.tsMs).entries.length ≤
          (s.guard.kept nowMs).entries.length + 1 := length_insert_le
      show (ReplayGuard.kept ⟨(s.guard.kept nowMs).insert pkt.nonce pkt.tsMs⟩
          nowMs).entries.length < nonceCapacity
      omega

end Runs

/-- A presence packet of a device. -/
def hello : DiscoveryPacket :=
  { v := 1, kind := .presence, name := "a", fingerprint := 2#256, pubkey := 7#256
    quicPort := 47601, tsMs := 1000000, nonce := 9#96 }

/-- A packet with the same nonce, a millisecond later. -/
def sameNonce : DiscoveryPacket := { hello with tsMs := 1000001 }

/-- Stands for the signatures of the key. -/
def sampleSign (text : List UInt8) : List UInt8 := List.replicate 64 (text.foldl (· + ·) 0)

/-- The libraries on these two packets. -/
def sampleCodec : Codec where
  fromSlice text := [hello, sameNonce].find? fun pkt => pkt.toVec == text
  validKey key := key == 7#256
  verify key text signature := key == 7#256 && signature == sampleSign text

/-- The run in which a packet is accepted, then one with its nonce, then the first one again. -/
theorem accepted_twice :
    ¬ ∀ codec inputs trace s, Exec (Receiver.step codec) Guard.free .start inputs trace s →
      (acceptedBytes trace).Nodup ∧ s.guard.nonces.entries.length ≤ nonceCapacity ∧
        ∀ bytes nowMs next emitted, (∀ pkt, ¬ Signed codec bytes pkt) →
          Receiver.step codec s (bytes, nowMs) = some (next, emitted) → next.guard = s.guard := by
  intro hall
  have hrun : ((Machine.run (Receiver.step sampleCodec) Guard.free [] .start
      [(encodeAndSign hello sampleSign, 1000000), (encodeAndSign sameNonce sampleSign, 1000000),
        (encodeAndSign hello sampleSign, 1000000)]).map fun result =>
          decide (acceptedBytes result.2).Nodup) = some false := by
    decide +kernel
  obtain ⟨⟨last, trace⟩, hran, hdup⟩ := Option.map_eq_some_iff.mp hrun
  have hnodup := (hall _ _ _ _ (Exec.start.append_run hran)).1
  exact absurd hnodup (by simpa using hdup)

/-- A packet that is as old as it may be is accepted twice. -/
theorem accepted_again_hello : ∃ next emitted again other last,
    Receiver.step sampleCodec .start (encodeAndSign hello sampleSign, 1600000) = some (next, emitted) ∧
      again ∈ acceptedBytes ([] ++ emitted) ∧
        Receiver.step sampleCodec next (again, 1600000) = some (last, [.accepted again other]) := by
  have hexec : Exec (Receiver.step sampleCodec) Guard.free .start [] [] .start := Exec.start
  exact accepted_again hexec (signed_packet_iff.mp (by decide +kernel : _ = some hello)) (by decide)
    (by decide) (by decide)

/-- A first packet is lasting. -/
theorem accepted_once_hello :
    ∃ trace s, Exec (Receiver.step sampleCodec) (lasting sampleCodec) .start
        [(encodeAndSign hello sampleSign, 1000000)] trace s ∧
      acceptedBytes trace = [encodeAndSign hello sampleSign] ∧ (acceptedBytes trace).Nodup ∧
        s.guard.nonces.entries.length ≤ nonceCapacity := by
  have hrun : ((Machine.run (Receiver.step sampleCodec) (lasting sampleCodec) [] .start
      [(encodeAndSign hello sampleSign, 1000000)]).map fun result => acceptedBytes result.2) =
        some [encodeAndSign hello sampleSign] := by
    decide +kernel
  obtain ⟨⟨last, trace⟩, hran, hbytes⟩ := Option.map_eq_some_iff.mp hrun
  have hexec := Exec.start.append_run hran
  exact ⟨trace, last, hexec, hbytes, (accepted_once hexec).1, (accepted_once hexec).2.1⟩

end LocalTrans.Discovery
