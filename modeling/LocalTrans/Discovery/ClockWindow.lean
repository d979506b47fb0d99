import LocalTrans.Discovery.Replay
import LocalTrans.Foundation.Checked

/-!
# The clock window under overflow checks

`verify_and_parse` of `discovery.rs` with the arithmetic as the processor does it, under overflow
checks. The distance to the time of the packet is a subtraction that cannot go below zero, and the
cutoff of the guard saturates; the signed difference that the warning prints is computed from two
casts, when warnings are printed. `parses_iff` says for which times the call returns.
-/

namespace LocalTrans.Discovery

open Foundation

/-- The distance of the packet's time from now. -/
def nowDiffChecked (pkt : DiscoveryPacket) (nowMs : Nat) : Option Nat :=
  if pkt.tsMs < nowMs then checkedSub nowMs pkt.tsMs else checkedSub pkt.tsMs nowMs

/-- `pkt.ts_ms as i64 - now_ms as i64`, which is computed if the warning is printed. -/
def warnStale (warns : Bool) (pkt : DiscoveryPacket) (nowMs : Nat) : Option Unit :=
  if warns then
    (checkedSignedSub 64 (asSigned 64 pkt.tsMs) (asSigned 64 nowMs)).map fun _ => ()
  else some ()

/-- `verify_and_parse` under overflow checks; there is no result if one of them fails. -/
def verifyAndParseChecked (codec : Codec) (warns : Bool) (bytes : List UInt8) (nowMs : Nat)
    (guard : ReplayGuard) : Option (ReplayGuard × Except DiscoveryError DiscoveryPacket) :=
  if bytes.length < 64 then some (guard, .error .malformed)
  else do
    let split ← checkedSub bytes.length 64
    match codec.fromSlice (bytes.take split) with
    | none => some (guard, .error .malformed)
    | some pkt =>
      if codec.validKey pkt.pubkey = false then some (guard, .error .badSignature)
      else if codec.verify pkt.pubkey (bytes.take split) (bytes.drop split) = false then
        some (guard, .error .badSignature)
      else do
        let diff ← nowDiffChecked pkt nowMs
        if clockSkewToleranceMs < diff then do
          warnStale warns pkt nowMs
          some (guard, .error .stale)
        else match guard.checkNonce pkt.nonce pkt.tsMs nowMs with
          | (guard, .error error) => some (guard, .error error)
          | (guard, .ok ()) => some (guard, .ok pkt)

/-- The call returns what exact arithmetic gives, and rejects the packet as stale exactly if its time
is too far from now. -/
def ParsesRightly (codec : Codec) (warns : Bool) (bytes : List UInt8) (nowMs : Nat)
    (guard : ReplayGuard) (pkt : DiscoveryPacket) : Prop :=
  ∃ next result, verifyAndParseChecked codec warns bytes nowMs guard = some (next, result) ∧
    verifyAndParse codec bytes nowMs guard = (next, result) ∧
    (result = .error .stale ↔ ¬ InWindow pkt nowMs)

/-- The times are both below `2 ^ 63` or both not, or they are far enough apart. -/
def DiffFits (tsMs nowMs : Nat) : Prop :=
  (tsMs < 2 ^ 63 ↔ nowMs < 2 ^ 63) ∨ nowMs + 2 ^ 63 ≤ tsMs ∨ tsMs + 2 ^ 63 < nowMs
deriving Decidable

section Checked

variable {codec : Codec} {warns : Bool} {bytes : List UInt8} {pkt : DiscoveryPacket} {nowMs : Nat}
  {guard : ReplayGuard}

/-- The distance does not go below zero. -/
theorem now_diff_checked (pkt : DiscoveryPacket) (nowMs : Nat) :
    nowDiffChecked pkt nowMs = some (nowDiff pkt nowMs) := by
  unfold nowDiffChecked nowDiff
  split
  · next hlt => exact checked_sub_of_le (Nat.le_of_lt hlt)
  · next hge => exact checked_sub_of_le (Nat.le_of_not_lt hge)

/-- The warning is printed unless the difference of the casts overflows. -/
theorem warn_stale_iff (hts : pkt.tsMs < 2 ^ 64) (hnow : nowMs < 2 ^ 64) :
    warnStale warns pkt nowMs = some () ↔ (warns = true → DiffFits pkt.tsMs nowMs) := by
  have hfits := checked_signed_sub_iff (by decide) hts hnow
  unfold warnStale
  cases warns with
  | false => simp
  | true =>
    rw [if_pos rfl, Option.map_eq_some_iff]
    constructor
    · rintro ⟨diff, hdiff, -⟩ -
      exact hfits.mp (by rw [hdiff]; rfl)
    · intro h
      obtain ⟨diff, hdiff⟩ := Option.isSome_iff_exists.mp (hfits.mpr (h rfl))
      exact ⟨diff, hdiff, rfl⟩

/-- Only the warning can fail. -/
theorem verify_and_parse_checked (hsigned : Signed codec bytes pkt) :
    verifyAndParseChecked codec warns bytes nowMs guard =
      if InWindow pkt nowMs then some (verifyAndParse codec bytes nowMs guard)
      else (warnStale warns pkt nowMs).map fun _ => verifyAndParse codec bytes nowMs guard := by
  have hlong : ¬ bytes.length < 64 := Nat.not_lt.mpr hsigned.long
  have hparsed : codec.fromSlice (bytes.take (bytes.length - 64)) = some pkt := hsigned.parsed
  have hverified : codec.verify pkt.pubkey (bytes.take (bytes.length - 64))
      (bytes.drop (bytes.length - 64)) = true := hsigned.verified
  unfold verifyAndParseChecked verifyAndParse
  simp only [if_neg hlong, checked_sub_of_le hsigned.long, hsigned.parsed, hparsed, hsigned.key,
    hsigned.verified, hverified, now_diff_checked, Option.bind_eq_bind, Option.bind_some,
    Bool.true_eq_false, if_false]
  by_cases hwindow : InWindow pkt nowMs
  · rw [if_neg (not_stale_iff.mpr hwindow), if_pos hwindow, if_neg (not_stale_iff.mpr hwindow)]
    rcases guard.checkNonce pkt.nonce pkt.tsMs nowMs with ⟨next, error | ⟨⟨⟩⟩⟩
    · rfl
    · rfl
  · have hstale : clockSkewToleranceMs < nowDiff pkt nowMs := by
      by_contra hnot
      exact hwindow (not_stale_iff.mp hnot)
    rw [if_pos hstale, if_neg hwindow, if_pos hstale]
    cases warnStale warns pkt nowMs with
    | none => rfl
    | some _ => rfl

/-- The check of the nonce does not look at the window. -/
theorem check_nonce_not_stale (guard : ReplayGuard) (nonce : Nonce) (tsMs nowMs : Nat) :
    (guard.checkNonce nonce tsMs nowMs).2 ≠ .error .stale := by
  rw [ReplayGuard.check_nonce_eq]
  split
  · nofun
  split
  · nofun
  · nofun

/-- A packet is rejected as stale exactly if its time is too far from now. -/
theorem rejected_stale_iff (hsigned : Signed codec bytes pkt) :
    (verifyAndParse codec bytes nowMs guard).2 = .error .stale ↔ ¬ InWindow pkt nowMs := by
  rcases verify_and_parse_cases codec bytes nowMs guard with
    ⟨hnone, -⟩ | ⟨other, hother, ⟨hfar, hresult⟩ | ⟨hnear, hresult⟩⟩
  · exact absurd hsigned (hnone pkt)
  · obtain rfl := hsigned.unique hother
    rw [hresult]
    exact iff_of_true rfl hfar
  · obtain rfl := hsigned.unique hother
    rw [hresult]
    refine iff_of_false ?_ (not_not.mpr hnear)
    intro hstale
    have hnonce := check_nonce_not_stale guard pkt.nonce pkt.tsMs nowMs
    cases hverdict : (guard.checkNonce pkt.nonce pkt.tsMs nowMs).2 with
    | ok =>
      rw [hverdict] at hstale
      cases hstale
    | error error =>
      rw [hverdict] at hstale hnonce
      exact hnonce (congrArg Except.error (Except.error.inj hstale))

/-- For a signed packet the call returns, and rejects it as stale exactly if its time is too far from
now, exactly if no warning is printed about it or the difference of the times, read as signed
integers, is a signed integer. -/
theorem parses_iff (hsigned : Signed codec bytes pkt) (hts : pkt.tsMs < 2 ^ 64)
    (hnow : nowMs < 2 ^ 64) :
    ParsesRightly codec warns bytes nowMs guard pkt ↔
      (warns = true → ¬ InWindow pkt nowMs → DiffFits pkt.tsMs nowMs) := by
  unfold ParsesRightly
  rw [verify_and_parse_checked hsigned]
  by_cases hwindow : InWindow pkt nowMs
  · rw [if_pos hwindow]
    refine iff_of_true ?_ fun _ hfar => absurd hwindow hfar
    exact ⟨_, _, rfl, rfl, rejected_stale_iff hsigned⟩
  · rw [if_neg hwindow]
    constructor
    · rintro ⟨next, result, hmap, -, -⟩ hwarns -
      obtain ⟨⟨⟩, hprinted, -⟩ := Option.map_eq_some_iff.mp hmap
      exact (warn_stale_iff hts hnow).mp hprinted hwarns
    · intro h
      have hprinted := (warn_stale_iff hts hnow).mpr fun hwarns => h hwarns hwindow
      refine ⟨_, _, ?_, rfl, rejected_stale_iff hsigned⟩
      rw [hprinted]
      rfl

end Checked

/-- A packet whose time is half of the range. -/
def farAway : DiscoveryPacket := { hello with tsMs := 2 ^ 63 }

/-- The libraries on this packet. -/
def farCodec : Codec where
  fromSlice text := if text == farAway.toVec then some farAway else none
  validKey key := key == 7#256
  verify key text signature := key == 7#256 && signature == sampleSign text

theorem far_signed : Signed farCodec (encodeAndSign farAway sampleSign) farAway :=
  ⟨by decide +kernel, by decide +kernel, by decide, by decide +kernel⟩

/-- Seen at its own time and at the start of time, the packet is handled as it should be. -/
theorem parses_sample :
    ParsesRightly farCodec true (encodeAndSign farAway sampleSign) (2 ^ 63 + 1) .new farAway ∧
      ParsesRightly farCodec true (encodeAndSign farAway sampleSign) 0 .new farAway := by
  constructor
  · exact (parses_iff far_signed (by decide) (by decide)).mpr fun _ h => absurd (by decide) h
  · exact (parses_iff far_signed (by decide) (by decide)).mpr fun _ _ => by decide

theorem parse_overflows :
    verifyAndParseChecked farCodec true (encodeAndSign farAway sampleSign) 1 .new = none ∧
      ¬ ParsesRightly farCodec true (encodeAndSign farAway sampleSign) 1 .new farAway := by
  have hnone : verifyAndParseChecked farCodec true (encodeAndSign farAway sampleSign) 1 .new =
      none := by
    rw [verify_and_parse_checked far_signed]
    decide +kernel
  refine ⟨hnone, ?_⟩
  rintro ⟨next, result, hsome, -⟩
  rw [hnone] at hsome
  cases hsome

end LocalTrans.Discovery
