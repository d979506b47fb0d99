import LocalTrans.Foundation.Json
import LocalTrans.Foundation.ReverseIndex
import LocalTrans.Protocol

/-!
# Discovery packets

`discovery.rs`: a discovery packet is a JSON text with an Ed25519 signature of 64 bytes behind it.
`verifyAndParse` reads one, checks the signature against the key in the packet itself, the time,
and the nonce, which the `ReplayGuard` remembers. The JSON parser and the signature scheme are
parameters. `verify_and_parse_cases` says what a call does.
-/

namespace LocalTrans.Discovery

open Foundation

/-- `PacketKind`. -/
inductive PacketKind where
  | presence
  | probe
  | probeResp
deriving DecidableEq, Repr

/-- The nonce of a packet, `[u8; 12]`. -/
abbrev Nonce := BitVec 96

/-- The bytes of an Ed25519 public key, `[u8; 32]`. -/
abbrev PublicKey := BitVec 256

/-- `DiscoveryPacket`. -/
structure DiscoveryPacket where
  v : UInt8
  kind : PacketKind
  name : String
  fingerprint : Fingerprint
  pubkey : PublicKey
  quicPort : UInt16
  tsMs : Nat
  nonce : Nonce
deriving DecidableEq

/-- `DiscoveryError`. -/
inductive DiscoveryError where
  | badSignature
  | stale
  | replay
  | malformed
  | overflow
deriving DecidableEq, Repr

/-- The texts of the errors. -/
def DiscoveryError.text : DiscoveryError → String
  | .badSignature => "签名验证失败"
  | .stale => "时间戳过期或来自未来"
  | .replay => "检测到重放攻击"
  | .malformed => "数据格式错误"
  | .overflow => "nonce 表容量已满"

/-- `PacketKind` in a packet. -/
def PacketKind.text : PacketKind → String
  | .presence => "presence"
  | .probe => "probe"
  | .probeResp => "probe_resp"

/-- A fixed number of bytes, the most significant first. -/
def byteArray (count value : Nat) : List UInt8 :=
  Json.array ((List.range count).reverse.map fun i => Json.number (value / 256 ^ i % 256))

/-- `serde_json::to_vec` of a packet. -/
def DiscoveryPacket.toVec (pkt : DiscoveryPacket) : List UInt8 :=
  Json.object
    [Json.field "v" (Json.number pkt.v.toNat),
      Json.field "kind" (Json.string pkt.kind.text),
      Json.field "name" (Json.string pkt.name),
      Json.field "fingerprint" (byteArray 32 pkt.fingerprint.toNat),
      Json.field "pubkey" (byteArray 32 pkt.pubkey.toNat),
      Json.field "quic_port" (Json.number pkt.quicPort.toNat),
      Json.field "ts_ms" (Json.number pkt.tsMs),
      Json.field "nonce" (byteArray 12 pkt.nonce.toNat)]

/-- `encode_and_sign`, with the signature of the key. -/
def encodeAndSign (pkt : DiscoveryPacket) (sign : List UInt8 → List UInt8) : List UInt8 :=
  pkt.toVec ++ sign pkt.toVec

/-- `CLOCK_SKEW_TOLERANCE_MS`: ten minutes. -/
def clockSkewToleranceMs : Nat := 10 * 60 * 1000

/-- How many nonces the guard remembers. -/
def nonceCapacity : Nat := 4096

/-- `ReplayGuard`: the nonces that were seen, each with the time of its packet. -/
structure ReplayGuard where
  nonces : Map Nonce Nat

namespace ReplayGuard

/-- `ReplayGuard::new`. -/
def new : ReplayGuard := ⟨∅⟩

/-- The time from which on packets are forgotten. -/
def cutoff (nowMs : Nat) : Nat := nowMs - clockSkewToleranceMs

/-- The nonces of packets that are younger than the cutoff. -/
def kept (guard : ReplayGuard) (nowMs : Nat) : Map Nonce Nat :=
  guard.nonces.retain fun _ lastTs => cutoff nowMs < lastTs

/-- `check_nonce`. -/
def checkNonce (guard : ReplayGuard) (nonce : Nonce) (tsMs nowMs : Nat) :
    ReplayGuard × Except DiscoveryError Unit :=
  let nonces := guard.kept nowMs
  if nonces.lookup nonce = some tsMs then (⟨nonces⟩, .error .replay)
  else
    -- a full table is searched for old nonces once more
    let room := if nonceCapacity ≤ nonces.entries.length then ReplayGuard.kept ⟨nonces⟩ nowMs
      else nonces
    if nonceCapacity ≤ room.entries.length then (⟨room⟩, .error .overflow)
    else (⟨room.insert nonce tsMs⟩, .ok ())

end ReplayGuard

/-- What the code takes from its libraries: `serde_json::from_slice`, the check of
`VerifyingKey::from_bytes`, and `verify` with the bytes of the signature. -/
structure Codec where
  fromSlice : List UInt8 → Option DiscoveryPacket
  validKey : PublicKey → Bool
  verify : PublicKey → List UInt8 → List UInt8 → Bool

/-- The bytes before the signature. -/
def jsonBytes (bytes : List UInt8) : List UInt8 := bytes.take (bytes.length - 64)

/-- The bytes of the signature. -/
def sigBytes (bytes : List UInt8) : List UInt8 := bytes.drop (bytes.length - 64)

/-- How far the time of the packet is from now. -/
def nowDiff (pkt : DiscoveryPacket) (nowMs : Nat) : Nat :=
  if pkt.tsMs < nowMs then nowMs - pkt.tsMs else pkt.tsMs - nowMs

/-- `verify_and_parse`. -/
def verifyAndParse (codec : Codec) (bytes : List UInt8) (nowMs : Nat) (guard : ReplayGuard) :
    ReplayGuard × Except DiscoveryError DiscoveryPacket :=
  if bytes.length < 64 then (guard, .error .malformed)
  else match codec.fromSlice (jsonBytes bytes) with
    | none => (guard, .error .malformed)
    | some pkt =>
      if codec.validKey pkt.pubkey = false then (guard, .error .badSignature)
      else if codec.verify pkt.pubkey (jsonBytes bytes) (sigBytes bytes) = false then
        (guard, .error .badSignature)
      else if clockSkewToleranceMs < nowDiff pkt nowMs then (guard, .error .stale)
      else match guard.checkNonce pkt.nonce pkt.tsMs nowMs with
        | (guard, .error error) => (guard, .error error)
        | (guard, .ok ()) => (guard, .ok pkt)

/-- The bytes are a packet that is signed with the key that it names. -/
structure Signed (codec : Codec) (bytes : List UInt8) (pkt : DiscoveryPacket) : Prop where
  long : 64 ≤ bytes.length
  parsed : codec.fromSlice (jsonBytes bytes) = some pkt
  key : codec.validKey pkt.pubkey = true
  verified : codec.verify pkt.pubkey (jsonBytes bytes) (sigBytes bytes) = true

/-- The time of the packet is near enough to now. -/
def InWindow (pkt : DiscoveryPacket) (nowMs : Nat) : Prop :=
  nowMs ≤ pkt.tsMs + clockSkewToleranceMs ∧ pkt.tsMs ≤ nowMs + clockSkewToleranceMs
deriving Decidable

/-- The packet that the bytes are, if they are signed with the key that it names. -/
def signedPacket (codec : Codec) (bytes : List UInt8) : Option DiscoveryPacket :=
  if bytes.length < 64 then none
  else (codec.fromSlice (jsonBytes bytes)).filter fun pkt =>
    codec.validKey pkt.pubkey && codec.verify pkt.pubkey (jsonBytes bytes) (sigBytes bytes)

section Cases

variable {codec : Codec} {bytes : List UInt8} {pkt other : DiscoveryPacket} {nonce : Nonce}
  {ts now tsMs nowMs : Nat} {guard next : ReplayGuard} {error : DiscoveryError}

theorem Signed.unique (h : Signed codec bytes pkt) (h' : Signed codec bytes other) :
    pkt = other :=
  Option.some.inj (h.parsed.symm.trans h'.parsed)

theorem signed_packet_iff : signedPacket codec bytes = some pkt ↔ Signed codec bytes pkt := by
  unfold signedPacket
  split
  · next hshort =>
    constructor
    · intro h
      cases h
    · intro h
      exact absurd h.long (by omega)
  · next hlong =>
    rw [Option.filter_eq_some_iff, Bool.and_eq_true]
    constructor
    · rintro ⟨hparsed, hkey, hverified⟩
      exact ⟨by omega, hparsed, hkey, hverified⟩
    · intro h
      exact ⟨h.parsed, h.key, h.verified⟩

theorem not_stale_iff : ¬ clockSkewToleranceMs < nowDiff pkt nowMs ↔ InWindow pkt nowMs := by
  unfold nowDiff InWindow
  split <;> omega

namespace ReplayGuard

theorem lookup_kept_iff :
    (guard.kept nowMs).lookup nonce = some ts ↔
      guard.nonces.lookup nonce = some ts ∧ cutoff nowMs < ts := by
  simp [kept, lookup_retain_iff]

/-- To search for old nonces again changes nothing. -/
theorem kept_kept : kept ⟨guard.kept nowMs⟩ nowMs = guard.kept nowMs := by
  apply AList.ext
  simp [kept, Map.retain, List.filter_filter]

/-- What `check_nonce` does: it finds the nonce with this time, or has no room, or enters it. -/
theorem check_nonce_eq :
    guard.checkNonce nonce tsMs nowMs =
      if (guard.kept nowMs).lookup nonce = some tsMs then (⟨guard.kept nowMs⟩, .error .replay)
      else if nonceCapacity ≤ (guard.kept nowMs).entries.length then
        (⟨guard.kept nowMs⟩, .error .overflow)
      else (⟨(guard.kept nowMs).insert nonce tsMs⟩, .ok ()) := by
  unfold checkNonce
  dsimp only
  rw [kept_kept, ite_self]

/-- What is not entered leaves the nonces that are kept. -/
theorem check_nonce_error (h : guard.checkNonce nonce tsMs nowMs = (next, .error error)) :
    next = ⟨guard.kept nowMs⟩ := by
  rw [check_nonce_eq] at h
  split at h
  · exact (Prod.mk.inj h).1.symm
  split at h
  · exact (Prod.mk.inj h).1.symm
  · cases (Prod.mk.inj h).2

/-- A nonce is entered where there is room, unless it is there with this time. -/
theorem check_nonce_ok_iff :
    guard.checkNonce nonce tsMs nowMs = (next, .ok ()) ↔
      (guard.kept nowMs).lookup nonce ≠ some tsMs ∧
        (guard.kept nowMs).entries.length < nonceCapacity ∧
        next = ⟨(guard.kept nowMs).insert nonce tsMs⟩ := by
  rw [check_nonce_eq]
  split
  · next hseen => simp [hseen]
  split
  · next hfull =>
    have hnot : ¬ (guard.kept nowMs).entries.length < nonceCapacity := by omega
    simp [hnot]
  · next hnew hroom =>
    simp only [Prod.mk.injEq, and_true]
    exact ⟨fun h => ⟨hnew, by omega, h.symm⟩, fun h => h.2.2.symm⟩

/-- The guard does not grow beyond its capacity. -/
theorem length_check_nonce_le (h : guard.nonces.entries.length ≤ nonceCapacity) :
    (guard.checkNonce nonce tsMs nowMs).1.nonces.entries.length ≤ nonceCapacity := by
  have hkept : (guard.kept nowMs).entries.length ≤ nonceCapacity := Nat.le_trans length_retain_le h
  rw [check_nonce_eq]
  split
  · exact hkept
  split
  · exact hkept
  · have hgrow : ((guard.kept nowMs).insert nonce tsMs).entries.length ≤
        (guard.kept nowMs).entries.length + 1 := length_insert_le
    show ((guard.kept nowMs).insert nonce tsMs).entries.length ≤ nonceCapacity
    omega

end ReplayGuard

/-- What a call does with bytes that are no signed packet, with a packet whose time is too far from
now, and with any other packet. -/
theorem verify_and_parse_cases (codec : Codec) (bytes : List UInt8) (nowMs : Nat)
    (guard : ReplayGuard) :
    ((∀ pkt, ¬ Signed codec bytes pkt) ∧
        (verifyAndParse codec bytes nowMs guard = (guard, .error .malformed) ∨
          verifyAndParse codec bytes nowMs guard = (guard, .error .badSignature))) ∨
      ∃ pkt, Signed codec bytes pkt ∧
        (¬ InWindow pkt nowMs ∧
            verifyAndParse codec bytes nowMs guard = (guard, .error .stale) ∨
          InWindow pkt nowMs ∧ verifyAndParse codec bytes nowMs guard =
            ((guard.checkNonce pkt.nonce pkt.tsMs nowMs).1,
              (guard.checkNonce pkt.nonce pkt.tsMs nowMs).2.map fun _ => pkt)) := by
  unfold verifyAndParse
  split
  · next hshort => exact .inl ⟨fun pkt h => absurd h.long (by omega), .inl rfl⟩
  next hlong =>
  split
  · next hnone =>
    refine .inl ⟨fun pkt h => ?_, .inl rfl⟩
    rw [h.parsed] at hnone
    cases hnone
  next pkt hparsed =>
  split
  · next hkey =>
    refine .inl ⟨fun other h => ?_, .inr rfl⟩
    obtain rfl := Option.some.inj (hparsed.symm.trans h.parsed)
    rw [h.key] at hkey
    cases hkey
  next hkey =>
  split
  · next hverify =>
    refine .inl ⟨fun other h => ?_, .inr rfl⟩
    obtain rfl := Option.some.inj (hparsed.symm.trans h.parsed)
    rw [h.verified] at hverify
    cases hverify
  next hverify =>
  have hsigned : Signed codec bytes pkt :=
    ⟨by omega, hparsed, by simpa using hkey, by simpa using hverify⟩
  refine .inr ⟨pkt, hsigned, ?_⟩
  split
  · next hstale =>
    exact .inl ⟨fun hwindow => not_stale_iff.mpr hwindow hstale, rfl⟩
  · next hfresh =>
    refine .inr ⟨not_stale_iff.mp hfresh, ?_⟩
    rcases guard.checkNonce pkt.nonce pkt.tsMs nowMs with ⟨next, error | ⟨⟨⟩⟩⟩ <;> rfl

/-- Bytes that are no signed packet leave the guard as it is. -/
theorem guard_of_not_signed (h : ∀ pkt, ¬ Signed codec bytes pkt) :
    (verifyAndParse codec bytes nowMs guard).1 = guard := by
  rcases verify_and_parse_cases codec bytes nowMs guard with
    ⟨-, hresult | hresult⟩ | ⟨pkt, hsigned, -⟩
  · rw [hresult]
  · rw [hresult]
  · exact absurd hsigned (h pkt)

/-- A packet is accepted that is signed, whose time is near enough, and whose nonce is entered. -/
theorem accepted_iff :
    verifyAndParse codec bytes nowMs guard = (next, .ok pkt) ↔
      Signed codec bytes pkt ∧ InWindow pkt nowMs ∧
        guard.checkNonce pkt.nonce pkt.tsMs nowMs = (next, .ok ()) := by
  rcases verify_and_parse_cases codec bytes nowMs guard with
    ⟨hnot, hresult | hresult⟩ | ⟨found, hsigned, ⟨hwindow, hresult⟩ | ⟨hwindow, hresult⟩⟩
  · rw [hresult]
    simp [hnot]
  · rw [hresult]
    simp [hnot]
  · rw [hresult]
    constructor
    · intro h
      cases (Prod.mk.inj h).2
    · rintro ⟨h, hin, -⟩
      obtain rfl := hsigned.unique h
      exact absurd hin hwindow
  · rw [hresult]
    constructor
    · intro h
      obtain ⟨hguard, hpacket⟩ := Prod.mk.inj h
      cases hcheck : (guard.checkNonce found.nonce found.tsMs nowMs).2 with
      | error error =>
        rw [hcheck] at hpacket
        cases hpacket
      | ok _ =>
        rw [hcheck] at hpacket
        obtain rfl : found = pkt := by simpa [Except.map] using hpacket
        exact ⟨hsigned, hwindow, Prod.ext hguard hcheck⟩
    · rintro ⟨h, -, hcheck⟩
      obtain rfl := hsigned.unique h
      rw [hcheck]
      rfl

end Cases

end LocalTrans.Discovery
