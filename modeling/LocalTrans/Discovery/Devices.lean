import LocalTrans.Discovery.Replay
import LocalTrans.Foundation.History
import LocalTrans.Relay.Messages

/-!
# The table of discovered devices

`discovery_loop`: a packet that `verify_and_parse` accepts enters its sender in the table of
devices, whichever of the three kinds it is; a device that was not heard of for `offline_secs` is
removed. The fingerprint of a packet is passed through: nothing compares it with the key in the
packet. `entry_of_last_packet` says where an entry comes from. The bookkeeping of addresses that are
probed again, which does not touch the table, and the timer of the presence packets are not
modelled.
-/

namespace LocalTrans.Discovery

open Foundation Relay

/-- `DeviceInfo`; the time is in milliseconds of the monotonic clock. -/
structure DeviceInfo where
  name : String
  fingerprint : Fingerprint
  addr : SocketAddr
  lastSeen : Nat
deriving DecidableEq

/-- `DiscoveryConfig`, as far as the loop reads it for its packets and its table. -/
structure DiscoveryConfig where
  hidden : Bool
  name : String
  quicPort : UInt16
  offlineSecs : Nat
  fingerprint : Fingerprint

/-- The state of `discovery_loop`, with the public key of the device. -/
structure DiscoveryLoop where
  cfg : DiscoveryConfig
  pubkey : PublicKey
  replayGuard : ReplayGuard
  devices : Map Fingerprint DeviceInfo
  ownNonces : List Nonce

/-- A datagram, with the wall clock, the monotonic clock and the nonce of an answer; a packet of
one's own; a new name; `hidden` is set from outside; the search for devices that are gone. -/
inductive DiscoveryInput where
  | datagram (bytes : List UInt8) (src : SocketAddr) (nowMs now : Nat) (nonce : Nonce)
  | announce (kind : PacketKind) (nowMs : Nat) (nonce : Nonce)
  | setName (name : String)
  | setHidden (hidden : Bool)
  | expire (now : Nat)

/-- A packet that entered its sender, one with the own fingerprint from somebody else, one that was
dropped; a packet that was sent; a device that was removed. -/
inductive DiscoveryEvent where
  | listed (bytes : List UInt8) (pkt : DiscoveryPacket) (src : SocketAddr) (now : Nat)
  | conflict (src : SocketAddr)
  | dropped (src : SocketAddr) (error : DiscoveryError)
  | sent (pkt : DiscoveryPacket)
  | expired (fingerprint : Fingerprint)

/-- What is entered for a packet: its own port at the address it came from. -/
def deviceOf (pkt : DiscoveryPacket) (src : SocketAddr) (now : Nat) : DeviceInfo :=
  { name := pkt.name, fingerprint := pkt.fingerprint
    addr := { ip := src.ip, port := pkt.quicPort }, lastSeen := now }

/-- `char::is_whitespace`. -/
def isWhitespace (c : Char) : Bool :=
  (9 ≤ c.toNat && c.toNat ≤ 13) || (0x2000 ≤ c.toNat && c.toNat ≤ 0x200A) ||
    [0x20, 0x85, 0xA0, 0x1680, 0x2028, 0x2029, 0x202F, 0x205F, 0x3000].contains c.toNat

/-- The size of the receive buffer. -/
def bufferSize : Nat := 4096

namespace DiscoveryLoop

/-- The loop before the first datagram. -/
def start (cfg : DiscoveryConfig) (pubkey : PublicKey) : DiscoveryLoop :=
  { cfg, pubkey, replayGuard := .new, devices := ∅, ownNonces := [] }

/-- `next_own_nonce` keeps the last 128. -/
def nextOwnNonce (s : DiscoveryLoop) (nonce : Nonce) : DiscoveryLoop :=
  let own := s.ownNonces ++ [nonce]
  { s with ownNonces := if 128 < own.length then own.drop 1 else own }

/-- A packet of one's own. -/
def ownPacket (s : DiscoveryLoop) (kind : PacketKind) (nowMs : Nat) (nonce : Nonce) :
    DiscoveryPacket :=
  { v := 1, kind, name := s.cfg.name, fingerprint := s.cfg.fingerprint, pubkey := s.pubkey
    quicPort := s.cfg.quicPort, tsMs := nowMs, nonce }

/-- A packet was accepted: its sender is entered, unless it has the own fingerprint. -/
def enter (s : DiscoveryLoop) (bytes : List UInt8) (pkt : DiscoveryPacket) (src : SocketAddr)
    (now : Nat) : DiscoveryLoop × List DiscoveryEvent :=
  if pkt.fingerprint ≠ s.cfg.fingerprint then
    ({ s with devices := s.devices.insert pkt.fingerprint (deviceOf pkt src now) },
      [.listed bytes pkt src now])
  else if pkt.nonce ∉ s.ownNonces then (s, [.conflict src])
  else (s, [])

/-- A probe is answered, unless the device is hidden. -/
def answer (s : DiscoveryLoop) (pkt : DiscoveryPacket) (nowMs : Nat) (nonce : Nonce) :
    DiscoveryLoop × List DiscoveryEvent :=
  if pkt.kind = .probe ∧ s.cfg.hidden = false then
    (s.nextOwnNonce nonce, [.sent (s.ownPacket .probeResp nowMs nonce)])
  else (s, [])

/-- A device was heard of within `offline_secs`. -/
def online (s : DiscoveryLoop) (now : Nat) (device : DeviceInfo) : Bool :=
  now - device.lastSeen < s.cfg.offlineSecs * 1000

/-- A step of the loop. -/
def step (codec : Codec) : Machine DiscoveryLoop DiscoveryInput DiscoveryEvent :=
  fun s input =>
    match input with
    | .datagram bytes src nowMs now nonce =>
      let received := bytes.take bufferSize
      match verifyAndParse codec received nowMs s.replayGuard with
      | (replayGuard, .ok pkt) =>
        let (entered, listed) := enter { s with replayGuard } received pkt src now
        let (answered, sent) := entered.answer pkt nowMs nonce
        some (answered, listed ++ sent)
      | (replayGuard, .error error) => some ({ s with replayGuard }, [.dropped src error])
    | .announce kind nowMs nonce =>
      some (s.nextOwnNonce nonce, [.sent (s.ownPacket kind nowMs nonce)])
    | .setName name =>
      if name.toList.all isWhitespace then some (s, [])
      else some ({ s with cfg := { s.cfg with name } }, [])
    | .setHidden hidden => some ({ s with cfg := { s.cfg with hidden } }, [])
    | .expire now =>
      some ({ s with devices := s.devices.retain fun _ device => s.online now device },
        (s.devices.entries.filter fun entry => !s.online now entry.2).map fun entry =>
          .expired entry.1)

end DiscoveryLoop

/-- What happens to the entry of a fingerprint: a packet with it is entered, or it is removed. -/
def DiscoveryEvent.touches (fingerprint : Fingerprint) : DiscoveryEvent → Prop
  | .listed _ pkt _ _ => pkt.fingerprint = fingerprint
  | .expired gone => gone = fingerprint
  | _ => False

section Runs

variable {codec : Codec} {s next : DiscoveryLoop} {input : DiscoveryInput}
  {emitted trace : List DiscoveryEvent} {inputs : List DiscoveryInput} {fingerprint : Fingerprint}
  {device : DeviceInfo} {cfg : DiscoveryConfig} {pubkey : PublicKey}

/-- An answer changes neither the table nor whose it is. -/
theorem answer_cases {s : DiscoveryLoop} {pkt : DiscoveryPacket} {nowMs : Nat} {nonce : Nonce}
    (fingerprint : Fingerprint) :
    (s.answer pkt nowMs nonce).1.devices = s.devices ∧
      (s.answer pkt nowMs nonce).1.cfg.fingerprint = s.cfg.fingerprint ∧
        ∀ event ∈ (s.answer pkt nowMs nonce).2, ¬ event.touches fingerprint := by
  unfold DiscoveryLoop.answer
  split
  · refine ⟨rfl, rfl, ?_⟩
    intro event hmem
    cases List.mem_singleton.mp hmem
    exact id
  · exact ⟨rfl, rfl, by simp⟩

/-- What a step does to the table: it enters a signed packet, removes the devices that were not
heard of, or leaves the table. -/
theorem step_devices (h : DiscoveryLoop.step codec s input = some (next, emitted)) :
    next.cfg.fingerprint = s.cfg.fingerprint ∧
      ((∃ bytes src nowMs now nonce pkt rest,
          input = .datagram bytes src nowMs now nonce ∧ Signed codec (bytes.take bufferSize) pkt ∧
          InWindow pkt nowMs ∧ pkt.fingerprint ≠ s.cfg.fingerprint ∧
          next.devices = s.devices.insert pkt.fingerprint (deviceOf pkt src now) ∧
          emitted = .listed (bytes.take bufferSize) pkt src now :: rest ∧
          ∀ fingerprint, ∀ event ∈ rest, ¬ event.touches fingerprint) ∨
        (∃ now, input = .expire now ∧
          next.devices = s.devices.retain (fun _ device => s.online now device) ∧
          ∀ fingerprint, ∀ event ∈ emitted, event.touches fingerprint →
            ∃ device, s.devices.lookup fingerprint = some device ∧
              s.online now device = false) ∨
        next.devices = s.devices ∧
          ∀ fingerprint, ∀ event ∈ emitted, ¬ event.touches fingerprint) := by
  cases input with
  | datagram bytes src nowMs now nonce =>
    simp only [DiscoveryLoop.step] at h
    split at h
    · next replayGuard pkt hresult =>
      obtain ⟨hsigned, hwindow, -⟩ := accepted_iff.mp hresult
      unfold DiscoveryLoop.enter at h
      by_cases hother : pkt.fingerprint ≠ s.cfg.fingerprint
      · simp only [if_pos hother] at h
        obtain ⟨rfl, rfl⟩ := answer_inj h
        refine ⟨(answer_cases 0).2.1, .inl ⟨bytes, src, nowMs, now, nonce, pkt, _, rfl, hsigned,
          hwindow, hother, (answer_cases 0).1, rfl, fun fingerprint => ?_⟩⟩
        exact (answer_cases fingerprint).2.2
      · simp only [if_neg hother] at h
        split at h
        · obtain ⟨rfl, rfl⟩ := answer_inj h
          refine ⟨(answer_cases 0).2.1, .inr (.inr ⟨(answer_cases 0).1, ?_⟩)⟩
          intro fingerprint event hmem
          rcases List.mem_append.mp hmem with hfirst | hrest
          · cases List.mem_singleton.mp hfirst
            exact id
          · exact (answer_cases fingerprint).2.2 event hrest
        · obtain ⟨rfl, rfl⟩ := answer_inj h
          exact ⟨(answer_cases 0).2.1, .inr (.inr ⟨(answer_cases 0).1, fun fingerprint =>
            (answer_cases fingerprint).2.2⟩)⟩
    · next replayGuard error hresult =>
      obtain ⟨rfl, rfl⟩ := answer_inj h
      refine ⟨rfl, .inr (.inr ⟨rfl, fun fingerprint event hmem => ?_⟩)⟩
      cases List.mem_singleton.mp hmem
      exact id
  | announce kind nowMs nonce =>
    obtain ⟨rfl, rfl⟩ := answer_inj h
    refine ⟨rfl, .inr (.inr ⟨rfl, fun fingerprint event hmem => ?_⟩)⟩
    cases List.mem_singleton.mp hmem
    exact id
  | setName name =>
    simp only [DiscoveryLoop.step] at h
    split at h
    · obtain ⟨rfl, rfl⟩ := answer_inj h
      exact ⟨rfl, .inr (.inr ⟨rfl, fun _ _ hmem => absurd hmem List.not_mem_nil⟩)⟩
    · obtain ⟨rfl, rfl⟩ := answer_inj h
      exact ⟨rfl, .inr (.inr ⟨rfl, fun _ _ hmem => absurd hmem List.not_mem_nil⟩)⟩
  | setHidden hidden =>
    obtain ⟨rfl, rfl⟩ := answer_inj h
    exact ⟨rfl, .inr (.inr ⟨rfl, fun _ _ hmem => absurd hmem List.not_mem_nil⟩)⟩
  | expire now =>
    obtain ⟨rfl, rfl⟩ := answer_inj h
    refine ⟨rfl, .inr (.inl ⟨now, rfl, rfl, fun fingerprint event hmem htouch => ?_⟩)⟩
    obtain ⟨⟨gone, device⟩, hfilter, rfl⟩ := List.mem_map.mp hmem
    obtain ⟨hentry, hoffline⟩ := List.mem_filter.mp hfilter
    obtain rfl : gone = fingerprint := htouch
    exact ⟨device, mem_entries_iff.mp hentry, by simpa using hoffline⟩

/-- The entry of a fingerprint is that of the last packet that was entered with it, which was signed
with the key that it names. -/
theorem entry_of_last_packet
    (h : Exec (DiscoveryLoop.step codec) Guard.free (.start cfg pubkey) inputs trace s)
    (hentry : s.devices.lookup fingerprint = some device) :
    ∃ bytes pkt src now later,
      Standing (DiscoveryEvent.touches fingerprint) trace (.listed bytes pkt src now) later ∧
        Signed codec bytes pkt ∧ pkt.fingerprint = fingerprint ∧
          device = deviceOf pkt src now := by
  induction h generalizing device with
  | start => cases hentry
  | @step inputs trace s next input emitted _ _ hnext ih =>
    obtain ⟨-, ⟨bytes, src, nowMs, now, nonce, pkt, rest, rfl, hsigned, -, -, hdevices, rfl,
        hrest⟩ | ⟨now, rfl, hdevices, hgone⟩ | ⟨hdevices, hquiet⟩⟩ := step_devices hnext
    · rw [hdevices] at hentry
      rcases lookup_insert_iff.mp hentry with ⟨hsame, rfl⟩ | ⟨hother, hold⟩
      · exact ⟨_, pkt, src, now, rest, standing_new (hrest fingerprint), hsigned, hsame.symm, rfl⟩
      · obtain ⟨found, other, from', at', later, hstanding, hfacts⟩ := ih hold
        refine ⟨found, other, from', at', _, hstanding.append fun event hmem => ?_, hfacts⟩
        rcases List.mem_cons.mp hmem with rfl | hmore
        · exact fun htouch => hother htouch.symm
        · exact hrest fingerprint event hmore
    · rw [hdevices] at hentry
      obtain ⟨hold, honline⟩ := lookup_retain_iff.mp hentry
      obtain ⟨found, other, from', at', later, hstanding, hfacts⟩ := ih hold
      refine ⟨found, other, from', at', _, hstanding.append fun event hmem htouch => ?_, hfacts⟩
      obtain ⟨gone, hlookup, hoffline⟩ := hgone fingerprint event hmem htouch
      obtain rfl := Option.some.inj (hold.symm.trans hlookup)
      rw [honline] at hoffline
      cases hoffline
    · rw [hdevices] at hentry
      obtain ⟨found, other, from', at', later, hstanding, hfacts⟩ := ih hentry
      exact ⟨found, other, from', at', _, hstanding.append (hquiet fingerprint), hfacts⟩

/-- A step changes the entry of a fingerprint because it takes a signed packet with it, which it
enters, or because the device was not heard of for `offline_secs`. -/
theorem entry_changed (h : DiscoveryLoop.step codec s input = some (next, emitted))
    (hchanged : next.devices.lookup fingerprint ≠ s.devices.lookup fingerprint) :
    (∃ bytes src nowMs now nonce pkt, input = .datagram bytes src nowMs now nonce ∧
        Signed codec (bytes.take bufferSize) pkt ∧ InWindow pkt nowMs ∧
        pkt.fingerprint = fingerprint ∧ fingerprint ≠ s.cfg.fingerprint ∧
        next.devices.lookup fingerprint = some (deviceOf pkt src now)) ∨
      ∃ now device, input = .expire now ∧ s.devices.lookup fingerprint = some device ∧
        s.cfg.offlineSecs * 1000 ≤ now - device.lastSeen ∧
        next.devices.lookup fingerprint = none := by
  obtain ⟨-, ⟨bytes, src, nowMs, now, nonce, pkt, rest, rfl, hsigned, hwindow, hother, hdevices, -⟩ |
      ⟨now, rfl, hdevices, -⟩ | ⟨hdevices, -⟩⟩ := step_devices h
  · rw [hdevices] at hchanged ⊢
    by_cases hsame : fingerprint = pkt.fingerprint
    · subst hsame
      exact .inl ⟨bytes, src, nowMs, now, nonce, pkt, rfl, hsigned, hwindow, rfl, hother,
        AList.lookup_insert _⟩
    · exact absurd (AList.lookup_insert_ne hsame) hchanged
  · rw [hdevices] at hchanged ⊢
    cases hold : s.devices.lookup fingerprint with
    | none =>
      rw [hold] at hchanged
      obtain ⟨device, hfound⟩ := Option.ne_none_iff_exists'.mp hchanged
      rw [(lookup_retain_iff.mp hfound).1] at hold
      cases hold
    | some device =>
      have hoffline : s.online now device = false := by
        by_contra honline
        refine hchanged ?_
        rw [hold]
        exact lookup_retain_iff.mpr ⟨hold, by simpa using honline⟩
      refine .inr ⟨now, device, rfl, rfl, ?_, ?_⟩
      · simpa [DiscoveryLoop.online] using hoffline
      · by_contra hstays
        obtain ⟨found, hfound⟩ := Option.ne_none_iff_exists'.mp hstays
        obtain ⟨hlookup, honline⟩ := lookup_retain_iff.mp hfound
        obtain rfl := Option.some.inj (hold.symm.trans hlookup)
        rw [hoffline] at honline
        cases honline
  · rw [hdevices] at hchanged
    exact absurd rfl hchanged

/-- The loop keeps its fingerprint, and it has no entry. -/
theorem own_fingerprint_not_listed
    (h : Exec (DiscoveryLoop.step codec) Guard.free (.start cfg pubkey) inputs trace s) :
    s.cfg.fingerprint = cfg.fingerprint ∧ s.devices.lookup cfg.fingerprint = none := by
  induction h with
  | start => exact ⟨rfl, rfl⟩
  | @step inputs trace s next input emitted _ _ hnext ih =>
    refine ⟨(step_devices hnext).1.trans ih.1, ?_⟩
    by_contra hlisted
    rw [← ih.2] at hlisted
    rcases entry_changed hnext hlisted with
      ⟨_, _, _, _, _, _, _, _, _, _, hother, _⟩ | ⟨_, _, _, hsome, _, _⟩
    · exact hother ih.1.symm
    · rw [ih.2] at hsome
      cases hsome

/-- In every run the entry of a fingerprint is that of the last packet entered with it, a packet that
is signed with the key it names, and a step changes the entry only by such a packet or because the
device was not heard of. Where every packet that was entered names the fingerprint of its key, the
entry comes from a packet of that key. -/
theorem identity_binding
    (h : Exec (DiscoveryLoop.step codec) Guard.free (.start cfg pubkey) inputs trace s)
    (fingerprint : Fingerprint) :
    (∀ device, s.devices.lookup fingerprint = some device →
        fingerprint ≠ cfg.fingerprint ∧ ∃ bytes pkt src now later,
          Standing (DiscoveryEvent.touches fingerprint) trace (.listed bytes pkt src now) later ∧
            Signed codec bytes pkt ∧ pkt.fingerprint = fingerprint ∧
              device = deviceOf pkt src now) ∧
      (∀ input next emitted, DiscoveryLoop.step codec s input = some (next, emitted) →
        next.devices.lookup fingerprint ≠ s.devices.lookup fingerprint →
        (∃ bytes src nowMs now nonce pkt, input = .datagram bytes src nowMs now nonce ∧
            Signed codec (bytes.take bufferSize) pkt ∧ InWindow pkt nowMs ∧
            pkt.fingerprint = fingerprint ∧ fingerprint ≠ s.cfg.fingerprint ∧
            next.devices.lookup fingerprint = some (deviceOf pkt src now)) ∨
          ∃ now device, input = .expire now ∧ s.devices.lookup fingerprint = some device ∧
            s.cfg.offlineSecs * 1000 ≤ now - device.lastSeen ∧
            next.devices.lookup fingerprint = none) ∧
      ∀ owner : Fingerprint → PublicKey → Prop,
        (∀ bytes pkt src now, .listed bytes pkt src now ∈ trace →
          owner pkt.fingerprint pkt.pubkey) →
        ∀ device, s.devices.lookup fingerprint = some device → ∃ bytes pkt src now later,
          Standing (DiscoveryEvent.touches fingerprint) trace (.listed bytes pkt src now) later ∧
            Signed codec bytes pkt ∧ owner fingerprint pkt.pubkey ∧
              device = deviceOf pkt src now := by
  refine ⟨?_, fun input next emitted => entry_changed, ?_⟩
  · intro device hentry
    refine ⟨?_, entry_of_last_packet h hentry⟩
    rintro rfl
    rw [(own_fingerprint_not_listed h).2] at hentry
    cases hentry
  · intro owner howner device hentry
    obtain ⟨bytes, pkt, src, now, later, hstanding, hsigned, rfl, hdevice⟩ :=
      entry_of_last_packet h hentry
    exact ⟨bytes, pkt, src, now, later, hstanding, hsigned,
      howner bytes pkt src now hstanding.mem, hdevice⟩

end Runs

/-- A packet of another key with the fingerprint of the first device. -/
def forged : DiscoveryPacket :=
  { hello with name := "b", pubkey := 8#256, nonce := 10#96 }

/-- Stands for the signatures of two keys. -/
def keySign (key : PublicKey) (text : List UInt8) : List UInt8 :=
  List.replicate 64 (text.foldl (· + ·) (UInt8.ofNat key.toNat))

/-- The libraries on the packets of the two keys. -/
def twoKeys : Codec where
  fromSlice text := [hello, forged].find? fun pkt => pkt.toVec == text
  validKey key := key == 7#256 || key == 8#256
  verify key text signature := signature == keySign key text

/-- A device that listens. -/
def listener : DiscoveryLoop :=
  .start { hidden := false, name := "c", quicPort := 47601, offlineSecs := 15, fingerprint := 3#256 }
    9#256

/-- The packet of the first device. -/
def helloInput : DiscoveryInput :=
  .datagram (encodeAndSign hello (keySign 7#256)) { ip := .v4 10 0 0 1, port := 47600 } 1000000 0 1

/-- The packet of the other key. -/
def forgedInput : DiscoveryInput :=
  .datagram (encodeAndSign forged (keySign 8#256)) { ip := .v4 10 0 0 9, port := 47600 } 1000000 0 2

/-- A packet of another key renames the first device and leads to another address. -/
theorem entry_redirected :
    ¬ ∀ codec cfg pubkey inputs trace s fingerprint input next emitted,
      ∀ owner : Fingerprint → PublicKey → Prop,
        (∀ fingerprint key other, owner fingerprint key → owner fingerprint other → key = other) →
        Exec (DiscoveryLoop.step codec) Guard.free (.start cfg pubkey) inputs trace s →
        DiscoveryLoop.step codec s input = some (next, emitted) →
        next.devices.lookup fingerprint ≠ s.devices.lookup fingerprint →
        (∃ bytes src nowMs now nonce pkt, input = .datagram bytes src nowMs now nonce ∧
            Signed codec (bytes.take bufferSize) pkt ∧ owner fingerprint pkt.pubkey) ∨
          ∃ now, input = .expire now := by
  intro hall
  have hrun : (Machine.run (DiscoveryLoop.step twoKeys) Guard.free [] listener
      [helloInput]).bind (fun first => (DiscoveryLoop.step twoKeys first.1 forgedInput).map
        fun second => (first.1.devices.lookup 2#256, second.1.devices.lookup 2#256)) =
      some (some (deviceOf hello { ip := .v4 10 0 0 1, port := 47600 } 0),
        some (deviceOf forged { ip := .v4 10 0 0 9, port := 47600 } 0)) := by
    decide +kernel
  obtain ⟨⟨s, trace⟩, hfirst, hsecond⟩ := Option.bind_eq_some_iff.mp hrun
  obtain ⟨⟨next, emitted⟩, hstep, hlookups⟩ := Option.map_eq_some_iff.mp hsecond
  obtain ⟨hbefore, hafter⟩ := Prod.mk.inj hlookups
  have hchanged : next.devices.lookup 2#256 ≠ s.devices.lookup 2#256 := by
    show next.devices.lookup 2#256 ≠ s.devices.lookup 2#256
    rw [hbefore, hafter]
    decide
  rcases hall twoKeys _ _ _ _ _ 2#256 forgedInput _ _ (fun fp key => fp = 2#256 ∧ key = 7#256)
      (fun _ _ _ h h' => h.2.trans h'.2.symm) (Exec.start.append_run hfirst) hstep hchanged with
    ⟨bytes, src, nowMs, now, nonce, pkt, hinput, hsigned, howner⟩ | ⟨now, hinput⟩
  · cases hinput
    have hforged : signedPacket twoKeys ((encodeAndSign forged (keySign 8#256)).take bufferSize) =
        some forged := by decide +kernel
    obtain rfl := (signed_packet_iff.mp hforged).unique hsigned
    exact absurd howner.2 (by decide)
  · cases hinput

/-- The packet of the first device enters it. -/
theorem identity_binding_hello :
    ∃ trace s device, Exec (DiscoveryLoop.step twoKeys) Guard.free listener [helloInput] trace s ∧
      s.devices.lookup 2#256 = some device ∧ ∃ bytes pkt src now later,
        Standing (DiscoveryEvent.touches 2#256) trace (.listed bytes pkt src now) later ∧
          Signed twoKeys bytes pkt ∧ pkt.fingerprint = 2#256 ∧ device = deviceOf pkt src now := by
  have hrun : (Machine.run (DiscoveryLoop.step twoKeys) Guard.free [] listener
      [helloInput]).map (fun result => result.1.devices.lookup 2#256) =
      some (some (deviceOf hello { ip := .v4 10 0 0 1, port := 47600 } 0)) := by
    decide +kernel
  obtain ⟨⟨s, trace⟩, hran, hentry⟩ := Option.map_eq_some_iff.mp hrun
  have hexec := Exec.start.append_run hran
  exact ⟨trace, s, _, hexec, hentry, ((identity_binding hexec 2#256).1 _ hentry).2⟩

end LocalTrans.Discovery
