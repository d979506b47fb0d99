import LocalTrans.Relay.DataPlane

/-!
# The virtual socket

`VirtualUdp::poll_recv` of `virtual_ep.rs`, which hands to the QUIC endpoint what the relay forwards.
The relay forwards payloads without a header; only a packet that begins with a header with the
token of the socket itself loses it. The endpoint passes buffers of the size it is configured for,
which is less than what the relay forwards. `receives_iff` says when every datagram is received as it
should be.
-/

namespace LocalTrans.Relay.Lease

open Foundation

/-- `max_udp_payload_size` of the endpoints. -/
def maxUdpPayloadSize : Nat := 1200

/-- `RecvMeta`. -/
structure RecvMeta where
  addr : SocketAddr
  len : Nat
  stride : Nat
  ecn : Option (BitVec 2)
  dstIp : Option IpAddr
deriving DecidableEq

/-- `VirtualUdp`, with what waits in its socket: datagrams and errors. -/
structure VirtualUdp where
  sock : List (Except String (List UInt8))
  relaySessionAddr : SocketAddr
  token : BitVec 128

/-- The buffers that the endpoint passes, and the places for what it is told about them: at least one
buffer, of the configured size or larger. -/
structure RecvSlots where
  buf : List UInt8
  bufs : List (List UInt8)
  place : RecvMeta
  places : List RecvMeta
  large : maxUdpPayloadSize ≤ buf.length

/-- What a call gives back: the result, the buffers and the places. -/
structure Polled where
  result : Option (Except String Nat)
  bufs : List (List UInt8)
  places : List RecvMeta
deriving DecidableEq

namespace VirtualUdp

/-- A packet begins with a header that has the token. -/
def ownHeader (token : BitVec 128) (packet : List UInt8) : Bool :=
  match dataHeaderDecode packet with
  | .ok (token', _) => token' = token
  | .error _ => false

/-- What a packet carries: it loses a header of its own. -/
def payloadOf (token : BitVec 128) (packet : List UInt8) : List UInt8 :=
  if dataHeaderLen ≤ packet.length then
    if ownHeader token packet then packet.drop dataHeaderLen else packet
  else packet

/-- `poll_recv`; there is no result while nothing waits, and none at all if a slice is out of its
range. The buffer of the socket has 2048 bytes. -/
def pollRecv (udp : VirtualUdp) (slots : RecvSlots) : Option (VirtualUdp × Polled) :=
  match udp.sock with
  | [] => some (udp, ⟨none, slots.buf :: slots.bufs, slots.place :: slots.places⟩)
  | .error e :: rest =>
    some ({ udp with sock := rest },
      ⟨some (.error e), slots.buf :: slots.bufs, slots.place :: slots.places⟩)
  | .ok datagram :: rest =>
    let payload := payloadOf udp.token (datagram.take 2048)
    if payload = [] then
      some ({ udp with sock := rest },
        ⟨some (.ok 0), slots.buf :: slots.bufs, slots.place :: slots.places⟩)
    else if payload.length ≤ slots.buf.length then
      some ({ udp with sock := rest },
        ⟨some (.ok 1), (payload ++ slots.buf.drop payload.length) :: slots.bufs,
          ⟨udp.relaySessionAddr, payload.length, payload.length, none, none⟩ :: slots.places⟩)
    else none

/-- The endpoint polls again and again; a call that panics is the last one. -/
def recvAll (udp : VirtualUdp) : List RecvSlots → List (Option Polled)
  | [] => []
  | slots :: rest =>
    match udp.pollRecv slots with
    | some (next, polled) => some polled :: next.recvAll rest
    | none => [none]

end VirtualUdp

/-- One datagram is in the first buffer: all its bytes, its sender and its length. -/
def Polled.Delivers (polled : Polled) (addr : SocketAddr) (datagram : List UInt8) : Prop :=
  polled.result = some (.ok 1) ∧
    polled.places.head? = some ⟨addr, datagram.length, datagram.length, none, none⟩ ∧
    polled.bufs.head?.map (List.take datagram.length) = some datagram

/-- A datagram is received as it should be: it is delivered if it fits into the buffer, and dropped
or truncated if it does not. -/
def ReceivedRightly (addr : SocketAddr) (item : List UInt8 × RecvSlots) (result : Option Polled) :
    Prop :=
  ∃ polled, result = some polled ∧
    if item.1.length ≤ item.2.buf.length then polled.Delivers addr item.1
    else polled.result = some (.ok 0) ∨
      ∃ n ≤ item.2.buf.length, polled.Delivers addr (item.1.take n)

namespace VirtualUdp

variable {token : BitVec 128} {packet payload : List UInt8} {udp : VirtualUdp}

/-- A packet with a header of the socket is at least as long as the header. -/
theorem own_header_length (h : ownHeader token packet = true) : dataHeaderLen ≤ packet.length := by
  by_contra hshort
  have hdecode : dataHeaderDecode packet = .error "数据包头不足" := by
    unfold dataHeaderDecode
    split
    · rw [if_pos (Nat.lt_of_not_le hshort)]
    · rfl
  simp [ownHeader, hdecode] at h

theorem payload_of_own (h : ownHeader token packet = true) :
    payloadOf token packet = packet.drop dataHeaderLen := by
  rw [payloadOf, if_pos (own_header_length h), if_pos h]

theorem payload_of_bare (h : ownHeader token packet = false) : payloadOf token packet = packet := by
  simp [payloadOf, h]

/-- A datagram meets the condition: it is not empty, fits into the buffer, and does not begin with a
header that has the token of the socket. A longer one meets it if it begins with such a header and
what follows fits, and repeats the datagram from its start. -/
def Receivable (token : BitVec 128) (item : List UInt8 × RecvSlots) : Prop :=
  item.1 ≠ [] ∧
    if item.1.length ≤ item.2.buf.length then ownHeader token item.1 = false
    else ownHeader token item.1 = true ∧
      (item.1.drop dataHeaderLen).length ≤ item.2.buf.length ∧ item.1.drop dataHeaderLen <+: item.1

instance (token : BitVec 128) (item : List UInt8 × RecvSlots) :
    Decidable (Receivable token item) := by
  unfold Receivable
  infer_instance

/-- What was copied is what is delivered. -/
theorem delivers_iff {addr : SocketAddr} {payload datagram rest : List UInt8}
    {bufs : List (List UInt8)} {places : List RecvMeta} :
    (Polled.mk (some (.ok 1)) ((payload ++ rest) :: bufs)
        (⟨addr, payload.length, payload.length, none, none⟩ :: places)).Delivers addr datagram ↔
      payload = datagram := by
  constructor
  · rintro ⟨-, hplace, hbytes⟩
    have hlength : payload.length = datagram.length :=
      congrArg RecvMeta.len (Option.some.inj hplace)
    have htake : (payload ++ rest).take datagram.length = datagram := Option.some.inj hbytes
    rwa [← hlength, List.take_left] at htake
  · rintro rfl
    exact ⟨rfl, rfl, congrArg some List.take_left⟩

/-- A datagram that waits is read as a whole. -/
theorem poll_recv_datagram {datagram : List UInt8} {rest : List (Except String (List UInt8))}
    (hsock : udp.sock = .ok datagram :: rest) (hok : dataPacketOk datagram = true)
    (slots : RecvSlots) :
    udp.pollRecv slots =
      if payloadOf udp.token datagram = [] then
        some ({ udp with sock := rest },
          ⟨some (.ok 0), slots.buf :: slots.bufs, slots.place :: slots.places⟩)
      else if (payloadOf udp.token datagram).length ≤ slots.buf.length then
        some ({ udp with sock := rest },
          ⟨some (.ok 1), (payloadOf udp.token datagram ++
              slots.buf.drop (payloadOf udp.token datagram).length) :: slots.bufs,
            ⟨udp.relaySessionAddr, (payloadOf udp.token datagram).length,
              (payloadOf udp.token datagram).length, none, none⟩ :: slots.places⟩)
      else none := by
  have hwhole : datagram.take 2048 = datagram := by
    refine List.take_of_length_le (Nat.le_trans (of_decide_eq_true hok) ?_)
    exact show dataPacketLimit ≤ 2048 by decide
  unfold pollRecv
  simp only [hsock, hwhole]

/-- A call takes one datagram out of the socket. -/
theorem sock_of_poll_recv {next : VirtualUdp} {polled : Polled} {slots : RecvSlots}
    {datagram : List UInt8} {rest : List (Except String (List UInt8))}
    (hsock : udp.sock = .ok datagram :: rest) (h : udp.pollRecv slots = some (next, polled)) :
    next = { udp with sock := rest } := by
  unfold pollRecv at h
  simp only [hsock] at h
  split at h
  · exact (answer_inj h).1.symm
  · split at h
    · exact (answer_inj h).1.symm
    · cases h

section Rightly

variable {item : List UInt8 × RecvSlots} {rest : List (Except String (List UInt8))}

/-- A datagram without such a header is received as it should be if it is not empty and fits. -/
theorem rightly_of_bare (hsock : udp.sock = .ok item.1 :: rest) (hok : dataPacketOk item.1 = true)
    (hbare : ownHeader udp.token item.1 = false) :
    ReceivedRightly udp.relaySessionAddr item ((udp.pollRecv item.2).map Prod.snd) ↔
      Receivable udp.token item := by
  rw [poll_recv_datagram hsock hok, payload_of_bare hbare]
  unfold ReceivedRightly Receivable
  by_cases hempty : item.1 = []
  · have hfits : item.1.length ≤ item.2.buf.length := by
      rw [hempty]
      exact Nat.zero_le _
    simp [hempty, Polled.Delivers]
  · by_cases hfits : item.1.length ≤ item.2.buf.length
    · simp [hempty, hfits, hbare, delivers_iff]
    · simp [hempty, hfits, hbare]

/-- A datagram with such a header loses it. -/
theorem rightly_of_own (hsock : udp.sock = .ok item.1 :: rest) (hok : dataPacketOk item.1 = true)
    (hown : ownHeader udp.token item.1 = true) :
    ReceivedRightly udp.relaySessionAddr item ((udp.pollRecv item.2).map Prod.snd) ↔
      Receivable udp.token item := by
  have hheader := own_header_length hown
  have hsize := item.2.large
  rw [poll_recv_datagram hsock hok, payload_of_own hown]
  unfold ReceivedRightly Receivable
  have hne : item.1 ≠ [] := by
    rintro heq
    rw [heq] at hheader
    cases hheader
  have hpos : 0 < dataHeaderLen := by decide
  have hlength : (item.1.drop dataHeaderLen).length < item.1.length := by
    rw [List.length_drop]
    omega
  by_cases hfits : item.1.length ≤ item.2.buf.length
  · -- The header is missing from what is delivered.
    rw [if_pos hfits, hown]
    refine iff_of_false ?_ (by simp)
    rintro ⟨polled, hpolled, hright⟩
    rw [if_pos hfits] at hright
    split at hpolled
    · obtain rfl := Option.some.inj hpolled
      cases hright.1
    · rw [if_pos (by omega)] at hpolled
      obtain rfl := Option.some.inj hpolled
      have hsame := delivers_iff.mp hright
      rw [hsame] at hlength
      exact Nat.lt_irrefl _ hlength
  · rw [if_neg hfits, if_neg (by
      intro hnil
      have hzero := congrArg List.length hnil
      rw [List.length_drop, List.length_nil] at hzero
      have hlimit : maxUdpPayloadSize = 1200 := rfl
      have hlen : dataHeaderLen = 18 := rfl
      omega)]
    by_cases hrest : (item.1.drop dataHeaderLen).length ≤ item.2.buf.length
    · rw [if_pos hrest]
      constructor
      · rintro ⟨polled, hpolled, hright⟩
        obtain rfl := Option.some.inj hpolled
        rw [if_neg hfits] at hright
        rcases hright with hzero | ⟨n, -, hdelivers⟩
        · simp at hzero
        · refine ⟨hne, hown, hrest, ?_⟩
          rw [delivers_iff.mp hdelivers]
          exact List.take_prefix n item.1
      · rintro ⟨-, -, -, hstart⟩
        refine ⟨_, rfl, ?_⟩
        rw [if_neg hfits]
        refine .inr ⟨(item.1.drop dataHeaderLen).length, hrest, delivers_iff.mpr ?_⟩
        exact List.prefix_iff_eq_take.mp hstart
    · rw [if_neg hrest]
      refine iff_of_false ?_ fun h => hrest h.2.2.1
      rintro ⟨polled, hpolled, -⟩
      cases hpolled

/-- A datagram that waits is received as it should be exactly if it meets the condition. -/
theorem rightly_iff (hsock : udp.sock = .ok item.1 :: rest) (hok : dataPacketOk item.1 = true) :
    ReceivedRightly udp.relaySessionAddr item ((udp.pollRecv item.2).map Prod.snd) ↔
      Receivable udp.token item := by
  cases hown : ownHeader udp.token item.1 with
  | false => exact rightly_of_bare hsock hok hown
  | true => exact rightly_of_own hsock hok hown

end Rightly

/-- The datagrams that the relay forwards are received as they should be, one after the other,
exactly if each of them meets the condition. -/
theorem receives_iff (udp : VirtualUdp) (items : List (List UInt8 × RecvSlots))
    (later : List (Except String (List UInt8)))
    (hsock : udp.sock = items.map (fun item => .ok item.1) ++ later)
    (hok : ∀ item ∈ items, dataPacketOk item.1 = true) :
    List.Forall₂ (ReceivedRightly udp.relaySessionAddr) items (udp.recvAll (items.map Prod.snd)) ↔
      ∀ item ∈ items, Receivable udp.token item := by
  induction items generalizing udp with
  | nil => exact iff_of_true .nil fun item hmem => absurd hmem List.not_mem_nil
  | cons item items ih =>
    have hiff := rightly_iff hsock (hok item List.mem_cons_self)
    have hrest : ∀ item ∈ items, dataPacketOk item.1 = true := fun item hmem =>
      hok item (List.mem_cons_of_mem _ hmem)
    rw [List.forall_mem_cons, List.map_cons, recvAll]
    cases hpoll : udp.pollRecv item.2 with
    | none =>
      rw [hpoll] at hiff
      have hnot : ¬ ReceivedRightly udp.relaySessionAddr item none := by
        rintro ⟨polled, hpolled, -⟩
        cases hpolled
      refine iff_of_false ?_ fun h => hnot (hiff.mpr h.1)
      intro h
      exact hnot (List.forall₂_cons.mp h).1
    | some polled =>
      rw [hpoll] at hiff
      obtain ⟨next, polled⟩ := polled
      have hnext := sock_of_poll_recv hsock hpoll
      subst hnext
      rw [List.forall₂_cons]
      exact and_congr hiff
        (ih { udp with sock := items.map (fun item => .ok item.1) ++ later } rfl hrest)

/-- A buffer of the configured size. -/
def smallest : RecvSlots where
  buf := List.replicate maxUdpPayloadSize 0
  bufs := []
  place := ⟨⟨.v4 0 0 0 0, 0⟩, 0, 0, none, none⟩
  places := []
  large := Nat.le_of_eq List.length_replicate.symm

/-- A socket in which two datagrams wait. -/
def twoWaiting (first second : List UInt8) : VirtualUdp :=
  { sock := [.ok first, .ok second], relaySessionAddr := ⟨.v4 203 0 113 9, 9003⟩, token := 7 }

theorem receives_two :
    List.Forall₂ (ReceivedRightly ⟨.v4 203 0 113 9, 9003⟩) [([1, 2, 3], smallest), ([4], smallest)]
      ((twoWaiting [1, 2, 3] [4]).recvAll [smallest, smallest]) := by
  refine (receives_iff (twoWaiting [1, 2, 3] [4]) [([1, 2, 3], smallest), ([4], smallest)] [] rfl
    (by decide)).mpr ?_
  decide +kernel

/-- A datagram that the relay may forward is larger than the buffer: the call panics, and what waits
behind it is not received. -/
theorem receive_panics :
    dataPacketOk (List.replicate 1201 1) = true ∧
      (twoWaiting (List.replicate 1201 1) [4]).recvAll [smallest, smallest] = [none] ∧
      ¬ List.Forall₂ (ReceivedRightly ⟨.v4 203 0 113 9, 9003⟩)
        [(List.replicate 1201 1, smallest), ([4], smallest)]
        ((twoWaiting (List.replicate 1201 1) [4]).recvAll [smallest, smallest]) := by
  have hnone : (twoWaiting (List.replicate 1201 1) [4]).recvAll [smallest, smallest] = [none] := by
    decide +kernel
  refine ⟨by decide +kernel, hnone, ?_⟩
  rw [hnone]
  intro h
  cases h with
  | cons _ hrest => cases hrest

end VirtualUdp

end LocalTrans.Relay.Lease
