import LocalTrans.Foundation.Framing
import LocalTrans.Foundation.Json
import LocalTrans.Protocol

/-!
# The messages of the relay

`relay/proto.rs`: what the relay and its clients say on the control connection, and how it is
written on a stream, as a JSON text behind its length in four big-endian bytes. A client reads a
pushed message from a stream of its own with `readUni`. The parser of the JSON text is a
parameter. `length_roster_body` says how long the text of a roster is.
-/

namespace LocalTrans.Relay

open Foundation

/-- `IpAddr`: four bytes, or eight groups of 16 bits. -/
inductive IpAddr where
  | v4 (a b c d : UInt8)
  | v6 (segments : Vector UInt16 8)
deriving DecidableEq

/-- `SocketAddr`. -/
structure SocketAddr where
  ip : IpAddr
  port : UInt16
deriving DecidableEq

/-- `LeaseInfo`: the port and the token of a lease on the data plane. -/
structure LeaseInfo where
  dataPort : UInt16
  token : BitVec 128
deriving DecidableEq

/-- `RemoteDevice`: a device of the roster. -/
structure RemoteDevice where
  fingerprint : Fingerprint
  name : String
  leaseAddr : SocketAddr
  relayedEphemeral : Bool
deriving DecidableEq

/-- `RelayMsg`. -/
inductive RelayMsg where
  | register (name : String) (fingerprint : Fingerprint) (hidden : Bool) (certDer : List UInt8)
      (nonceSig : BitVec 512)
  | ping
  | punch (targetFp : Fingerprint)
  | leave
  | serverNonce (nonce : BitVec 256)
  | registerAck (lease : Option LeaseInfo) (observedAddr : Option String)
  | roster (rev : Nat) (devices : List RemoteDevice)
  | punchNotif (targetFp : Fingerprint) (targetLease : SocketAddr)
  | punchResp (ok : Bool) (reason sessionAddr : Option String)
  | error (code : Nat) (msg : String)
deriving DecidableEq

/-- The lower-case hexadecimal digits of a group. -/
def hexGroup (segment : UInt16) : String :=
  String.ofList (Nat.toDigits 16 segment.toNat)

/-- Groups with colons between them. -/
def hexGroups (segments : List UInt16) : String :=
  String.intercalate ":" (segments.map hexGroup)

/-- The first of the longest runs of zero groups, as its start and its length. -/
def longestZeros (segments : List UInt16) : Nat × Nat :=
  (segments.zipIdx.foldl (fun (longest, current) (segment, i) =>
    if segment = 0 then
      let current := if current.2 = 0 then (i, 1) else (current.1, current.2 + 1)
      (if current.2 > longest.2 then current else longest, current)
    else (longest, (0, 0))) ((0, 0), (0, 0))).1

/-- How an IPv4 address is displayed. -/
def dotted (a b c d : UInt8) : String :=
  String.intercalate "." ([a, b, c, d].map fun byte => toString byte.toNat)

/-- How an address is displayed. -/
def IpAddr.text : IpAddr → String
  | .v4 a b c d => dotted a b c d
  | .v6 segments =>
    let groups := segments.toList
    if groups.take 6 = [0, 0, 0, 0, 0, 0xffff] then
      "::ffff:" ++ String.intercalate "." ((groups.drop 6).flatMap fun group =>
        [toString (group.toNat / 256), toString (group.toNat % 256)])
    else
      let zeros := longestZeros groups
      if zeros.2 > 1 then
        hexGroups (groups.take zeros.1) ++ "::" ++ hexGroups (groups.drop (zeros.1 + zeros.2))
      else hexGroups groups

/-- How an address with a port is displayed. -/
def SocketAddr.text (addr : SocketAddr) : String :=
  match addr.ip with
  | .v4 a b c d => dotted a b c d ++ ":" ++ toString addr.port.toNat
  | .v6 segments => "[" ++ (IpAddr.v6 segments).text ++ "]:" ++ toString addr.port.toNat

/-- An array of bytes. -/
def byteArray (bytes : List UInt8) : List UInt8 :=
  Json.array (bytes.map fun byte => Json.number byte.toNat)

/-- The bytes of a fingerprint. -/
def fingerprintBytes (fingerprint : Fingerprint) : List UInt8 :=
  toBeBytes 32 fingerprint.toNat

/-- A value that may be missing. -/
def nullable : Option (List UInt8) → List UInt8
  | some value => value
  | none => Json.null

/-- How a `LeaseInfo` is written. -/
def LeaseInfo.json (lease : LeaseInfo) : List UInt8 :=
  Json.object [Json.field "data_port" (Json.number lease.dataPort.toNat),
    Json.field "token" (byteArray (toBeBytes 16 lease.token.toNat))]

/-- How a `RemoteDevice` is written. -/
def RemoteDevice.json (device : RemoteDevice) : List UInt8 :=
  Json.object [Json.field "fingerprint" (byteArray (fingerprintBytes device.fingerprint)),
    Json.field "name" (Json.string device.name),
    Json.field "lease_addr" (Json.string device.leaseAddr.text),
    Json.field "relayed_ephemeral" (Json.bool device.relayedEphemeral)]

/-- The tag of a message, and its fields. -/
def RelayMsg.fields : RelayMsg → String × List (List UInt8)
  | .register name fingerprint hidden certDer nonceSig =>
    ("register", [Json.field "name" (Json.string name),
      Json.field "fingerprint" (byteArray (fingerprintBytes fingerprint)),
      Json.field "hidden" (Json.bool hidden), Json.field "cert_der" (byteArray certDer),
      Json.field "nonce_sig" (Json.string (hexEncode nonceSig))])
  | .ping => ("ping", [])
  | .punch targetFp =>
    ("punch", [Json.field "target_fp" (byteArray (fingerprintBytes targetFp))])
  | .leave => ("leave", [])
  | .serverNonce nonce =>
    ("server_nonce", [Json.field "nonce" (byteArray (toBeBytes 32 nonce.toNat))])
  | .registerAck lease observedAddr =>
    ("register_ack", Json.field "lease" (nullable (lease.map LeaseInfo.json)) ::
      (observedAddr.map fun addr => Json.field "observed_addr" (Json.string addr)).toList)
  | .roster rev devices =>
    ("roster", [Json.field "rev" (Json.number rev),
      Json.field "devices" (Json.array (devices.map RemoteDevice.json))])
  | .punchNotif targetFp targetLease =>
    ("punch_notif", [Json.field "target_fp" (byteArray (fingerprintBytes targetFp)),
      Json.field "target_lease" (Json.string targetLease.text)])
  | .punchResp ok reason sessionAddr =>
    ("punch_resp", [Json.field "ok" (Json.bool ok),
      Json.field "reason" (nullable (reason.map Json.string)),
      Json.field "session_addr" (nullable (sessionAddr.map Json.string))])
  | .error code msg =>
    ("error", [Json.field "code" (Json.number code), Json.field "msg" (Json.string msg)])

/-- `serde_json::to_vec` of a message. -/
def RelayMsg.body (msg : RelayMsg) : List UInt8 :=
  Json.object (Json.field "type" (Json.string msg.fields.1) :: msg.fields.2)

/-- The most bytes a message may have. -/
def maxFrame : Nat := 64 * 1024

/-- `encode_relay_msg`. -/
def encodeRelayMsg (msg : RelayMsg) : Except String (List UInt8) :=
  if msg.body.length > maxFrame then .error "控制消息过大"
  else .ok (toBeBytes 4 msg.body.length ++ msg.body)

section Decoding

variable (fromJson : List UInt8 → Except String RelayMsg)

/-- `decode_relay_msg`. -/
def decodeRelayMsg (bytes : List UInt8) : Except String RelayMsg :=
  if bytes.length < 4 then .error "消息过短"
  else if bytes.length ≠ 4 + fromBeBytes (bytes.take 4) then .error "长度不匹配"
  else fromJson (bytes.drop 4)

/-- The reads of `recv_uni` and `read_uni_msg`: what they find in the bytes of a stream that have
arrived so far. -/
def readUni (arrived : List UInt8) : Front RelayMsg UInt8 :=
  if arrived.length < 4 then .incomplete
  else
    let len := fromBeBytes (arrived.take 4)
    if len > maxFrame then .broken
    else if arrived.length < 4 + len then .incomplete
    else
      match decodeRelayMsg fromJson (arrived.take (4 + len)) with
      | .ok msg => .item msg (arrived.drop (4 + len))
      | .error _ => .broken

variable {fromJson} {msg : RelayMsg} {bytes : List UInt8}

theorem encode_relay_msg_iff :
    encodeRelayMsg msg = .ok bytes ↔
      msg.body.length ≤ maxFrame ∧ bytes = toBeBytes 4 msg.body.length ++ msg.body := by
  unfold encodeRelayMsg
  split
  · next hlong => exact ⟨fun h => (by cases h), fun h => absurd h.1 (Nat.not_le.mpr hlong)⟩
  · next hfits => exact ⟨fun h => ⟨Nat.not_lt.mp hfits, (Except.ok.inj h).symm⟩, fun h => h.2 ▸ rfl⟩

/-- The first four bytes of a frame are its length. -/
theorem frame_length (hfits : msg.body.length ≤ maxFrame) {rest : List UInt8} :
    fromBeBytes ((toBeBytes 4 msg.body.length ++ rest).take 4) = msg.body.length := by
  have hlt : msg.body.length < 256 ^ 4 := Nat.lt_of_le_of_lt hfits (by decide)
  have htake : (toBeBytes 4 msg.body.length ++ rest).take 4 = toBeBytes 4 msg.body.length := by
    rw [List.take_append_of_le_length (by simp), List.take_of_length_le (by simp)]
  rw [htake]
  exact (from_to_be_bytes 4 _).trans (Nat.mod_eq_of_lt hlt)

/-- A frame that has arrived whole is read. -/
theorem read_uni_encoded (hencoded : encodeRelayMsg msg = .ok bytes)
    (hparsed : fromJson msg.body = .ok msg) : readUni fromJson bytes = .item msg [] := by
  obtain ⟨hfits, rfl⟩ := encode_relay_msg_iff.mp hencoded
  have hlength : (toBeBytes 4 msg.body.length ++ msg.body).length = 4 + msg.body.length := by simp
  have hwhole : (toBeBytes 4 msg.body.length ++ msg.body).take (4 + msg.body.length) =
      toBeBytes 4 msg.body.length ++ msg.body := List.take_of_length_le (Nat.le_of_eq hlength)
  have hdecoded : decodeRelayMsg fromJson (toBeBytes 4 msg.body.length ++ msg.body) = .ok msg := by
    unfold decodeRelayMsg
    rw [frame_length hfits, if_neg (by omega), if_neg (by omega),
      List.drop_append_of_le_length (by simp), List.drop_of_length_le (by simp)]
    exact hparsed
  unfold readUni
  rw [frame_length hfits, if_neg (by omega)]
  dsimp only
  rw [if_neg (Nat.not_lt.mpr hfits), if_neg (by omega), hwhole, hdecoded]
  dsimp only
  rw [List.drop_of_length_le (Nat.le_of_eq hlength)]

/-- A frame of which a part is missing is waited for. -/
theorem read_uni_part (hencoded : encodeRelayMsg msg = .ok bytes) {count : Nat}
    (hpart : count < bytes.length) : readUni fromJson (bytes.take count) = .incomplete := by
  obtain ⟨hfits, rfl⟩ := encode_relay_msg_iff.mp hencoded
  have hlength : (toBeBytes 4 msg.body.length ++ msg.body).length = 4 + msg.body.length := by simp
  have htaken : ((toBeBytes 4 msg.body.length ++ msg.body).take count).length = count := by
    rw [List.length_take]
    omega
  unfold readUni
  rw [htaken]
  split
  · rfl
  · next hfour =>
    have hhead : ((toBeBytes 4 msg.body.length ++ msg.body).take count).take 4 =
        (toBeBytes 4 msg.body.length ++ msg.body).take 4 := by
      rw [List.take_take, Nat.min_eq_left (by omega)]
    dsimp only
    rw [hhead, frame_length hfits, if_neg (Nat.not_lt.mpr hfits), if_pos (by omega)]

/-- A frame has at least the bytes of its length. -/
theorem encoded_pos (hencoded : encodeRelayMsg msg = .ok bytes) : 0 < bytes.length := by
  obtain ⟨-, rfl⟩ := encode_relay_msg_iff.mp hencoded
  rw [List.length_append, length_toBeBytes]
  omega

end Decoding

/-- The bytes of the text of a device: its fields and a fixed frame. -/
def RemoteDevice.size (device : RemoteDevice) : Nat :=
  96 + ((fingerprintBytes device.fingerprint).map fun byte => Json.numberSize byte.toNat).sum +
    Json.stringSize device.name + Json.stringSize device.leaseAddr.text +
    if device.relayedEphemeral then 0 else 1

/-- The bytes of the text of a roster. -/
def rosterSize (rev : Nat) (devices : List RemoteDevice) : Nat :=
  36 + Json.numberSize rev + (devices.map RemoteDevice.size).sum + max devices.length 1

theorem length_byte_array (bytes : List UInt8) :
    (byteArray bytes).length =
      1 + (bytes.map fun byte => Json.numberSize byte.toNat).sum + max bytes.length 1 := by
  have hitems : (bytes.map fun byte => Json.number byte.toNat).map List.length =
      bytes.map fun byte => Json.numberSize byte.toNat := by
    simp [Function.comp_def]
  rw [byteArray, Json.length_array, hitems, List.length_map]

theorem length_device (device : RemoteDevice) : device.json.length = device.size := by
  have hbool : (Json.bool device.relayedEphemeral).length =
      4 + if device.relayedEphemeral then 0 else 1 := by
    cases device.relayedEphemeral <;> decide
  have hbytes : (fingerprintBytes device.fingerprint).length = 32 := length_toBeBytes _ _
  have hnames : Json.stringSize "fingerprint" = 13 ∧ Json.stringSize "name" = 6 ∧
      Json.stringSize "lease_addr" = 12 ∧ Json.stringSize "relayed_ephemeral" = 19 := by
    decide
  obtain ⟨hfingerprint, hname, haddr, hephemeral⟩ := hnames
  simp only [RemoteDevice.json, Json.length_object, List.map_cons, List.map_nil, List.sum_cons,
    List.sum_nil, Json.length_field, Json.length_string, length_byte_array, hbytes, hbool,
    hfingerprint, hname, haddr, hephemeral, List.length_cons, List.length_nil,
    RemoteDevice.size]
  omega

/-- How long the text of a roster is. -/
theorem length_roster_body (rev : Nat) (devices : List RemoteDevice) :
    (RelayMsg.roster rev devices).body.length = rosterSize rev devices := by
  have hdevices : (devices.map RemoteDevice.json).map List.length =
      devices.map RemoteDevice.size := by
    rw [List.map_map]
    exact List.map_congr_left fun device _ => length_device device
  have hnames : Json.stringSize "type" = 6 ∧ Json.stringSize "roster" = 8 ∧
      Json.stringSize "rev" = 5 ∧ Json.stringSize "devices" = 9 := by
    decide
  obtain ⟨htype, hroster, hrev, hlist⟩ := hnames
  simp only [RelayMsg.body, RelayMsg.fields, Json.length_object, List.map_cons, List.map_nil,
    List.sum_cons, List.sum_nil, Json.length_field, Json.length_string, Json.length_number,
    Json.length_array, hdevices, htype, hroster, hrev, hlist, List.length_cons, List.length_nil,
    List.length_map, rosterSize]
  omega

/-- A roster can be encoded if its text is not too long. -/
theorem roster_encodes_iff (rev : Nat) (devices : List RemoteDevice) :
    (∃ bytes, encodeRelayMsg (.roster rev devices) = .ok bytes) ↔
      rosterSize rev devices ≤ maxFrame := by
  rw [← length_roster_body]
  constructor
  · rintro ⟨bytes, h⟩
    exact (encode_relay_msg_iff.mp h).1
  · intro h
    exact ⟨_, encode_relay_msg_iff.mpr ⟨h, rfl⟩⟩

end LocalTrans.Relay
