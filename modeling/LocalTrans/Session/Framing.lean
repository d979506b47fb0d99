import LocalTrans.Foundation.Framing
import LocalTrans.Foundation.Json
import LocalTrans.Protocol

/-!
# The control stream

A control message is a JSON text behind its length in four big-endian bytes. `takeMsg` takes one
from the buffer of a session, `recvMsg` reads one from a stream, and `ctrl_loop` extends its
buffer with what it receives and drains it. The parser of the JSON text is a parameter.
-/

namespace LocalTrans

open Foundation

/-- A text that may be missing. -/
def optionString : Option String → List UInt8
  | some text => Json.string text
  | none => Json.null

/-- A field that is left out when there is nothing to say. -/
def optionalField (name : String) : Option (List UInt8) → List (List UInt8)
  | some value => [Json.field name value]
  | none => []

/-- How an `OfferDenyReason` is written. -/
def OfferDenyReason.json : OfferDenyReason → List UInt8
  | .denied => Json.string "denied"
  | .timeout => Json.string "timeout"

/-- How a `TransferAction` is written. -/
def TransferAction.json : TransferAction → List UInt8
  | .pause => Json.string "pause"
  | .resume => Json.string "resume"
  | .cancel => Json.string "cancel"
  | .throttle maxStreams =>
    Json.object [Json.field "throttle" (Json.object [Json.field "max_streams"
      (Json.number maxStreams)])]

/-- How a `FileEntry` is written. -/
def FileEntry.json (entry : FileEntry) : List UInt8 :=
  Json.object [Json.field "name" (Json.string entry.name), Json.field "is_dir" (Json.bool entry.isDir),
    Json.field "size" (Json.number entry.size), Json.field "mtime" (Json.number entry.mtime)]

/-- How a `ShareInfo` is written. -/
def ShareInfo.json (share : ShareInfo) : List UInt8 :=
  Json.object [Json.field "id" (Json.string share.id), Json.field "alias" (Json.string share.aliasName)]

/-- How an `OfferFile` is written. -/
def OfferFile.json (file : OfferFile) : List UInt8 :=
  Json.object ([Json.field "name" (Json.string file.name), Json.field "size" (Json.number file.size),
    Json.field "rel_dir" (Json.string file.relDir)] ++
      optionalField "hash" (file.hash.map Json.string))

/-- The tag of a message, and its fields. -/
def ControlMsg.fields : ControlMsg → String × List (List UInt8)
  | .hello name fingerprint =>
    ("hello", [Json.field "name" (Json.string name), Json.field "fingerprint"
      (Json.string fingerprint)])
  | .pairCodeSubmit code => ("pair_code_submit", [Json.field "code" (Json.string code)])
  | .pairResult ok => ("pair_result", [Json.field "ok" (Json.bool ok)])
  | .consentGrant name => ("consent_grant", [Json.field "name" (Json.string name)])
  | .consentDeny => ("consent_deny", [])
  | .consentCancel => ("consent_cancel", [])
  | .listReq shareId path cursor msgId =>
    ("list_req", [Json.field "share_id" (Json.string shareId), Json.field "path" (Json.string path),
      Json.field "cursor" (Json.number cursor), Json.field "msg_id" (Json.number msgId)])
  | .listResp entries nextCursor msgId =>
    ("list_resp", [Json.field "entries" (Json.array (entries.map FileEntry.json)),
      Json.field "next_cursor" ((nextCursor.map Json.number).getD Json.null),
      Json.field "msg_id" (Json.number msgId)])
  | .sharesReq msgId => ("shares_req", [Json.field "msg_id" (Json.number msgId)])
  | .sharesResp shares msgId =>
    ("shares_resp", [Json.field "shares" (Json.array (shares.map ShareInfo.json)),
      Json.field "msg_id" (Json.number msgId)])
  | .sharesChanged shareId => ("shares_changed", [Json.field "share_id" (Json.string shareId)])
  | .metaReq shareId path msgId =>
    ("meta_req", [Json.field "share_id" (Json.string shareId), Json.field "path" (Json.string path),
      Json.field "msg_id" (Json.number msgId)])
  | .metaResp jobId fileName totalSize chunkHashes fileHash msgId =>
    ("meta_resp", [Json.field "job_id" (Json.number jobId),
      Json.field "file_name" (Json.string fileName), Json.field "total_size" (Json.number totalSize),
      Json.field "chunk_hashes" (Json.array (chunkHashes.map Json.string))] ++
        optionalField "file_hash" (fileHash.map Json.string) ++
        [Json.field "msg_id" (Json.number msgId)])
  | .fetchReq jobId chunk =>
    ("fetch_req", [Json.field "job_id" (Json.number jobId), Json.field "chunk" (Json.number chunk)])
  | .offerReq jobId files =>
    ("offer_req", [Json.field "job_id" (Json.number jobId),
      Json.field "files" (Json.array (files.map OfferFile.json))])
  | .offerResp accepted saveDir reason skipBitmap =>
    ("offer_resp", [Json.field "accepted" (Json.bool accepted),
      Json.field "save_dir" (optionString saveDir)] ++
        optionalField "reason" (reason.map OfferDenyReason.json) ++
        optionalField "skip_bitmap"
          (if skipBitmap.isEmpty then none else some (Json.array (skipBitmap.map Json.bool))))
  | .bitmapReq jobId => ("bitmap_req", [Json.field "job_id" (Json.number jobId)])
  | .bitmapResp jobId bits =>
    ("bitmap_resp", [Json.field "job_id" (Json.number jobId),
      Json.field "bits" (Json.array (bits.map fun byte => Json.number byte.toNat))])
  | .transferCtl jobId action =>
    ("transfer_ctl", [Json.field "job_id" (Json.number jobId), Json.field "action" action.json])
  | .jobDone jobId offerId =>
    ("job_done", [Json.field "job_id" (Json.number jobId), Json.field "offer_id"
      (Json.number offerId)])
  | .recvAck jobId => ("recv_ack", [Json.field "job_id" (Json.number jobId)])
  | .recvProgress jobId cumulativeBytes =>
    ("recv_progress", [Json.field "job_id" (Json.number jobId),
      Json.field "cumulative_bytes" (Json.number cumulativeBytes)])
  | .jobFailed offerId reason =>
    ("job_failed", [Json.field "offer_id" (Json.number offerId), Json.field "reason"
      (Json.string reason)])
  | .shareRename shareId path newName msgId =>
    ("share_rename", [Json.field "share_id" (Json.string shareId),
      Json.field "path" (Json.string path), Json.field "new_name" (Json.string newName),
      Json.field "msg_id" (Json.number msgId)])
  | .shareDelete shareId path msgId =>
    ("share_delete", [Json.field "share_id" (Json.string shareId),
      Json.field "path" (Json.string path), Json.field "msg_id" (Json.number msgId)])
  | .shareMkdir shareId path msgId =>
    ("share_mkdir", [Json.field "share_id" (Json.string shareId),
      Json.field "path" (Json.string path), Json.field "msg_id" (Json.number msgId)])
  | .shareOpResult ok error msgId =>
    ("share_op_result", [Json.field "ok" (Json.bool ok)] ++
      optionalField "error" (error.map Json.string) ++ [Json.field "msg_id" (Json.number msgId)])
  | .goodbye => ("goodbye", [])
  | .trustBroken => ("trust_broken", [])
  | .ping nonce => ("ping", [Json.field "nonce" (Json.number nonce)])
  | .pong nonce => ("pong", [Json.field "nonce" (Json.number nonce)])
  | .probeReq size nonce =>
    ("probe_req", [Json.field "size" (Json.number size), Json.field "nonce" (Json.number nonce)])
  | .probeResp nonce => ("probe_resp", [Json.field "nonce" (Json.number nonce)])

/-- `serde_json::to_vec` of a message. -/
def ControlMsg.body (msg : ControlMsg) : List UInt8 :=
  Json.object (Json.field "type" (Json.string msg.fields.1) :: msg.fields.2)

/-- `encode_control`: the length, taken as a 32-bit number, and the text. -/
def encodeControl (msg : ControlMsg) : List UInt8 :=
  toBeBytes 4 msg.body.length ++ msg.body

section Decoding

variable (fromJson : List UInt8 → Option ControlMsg)

/-- `decode_control_body`. -/
def decodeControlBody (body : List UInt8) : Except ProtocolError ControlMsg :=
  if body.length > chunkSize then .error (.messageTooLarge body.length body.length)
  else
    match fromJson body with
    | some msg => .ok msg
    | none => .error .jsonError

/-- `decode_control`. -/
def decodeControl (bytes : List UInt8) : Except ProtocolError ControlMsg :=
  if bytes.length < 4 then .error .truncated
  else
    let declared := fromBeBytes (bytes.take 4)
    if declared ≠ bytes.length - 4 then .error (.lengthMismatch declared (bytes.length - 4))
    else decodeControlBody fromJson (bytes.drop 4)

/-- `take_msg`: one message from the front of the buffer, or an error that ends the session. -/
def takeMsg (inbuf : List UInt8) : Front ControlMsg UInt8 :=
  if inbuf.length < 4 then .incomplete
  else
    let len := fromBeBytes (inbuf.take 4)
    if len = 0 ∨ len > 4 * 1024 * 1024 then .broken
    else if inbuf.length < 4 + len then .incomplete
    else
      match decodeControlBody fromJson ((inbuf.drop 4).take len) with
      | .ok msg => .item msg (inbuf.drop (4 + len))
      | .error _ => .broken

/-- How reading a message from a stream ends: with a message and the rest of the stream, at the
end of the stream, or with an error. -/
inductive RecvResult where
  | message (msg : ControlMsg) (rest : List UInt8)
  | endOfStream
  | reset
deriving DecidableEq

/-- `read_exact`. -/
def readExact (count : Nat) (stream : List UInt8) : Option (List UInt8 × List UInt8) :=
  if stream.length < count then none else some (stream.take count, stream.drop count)

/-- `recv_msg`. -/
def recvMsg (stream : List UInt8) : RecvResult :=
  match readExact 4 stream with
  | none => .endOfStream
  | some (head, stream) =>
    let len := fromBeBytes head
    if len = 0 ∨ len > 4 * 1024 * 1024 then .reset
    else
      match readExact len stream with
      | none => .endOfStream
      | some (body, stream) =>
        match decodeControlBody fromJson body with
        | .ok msg => .message msg stream
        | .error _ => .reset

end Decoding

section Agreement

variable {fromJson : List UInt8 → Option ControlMsg} {inbuf more rest : List UInt8}
  {msg : ControlMsg}

/-- The length bound of the buffer and that of the body decoder are the same. -/
theorem decode_body_of_le {body : List UInt8} (h : body.length ≤ 4 * 1024 * 1024) :
    decodeControlBody fromJson body =
      match fromJson body with
      | some msg => .ok msg
      | none => .error .jsonError := by
  have hle : ¬ body.length > chunkSize := by
    unfold chunkSize
    omega
  rw [decodeControlBody, if_neg hle]

/-- A message is taken if all of it is there and its text can be parsed. -/
theorem take_msg_item_iff : takeMsg fromJson inbuf = .item msg rest ↔
    4 ≤ inbuf.length ∧ 0 < fromBeBytes (inbuf.take 4) ∧
      fromBeBytes (inbuf.take 4) ≤ 4 * 1024 * 1024 ∧
      4 + fromBeBytes (inbuf.take 4) ≤ inbuf.length ∧
      fromJson ((inbuf.drop 4).take (fromBeBytes (inbuf.take 4))) = some msg ∧
      rest = inbuf.drop (4 + fromBeBytes (inbuf.take 4)) := by
  generalize hlen : fromBeBytes (inbuf.take 4) = len
  unfold takeMsg
  dsimp only
  rw [hlen]
  split
  · next hshort => exact ⟨fun h => (by cases h), fun h => (by omega)⟩
  split
  · next hbound => exact ⟨fun h => (by cases h), fun h => (by omega)⟩
  split
  · next hpart => exact ⟨fun h => (by cases h), fun h => (by omega)⟩
  next hlong hbound hfull =>
  have hbody : ((inbuf.drop 4).take len).length ≤ 4 * 1024 * 1024 := by
    rw [List.length_take]
    omega
  rw [decode_body_of_le hbody]
  cases hjson : fromJson ((inbuf.drop 4).take len) with
  | none => simp
  | some found =>
    simp only [Front.item.injEq, Option.some.injEq]
    constructor
    · rintro ⟨rfl, rfl⟩
      exact ⟨by omega, by omega, by omega, by omega, rfl, rfl⟩
    · rintro ⟨-, -, -, -, rfl, rfl⟩
      exact ⟨rfl, rfl⟩

/-- What the first bytes say does not change when more arrive. -/
theorem take_four_append (h : 4 ≤ inbuf.length) : (inbuf ++ more).take 4 = inbuf.take 4 :=
  List.take_append_of_le_length h

/-- The decoder of the session's input buffer. -/
def controlDecoder (fromJson : List UInt8 → Option ControlMsg) : Decoder ControlMsg UInt8 where
  take := takeMsg fromJson
  shorter inbuf msg rest h := by
    obtain ⟨hfour, hpos, -, hfull, -, rfl⟩ := take_msg_item_iff.mp h
    rw [List.length_drop]
    omega
  stable inbuf msg rest more h := by
    obtain ⟨hfour, hpos, hbound, hfull, hjson, rfl⟩ := take_msg_item_iff.mp h
    rw [take_msg_item_iff, take_four_append hfour, List.length_append,
      List.drop_append_of_le_length hfour, List.drop_append_of_le_length hfull]
    refine ⟨by omega, hpos, hbound, by omega, ?_, rfl⟩
    rw [List.take_append_of_le_length (by rw [List.length_drop]; omega)]
    exact hjson
  stuck inbuf more h := by
    unfold takeMsg at h ⊢
    dsimp only at h ⊢
    split at h
    · cases h
    next hfour =>
    rw [take_four_append (Nat.le_of_not_lt hfour), List.length_append, if_neg (by omega)]
    split at h
    · next hbound => rw [if_pos hbound]
    next hbound =>
    rw [if_neg hbound]
    split at h
    · cases h
    next hfull =>
    rw [if_neg (by omega), List.drop_append_of_le_length (Nat.le_of_not_lt hfour),
      List.take_append_of_le_length (by rw [List.length_drop]; omega)]
    split at h
    · cases h
    · rfl

/-- What the stream reader returns where the buffered one finds this. -/
def recvOfFront : Front ControlMsg UInt8 → RecvResult
  | .incomplete => .endOfStream
  | .item msg rest => .message msg rest
  | .broken => .reset

/-- The buffered and the stream reader agree on all bytes. -/
theorem recv_msg_eq (stream : List UInt8) :
    recvMsg fromJson stream = recvOfFront (takeMsg fromJson stream) := by
  unfold recvMsg takeMsg readExact
  dsimp only
  by_cases hfour : stream.length < 4
  · rw [if_pos hfour, if_pos hfour]
    rfl
  · rw [if_neg hfour, if_neg hfour]
    dsimp only
    split
    · rfl
    · by_cases hfull : stream.length < 4 + fromBeBytes (stream.take 4)
      · rw [if_pos hfull, if_pos (by rw [List.length_drop]; omega)]
        rfl
      · rw [if_neg hfull, if_neg (by rw [List.length_drop]; omega)]
        dsimp only
        rw [List.drop_drop]
        split <;> rfl

end Agreement

section Streams

variable {fromJson : List UInt8 → Option ControlMsg} {msgs : List ControlMsg} {msg : ControlMsg}
  {more tail : List UInt8}

/-- A message that a peer can decode: its text can be parsed and has an admissible length. -/
structure Decodable (fromJson : List UInt8 → Option ControlMsg) (msg : ControlMsg) : Prop where
  parsed : fromJson msg.body = some msg
  nonempty : 1 ≤ msg.body.length
  bounded : msg.body.length ≤ 4 * 1024 * 1024

/-- The length in front of a message is its length. -/
theorem Decodable.declared (h : Decodable fromJson msg) :
    fromBeBytes (toBeBytes 4 msg.body.length) = msg.body.length := by
  rw [from_to_be_bytes]
  have hbound := h.bounded
  exact Nat.mod_eq_of_lt (by omega)

/-- An encoded message is taken off the front. -/
theorem take_msg_encoded (h : Decodable fromJson msg) :
    takeMsg fromJson (encodeControl msg ++ more) = .item msg more := by
  have hbound := h.bounded
  have hpos := h.nonempty
  have hhead : (encodeControl msg ++ more).take 4 = toBeBytes 4 msg.body.length := by
    rw [encodeControl, List.append_assoc, List.take_left' (length_toBeBytes _ _)]
  have hrest : (encodeControl msg ++ more).drop 4 = msg.body ++ more := by
    rw [encodeControl, List.append_assoc, List.drop_left' (length_toBeBytes _ _)]
  rw [take_msg_item_iff, hhead, h.declared, hrest, List.take_left' rfl, ← List.drop_drop, hrest,
    List.drop_left' rfl]
  refine ⟨?_, by omega, hbound, ?_, h.parsed, rfl⟩
  · simp [encodeControl]
  · simp [encodeControl]

/-- A part of an encoded message is not taken yet. -/
theorem take_msg_part (h : Decodable fromJson msg) (hstart : tail <+: encodeControl msg)
    (hne : tail ≠ encodeControl msg) : takeMsg fromJson tail = .incomplete := by
  have hlt : tail.length < (encodeControl msg).length := by
    refine Nat.lt_of_le_of_ne hstart.length_le fun heq => hne ?_
    exact hstart.eq_of_length heq
  have hbound := h.bounded
  have hpos := h.nonempty
  obtain ⟨missing, hsplit⟩ := hstart
  have hlength : (encodeControl msg).length = 4 + msg.body.length := by
    simp [encodeControl]
  unfold takeMsg
  dsimp only
  split
  · rfl
  next hfour =>
  have hhead : fromBeBytes (tail.take 4) = msg.body.length := by
    have htake : tail.take 4 = (encodeControl msg).take 4 := by
      rw [← hsplit, take_four_append (Nat.le_of_not_lt hfour)]
    rw [htake, encodeControl, List.take_left' (length_toBeBytes _ _), h.declared]
  rw [hhead, if_neg (by omega), if_pos (by omega)]

/-- Encoded messages are drained in order, and what follows them stays. -/
theorem drain_encoded (h : ∀ msg ∈ msgs, Decodable fromJson msg)
    (htail : takeMsg fromJson tail = .incomplete) :
    (controlDecoder fromJson).drain (msgs.flatMap encodeControl ++ tail) = (msgs, some tail) := by
  induction msgs with
  | nil =>
    rw [List.flatMap_nil, List.nil_append]
    exact Decoder.drain_of_incomplete htail
  | cons msg msgs ih =>
    have htake : (controlDecoder fromJson).take
        (encodeControl msg ++ (msgs.flatMap encodeControl ++ tail)) =
          .item msg (msgs.flatMap encodeControl ++ tail) :=
      take_msg_encoded (h msg List.mem_cons_self)
    rw [List.flatMap_cons, List.append_assoc, Decoder.drain_of_item htake,
      ih fun other hother => h other (List.mem_cons_of_mem _ hother)]

/-- What has been received of a sequence of encoded messages: `count` of them, and a part of the
next. -/
def PartOf (msgs : List ControlMsg) (count : Nat) (tail : List UInt8) : Prop :=
  match msgs[count]? with
  | some next => tail <+: encodeControl next ∧ tail ≠ encodeControl next
  | none => tail = []

/-- A prefix of encoded messages is some of them and a part of the next. -/
theorem exists_part {received unsent : List UInt8}
    (h : received ++ unsent = msgs.flatMap encodeControl) :
    ∃ count tail, received = (msgs.take count).flatMap encodeControl ++ tail ∧
      PartOf msgs count tail := by
  induction msgs generalizing received with
  | nil =>
    have hnil : received = [] := (List.append_eq_nil_iff.mp h).1
    exact ⟨0, [], by simp [hnil], rfl⟩
  | cons msg msgs ih =>
    rw [List.flatMap_cons] at h
    rcases List.append_eq_append_iff.mp h with ⟨between, hmsg, hrest⟩ | ⟨between, hreceived, hrest⟩
    · by_cases hwhole : received = encodeControl msg
      · have hnil : between = [] := by
          rw [hwhole] at hmsg
          simpa using hmsg
        rw [hnil, List.nil_append] at hrest
        have hnone : [] ++ unsent = msgs.flatMap encodeControl := by simpa using hrest
        obtain ⟨count, tail, htail, hpart⟩ := ih hnone
        refine ⟨count + 1, tail, ?_, hpart⟩
        rw [List.take_succ_cons, List.flatMap_cons, List.append_assoc, ← htail, hwhole,
          List.append_nil]
      · refine ⟨0, received, by simp, ?_⟩
        exact ⟨⟨between, hmsg.symm⟩, hwhole⟩
    · obtain ⟨count, tail, htail, hpart⟩ := ih hrest.symm
      refine ⟨count + 1, tail, ?_, hpart⟩
      rw [List.take_succ_cons, List.flatMap_cons, List.append_assoc, ← htail, hreceived]

/-- A part of the next message is not taken yet. -/
theorem PartOf.incomplete {count : Nat} (h : PartOf msgs count tail)
    (hall : ∀ msg ∈ msgs, Decodable fromJson msg) : takeMsg fromJson tail = .incomplete := by
  unfold PartOf at h
  split at h
  · next next hnext => exact take_msg_part (hall next (List.mem_of_getElem? hnext)) h.1 h.2
  · subst h
    rfl

/-- However encoded messages are cut into pieces, the session takes them in order and keeps the
part of the next one; the stream reader agrees on all bytes; and whatever is received, no complete
message is left when the stream ends. -/
theorem control_framing (fromJson : List UInt8 → Option ControlMsg) (msgs : List ControlMsg)
    (hjson : ∀ msg ∈ msgs, fromJson msg.body = some msg)
    (hsize : ∀ msg ∈ msgs, 1 ≤ msg.body.length ∧ msg.body.length ≤ 4 * 1024 * 1024) :
    (∀ pieces unsent, List.flatten pieces ++ unsent = msgs.flatMap encodeControl →
      ∃ count tail, (controlDecoder fromJson).feed [] pieces = (msgs.take count, some tail) ∧
        pieces.flatten = (msgs.take count).flatMap encodeControl ++ tail ∧
        PartOf msgs count tail) ∧
    (∀ pieces, List.flatten pieces = msgs.flatMap encodeControl →
      (controlDecoder fromJson).feed [] pieces = (msgs, some [])) ∧
    (∀ msg ∈ msgs, decodeControl fromJson (encodeControl msg) = .ok msg) ∧
    (∀ stream, recvMsg fromJson stream = recvOfFront (takeMsg fromJson stream)) ∧
    ∀ pieces taken left, (controlDecoder fromJson).feed [] pieces = (taken, some left) →
      (controlDecoder fromJson).drain left = ([], some left) := by
  have hall : ∀ msg ∈ msgs, Decodable fromJson msg := fun msg hmem =>
    ⟨hjson msg hmem, (hsize msg hmem).1, (hsize msg hmem).2⟩
  have hempty : (controlDecoder fromJson).take [] = .incomplete := rfl
  refine ⟨?_, ?_, ?_, recv_msg_eq, ?_⟩
  · intro pieces unsent hcut
    obtain ⟨count, tail, hsplit, hpart⟩ := exists_part hcut
    refine ⟨count, tail, ?_, hsplit, hpart⟩
    rw [Decoder.feed_eq_drain pieces hempty, List.nil_append, hsplit]
    exact drain_encoded (fun msg hmem => hall msg (List.mem_of_mem_take hmem))
      (hpart.incomplete hall)
  · intro pieces hcut
    rw [Decoder.feed_eq_drain pieces hempty, List.nil_append, hcut,
      ← List.append_nil (msgs.flatMap encodeControl)]
    exact drain_encoded hall rfl
  · intro msg hmem
    have hdecodable := hall msg hmem
    have hlength : (encodeControl msg).length = 4 + msg.body.length := by
      simp [encodeControl]
    have hhead : (encodeControl msg).take 4 = toBeBytes 4 msg.body.length := by
      rw [encodeControl, List.take_left' (length_toBeBytes _ _)]
    have hbody : (encodeControl msg).drop 4 = msg.body := by
      rw [encodeControl, List.drop_left' (length_toBeBytes _ _)]
    unfold decodeControl
    dsimp only
    rw [hlength, if_neg (by omega), hhead, hdecodable.declared, if_neg (by omega), hbody,
      decode_body_of_le hdecodable.bounded, hdecodable.parsed]
  · intro pieces taken left hfeed
    rw [Decoder.feed_eq_drain pieces hempty] at hfeed
    exact Decoder.drain_of_incomplete (Decoder.take_of_drain hfeed)

/-- Two short messages, cut within the length of the second. -/
theorem control_framing_goodbye :
    ∃ fromJson : List UInt8 → Option ControlMsg,
      (controlDecoder fromJson).feed []
        [encodeControl .goodbye ++ [0], [0, 0], 18 :: ControlMsg.goodbye.body] =
          ([.goodbye, .goodbye], some []) := by
  refine ⟨fun body => if body = ControlMsg.goodbye.body then some .goodbye else none, ?_⟩
  refine (control_framing _ [.goodbye, .goodbye] ?_ ?_).2.1 _ ?_
  · intro msg hmem
    obtain rfl : msg = .goodbye := by simpa using hmem
    exact if_pos rfl
  · intro msg hmem
    obtain rfl : msg = .goodbye := by simpa using hmem
    decide
  · decide

end Streams

end LocalTrans
