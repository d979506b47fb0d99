import Mathlib.Algebra.Order.Ring.Nat
import Mathlib.Data.List.Basic

/-!
# Identities, trust and control messages

The data of `identity.rs` and `protocol.rs`: fingerprints, permissions, the trust store, and
the messages two peers exchange on the control stream. A fingerprint is the 256-bit hash of a
certificate, so every session, permission and trust entry is keyed by one. Sizes, job ids and
message ids are natural numbers. The file the trust store is saved to is not modelled.
-/

namespace LocalTrans

/-- `Fingerprint = [u8; 32]`, the SHA-256 of a device certificate. -/
abbrev Fingerprint := BitVec 256

/-- `hex::encode`: lower-case hexadecimal, most significant digit first. -/
def hexEncode {width : Nat} (value : BitVec width) : String :=
  String.ofList ((List.range ((width + 3) / 4)).reverse.map fun i =>
    Nat.digitChar (value.toNat / 16 ^ i % 16))

/-- `PushPolicy`: what happens to an incoming offer. -/
inductive PushPolicy where
  | ask
  | auto
  | deny
deriving DecidableEq, Repr

/-- `Perms`: what a peer may do here. -/
structure Perms where
  browse : Bool
  download : Bool
  push : PushPolicy
deriving DecidableEq, Repr

/-- `Perms::default`, granted by a completed pairing. -/
def Perms.default : Perms := { browse := true, download := true, push := .ask }

/-- `Perms::denied`, the only fallback for a peer that is not in the trust store. -/
def Perms.denied : Perms := { browse := false, download := false, push := .deny }

/-- `TrustedPeer`: one entry of the trust store. -/
structure TrustedPeer where
  fingerprint : Fingerprint
  name : String
  aliasName : String
  pairedAt : Nat
  perms : Perms
deriving DecidableEq, Repr

/-- `TrustStore`: the trusted peers in the order they were paired. -/
structure TrustStore where
  peers : List TrustedPeer
deriving DecidableEq, Repr

namespace TrustStore

/-- `TrustStore::is_trusted`. -/
def isTrusted (store : TrustStore) (peer : Fingerprint) : Bool :=
  store.peers.any fun entry => entry.fingerprint == peer

/-- `TrustStore::upsert`: overwrite the first entry of the fingerprint, or append. -/
def upsert (store : TrustStore) (peer : TrustedPeer) : TrustStore :=
  match store.peers.findIdx? fun entry => entry.fingerprint == peer.fingerprint with
  | some existing => { peers := store.peers.set existing peer }
  | none => { peers := store.peers ++ [peer] }

/-- `TrustStore::remove`: delete the first entry of the fingerprint. -/
def remove (store : TrustStore) (peer : Fingerprint) : TrustStore :=
  { peers := store.peers.eraseP fun entry => entry.fingerprint == peer }

/-- `TrustStore::get`. -/
def get (store : TrustStore) (peer : Fingerprint) : Option TrustedPeer :=
  store.peers.find? fun entry => entry.fingerprint == peer

/-- `TrustStore::set_perms` changes the first entry of the fingerprint. -/
def setPerms (store : TrustStore) (peer : Fingerprint) (perms : Perms) : TrustStore :=
  match store.peers.findIdx? fun entry => entry.fingerprint == peer with
  | some existing => { peers := store.peers.modify existing fun entry => { entry with perms } }
  | none => store

/-- A peer is trusted if the store has an entry for it. -/
theorem is_trusted_iff {store : TrustStore} {peer : Fingerprint} :
    store.isTrusted peer = true ↔ ∃ entry ∈ store.peers, entry.fingerprint = peer := by
  simp [isTrusted]

/-- Writing an entry makes at most its own peer trusted. -/
theorem is_trusted_upsert {store : TrustStore} {entry : TrustedPeer} {peer : Fingerprint}
    (h : (store.upsert entry).isTrusted peer = true) :
    store.isTrusted peer = true ∨ entry.fingerprint = peer := by
  obtain ⟨found, hfound, rfl⟩ := is_trusted_iff.mp h
  unfold upsert at hfound
  split at hfound
  · rcases List.mem_or_eq_of_mem_set hfound with hmem | rfl
    · exact .inl (is_trusted_iff.mpr ⟨found, hmem, rfl⟩)
    · exact .inr rfl
  · rcases List.mem_append.mp hfound with hmem | hmem
    · exact .inl (is_trusted_iff.mpr ⟨found, hmem, rfl⟩)
    · exact .inr (by rw [List.mem_singleton.mp hmem])

/-- Writing an entry makes its peer trusted, and leaves the others as trusted as they were. -/
theorem is_trusted_of_upsert {store : TrustStore} {entry : TrustedPeer} {peer : Fingerprint}
    (h : store.isTrusted peer = true ∨ entry.fingerprint = peer) :
    (store.upsert entry).isTrusted peer = true := by
  unfold upsert
  split
  · next existing hexisting =>
    obtain ⟨hlt, hsame, -⟩ := List.findIdx?_eq_some_iff_getElem.mp hexisting
    have hwritten : entry ∈ store.peers.set existing entry :=
      List.mem_iff_getElem.mpr ⟨existing, by simpa using hlt, by simp⟩
    rcases h with h | rfl
    · obtain ⟨found, hfound, rfl⟩ := is_trusted_iff.mp h
      obtain ⟨i, hi, rfl⟩ := List.mem_iff_getElem.mp hfound
      by_cases hplace : existing = i
      · subst hplace
        exact is_trusted_iff.mpr ⟨entry, hwritten, by simpa using (beq_iff_eq.mp hsame).symm⟩
      · refine is_trusted_iff.mpr ⟨store.peers[i], ?_, rfl⟩
        exact List.mem_iff_getElem.mpr ⟨i, by simpa using hi, List.getElem_set_ne hplace _⟩
    · exact is_trusted_iff.mpr ⟨entry, hwritten, rfl⟩
  · rcases h with h | rfl
    · obtain ⟨found, hfound, rfl⟩ := is_trusted_iff.mp h
      exact is_trusted_iff.mpr ⟨found, List.mem_append_left _ hfound, rfl⟩
    · exact is_trusted_iff.mpr ⟨entry, by simp, rfl⟩

/-- Removing an entry makes nobody trusted. -/
theorem is_trusted_remove {store : TrustStore} {gone peer : Fingerprint}
    (h : (store.remove gone).isTrusted peer = true) : store.isTrusted peer = true := by
  obtain ⟨found, hfound, rfl⟩ := is_trusted_iff.mp h
  exact is_trusted_iff.mpr ⟨found, List.mem_of_mem_eraseP hfound, rfl⟩

/-- Removing an entry leaves the other peers trusted. -/
theorem is_trusted_remove_of_ne {store : TrustStore} {gone peer : Fingerprint} (hne : peer ≠ gone)
    (h : store.isTrusted peer = true) : (store.remove gone).isTrusted peer = true := by
  obtain ⟨found, hfound, rfl⟩ := is_trusted_iff.mp h
  exact is_trusted_iff.mpr ⟨found, (List.mem_eraseP_of_neg (by simpa using hne)).mpr hfound, rfl⟩

/-- Permissions do not change who is trusted. -/
theorem is_trusted_set_perms {store : TrustStore} {changed peer : Fingerprint} {perms : Perms} :
    (store.setPerms changed perms).isTrusted peer = store.isTrusted peer := by
  unfold setPerms
  split
  · unfold isTrusted
    dsimp only
    next index _ =>
    rw [List.modify_eq_take_drop]
    conv_rhs => rw [← List.take_append_drop index store.peers]
    rw [List.any_append, List.any_append]
    cases store.peers.drop index <;> simp
  · rfl

end TrustStore

/-- `OfferDenyReason`: why an offer was not accepted. -/
inductive OfferDenyReason where
  | denied
  | timeout
deriving DecidableEq, Repr

/-- `TransferAction`: remote control of a transfer. -/
inductive TransferAction where
  | pause
  | resume
  | cancel
  | throttle (maxStreams : Nat)
deriving DecidableEq, Repr

/-- `FileEntry`: one entry of a directory listing. -/
structure FileEntry where
  name : String
  isDir : Bool
  size : Nat
  mtime : Nat
deriving DecidableEq, Repr

/-- `ShareInfo`: a share as it is shown to a peer. -/
structure ShareInfo where
  id : String
  aliasName : String
deriving DecidableEq, Repr

/-- `OfferFile`: one file of a push offer. -/
structure OfferFile where
  name : String
  size : Nat
  relDir : String
  hash : Option String
deriving DecidableEq, Repr

/-- `ControlMsg`: the messages of the control stream. -/
inductive ControlMsg where
  | hello (name fingerprint : String)
  | pairCodeSubmit (code : String)
  | pairResult (ok : Bool)
  | consentGrant (name : String)
  | consentDeny
  | consentCancel
  | listReq (shareId path : String) (cursor msgId : Nat)
  | listResp (entries : List FileEntry) (nextCursor : Option Nat) (msgId : Nat)
  | sharesReq (msgId : Nat)
  | sharesResp (shares : List ShareInfo) (msgId : Nat)
  | sharesChanged (shareId : String)
  | metaReq (shareId path : String) (msgId : Nat)
  | metaResp (jobId : Nat) (fileName : String) (totalSize : Nat) (chunkHashes : List String)
      (fileHash : Option String) (msgId : Nat)
  | fetchReq (jobId chunk : Nat)
  | offerReq (jobId : Nat) (files : List OfferFile)
  | offerResp (accepted : Bool) (saveDir : Option String) (reason : Option OfferDenyReason)
      (skipBitmap : List Bool)
  | bitmapReq (jobId : Nat)
  | bitmapResp (jobId : Nat) (bits : List UInt8)
  | transferCtl (jobId : Nat) (action : TransferAction)
  | jobDone (jobId offerId : Nat)
  | recvAck (jobId : Nat)
  | recvProgress (jobId cumulativeBytes : Nat)
  | jobFailed (offerId : Nat) (reason : String)
  | shareRename (shareId path newName : String) (msgId : Nat)
  | shareDelete (shareId path : String) (msgId : Nat)
  | shareMkdir (shareId path : String) (msgId : Nat)
  | shareOpResult (ok : Bool) (error : Option String) (msgId : Nat)
  | goodbye
  | trustBroken
  | ping (nonce : Nat)
  | pong (nonce : Nat)
  | probeReq (size nonce : Nat)
  | probeResp (nonce : Nat)
deriving DecidableEq, Repr

/-- `resp_msg_id`: the request a response answers, 0 for every other message. -/
def respMsgId : ControlMsg → Nat
  | .listResp _ _ msgId | .sharesResp _ msgId | .metaResp _ _ _ _ _ msgId
  | .shareOpResult _ _ msgId => msgId
  | _ => 0

/-- `set_req_msg_id`: number a request. -/
def setReqMsgId (id : Nat) : ControlMsg → ControlMsg
  | .metaReq shareId path _ => .metaReq shareId path id
  | .listReq shareId path cursor _ => .listReq shareId path cursor id
  | .sharesReq _ => .sharesReq id
  | .shareRename shareId path newName _ => .shareRename shareId path newName id
  | .shareDelete shareId path _ => .shareDelete shareId path id
  | .shareMkdir shareId path _ => .shareMkdir shareId path id
  | msg => msg

/-- `CHUNK_SIZE`: 4 MiB. -/
def chunkSize : Nat := 4 * 1024 * 1024

/-- `CHUNK_HEADER_LEN`: the bytes before a chunk's data. -/
def chunkHeaderLen : Nat := 12

/-- `ChunkStreamHeader`: which chunk of which job a stream carries. -/
structure ChunkStreamHeader where
  jobId : Nat
  chunk : Nat
deriving DecidableEq, Repr

/-- `from_le_bytes`: the number a little-endian byte string stands for. -/
def fromLeBytes : List UInt8 → Nat
  | [] => 0
  | byte :: rest => byte.toNat + 256 * fromLeBytes rest

/-- `from_be_bytes`: the number a big-endian byte string stands for. -/
def fromBeBytes (bytes : List UInt8) : Nat :=
  fromLeBytes bytes.reverse

/-- `to_le_bytes`: a number in so many bytes, the lowest first. -/
def toLeBytes : Nat → Nat → List UInt8
  | 0, _ => []
  | count + 1, n => UInt8.ofNat n :: toLeBytes count (n / 256)

/-- `to_be_bytes`: a number in so many bytes, the highest first. -/
def toBeBytes (count n : Nat) : List UInt8 :=
  (toLeBytes count n).reverse

/-- So many bytes. -/
@[simp] theorem length_toBeBytes (count n : Nat) : (toBeBytes count n).length = count := by
  unfold toBeBytes
  rw [List.length_reverse]
  induction count generalizing n with
  | zero => rfl
  | succ count ih => rw [toLeBytes, List.length_cons, ih]

/-- A number is read back, up to what so many bytes can hold. -/
theorem from_to_be_bytes (count n : Nat) : fromBeBytes (toBeBytes count n) = n % 256 ^ count := by
  unfold fromBeBytes toBeBytes
  rw [List.reverse_reverse]
  induction count generalizing n with
  | zero => simp [toLeBytes, fromLeBytes, Nat.mod_one]
  | succ count ih =>
    rw [toLeBytes, fromLeBytes, ih, Nat.pow_succ', Nat.mod_mul]
    simp

/-- `ProtocolError`: why a message cannot be decoded. -/
inductive ProtocolError where
  | messageTooLarge (declaredLen actualLen : Nat)
  | lengthMismatch (declared actual : Nat)
  | truncated
  | jsonError
  | invalidData
deriving DecidableEq, Repr

/-- `ChunkStreamHeader::decode`: eight bytes of job id, four of chunk number. -/
def ChunkStreamHeader.decode (bytes : List UInt8) : Option ChunkStreamHeader :=
  if bytes.length < chunkHeaderLen then none
  else some { jobId := fromLeBytes (bytes.take 8), chunk := fromLeBytes ((bytes.drop 8).take 4) }

end LocalTrans
