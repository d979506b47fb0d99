import LocalTrans.Session.Framing
import LocalTrans.Transfer.Manifest
import LocalTrans.Transfer.Progress

/-!
# Whether sent messages can be received

The decoder takes messages of up to 4 MiB. Offers, answers to metadata requests and pages of
listings are built here as the engine builds them, and their encoded size is computed from the
names and numbers in them. A page and an answer always fit when names are as short as file systems
keep them; an offer fits as long as its files are few enough.
-/

namespace LocalTrans

open Foundation

/-- A file that is to be pushed: its name, its directory relative to the pushed folder, its size
and its SHA-256. -/
structure PushSource where
  fileName : String
  relDir : String
  size : Nat
  digest : BitVec 256

/-- The entry of an offer `push_files_inner` builds; only small files are hashed beforehand. -/
def PushSource.offerFile (source : PushSource) : OfferFile :=
  { name := source.fileName, size := source.size, relDir := source.relDir
    hash := if source.size ≤ smallFileLimit then some (hexEncode source.digest) else none }

/-- The offer `push_files_inner` sends. -/
def offerReq (jobId : Nat) (sources : List PushSource) : ControlMsg :=
  .offerReq jobId (sources.map PushSource.offerFile)

/-- `Manifest::build`: the digests are those of the chunks. -/
def Manifest.build (fileName : String) (totalSize : Nat) (digest : Nat → BitVec 256) : Manifest :=
  .fromMeta fileName totalSize ((List.range (chunksNeeded totalSize)).map fun i =>
    hexEncode (digest i))

/-- The answer of the router to a metadata request; a file of more than 60000 chunks is refused.
The digest of the chunk hashes is sent for a pushed file. -/
def metaResp (jobId : Nat) (m : Manifest) (pushDigest : Option (BitVec 256)) (msgId : Nat) :
    Option ControlMsg :=
  if m.chunkHashes.length > 60000 then none
  else some (.metaResp jobId m.fileName m.totalSize m.chunkHashes (pushDigest.map hexEncode) msgId)

/-- `ShareRegistry::list_dir`, from the entries of the directory in the order of their names:
hidden ones are skipped, and a page of at most `limit` entries is returned. -/
def listDir (entries : List FileEntry) (cursor limit : Nat) :
    Option (List FileEntry × Option Nat) :=
  let limit := min limit 500
  let visible := entries.filter fun entry => entry.name.toList.head? != some '.'
  if visible.length > 50000 then none
  else if cursor ≥ visible.length then some ([], none)
  else
    let stop := min (cursor + limit) visible.length
    some ((visible.drop cursor).take (stop - cursor),
      if stop < visible.length then some stop else none)

/-- What the router answers to a listing request; an error is answered with nothing. -/
def listPage (entries : List FileEntry) (cursor : Nat) : List FileEntry × Option Nat :=
  (listDir entries cursor 200).getD ([], none)

/-- The answer of the router to a listing request. -/
def listResp (entries : List FileEntry) (cursor msgId : Nat) : ControlMsg :=
  .listResp (listPage entries cursor).1 (listPage entries cursor).2 msgId

/-- The parser reads the text of the message. -/
def Parses (fromJson : List UInt8 → Option ControlMsg) (msg : ControlMsg) : Prop :=
  fromJson msg.body = some msg

/-- The receiving `ctrl_loop` takes the message off its buffer as it was sent. -/
def Accepted (fromJson : List UInt8 → Option ControlMsg) (msg : ControlMsg) : Prop :=
  ∀ more, takeMsg fromJson (encodeControl msg ++ more) = .item msg more

section Accepting

variable {fromJson : List UInt8 → Option ControlMsg} {msg : ControlMsg}

/-- A message is received if and only if it is not longer than 4 MiB. A longer one is refused, or
taken for a shorter one if its length does not fit 32 bits. -/
theorem accepted_iff (hjson : Parses fromJson msg) :
    Accepted fromJson msg ↔ msg.body.length ≤ 4 * 1024 * 1024 := by
  have hpos : 1 ≤ msg.body.length := by
    simp [ControlMsg.body, Json.object]
  constructor
  · intro h
    have htake := h []
    rw [List.append_nil] at htake
    obtain ⟨-, -, hbound, -, -, hrest⟩ := take_msg_item_iff.mp htake
    have hhead : (encodeControl msg).take 4 = toBeBytes 4 msg.body.length := by
      rw [encodeControl, List.take_left' (length_toBeBytes _ _)]
    have hlength : (encodeControl msg).length = 4 + msg.body.length := by
      simp [encodeControl]
    have hall := congrArg List.length hrest
    rw [List.length_drop, hlength, hhead, List.length_nil] at hall
    rw [hhead] at hbound
    omega
  · intro hbound more
    exact take_msg_encoded ⟨hjson, hpos, hbound⟩

end Accepting

/-- A hexadecimal digest has two quotation marks and 64 digits. -/
@[simp] theorem stringSize_hexEncode (digest : BitVec 256) :
    Json.stringSize (hexEncode digest) = 66 := by
  have hdigit : ∀ n < 16, (Json.escapeChar (Nat.digitChar n)).length = 1 := by decide
  have hmap : ∀ places : List Nat, (places.map fun i =>
      (Json.escapeChar (Nat.digitChar (digest.toNat / 16 ^ i % 16))).length).sum = places.length := by
    intro places
    induction places with
    | nil => rfl
    | cons place places ih =>
      rw [List.map_cons, List.sum_cons, ih, hdigit _ (Nat.mod_lt _ (by decide)), List.length_cons]
      omega
  unfold Json.stringSize hexEncode
  simp only [String.toList_ofList, List.map_map, Function.comp_def]
  rw [hmap, List.length_reverse, List.length_range]

/-- The encoded size of the entry of an offer. -/
def PushSource.entrySize (source : PushSource) : Nat :=
  28 + Json.stringSize source.fileName + Json.numberSize source.size +
    Json.stringSize source.relDir + if source.size ≤ smallFileLimit then 74 else 0

/-- The encoded size of an offer, with the commas between its entries. -/
def offerSize (jobId : Nat) (sources : List PushSource) : Nat :=
  41 + Json.numberSize jobId + (sources.map PushSource.entrySize).sum + (sources.length - 1)

/-- The names of the fields and tags, in quotation marks. -/
theorem stringSize_names :
    Json.stringSize "type" = 6 ∧ Json.stringSize "name" = 6 ∧ Json.stringSize "size" = 6 ∧
      Json.stringSize "rel_dir" = 9 ∧ Json.stringSize "hash" = 6 ∧ Json.stringSize "job_id" = 8 ∧
      Json.stringSize "files" = 7 ∧ Json.stringSize "offer_req" = 11 ∧
      Json.stringSize "meta_resp" = 11 ∧ Json.stringSize "file_name" = 11 ∧
      Json.stringSize "total_size" = 12 ∧ Json.stringSize "chunk_hashes" = 14 ∧
      Json.stringSize "file_hash" = 11 ∧ Json.stringSize "msg_id" = 8 ∧
      Json.stringSize "list_resp" = 11 ∧ Json.stringSize "entries" = 9 ∧
      Json.stringSize "next_cursor" = 13 ∧ Json.stringSize "is_dir" = 8 ∧
      Json.stringSize "mtime" = 7 := by
  decide

/-- The entry of an offer. -/
theorem length_offerFile (source : PushSource) :
    source.offerFile.json.length = source.entrySize := by
  obtain ⟨-, hname, hsize, hrelDir, hhash, -⟩ := stringSize_names
  unfold OfferFile.json PushSource.offerFile PushSource.entrySize
  rw [Json.length_object]
  split
  · simp only [optionalField, Option.map_some, List.map_cons, List.map_nil, List.map_append,
      List.sum_cons, List.sum_nil, List.sum_append, Json.length_field, Json.length_string,
      Json.length_number, hname, hsize, hrelDir, hhash, List.length_append, List.length_cons,
      List.length_nil, stringSize_hexEncode]
    omega
  · simp only [optionalField, Option.map_none, List.append_nil, List.map_cons, List.map_nil,
      List.sum_cons, List.sum_nil, Json.length_field, Json.length_string, Json.length_number,
      hname, hsize, hrelDir, List.length_cons, List.length_nil]
    omega

/-- An offer. -/
theorem length_offerReq (jobId : Nat) (sources : List PushSource) :
    (offerReq jobId sources).body.length = offerSize jobId sources := by
  obtain ⟨htype, -, -, -, -, hjobId, hfiles, htag, -⟩ := stringSize_names
  have hentries : ((sources.map PushSource.offerFile).map OfferFile.json).map List.length =
      sources.map PushSource.entrySize := by
    rw [List.map_map, List.map_map]
    exact List.map_congr_left fun source _ => length_offerFile source
  unfold offerReq ControlMsg.body ControlMsg.fields offerSize
  rw [Json.length_object]
  simp only [List.map_cons, List.map_nil, List.sum_cons, List.sum_nil, Json.length_field,
    Json.length_string, Json.length_number, Json.length_array, hentries, htype, hjobId, hfiles,
    htag, List.length_cons, List.length_nil, List.length_map]
  omega

/-- The encoded size of an answer to a metadata request. -/
def metaSize (jobId : Nat) (m : Manifest) (pushDigest : Option (BitVec 256)) (msgId : Nat) : Nat :=
  84 + Json.numberSize jobId + Json.stringSize m.fileName + Json.numberSize m.totalSize +
    67 * m.chunkHashes.length + (if m.chunkHashes = [] then 1 else 0) +
    (if pushDigest.isSome then 79 else 0) + Json.numberSize msgId

/-- The encoded size of the entry of a listing. -/
def entrySize (entry : FileEntry) : Nat :=
  36 + Json.stringSize entry.name + (if entry.isDir then 4 else 5) + Json.numberSize entry.size +
    Json.numberSize entry.mtime

/-- The encoded size of a page of a listing. -/
def pageSize (page : List FileEntry) (next : Option Nat) (msgId : Nat) : Nat :=
  58 + (page.map entrySize).sum + (page.length - 1) + (next.map Json.numberSize).getD 4 +
    Json.numberSize msgId

/-- An answer to a metadata request. -/
theorem length_metaResp {jobId totalSize msgId : Nat} {fileName : String} {digest : Nat → BitVec 256}
    {pushDigest : Option (BitVec 256)} {msg : ControlMsg}
    (h : metaResp jobId (.build fileName totalSize digest) pushDigest msgId = some msg) :
    msg.body.length = metaSize jobId (.build fileName totalSize digest) pushDigest msgId := by
  obtain ⟨htype, -, -, -, -, hjobId, -, -, htag, hname, hsize, hhashes, hhash, hmsgId, -⟩ :=
    stringSize_names
  unfold metaResp at h
  split at h
  · cases h
  cases h
  generalize hm : Manifest.build fileName totalSize digest = m
  have hall : ∀ text ∈ m.chunkHashes, Json.stringSize text = 66 := by
    intro text hmem
    rw [← hm] at hmem
    obtain ⟨i, -, rfl⟩ := List.mem_map.mp hmem
    exact stringSize_hexEncode _
  have hsum : ((m.chunkHashes.map Json.string).map List.length).sum = 66 * m.chunkHashes.length := by
    have hconst : (m.chunkHashes.map Json.string).map List.length =
        List.replicate m.chunkHashes.length 66 := by
      rw [List.map_map, List.eq_replicate_iff]
      refine ⟨List.length_map _, ?_⟩
      intro size hsize
      obtain ⟨text, hmem, rfl⟩ := List.mem_map.mp hsize
      exact (Json.length_string text).trans (hall text hmem)
    rw [hconst, List.sum_replicate_nat, Nat.mul_comm]
  have hempty : m.chunkHashes = [] ↔ m.chunkHashes.length = 0 := List.length_eq_zero_iff.symm
  unfold ControlMsg.body ControlMsg.fields metaSize
  rw [Json.length_object]
  cases pushDigest with
  | none =>
    simp only [optionalField, Option.map_none, List.append_nil, List.cons_append, List.nil_append,
      List.map_cons, List.map_nil, List.sum_cons, List.sum_nil, Json.length_field,
      Json.length_string, Json.length_number, Json.length_array, hsum, htype, hjobId, hname, hsize,
      hhashes, hmsgId, htag, List.length_cons, List.length_nil, List.length_map,
      Option.isSome_none, hempty, Bool.false_eq_true, if_false]
    split <;> omega
  | some hash =>
    simp only [optionalField, Option.map_some, List.cons_append, List.nil_append,
      List.map_cons, List.map_nil, List.sum_cons, List.sum_nil, Json.length_field,
      Json.length_string, Json.length_number, Json.length_array, hsum, htype, hjobId, hname, hsize,
      hhashes, hhash, hmsgId, htag, List.length_cons, List.length_nil, List.length_map,
      stringSize_hexEncode, Option.isSome_some, hempty, if_true]
    split <;> omega

/-- The entry of a listing. -/
theorem length_fileEntry (entry : FileEntry) : entry.json.length = entrySize entry := by
  obtain ⟨-, hname, hsize, -, -, -, -, -, -, -, -, -, -, -, -, -, -, hisDir, hmtime⟩ :=
    stringSize_names
  have hbool : (Json.bool entry.isDir).length = if entry.isDir then 4 else 5 := by
    cases entry.isDir <;> decide
  unfold FileEntry.json entrySize
  rw [Json.length_object]
  simp only [List.map_cons, List.map_nil, List.sum_cons, List.sum_nil, Json.length_field,
    Json.length_string, Json.length_number, hbool, hname, hsize, hisDir, hmtime, List.length_cons,
    List.length_nil]
  omega

/-- A page of a listing. -/
theorem length_listResp (page : List FileEntry) (next : Option Nat) (msgId : Nat) :
    (ControlMsg.listResp page next msgId).body.length = pageSize page next msgId := by
  obtain ⟨htype, -, -, -, -, -, -, -, -, -, -, -, -, hmsgId, htag, hentries, hnext, -⟩ :=
    stringSize_names
  have hpage : (page.map FileEntry.json).map List.length = page.map entrySize := by
    rw [List.map_map]
    exact List.map_congr_left fun entry _ => length_fileEntry entry
  have hcursor : ((next.map Json.number).getD Json.null).length =
      (next.map Json.numberSize).getD 4 := by
    cases next with
    | none => decide
    | some stop => exact Json.length_number stop
  unfold ControlMsg.body ControlMsg.fields pageSize
  rw [Json.length_object]
  simp only [List.map_cons, List.map_nil, List.sum_cons, List.sum_nil, Json.length_field,
    Json.length_string, Json.length_number, Json.length_array, hpage, hcursor, htype, hmsgId, htag,
    hentries, hnext, List.length_cons, List.length_nil, List.length_map]
  omega

/-- A 64-bit number has at most 20 digits. -/
theorem numberSize_le {n : Nat} (h : n < 2 ^ 64) : Json.numberSize n ≤ 20 := by
  unfold Json.numberSize
  rw [Nat.length_toDigits_le_iff (by decide) (by decide)]
  exact Nat.lt_of_lt_of_le h (by decide)

/-- A name of at most 255 characters. -/
theorem stringSize_le {name : String} (h : name.length ≤ 255) : Json.stringSize name ≤ 1532 := by
  have hsize := Json.stringSize_le name
  omega

/-- A page holds entries of the directory, and no more than were asked for. -/
theorem listPage_spec (entries : List FileEntry) (cursor : Nat) :
    (listPage entries cursor).1.length ≤ 200 ∧
      (∀ entry ∈ (listPage entries cursor).1, entry ∈ entries) ∧
      ∀ stop, (listPage entries cursor).2 = some stop → stop ≤ 50000 := by
  unfold listPage listDir
  dsimp only
  split
  · simp
  next hmany =>
  split
  · simp
  · simp only [Option.getD_some]
    refine ⟨?_, ?_, ?_⟩
    · rw [List.length_take, List.length_drop]
      omega
    · intro entry hmem
      exact List.mem_of_mem_filter (List.mem_of_mem_drop (List.mem_of_mem_take hmem))
    · intro stop hstop
      split at hstop
      · cases hstop
        omega
      · cases hstop

/-- An answer to a metadata request fits if the name is short. -/
theorem metaSize_le {jobId msgId : Nat} {m : Manifest} (pushDigest : Option (BitVec 256))
    (hname : m.fileName.length ≤ 255) (hchunks : m.chunkHashes.length ≤ 60000)
    (hjob : jobId < 2 ^ 64) (hsize : m.totalSize < 2 ^ 64) (hmsg : msgId < 2 ^ 64) :
    metaSize jobId m pushDigest msgId ≤ 4 * 1024 * 1024 := by
  have hstring := stringSize_le hname
  have hjobSize := numberSize_le hjob
  have hsizeSize := numberSize_le hsize
  have hmsgSize := numberSize_le hmsg
  unfold metaSize
  split <;> split <;> omega

/-- A page of at most 200 entries fits if their names are short. -/
theorem pageSize_le {page : List FileEntry} {next : Option Nat} {msgId : Nat}
    (hlength : page.length ≤ 200) (hnext : ∀ stop, next = some stop → stop ≤ 50000)
    (hentries : ∀ entry ∈ page, entry.name.length ≤ 255 ∧ entry.size < 2 ^ 64 ∧
      entry.mtime < 2 ^ 64)
    (hmsg : msgId < 2 ^ 64) : pageSize page next msgId ≤ 4 * 1024 * 1024 := by
  have hsum : (page.map entrySize).sum ≤ 1613 * page.length := by
    clear hlength
    induction page with
    | nil => simp
    | cons entry page ih =>
      obtain ⟨hname, hsize, hmtime⟩ := hentries entry List.mem_cons_self
      have hrest := ih fun other hother => hentries other (List.mem_cons_of_mem _ hother)
      have hstring := stringSize_le hname
      have hsizeSize := numberSize_le hsize
      have hmtimeSize := numberSize_le hmtime
      have hentry : entrySize entry ≤ 1613 := by
        unfold entrySize
        split <;> omega
      rw [List.map_cons, List.sum_cons, List.length_cons]
      omega
  have hcursor : (next.map Json.numberSize).getD 4 ≤ 20 := by
    cases next with
    | none => simp
    | some stop =>
      have hstop := hnext stop rfl
      exact numberSize_le (by omega)
  have hmsgSize := numberSize_le hmsg
  unfold pageSize
  omega

/-- An offer is received if and only if its entries are few and short enough. An answer to a
metadata request and a page of a listing are received if and only if the names in them are short
enough, which they are on every file system that keeps them below 256 characters. -/
theorem sent_messages_accepted_iff (fromJson : List UInt8 → Option ControlMsg) :
    (∀ jobId sources, Parses fromJson (offerReq jobId sources) →
      (Accepted fromJson (offerReq jobId sources) ↔ offerSize jobId sources ≤ 4 * 1024 * 1024)) ∧
    (∀ jobId fileName totalSize digest pushDigest msgId msg,
      metaResp jobId (.build fileName totalSize digest) pushDigest msgId = some msg →
      Parses fromJson msg →
      (Accepted fromJson msg ↔
        metaSize jobId (.build fileName totalSize digest) pushDigest msgId ≤ 4 * 1024 * 1024) ∧
      (fileName.length ≤ 255 → jobId < 2 ^ 64 → totalSize < 2 ^ 64 → msgId < 2 ^ 64 →
        Accepted fromJson msg)) ∧
    ∀ entries cursor msgId, Parses fromJson (listResp entries cursor msgId) →
      (Accepted fromJson (listResp entries cursor msgId) ↔
        pageSize (listPage entries cursor).1 (listPage entries cursor).2 msgId ≤ 4 * 1024 * 1024) ∧
      ((∀ entry ∈ entries, entry.name.length ≤ 255 ∧ entry.size < 2 ^ 64 ∧ entry.mtime < 2 ^ 64) →
        msgId < 2 ^ 64 → Accepted fromJson (listResp entries cursor msgId)) := by
  refine ⟨?_, ?_, ?_⟩
  · intro jobId sources hparses
    rw [accepted_iff hparses, length_offerReq]
  · intro jobId fileName totalSize digest pushDigest msgId msg hmsg hparses
    rw [accepted_iff hparses, length_metaResp hmsg]
    refine ⟨Iff.rfl, fun hname hjob hsize hid => ?_⟩
    refine metaSize_le pushDigest hname ?_ hjob hsize hid
    unfold metaResp at hmsg
    split at hmsg
    · cases hmsg
    · omega
  · intro entries cursor msgId hparses
    rw [accepted_iff hparses, listResp, length_listResp]
    refine ⟨Iff.rfl, fun hentries hid => ?_⟩
    obtain ⟨hlength, hmem, hnext⟩ := listPage_spec entries cursor
    exact pageSize_le hlength hnext (fun entry hentry => hentries entry (hmem entry hentry)) hid

/-- A parser that knows one message. -/
def onlyParser (msg : ControlMsg) (body : List UInt8) : Option ControlMsg :=
  if body = msg.body then some msg else none

/-- It reads that message. -/
theorem parses_onlyParser (msg : ControlMsg) : Parses (onlyParser msg) msg := by
  unfold Parses onlyParser
  exact if_pos rfl

/-- An offer of one empty file is received. -/
theorem short_offer_accepted :
    ∃ fromJson, Accepted fromJson
      (offerReq 1 [{ fileName := "a.txt", relDir := "", size := 0, digest := 0 }]) := by
  have hparses := parses_onlyParser
    (offerReq 1 [{ fileName := "a.txt", relDir := "", size := 0, digest := 0 }])
  exact ⟨_, ((sent_messages_accepted_iff _).1 1 _ hparses).mpr (by decide)⟩

/-- The empty files of a large folder. -/
def manySources (count : Nat) : List PushSource :=
  (List.range count).map fun i =>
    { fileName := "f" ++ toString i, relDir := "folder", size := 0, digest := 0 }

/-- The entry of an empty file takes at least 113 bytes. -/
theorem manySources_size (count : Nat) :
    113 * count ≤ ((manySources count).map PushSource.entrySize).sum := by
  have hentry : ∀ i : Nat, 113 ≤ PushSource.entrySize
      { fileName := "f" ++ toString i, relDir := "folder", size := 0, digest := 0 } := by
    intro i
    have hfolder : Json.stringSize "folder" = 8 := by decide
    have hzero : Json.numberSize 0 = 1 := by decide
    have hname : 2 ≤ Json.stringSize ("f" ++ toString i) := Nat.le_add_right _ _
    have hsmall : 0 ≤ smallFileLimit := Nat.zero_le _
    simp only [PushSource.entrySize, hfolder, hzero, if_pos hsmall]
    omega
  have hall : ∀ places : List Nat, 113 * places.length ≤ ((places.map fun i =>
      ({ fileName := "f" ++ toString i, relDir := "folder", size := 0, digest := 0 } :
        PushSource)).map PushSource.entrySize).sum := by
    intro places
    induction places with
    | nil => simp
    | cons place places ih =>
      have hplace := hentry place
      rw [List.map_cons, List.map_cons, List.sum_cons, List.length_cons]
      omega
  have hrange := hall (List.range count)
  rwa [List.length_range] at hrange

/-- An offer of too many empty files is refused. -/
theorem many_refused {fromJson : List UInt8 → Option ControlMsg} {count : Nat}
    (hcount : 4 * 1024 * 1024 < 113 * count)
    (hparses : Parses fromJson (offerReq 1 (manySources count))) :
    ¬ Accepted fromJson (offerReq 1 (manySources count)) := by
  rw [accepted_iff hparses, length_offerReq]
  have hsize := manySources_size count
  unfold offerSize
  omega

/-- An offer of 40000 files is not received. -/
theorem long_offer_refused :
    ¬ ∀ (fromJson : List UInt8 → Option ControlMsg) (jobId : Nat) (sources : List PushSource),
      Parses fromJson (offerReq jobId sources) → Accepted fromJson (offerReq jobId sources) := by
  intro hall
  have hparses := parses_onlyParser (offerReq 1 (manySources 40000))
  exact many_refused (by omega) hparses (hall _ 1 _ hparses)

end LocalTrans
