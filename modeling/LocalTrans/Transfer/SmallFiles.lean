import LocalTrans.Transfer.Receive

/-!
# The stream of small files

`send_small_files_batched` writes one entry per file: the name and the directory with their
lengths, the size that was offered, and the content as it is read now. `recv_small_files_batched`
reads entries until the stream ends. `recv_send_faithful` says that it gets what was sent, in
order, as long as every content has the length that was offered and every text fits its length
field; what the receiver refuses ends the stream there.
-/

namespace LocalTrans

/-- The bytes of a string in UTF-8. -/
def utf8Bytes (text : String) : List UInt8 := text.toUTF8.data.toList

/-- The flags of a push, as they are read before a file. -/
structure PushFlags where
  cancelled : Bool
  paused : Bool
deriving DecidableEq

/-- Wait while the push is paused; a cancel ends the wait. -/
def awaitTurn : List PushFlags → Except EngineError Unit
  | [] => .ok ()
  | flags :: later =>
    if flags.cancelled then .error .cancelled
    else if flags.paused then awaitTurn later
    else .ok ()

/-- One file of the stream: what was offered, the flags that are read before it, and its content
at the time of reading. -/
structure SentFile where
  offer : OfferFile
  flags : List PushFlags
  read : Except EngineError (List UInt8)
deriving DecidableEq

/-- The entry of a file: the lengths are cut to two bytes, and the size is the one that was
offered. -/
def encodeSmallFile (offer : OfferFile) (data : List UInt8) : List UInt8 :=
  let name := utf8Bytes offer.name
  let rel := utf8Bytes (trimSlashes offer.relDir)
  toBeBytes 2 name.length ++ name ++ toBeBytes 2 rel.length ++ rel ++ toBeBytes 8 offer.size ++ data

/-- `send_small_files_batched`: the bytes written, and the result. -/
def sendSmallFilesBatched : List SentFile → List UInt8 × Except EngineError Unit
  | [] => ([], .ok ())
  | file :: rest =>
    match awaitTurn file.flags with
    | .error error => ([], .error error)
    | .ok _ =>
      match file.read with
      | .error error => ([], .error error)
      | .ok data =>
        let (bytes, result) := sendSmallFilesBatched rest
        (encodeSmallFile file.offer data ++ bytes, result)

section Receiving

variable {σ : Type*} (store : σ → SmallEntry → σ × Except EngineError Unit)

/-- The loop of `recv_small_files_batched`. `store` makes the directories of an entry, writes the
file and records it in the index. -/
def recvBatch : Nat → σ → BatchStream → σ × Except EngineError Unit
  | 0, state, _ => (state, .ok ())
  | fuel + 1, state, stream =>
    match nextEntry stream.bytes stream.clean with
    | .ended => (state, .ok ())
    | .failed error => (state, .error error)
    | .entry entry rest =>
      match store state entry with
      | (state, .error error) => (state, .error error)
      | (state, .ok _) => recvBatch fuel state { stream with bytes := rest }

/-- `recv_small_files_batched`, on the stream that was accepted. Every entry takes some of its
bytes. -/
def recvSmallFilesBatched (state : σ) (accepted : Except EngineError BatchStream) :
    σ × Except EngineError Unit :=
  match accepted with
  | .error error => (state, .error error)
  | .ok stream => recvBatch store (stream.bytes.length + 1) state stream

/-- Files one after another, up to the first that is refused or cannot be stored. -/
def storeBatch : σ → List (Except EngineError SmallEntry) → σ × Except EngineError Unit
  | state, [] => (state, .ok ())
  | state, .error error :: _ => (state, .error error)
  | state, .ok entry :: rest =>
    match store state entry with
    | (state, .error error) => (state, .error error)
    | (state, .ok _) => storeBatch state rest

end Receiving

section Reading

variable {stream rest bytes : List UInt8} {text : String}

/-- A text is read back from its bytes. -/
theorem from_utf8_bytes (text : String) : fromUtf8 (utf8Bytes text) = some text := by
  have hbytes : ByteArray.mk (utf8Bytes text).toArray = text.toByteArray := by
    simp [utf8Bytes]
  rw [fromUtf8, hbytes, String.fromUTF8?, dif_pos text.isValidUTF8]
  rfl

theorem read_bytes_append (bytes rest : List UInt8) :
    readBytes bytes.length (bytes ++ rest) = some (bytes, rest) := by
  simp [readBytes]

theorem read_bytes_of_length {count : Nat} (h : bytes.length = count) :
    readBytes count (bytes ++ rest) = some (bytes, rest) := by
  subst h
  exact read_bytes_append bytes rest

/-- A text whose length fits two bytes is read back. -/
theorem read_text_append {lengthError textError utf8Error : String}
    (h : (utf8Bytes text).length < 65536) :
    readText lengthError textError utf8Error
        (toBeBytes 2 (utf8Bytes text).length ++ (utf8Bytes text ++ rest)) = .ok (text, rest) := by
  have hlength : fromBeBytes (toBeBytes 2 (utf8Bytes text).length) = (utf8Bytes text).length :=
    (from_to_be_bytes 2 _).trans (Nat.mod_eq_of_lt h)
  simp only [readText, read_bytes_of_length (length_toBeBytes _ _), hlength, read_bytes_append,
    from_utf8_bytes]

theorem read_bytes_shorter {count : Nat} (h : readBytes count stream = some (bytes, rest)) :
    rest.length + count = stream.length := by
  unfold readBytes at h
  split at h
  · cases h
  · next hlong =>
    obtain ⟨-, rfl⟩ := Prod.mk.inj (Option.some.inj h)
    rw [List.length_drop]
    omega

theorem read_text_shorter {lengthError textError utf8Error : String}
    (h : readText lengthError textError utf8Error stream = .ok (text, rest)) :
    rest.length < stream.length := by
  unfold readText at h
  split at h
  · cases h
  · next length afterLength hlength =>
    split at h
    · cases h
    · next bytes afterText htext =>
      split at h
      · cases h
      · obtain ⟨-, rfl⟩ := Prod.mk.inj (Except.ok.inj h)
        have hfirst := read_bytes_shorter hlength
        have hsecond := read_bytes_shorter htext
        omega

theorem read_body_shorter {name : String} {entry : SmallEntry}
    (h : readBody name stream = .entry entry rest) : rest.length < stream.length := by
  unfold readBody at h
  split at h
  · cases h
  · next rel afterRel hrel =>
    have hfirst := read_text_shorter hrel
    split at h
    · cases h
    · next size afterSize hsize =>
      have hsecond := read_bytes_shorter hsize
      dsimp only at h
      split at h
      · cases h
      · split at h
        · cases h
        · next data afterData hdata =>
          obtain ⟨-, rfl⟩ := BatchFront.entry.inj h
          have hthird := read_bytes_shorter hdata
          omega

end Reading

/-- A file whose entry says what it is: the content has the length that was offered, and the name
and the directory fit their length fields. -/
structure SentFile.Faithful (file : SentFile) : Prop where
  size : ∀ data, file.read = .ok data → file.offer.size = data.length
  fits : file.offer.size < 2 ^ 64
  name : (utf8Bytes file.offer.name).length < 65536
  rel : (utf8Bytes (trimSlashes file.offer.relDir)).length < 65536

/-- What the receiver makes of a file: the name is sanitised, and a file that is too large is
refused. -/
def SentFile.received (file : SentFile) : Except EngineError SmallEntry :=
  match file.read with
  | .error error => .error error
  | .ok data =>
    match sanitizeFileName file.offer.name with
    | .error error => .error error
    | .ok name =>
      if data.length > smallFileLimit then
        .error (.protocol ("批流文件超过小文件上限: 声明 " ++ toString data.length ++
          " 字节, 上限 " ++ toString smallFileLimit))
      else .ok { name, rel := trimSlashes file.offer.relDir, data }

section Decoding

variable {file : SentFile} {data rest : List UInt8}

/-- A faithful entry is read as the file that was sent. -/
theorem next_entry_faithful (h : file.Faithful) (hread : file.read = .ok data) :
    nextEntry (encodeSmallFile file.offer data ++ rest) true =
      match file.received with
      | .error error => .failed error
      | .ok entry => .entry entry rest := by
  have hsize : file.offer.size = data.length := h.size data hread
  have hlong : 12 ≤ (encodeSmallFile file.offer data ++ rest).length := by
    simp only [encodeSmallFile, List.length_append, length_toBeBytes]
    omega
  have hempty : (encodeSmallFile file.offer data ++ rest).isEmpty = false :=
    List.isEmpty_eq_false_iff.mpr (List.ne_nil_of_length_pos (by omega))
  unfold nextEntry
  rw [if_neg (by simp only [hempty, Bool.false_and, Bool.false_eq_true, not_false_eq_true]),
    if_neg (by rw [Bool.and_true, decide_eq_true_iff]; omega)]
  have hname := h.name
  have hrel := h.rel
  simp only [encodeSmallFile, List.append_assoc, read_text_append hname]
  unfold SentFile.received
  rw [hread]
  dsimp only
  cases sanitizeFileName file.offer.name with
  | error error => rfl
  | ok name =>
    have hcount : fromBeBytes (toBeBytes 8 file.offer.size) = data.length :=
      ((from_to_be_bytes 8 _).trans (Nat.mod_eq_of_lt h.fits)).trans hsize
    simp only [readBody, read_text_append hrel, read_bytes_of_length (length_toBeBytes _ _), hcount]
    split
    · rfl
    · rw [read_bytes_append]

variable {σ : Type*} {store : σ → SmallEntry → σ × Except EngineError Unit} {state : σ}

theorem next_entry_shorter {stream : List UInt8} {clean : Bool} {entry : SmallEntry}
    (h : nextEntry stream clean = .entry entry rest) : rest.length < stream.length := by
  unfold nextEntry at h
  split at h
  · cases h
  · split at h
    · cases h
    · split at h
      · cases h
      · next name later htext =>
        have hname := read_text_shorter htext
        split at h
        · cases h
        · next cleaned hcleaned =>
          have hbody := read_body_shorter h
          omega

/-- Any amount of fuel beyond the length of the stream is enough. -/
theorem recv_batch_congr {fuel other : Nat} {stream : BatchStream}
    (hfuel : stream.bytes.length < fuel) (hother : stream.bytes.length < other) :
    recvBatch store fuel state stream = recvBatch store other state stream := by
  induction fuel generalizing other state stream with
  | zero => omega
  | succ fuel ih =>
    cases other with
    | zero => omega
    | succ other =>
      simp only [recvBatch]
      split
      · rfl
      · rfl
      · next entry rest hentry =>
        have hlt := next_entry_shorter hentry
        split
        · rfl
        · exact ih (by show rest.length < fuel; omega) (by show rest.length < other; omega)

/-- The receiver handles a faithful file and goes on with the rest of the stream. -/
theorem recv_faithful_cons (h : file.Faithful) (hread : file.read = .ok data) :
    recvSmallFilesBatched store state (.ok ⟨encodeSmallFile file.offer data ++ rest, true⟩) =
      match file.received with
      | .error error => (state, .error error)
      | .ok entry =>
        match store state entry with
        | (state, .error error) => (state, .error error)
        | (state, .ok _) => recvSmallFilesBatched store state (.ok ⟨rest, true⟩) := by
  show recvBatch store (_ + 1) state ⟨encodeSmallFile file.offer data ++ rest, true⟩ = _
  rw [recvBatch, next_entry_faithful h hread]
  cases file.received with
  | error error => rfl
  | ok entry =>
    dsimp only
    split
    · rfl
    · refine recv_batch_congr ?_ (Nat.lt_succ_self _)
      have hpos : 0 < (encodeSmallFile file.offer data).length := by
        simp only [encodeSmallFile, List.length_append, length_toBeBytes]
        omega
      show rest.length < (encodeSmallFile file.offer data ++ rest).length
      rw [List.length_append]
      omega

/-- A list of faithful files is received as it was sent, whatever follows in the stream. -/
theorem recv_send_append {files : List SentFile} {bytes : List UInt8}
    (hsend : sendSmallFilesBatched files = (bytes, .ok ()))
    (hfaithful : ∀ file ∈ files, file.Faithful) :
    recvSmallFilesBatched store state (.ok ⟨bytes ++ rest, true⟩) =
      match storeBatch store state (files.map SentFile.received) with
      | (state, .error error) => (state, .error error)
      | (state, .ok _) => recvSmallFilesBatched store state (.ok ⟨rest, true⟩) := by
  induction files generalizing state bytes with
  | nil =>
    obtain ⟨rfl, -⟩ := Prod.mk.inj hsend
    rfl
  | cons file files ih =>
    unfold sendSmallFilesBatched at hsend
    split at hsend
    · cases hsend
    · split at hsend
      · cases hsend
      · next data hread =>
        obtain ⟨rfl, hrest⟩ := Prod.mk.inj hsend
        have hlater : sendSmallFilesBatched files = ((sendSmallFilesBatched files).1, .ok ()) :=
          Prod.ext rfl hrest
        have hfile := hfaithful file List.mem_cons_self
        rw [List.append_assoc, recv_faithful_cons hfile hread, List.map_cons]
        cases file.received with
        | error error => rfl
        | ok entry =>
          simp only [storeBatch]
          split
          · rfl
          · exact ih hlater fun other hmem => hfaithful other (List.mem_cons_of_mem _ hmem)

end Decoding

/-- A list of faithful files is received as it was sent. -/
theorem recv_send_faithful {σ : Type*} (store : σ → SmallEntry → σ × Except EngineError Unit)
    (state : σ) {files : List SentFile} {bytes : List UInt8}
    (hsend : sendSmallFilesBatched files = (bytes, .ok ()))
    (hfaithful : ∀ file ∈ files, file.Faithful) :
    recvSmallFilesBatched store state (.ok ⟨bytes, true⟩) =
      storeBatch store state (files.map SentFile.received) := by
  have hall : recvSmallFilesBatched store state (.ok ⟨bytes ++ [], true⟩) = _ :=
    recv_send_append hsend hfaithful
  rw [List.append_nil] at hall
  rw [hall]
  rcases storeBatch store state (files.map SentFile.received) with ⟨last, result⟩
  cases result with
  | error error => rfl
  | ok done => rfl

/-- A name that passes has lost its control characters and nothing else. -/
theorem sanitize_file_name_chars {name cleaned : String} (h : sanitizeFileName name = .ok cleaned) :
    cleaned.toList = name.toList.filter fun c => !isControl c := by
  unfold sanitizeFileName at h
  dsimp only at h
  repeat' split at h
  all_goals first
    | cases h
      done
    | rw [← Except.ok.inj h, String.toList_ofList]

/-- What the receiver accepts is the file that was sent: its content, its directory without outer
slashes, and its name without control characters. -/
theorem received_is_sent {file : SentFile} {entry : SmallEntry} (h : file.received = .ok entry) :
    file.read = .ok entry.data ∧ entry.rel = trimSlashes file.offer.relDir ∧
      entry.name.toList = file.offer.name.toList.filter fun c => !isControl c := by
  unfold SentFile.received at h
  split at h
  · cases h
  · next data hread =>
    split at h
    · cases h
    · next name hname =>
      split at h
      · cases h
      · obtain rfl := Except.ok.inj h
        exact ⟨hread, rfl, sanitize_file_name_chars hname⟩

/-- Where a list of files is sent, and every content has the length that was offered and every
text fits its length field, the receiver handles these files in their order and nothing else, up
to the first that it refuses or cannot store; and it handles each with the content, the directory
and the name it was sent with, apart from outer slashes and control characters. -/
theorem small_files_round_trip {σ : Type*} (store : σ → SmallEntry → σ × Except EngineError Unit)
    (state : σ) {files : List SentFile} {bytes : List UInt8}
    (hsend : sendSmallFilesBatched files = (bytes, .ok ()))
    (hfaithful : ∀ file ∈ files, file.Faithful) :
    recvSmallFilesBatched store state (.ok ⟨bytes, true⟩) =
        storeBatch store state (files.map SentFile.received) ∧
      ∀ file ∈ files, ∀ entry, file.received = .ok entry →
        file.read = .ok entry.data ∧ entry.rel = trimSlashes file.offer.relDir ∧
          entry.name.toList = file.offer.name.toList.filter fun c => !isControl c :=
  ⟨recv_send_faithful store state hsend hfaithful,
    fun _ _ _ hentry => received_is_sent hentry⟩

/-- A receiver that keeps what it is given. -/
def keepEntry (entries : List SmallEntry) (entry : SmallEntry) :
    List SmallEntry × Except EngineError Unit :=
  (entries ++ [entry], .ok ())

/-- A file of two bytes. -/
def noteFile (name : String) : SentFile :=
  { offer := { name, size := 2, relDir := "/docs/", hash := none }, flags := [], read := .ok [104, 105] }

theorem note_file_faithful (name : String) (h : (utf8Bytes name).length < 65536) :
    (noteFile name).Faithful where
  size := by
    intro data hdata
    cases hdata
    rfl
  fits := by
    show 2 < 2 ^ 64
    decide
  name := h
  rel := by
    show (utf8Bytes (trimSlashes "/docs/")).length < 65536
    decide

theorem two_notes_faithful : ∀ file ∈ [noteFile "a.txt", noteFile "b.txt"], file.Faithful := by
  intro file hmem
  simp only [List.mem_cons, List.not_mem_nil, or_false] at hmem
  rcases hmem with rfl | rfl
  · exact note_file_faithful _ (by decide)
  · exact note_file_faithful _ (by decide)

/-- A file that grew after it was offered, by just the bytes of an entry. -/
def grownFile : SentFile :=
  { offer := (noteFile "a.txt").offer, flags := []
    read := .ok ([104, 105] ++ encodeSmallFile (noteFile "b.txt").offer [104, 105]) }

/-- What a file would be received as, word for word. -/
def SentFile.verbatim (file : SentFile) : SmallEntry :=
  { name := file.offer.name, rel := file.offer.relDir, data := file.read.toOption.getD [] }

/-- Two files arrive as they were sent. -/
theorem two_notes_arrive : ∃ bytes,
    sendSmallFilesBatched [noteFile "a.txt", noteFile "b.txt"] = (bytes, .ok ()) ∧
      recvSmallFilesBatched keepEntry [] (.ok ⟨bytes, true⟩) =
        ([⟨"a.txt", "docs", [104, 105]⟩, ⟨"b.txt", "docs", [104, 105]⟩], .ok ()) := by
  refine ⟨_, rfl, ?_⟩
  rw [(small_files_round_trip keepEntry [] rfl two_notes_faithful).1]
  decide

/-- A file whose name is reserved is sent, and refused; and a file that grew after it was offered is
sent, and received as two files. -/
theorem batch_not_verbatim :
    (¬ ∀ files bytes, sendSmallFilesBatched files = (bytes, .ok ()) →
      (∀ file ∈ files, file.Faithful) →
        recvSmallFilesBatched keepEntry [] (.ok ⟨bytes, true⟩) =
          (files.map SentFile.verbatim, .ok ())) ∧
    ¬ ∀ files bytes, sendSmallFilesBatched files = (bytes, .ok ()) →
      (¬ ∀ file ∈ files, file.Faithful) →
        ∃ entries error, entries <+: files.map SentFile.verbatim ∧
          recvSmallFilesBatched keepEntry [] (.ok ⟨bytes, true⟩) = (entries, .error error) := by
  constructor
  · intro hclaim
    have hfaithful : ∀ file ∈ [noteFile "CON"], file.Faithful := by
      intro file hmem
      rw [List.mem_singleton.mp hmem]
      exact note_file_faithful _ (by decide)
    have hclaimed := hclaim [noteFile "CON"] _ rfl hfaithful
    rw [recv_send_faithful keepEntry [] rfl hfaithful] at hclaimed
    exact absurd hclaimed (by decide)
  · intro hclaim
    have hgrown : ¬ ∀ file ∈ [grownFile], file.Faithful := by
      intro hfaithful
      exact absurd ((hfaithful grownFile (by simp)).size _ rfl) (by decide)
    obtain ⟨entries, error, -, hclaimed⟩ := hclaim [grownFile] (sendSmallFilesBatched [grownFile]).1 rfl hgrown
    -- The stream is that of the file as it was offered and of another one.
    have hsame : sendSmallFilesBatched [noteFile "a.txt", noteFile "b.txt"] =
        ((sendSmallFilesBatched [grownFile]).1, .ok ()) := by decide
    have hreceived := recv_send_faithful keepEntry [] hsame two_notes_faithful
    rw [hclaimed] at hreceived
    have hresult : Except.error error = (.ok () : Except EngineError Unit) :=
      congrArg Prod.snd hreceived
    cases hresult

end LocalTrans
