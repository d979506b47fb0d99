import LocalTrans.Relay.Steps

/-!
# Messages within the limit of a frame

`push` unwraps what the encoder returns, so that a message that is too long kills the task. The
messages of a registration and of a punch always fit: `length_addr_text_le` bounds the text of an
address. A roster is as long as the names in it, which the clients choose; `rostersFit` is the
arithmetic condition under which it fits, and `rosters_encode_iff` says that nothing else kills a
task.
-/

namespace LocalTrans.Relay

open Foundation

theorem length_intercalate_le (sep : String) (bound : Nat) {items : List String}
    (h : ∀ item ∈ items, item.length ≤ bound) :
    (String.intercalate sep items).length ≤ items.length * (bound + sep.length) := by
  induction items with
  | nil => simp
  | cons item rest ih =>
    have hitem := h item List.mem_cons_self
    have hrest := ih fun other hother => h other (List.mem_cons_of_mem _ hother)
    cases rest with
    | nil => simpa using Nat.le_trans hitem (Nat.le_add_right _ _)
    | cons next rest =>
      rw [String.intercalate_cons_cons, String.length_append, String.length_append]
      simp only [List.length_cons, Nat.add_mul, Nat.one_mul] at hrest ⊢
      omega

theorem length_decimal_le {n count : Nat} (hcount : 0 < count) (h : n < 10 ^ count) :
    (toString n).length ≤ count := by
  rw [Nat.toString_eq_repr]
  exact (Nat.length_repr_le_iff hcount).mpr h

theorem length_dotted_le (a b c d : UInt8) : (dotted a b c d).length ≤ 16 := by
  refine length_intercalate_le "." 3 fun item hmem => ?_
  obtain ⟨byte, -, rfl⟩ := List.mem_map.mp hmem
  have hlt : byte.toNat < 2 ^ 8 := byte.toNat_lt
  exact length_decimal_le (by decide) (by omega)

theorem length_hex_groups_le (segments : List UInt16) :
    (hexGroups segments).length ≤ segments.length * 5 := by
  have hgroups : ∀ item ∈ segments.map hexGroup, item.length ≤ 4 := by
    intro item hmem
    obtain ⟨segment, -, rfl⟩ := List.mem_map.mp hmem
    rw [hexGroup, String.length_ofList]
    have hlt : segment.toNat < 2 ^ 16 := segment.toNat_lt
    exact (Nat.length_toDigits_le_iff (by decide) (by decide)).mpr hlt
  have hle := length_intercalate_le ":" 4 hgroups
  have hcolon : ":".length = 1 := by decide
  rwa [List.length_map, hcolon] at hle

theorem length_ip_text_le (ip : IpAddr) : ip.text.length ≤ 82 := by
  cases ip with
  | v4 a b c d => exact Nat.le_trans (length_dotted_le a b c d) (by decide)
  | v6 segments =>
    have hlength : segments.toList.length = 8 := segments.length_toList
    simp only [IpAddr.text]
    split
    · have hbytes : (String.intercalate "." ((segments.toList.drop 6).flatMap fun group =>
          [toString (group.toNat / 256), toString (group.toNat % 256)])).length ≤
            ((segments.toList.drop 6).flatMap fun group =>
              [toString (group.toNat / 256), toString (group.toNat % 256)]).length * 4 := by
        refine length_intercalate_le "." 3 fun item hmem => ?_
        obtain ⟨group, -, hitem⟩ := List.mem_flatMap.mp hmem
        have hlt : group.toNat < 2 ^ 16 := group.toNat_lt
        rcases List.mem_cons.mp hitem with rfl | hitem
        · exact length_decimal_le (by decide) (by omega)
        · obtain rfl := List.mem_singleton.mp hitem
          exact length_decimal_le (by decide) (by omega)
      have hmapped : "::ffff:".length = 7 := by decide
      simp only [List.length_flatMap, List.length_cons, List.length_nil, List.map_const',
        List.sum_replicate_nat, List.length_drop, hlength] at hbytes
      rw [String.length_append]
      omega
    · split
      · have hhead := length_hex_groups_le
          (segments.toList.take (longestZeros segments.toList).1)
        have htail := length_hex_groups_le (segments.toList.drop
          ((longestZeros segments.toList).1 + (longestZeros segments.toList).2))
        have hcolons : "::".length = 2 := by decide
        rw [List.length_take] at hhead
        rw [List.length_drop] at htail
        rw [String.length_append, String.length_append]
        omega
      · have hall := length_hex_groups_le segments.toList
        omega

/-- No address takes more than ninety characters. -/
theorem length_addr_text_le (addr : SocketAddr) : addr.text.length ≤ 90 := by
  have hport : (toString addr.port.toNat).length ≤ 5 := by
    have hlt : addr.port.toNat < 2 ^ 16 := addr.port.toNat_lt
    exact length_decimal_le (by decide) (by omega)
  unfold SocketAddr.text
  split
  · next a b c d _ =>
    have hdotted := length_dotted_le a b c d
    have hcolon : ":".length = 1 := by decide
    rw [String.length_append, String.length_append]
    omega
  · next segments _ =>
    have hip := length_ip_text_le (.v6 segments)
    have hopen : "[".length = 1 := by decide
    have hclose : "]:".length = 2 := by decide
    rw [String.length_append, String.length_append, String.length_append]
    omega

theorem length_byte_array_le (bytes : List UInt8) :
    (byteArray bytes).length ≤ 2 + 4 * bytes.length := by
  have hsum : (bytes.map fun byte => Json.numberSize byte.toNat).sum ≤ 3 * bytes.length := by
    induction bytes with
    | nil => simp
    | cons byte bytes ih =>
      have hlt : byte.toNat < 2 ^ 8 := byte.toNat_lt
      have hbyte : Json.numberSize byte.toNat ≤ 3 :=
        (Nat.length_toDigits_le_iff (by decide) (by decide)).mpr (by omega)
      simp only [List.map_cons, List.sum_cons, List.length_cons]
      omega
  rw [length_byte_array]
  omega

/-- The text of a message takes its tag and its fields, with what stands between them. -/
theorem length_body (msg : RelayMsg) : msg.body.length =
    Json.stringSize msg.fields.1 + (msg.fields.2.map List.length).sum + msg.fields.2.length + 9 := by
  have htype : Json.stringSize "type" = 6 := by decide
  simp only [RelayMsg.body, Json.length_object, List.map_cons, List.sum_cons, Json.length_field,
    Json.length_string, htype, List.length_cons]
  omega

theorem length_fingerprint_le (fp : Fingerprint) :
    (byteArray (fingerprintBytes fp)).length ≤ 130 := by
  have hle := length_byte_array_le (fingerprintBytes fp)
  rw [fingerprintBytes, length_toBeBytes] at hle
  exact hle

theorem length_lease_le (lease : LeaseInfo) : lease.json.length ≤ 110 := by
  have hnames : Json.stringSize "data_port" = 11 ∧ Json.stringSize "token" = 7 := by decide
  have hport : Json.numberSize lease.dataPort.toNat ≤ 5 := by
    have hlt : lease.dataPort.toNat < 2 ^ 16 := lease.dataPort.toNat_lt
    exact (Nat.length_toDigits_le_iff (by decide) (by decide)).mpr (by omega)
  have htoken := length_byte_array_le (toBeBytes 16 lease.token.toNat)
  rw [length_toBeBytes] at htoken
  simp only [LeaseInfo.json, Json.length_object, List.map_cons, List.map_nil, List.sum_cons,
    List.sum_nil, Json.length_field, Json.length_number, hnames.1, hnames.2, List.length_cons,
    List.length_nil]
  omega

/-- The acknowledgement of a registration fits. -/
theorem ack_fits (lease : Option LeaseInfo) (observed : SocketAddr) :
    (RelayMsg.registerAck lease (some observed.text)).body.length ≤ maxFrame := by
  have hnames : Json.stringSize "register_ack" = 14 ∧ Json.stringSize "lease" = 7 ∧
      Json.stringSize "observed_addr" = 15 := by decide
  obtain ⟨htag, hfield, hother⟩ := hnames
  have hlease : (nullable (lease.map LeaseInfo.json)).length ≤ 110 := by
    cases lease with
    | none => decide
    | some lease => exact length_lease_le lease
  have haddr := Nat.le_trans (Json.stringSize_le observed.text)
    (Nat.add_le_add_left (Nat.mul_le_mul_left 6 (length_addr_text_le observed)) 2)
  simp only [length_body, RelayMsg.fields, Option.map_some, Option.toList_some, List.map_cons,
    List.map_nil, List.sum_cons, List.sum_nil, Json.length_field, Json.length_string, htag, hfield,
    hother, List.length_cons, List.length_nil, maxFrame]
  omega

/-- So does what the target of a punch is told, -/
theorem punch_notif_fits (requester : Fingerprint) (addr : SocketAddr) :
    (RelayMsg.punchNotif requester addr).body.length ≤ maxFrame := by
  have hnames : Json.stringSize "punch_notif" = 13 ∧ Json.stringSize "target_fp" = 11 ∧
      Json.stringSize "target_lease" = 14 := by decide
  obtain ⟨htag, hfield, hother⟩ := hnames
  have hrequester := length_fingerprint_le requester
  have haddr := Nat.le_trans (Json.stringSize_le addr.text)
    (Nat.add_le_add_left (Nat.mul_le_mul_left 6 (length_addr_text_le addr)) 2)
  simp only [length_body, RelayMsg.fields, List.map_cons, List.map_nil, List.sum_cons, List.sum_nil,
    Json.length_field, Json.length_string, htag, hfield, hother, List.length_cons,
    List.length_nil, maxFrame]
  omega

/-- and the answer to a punch with short texts. -/
theorem punch_resp_fits (ok : Bool) {reason addr : Option String}
    (hreason : ∀ text ∈ reason, text.length ≤ 90) (haddr : ∀ text ∈ addr, text.length ≤ 90) :
    (RelayMsg.punchResp ok reason addr).body.length ≤ maxFrame := by
  have hnames : Json.stringSize "punch_resp" = 12 ∧ Json.stringSize "ok" = 4 ∧
      Json.stringSize "reason" = 8 ∧ Json.stringSize "session_addr" = 14 := by decide
  obtain ⟨htag, hok, hfield, hother⟩ := hnames
  have hbool : (Json.bool ok).length ≤ 5 := by cases ok <;> decide
  have hshort : ∀ text : Option String, (∀ t ∈ text, t.length ≤ 90) →
      (nullable (text.map Json.string)).length ≤ 542 := by
    intro text hlength
    cases text with
    | none => decide
    | some text =>
      have hle := Json.stringSize_le text
      have hlength := hlength text rfl
      show (Json.string text).length ≤ 542
      rw [Json.length_string]
      omega
  have hreason := hshort reason hreason
  have haddr := hshort addr haddr
  simp only [length_body, RelayMsg.fields, List.map_cons, List.map_nil, List.sum_cons, List.sum_nil,
    Json.length_field, htag, hok, hfield, hother, List.length_cons, List.length_nil, maxFrame]
  omega

/-- No task has died. -/
def NoPanic (trace : List RelayEvent) : Prop :=
  ∀ owner, .panicked owner ∉ trace

/-- The names in a roster leave it within a frame. -/
def RelayServer.RosterFits (s : RelayServer) : RelayOp → Prop
  | .roster fp _ rev => rosterSize rev (s.table.snapshotRoster fp s.publicIp) ≤ maxFrame
  | _ => True

/-- The condition on one step: a roster that is pushed fits. -/
def rostersFit : Guard RelayServer RelayInput RelayEvent :=
  fun _ s input =>
    match input with
    | .run i _ => ∀ thread ∈ s.threads[i]?, ∀ op ∈ thread.ops.head?, s.RosterFits op
    | _ => True

instance (s : RelayServer) (op : RelayOp) : Decidable (s.RosterFits op) := by
  unfold RelayServer.RosterFits
  split <;> infer_instance

instance (trace : List RelayEvent) (s : RelayServer) (input : RelayInput) :
    Decidable (rostersFit trace s input) := by
  unfold rostersFit
  induction input using RelayInput.casesOn <;> infer_instance

namespace RelayServer

variable {s next : RelayServer} {input : RelayInput} {trace emitted : List RelayEvent}

/-- What is to be pushed apart from the rosters fits. -/
def Modest (s : RelayServer) : Prop :=
  ∀ owner fp conn msg, s.Pending owner (.push fp conn msg) → msg.body.length ≤ maxFrame

theorem refusal_fits {reason : String} (hreason : reason ∈ punchReasons) :
    (RelayMsg.punchResp false (some reason) none).body.length ≤ maxFrame := by
  have hshort : ∀ text ∈ punchReasons, text.length ≤ 90 := by decide
  refine punch_resp_fits false ?_ (by simp)
  intro text htext
  obtain rfl := Option.some.inj htext
  exact hshort _ hreason

theorem Modest.step (hinv : s.Modest) (h : s.step input = some (next, emitted)) :
    next.Modest := by
  intro owner fp conn msg hpending
  rcases step_pending h hpending with hold | hbegins
  · exact hinv owner fp conn msg hold
  · cases hbegins with
    | spawn hspawns hmem =>
      cases hspawns with
      | refused hreason =>
        obtain ⟨rfl, rfl, rfl⟩ : fp = _ ∧ conn = _ ∧ msg = _ := by
          simpa [punchFailed] using hmem
        exact refusal_fits hreason
      | _ => simp at hmem
    | run _ hyields =>
      cases hyields with
      | refused hreason => exact refusal_fits hreason
      | exhausted hreason => exact refusal_fits hreason
      | notify addr => exact punch_notif_fits _ addr
      | respond =>
        refine punch_resp_fits true (by simp) ?_
        intro text htext
        obtain rfl := Option.some.inj htext
        exact length_addr_text_le _
      | evict _ _ _ _ hlater => rcases hlater with hlater | hlater <;> cases hlater

/-- A task dies of a roster, and only of one that is too long. -/
theorem Modest.panicked (hinv : s.Modest) (h : s.step input = some (next, emitted))
    {owner : Option Nat} (hmem : .panicked owner ∈ emitted) : ¬ rostersFit trace s input := by
  intro hfits
  cases step_emits h hmem with
  | @panicked i written owner op rest conn msg hinput hthread hmsg hlong =>
    subst hinput
    have hop := hfits _ hthread op rfl
    cases op with
    | ack conn' lease observed =>
      obtain ⟨-, rfl⟩ := answer_inj hmsg
      exact absurd (ack_fits lease observed) (Nat.not_le.mpr hlong)
    | roster fp conn' rev =>
      obtain ⟨-, rfl⟩ := answer_inj hmsg
      rw [length_roster_body] at hlong
      exact absurd hop (Nat.not_le.mpr hlong)
    | push fp conn' msg' =>
      obtain ⟨-, rfl⟩ := answer_inj hmsg
      exact absurd (hinv owner fp conn' _ (pending_of_thread hthread)) (Nat.not_le.mpr hlong)
    | _ => cases hmsg

/-- A step that does not fit kills the task. -/
theorem panics_of_not_fit (h : s.step input = some (next, emitted))
    (hlong : ¬ rostersFit trace s input) : ∃ owner, .panicked owner ∈ emitted := by
  cases input with
  | run i written =>
    obtain ⟨owner, op, rest, hthread, -⟩ := step_run h
    cases op with
    | roster fp conn rev =>
      have hmsg : s.message (.roster fp conn rev) = some (conn, _) := rfl
      have hsize : maxFrame < rosterSize rev (s.table.snapshotRoster fp s.publicIp) := by
        by_contra hle
        refine hlong fun thread hfound op' hhead => ?_
        obtain rfl := Option.some.inj (hthread.symm.trans hfound)
        obtain rfl := Option.some.inj hhead
        exact Nat.not_lt.mp hle
      rw [← length_roster_body] at hsize
      obtain ⟨-, rfl⟩ := step_too_long h hthread hmsg hsize
      exact ⟨owner, List.mem_cons_self⟩
    | _ =>
      refine absurd (fun thread hfound op' hhead => ?_) hlong
      obtain rfl := Option.some.inj (hthread.symm.trans hfound)
      obtain rfl := Option.some.inj hhead
      exact trivial
  | _ => exact absurd trivial hlong

end RelayServer

/-- No task dies in a run if and only if all the rosters that are pushed fit. -/
theorem no_panic_iff {portStart portEnd : UInt16} {publicIp : IpAddr} {inputs : List RelayInput}
    {trace : List RelayEvent} {s : RelayServer}
    (h : Exec RelayServer.step Guard.free (.start portStart portEnd publicIp) inputs trace s) :
    NoPanic trace ↔
      Exec RelayServer.step rostersFit (.start portStart portEnd publicIp) inputs trace s := by
  constructor
  · intro hquiet
    have hshorter : ∀ before after, NoPanic (before ++ after) → NoPanic before :=
      fun before after hall owner hmem => hall owner (List.mem_append_left _ hmem)
    refine h.guarded hshorter (fun inputs trace s input next emitted _ hnext hsafe => ?_) hquiet
    by_contra hlong
    obtain ⟨owner, hmem⟩ := RelayServer.panics_of_not_fit hnext hlong
    exact hsafe owner (List.mem_append_right _ hmem)
  · intro hfits
    suffices hinv : s.Modest ∧ NoPanic trace from hinv.2
    clear h
    induction hfits with
    | start =>
      refine ⟨?_, fun owner hmem => by cases hmem⟩
      rintro owner fp conn msg ⟨thread, hmem, -⟩
      cases hmem
    | step _ hmeets hnext ih =>
      obtain ⟨hmodest, hquiet⟩ := ih
      refine ⟨hmodest.step hnext, fun owner hmem => ?_⟩
      rcases List.mem_append.mp hmem with hold | hnew
      · exact hquiet owner hold
      · exact hmodest.panicked hnext hnew hmeets

/-- At every point of a run a roster can be encoded if and only if the names leave it within a frame;
and no task has died if and only if that was so of every roster that was pushed. -/
theorem rosters_encode_iff {portStart portEnd : UInt16} {publicIp : IpAddr}
    {inputs : List RelayInput} {trace : List RelayEvent} {s : RelayServer}
    (h : Exec RelayServer.step Guard.free (.start portStart portEnd publicIp) inputs trace s) :
    (∀ fp rev, (∃ bytes, encodeRelayMsg (.roster rev (s.table.snapshotRoster fp s.publicIp)) =
        .ok bytes) ↔ rosterSize rev (s.table.snapshotRoster fp s.publicIp) ≤ maxFrame) ∧
      (NoPanic trace ↔
        Exec RelayServer.step rostersFit (.start portStart portEnd publicIp) inputs trace s) :=
  ⟨fun _ rev => roster_encodes_iff rev _, no_panic_iff h⟩

/-- The leases are as their clients registered them. -/
theorem leases_registered {portStart portEnd : UInt16} {publicIp : IpAddr}
    {inputs : List RelayInput} {trace : List RelayEvent} {s : RelayServer}
    (h : Exec RelayServer.step Guard.free (.start portStart portEnd publicIp) inputs trace s) :
    ∀ entry ∈ s.table.leases, ∃ observed,
      .connect entry.fingerprint entry.name entry.hidden entry.token observed ∈ inputs := by
  suffices hinv : (∀ entry ∈ s.table.leases, ∃ observed,
        RelayInput.connect entry.fingerprint entry.name entry.hidden entry.token observed ∈ inputs) ∧
      ∀ owner fp name hidden token conn observed,
        s.Pending owner (.register fp name hidden token conn observed) →
        .connect fp name hidden token observed ∈ inputs from hinv.1
  induction h with
  | start =>
    constructor
    · intro entry hmem
      cases hmem
    · rintro owner fp name hidden token conn observed ⟨thread, hmem, -⟩
      cases hmem
  | step _ _ hnext ih =>
    obtain ⟨hleases, hpendings⟩ := ih
    refine ⟨fun entry hmem => ?_, fun owner fp name hidden token conn observed hpending => ?_⟩
    · rcases (RelayServer.step_change hnext).leases entry hmem with hold | ⟨observed, hruns⟩
      · obtain ⟨observed, hconnect⟩ := hleases entry hold
        exact ⟨observed, List.mem_append_left _ hconnect⟩
      · obtain ⟨owner, hpending⟩ := RelayServer.pending_of_runs hruns
        exact ⟨observed, List.mem_append_left _ (hpendings _ _ _ _ _ _ _ hpending)⟩
    · rcases RelayServer.step_pending hnext hpending with hold | hbegins
      · exact List.mem_append_left _ (hpendings _ _ _ _ _ _ _ hold)
      · cases hbegins with
        | spawn hspawns hmem =>
          refine List.mem_append_right _ ?_
          cases hspawns with
          | register =>
            obtain ⟨rfl, rfl, rfl, rfl, rfl, rfl⟩ :
                fp = _ ∧ name = _ ∧ hidden = _ ∧ token = _ ∧ conn = _ ∧ observed = _ := by
              simpa using hmem
            exact List.mem_cons_self
          | _ => simp [RelayServer.punchFailed] at hmem
        | run _ hyields =>
          cases hyields with
          | evict _ _ _ _ hlater => rcases hlater with hlater | hlater <;> cases hlater

/-- A client can register a name: the message fits with any certificate of a usual length. -/
def Registrable (name : String) : Prop :=
  ∀ fp hidden certDer nonceSig, certDer.length ≤ 4096 →
    ∃ bytes, encodeRelayMsg (.register name fp hidden certDer nonceSig) = .ok bytes

theorem registrable_of_size {name : String} (h : Json.stringSize name ≤ 40000) :
    Registrable name := by
  intro fp hidden certDer nonceSig hcert
  refine ⟨_, encode_relay_msg_iff.mpr ⟨?_, rfl⟩⟩
  have hnames : Json.stringSize "register" = 10 ∧ Json.stringSize "name" = 6 ∧
      Json.stringSize "fingerprint" = 13 ∧ Json.stringSize "hidden" = 8 ∧
      Json.stringSize "cert_der" = 10 ∧ Json.stringSize "nonce_sig" = 11 := by decide
  obtain ⟨htag, hname, hfingerprint, hhidden, hcertDer, hnonceSig⟩ := hnames
  have hfp := length_fingerprint_le fp
  have hbool : (Json.bool hidden).length ≤ 5 := by cases hidden <;> decide
  have hbytes := length_byte_array_le certDer
  have hsig := Json.stringSize_le (hexEncode nonceSig)
  have hhex : (hexEncode nonceSig).length = 128 := by
    simp [hexEncode]
  simp only [length_body, RelayMsg.fields, List.map_cons, List.map_nil, List.sum_cons, List.sum_nil,
    Json.length_field, Json.length_string, htag, hname, hfingerprint, hhidden, hcertDer,
    hnonceSig, List.length_cons, List.length_nil, maxFrame]
  omega
/-- A long name. -/
def longName : String := String.ofList (List.replicate 33000 'a')

/-- Three clients register, two of them with the long name, and the first is to be told of them. -/
def longNames : List RelayInput :=
  registration 1 "phone" 0 ++ registration 2 longName 1 ++ registration 3 longName 3

/-- Two clients register, and the first is told of the second. -/
def shortNames : List RelayInput :=
  registration 1 "phone" 0 ++ registration 2 "laptop" 1 ++ [.run 2 true]

theorem replicate_size (count : Nat) :
    Json.stringSize (String.ofList (List.replicate count 'a')) = 2 + count := by
  have ha : (Json.escapeChar 'a').length = 1 := by decide
  unfold Json.stringSize
  rw [String.toList_ofList, List.map_replicate, List.sum_replicate_nat, ha, Nat.mul_one]

theorem long_name_size : Json.stringSize longName = 33002 :=
  replicate_size 33000

/-- A roster is at least as long as the names in it. -/
theorem names_le_roster_size {rev size : Nat} {devices : List RemoteDevice}
    (h : ∀ device ∈ devices, size ≤ Json.stringSize device.name) :
    devices.length * size ≤ rosterSize rev devices := by
  have hsum : devices.length * size ≤ (devices.map RemoteDevice.size).sum := by
    induction devices with
    | nil => simp
    | cons device devices ih =>
      have hname := h device List.mem_cons_self
      have hrest := ih fun other hother => h other (List.mem_cons_of_mem _ hother)
      simp only [List.length_cons, Nat.add_mul, Nat.one_mul, List.map_cons, List.sum_cons,
        RemoteDevice.size]
      omega
  unfold rosterSize
  omega

/-- With short names the rosters fit. -/
theorem short_names_fit :
    ∃ trace s, Exec RelayServer.step Guard.free sampleRelay shortNames trace s ∧
      trace.length = 3 ∧ NoPanic trace := by
  have hrun : (Machine.run RelayServer.step rostersFit [] sampleRelay shortNames).map
      (fun result => result.2.length) = some 3 := by decide +kernel
  obtain ⟨⟨s, trace⟩, hrun, hlength⟩ := Option.map_eq_some_iff.mp hrun
  have hfits := Exec.start.append_run hrun
  exact ⟨trace, s, hfits.toFree, hlength, (rosters_encode_iff hfits.toFree).2.mpr hfits⟩

/-- With long names that a client can register, the third registration dies of the roster for the
first client. -/
theorem long_names_panic :
    ¬ ∀ (inputs : List RelayInput) (trace : List RelayEvent) (s : RelayServer),
      (∀ fp name hidden token observed,
        .connect fp name hidden token observed ∈ inputs → Registrable name) →
      Exec RelayServer.step Guard.free sampleRelay inputs trace s → NoPanic trace := by
  intro hall
  have hconnects : ∀ fp name hidden token observed,
      .connect fp name hidden token observed ∈ longNames →
        name = longName ∨ fp = 1 ∧ name = "phone" := by
    intro fp name hidden token observed hmem
    simp only [longNames, registration, List.mem_append, List.mem_cons, List.mem_replicate,
      RelayInput.connect.injEq, reduceCtorEq, and_false, or_false] at hmem
    rcases hmem with (⟨rfl, rfl, -⟩ | ⟨-, rfl, -⟩) | ⟨-, rfl, -⟩
    · exact .inr ⟨rfl, rfl⟩
    · exact .inl rfl
    · exact .inl rfl
  have hrun : (Machine.run RelayServer.step Guard.free [] sampleRelay longNames).map
      (fun result => (result.1.threads[5]?,
        (result.1.table.snapshotRoster 1 result.1.publicIp).length)) =
          some (some ⟨some 2, [.roster 1 0 2]⟩, 2) := by decide +kernel
  obtain ⟨⟨s, trace⟩, hrun, hviews⟩ := Option.map_eq_some_iff.mp hrun
  obtain ⟨hthread, hlength⟩ := Prod.mk.inj hviews
  have hexec := Exec.start.append_run hrun
  have hlong : ∀ device ∈ s.table.snapshotRoster 1 s.publicIp,
      33002 ≤ Json.stringSize device.name := by
    intro device hmem
    obtain ⟨entry, hentry, rfl⟩ := List.mem_map.mp hmem
    obtain ⟨hentry, hother⟩ := List.mem_filter.mp hentry
    obtain ⟨observed, hconnect⟩ := leases_registered hexec entry hentry
    rcases hconnects _ _ _ _ _ hconnect with hname | ⟨hfp, -⟩
    · exact Nat.le_of_eq (hname ▸ long_name_size.symm)
    · simp [hfp] at hother
  -- Two of the names alone are longer than a frame.
  have hsize : 2 * 33002 ≤ rosterSize 2 (s.table.snapshotRoster 1 s.publicIp) := by
    have hle : _ ≤ rosterSize 2 _ := names_le_roster_size hlong
    rwa [show (s.table.snapshotRoster 1 s.publicIp).length = 2 from hlength] at hle
  have hbody : maxFrame <
      (RelayMsg.roster 2 (s.table.snapshotRoster 1 s.publicIp)).body.length := by
    rw [length_roster_body]
    exact Nat.lt_of_lt_of_le (by decide) hsize
  have hstep : s.step (.run 5 true) = some (s.runOp 5 (some 2) [] true (.roster 1 0 2)) := by
    have hthread : s.threads[5]? = some ⟨some 2, [.roster 1 0 2]⟩ := hthread
    simp [RelayServer.step, hthread, RelayOp.isFinish]
  obtain ⟨-, hpanicked⟩ := RelayServer.step_too_long hstep hthread rfl hbody
  have hregistrable : ∀ fp name hidden token observed,
      .connect fp name hidden token observed ∈ longNames ++ [.run 5 true] → Registrable name := by
    intro fp name hidden token observed hmem
    refine registrable_of_size ?_
    have hmem : .connect fp name hidden token observed ∈ longNames := by simpa using hmem
    rcases hconnects _ _ _ _ _ hmem with rfl | ⟨-, rfl⟩
    · rw [long_name_size]
      decide
    · decide
  refine hall _ _ _ hregistrable (hexec.step trivial hstep) (some 2) (List.mem_append_right _ ?_)
  rw [hpanicked]
  exact List.mem_cons_self

end LocalTrans.Relay
