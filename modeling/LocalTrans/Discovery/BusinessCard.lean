import LocalTrans.Discovery.NetAddrs
import LocalTrans.Relay.AddrSyntax

/-!
# Business cards

`business_card.rs`: a card as a text of lines that a person can read, and the parser of such texts.
`CardSource.assemble` is the card that the shell makes of its configuration. What the parser accepts
is `Valid` and is written as a text that it reads again (`business_card_round_trip`); the card of the
shell is that only if its configuration is `Presentable`.
-/

namespace LocalTrans.Discovery

open Foundation Relay

/-- `BusinessCard`. -/
structure BusinessCard where
  deviceName : String
  fingerprint : String
  addresses : List String
  publicExit : Option String
  relayAddr : Option String
deriving DecidableEq

/-- `ParseError`. -/
inductive ParseError where
  | empty
  | inputTooLong
  | missingField (field : String)
  | badName
  | badFingerprint
  | badAddress (raw : String)
  | badEndpoint (kind raw : String)
  | tooManyAddresses
deriving DecidableEq

/-- `MAX_INPUT_CHARS`. -/
def maxInputChars : Nat := 8192

/-- `MAX_ADDR_CHARS`. -/
def maxAddrChars : Nat := 64

/-- `MAX_ENDPOINT_CHARS`. -/
def maxEndpointChars : Nat := 128

/-- `MAX_NAME_CHARS`. -/
def maxNameChars : Nat := 64

/-- `MAX_ADDRESSES`. -/
def maxAddresses : Nat := 16

/-- The lines of a card. -/
def BusinessCard.lines (card : BusinessCard) : List String :=
  ["LocalTrans 名片", "名称: " ++ card.deviceName, "指纹: " ++ card.fingerprint] ++
    card.addresses.map (fun a => "地址: " ++ a) ++
    card.publicExit.toList.map (fun e => "公网: " ++ e) ++
    card.relayAddr.toList.map fun r => "中继: " ++ r

/-- `to_text`: each line with a line break, and no white space at the end. -/
def BusinessCard.toText (card : BusinessCard) : String :=
  String.ofList (((card.lines.map String.toList).flatMap (· ++ ['\n'])).rdropWhile isWhite)

/-- The colons that end a label. -/
def isColon (c : Char) : Bool := c = ':' || c = '：'

/-- `split_label`. -/
def splitLabel (line : List Char) : Option (String × String) :=
  match line.dropWhile fun c => !isColon c with
  | [] => none
  | _ :: value =>
    some (.ofList (trim isWhite (line.takeWhile fun c => !isColon c)),
      .ofList (trim isWhite value))

/-- `validate_address`. -/
def validateAddress (raw : String) : Except ParseError Unit :=
  if raw.toList.length ≤ maxAddrChars ∧ (SocketAddr.parse raw).any fun sa => sa.port ≠ 0 then .ok ()
  else .error (.badAddress raw)

/-- `validate_endpoint`. -/
def validateEndpoint (kind raw : String) : Except ParseError Unit :=
  if maxEndpointChars < raw.toList.length then .error (.badEndpoint kind raw)
  else if raw.toList.any fun c => isWhite c || isControlChar c then .error (.badEndpoint kind raw)
  else
    match splitLast ':' raw.toList with
    | none => .error (.badEndpoint kind raw)
    | some (host, port) =>
      if host = [] ∨ port = [] ∨ parseU16 port = none then .error (.badEndpoint kind raw)
      else .ok ()

/-- A digit of a fingerprint. -/
def isHexDigit (c : Char) : Bool := ('0' ≤ c && c ≤ '9') || ('a' ≤ c && c ≤ 'f')

/-- `validate_fingerprint`. -/
def validateFingerprint (raw : String) : Except ParseError String :=
  if raw.utf8ByteSize = 64 ∧ raw.toList.all isHexDigit then .ok raw else .error .badFingerprint

/-- `validate_name`. -/
def validateName (raw : String) : Except ParseError String :=
  if raw.toList.length ≤ maxNameChars ∧ !raw.toList.any isControlChar then .ok raw
  else .error .badName

/-- What `parse` has read so far. -/
structure CardDraft where
  name : Option String
  fingerprint : Option String
  addresses : List String
  publicExit : Option String
  relayAddr : Option String

/-- Nothing yet. -/
def CardDraft.blank : CardDraft :=
  { name := none, fingerprint := none, addresses := [], publicExit := none, relayAddr := none }

/-- The loop of `parse`, for one line. A fingerprint is put in lower case: of the letters that are
not ASCII none has a digit of a fingerprint as its lower case. -/
def readLine (draft : CardDraft) (line : List Char) : Except ParseError CardDraft :=
  match splitLabel (trim isWhite line) with
  | none => .ok draft
  | some (label, value) =>
    if label = "名称" ∨ label = "设备名" then .ok { draft with name := some value }
    else if label = "指纹" then
      .ok { draft with fingerprint := some (.ofList (value.toList.map Char.toLower)) }
    else if label = "地址" then
      if maxAddresses ≤ draft.addresses.length then .error .tooManyAddresses
      else do
        validateAddress value
        if value ∈ draft.addresses then .ok draft
        else .ok { draft with addresses := draft.addresses ++ [value] }
    else if label = "公网" then do
      validateEndpoint "公网出口" value
      .ok { draft with publicExit := some value }
    else if label = "中继" then do
      validateEndpoint "中继地址" value
      .ok { draft with relayAddr := some value }
    else .ok draft

/-- What `parse` does with what it has read. -/
def CardDraft.finish (draft : CardDraft) : Except ParseError BusinessCard := do
  let deviceName ← match draft.name with
    | some name => if name ≠ "" then validateName name else .error (.missingField "名称")
    | none => .error (.missingField "名称")
  let fingerprint ← match draft.fingerprint with
    | some fp => validateFingerprint fp
    | none => .error (.missingField "指纹")
  if draft.addresses = [] then .error (.missingField "地址")
  else .ok { deviceName, fingerprint, addresses := draft.addresses
             publicExit := draft.publicExit, relayAddr := draft.relayAddr }

/-- `BusinessCard::parse`; the carriage return that a line may end in is white space. -/
def parseCard (text : String) : Except ParseError BusinessCard :=
  let text := if text.toList.head? = some '\ufeff' then text.toList.tail else text.toList
  if maxInputChars < text.length then .error .inputTooLong
  else do
    let draft ← (text.splitOn '\n').foldlM readLine .blank
    if trim isWhite text = [] then .error .empty else draft.finish

/-- What `assemble_business_card` reads: the configuration, the fingerprint, the interfaces and the
address of the default route as they are listed, that address as it is asked for again, and where the
relay has a client, the address it observed. -/
structure CardSource where
  deviceName : String
  quicPort : UInt16
  relayEnabled : Bool
  relayServer : String
  fingerprint : Fingerprint
  interfaces : Option (List (String × IpAddr))
  route : Option IpAddr
  fallback : Option IpAddr
  observed : Option (Option String)

namespace CardSource

/-- The addresses of the card: those of the interfaces, or where there are none, that of the default
route. -/
def ips (source : CardSource) : List (UInt8 × UInt8 × UInt8 × UInt8) :=
  let ips := (localAddresses source.interfaces source.route).map LocalAddr.ip
  if ips = [] then (primaryLocalIp source.fallback).toList else ips

/-- `assemble_business_card`. -/
def assemble (source : CardSource) : BusinessCard :=
  let server := String.ofList (trim isWhite source.relayServer.toList)
  { deviceName := source.deviceName
    fingerprint := hexEncode source.fingerprint
    addresses := source.ips.map fun (a, b, c, d) =>
      SocketAddr.text { ip := .v4 a b c d, port := source.quicPort }
    publicExit := if source.relayEnabled then source.observed.join else none
    relayAddr := if source.relayEnabled ∧ server ≠ "" then some server else none }

end CardSource

/-- The form of a direct address: short, and an address with a port that is not 0. -/
def AddressForm (raw : String) : Prop :=
  raw.toList.length ≤ maxAddrChars ∧ ∃ sa, SocketAddr.parse raw = some sa ∧ sa.port ≠ 0

/-- The form of an endpoint: short, no white space or control characters, and a host and a port with
a colon between them. -/
def EndpointForm (raw : String) : Prop :=
  raw.toList.length ≤ maxEndpointChars ∧
    (∀ c ∈ raw.toList, isWhite c = false ∧ isControlChar c = false) ∧
    ∃ host port, raw.toList = host ++ ':' :: port ∧ host ≠ [] ∧ ':' ∉ port ∧
      (parseU16 port).isSome = true

/-- A text that can stand in a line behind a label. -/
def InLine (raw : String) : Prop := Trimmed isWhite raw.toList ∧ '\n' ∉ raw.toList

/-- The bounds and the forms of the fields. -/
structure BusinessCard.Valid (card : BusinessCard) : Prop where
  name_some : card.deviceName ≠ ""
  name_length : card.deviceName.toList.length ≤ maxNameChars
  name_plain : ∀ c ∈ card.deviceName.toList, isControlChar c = false
  name_trimmed : Trimmed isWhite card.deviceName.toList
  fingerprint_length : card.fingerprint.toList.length = 64
  fingerprint_digits : ∀ c ∈ card.fingerprint.toList, isHexDigit c = true
  addresses_some : card.addresses ≠ []
  addresses_few : card.addresses.length ≤ maxAddresses
  addresses_distinct : card.addresses.Nodup
  addresses_form : ∀ a ∈ card.addresses, AddressForm a ∧ InLine a
  exit_form : ∀ e ∈ card.publicExit, EndpointForm e
  relay_form : ∀ r ∈ card.relayAddr, EndpointForm r

section Fields

variable {raw kind : String}

theorem validate_address_iff : validateAddress raw = .ok () ↔ AddressForm raw := by
  have hany : ((SocketAddr.parse raw).any fun sa => sa.port ≠ 0) = true ↔
      ∃ sa, SocketAddr.parse raw = some sa ∧ sa.port ≠ 0 := by
    rw [Option.any_eq_true]
    simp
  unfold validateAddress AddressForm
  rw [← hany]
  split
  · next h => exact ⟨fun _ => h, fun _ => rfl⟩
  · next h => exact ⟨fun hok => (by cases hok), fun hform => absurd hform h⟩

theorem validate_endpoint_iff : validateEndpoint kind raw = .ok () ↔ EndpointForm raw := by
  unfold validateEndpoint
  split
  · next hlong =>
    refine ⟨fun hok => (by cases hok), fun hform => ?_⟩
    exact absurd hform.1 (Nat.not_le_of_lt hlong)
  · next hshort =>
    split
    · next hany =>
      refine ⟨fun hok => (by cases hok), fun hform => ?_⟩
      obtain ⟨c, hmem, hc⟩ := List.any_eq_true.mp hany
      obtain ⟨hwhite, hcontrol⟩ := hform.2.1 c hmem
      simp [hwhite, hcontrol] at hc
    · next hnone =>
      have hplain : ∀ c ∈ raw.toList, isWhite c = false ∧ isControlChar c = false := by
        simpa using hnone
      cases hsplit : splitLast ':' raw.toList with
      | none =>
        refine ⟨fun hok => (by cases hok), fun hform => ?_⟩
        obtain ⟨host, port, htext, -⟩ := hform.2.2
        exact absurd (htext ▸ by simp) (split_last_none.mp hsplit)
      | some parts =>
        obtain ⟨host, port⟩ := parts
        obtain ⟨htext, hport⟩ := split_last_iff.mp hsplit
        dsimp only
        split
        · next hbad =>
          refine ⟨fun hok => (by cases hok), fun hform => ?_⟩
          obtain ⟨host', port', htext', hhost, hport', hsome⟩ := hform.2.2
          have hsame := split_last_iff.mpr ⟨htext', hport'⟩
          rw [hsplit] at hsame
          obtain ⟨rfl, rfl⟩ := Prod.mk.inj (Option.some.inj hsame)
          rcases hbad with rfl | rfl | hnumber
          · exact absurd rfl hhost
          · cases hsome
          · rw [hnumber] at hsome
            cases hsome
        · next hgood =>
          refine ⟨fun _ => ⟨Nat.le_of_not_lt hshort, hplain, host, port, htext, ?_, hport, ?_⟩,
            fun _ => rfl⟩
          · exact fun h => hgood (.inl h)
          · exact Option.isSome_iff_ne_none.mpr fun h => hgood (.inr (.inr h))

/-- Digits of a fingerprint have one byte each. -/
theorem size_of_hex {text : List Char} (h : ∀ c ∈ text, isHexDigit c = true) :
    (String.ofList text).utf8ByteSize = text.length := by
  induction text with
  | nil => rfl
  | cons c rest ih =>
    have hrest := ih fun a hmem => h a (List.mem_cons_of_mem _ hmem)
    have hsize : c.utf8Size = 1 := by
      have hdigit := h c List.mem_cons_self
      simp only [isHexDigit, Bool.or_eq_true, Bool.and_eq_true, decide_eq_true_eq] at hdigit
      rw [Char.utf8Size_eq_one_iff]
      rcases hdigit with ⟨-, hle⟩ | ⟨-, hle⟩
      · exact Nat.le_trans hle (by decide)
      · exact Nat.le_trans hle (by decide)
    rw [String.ofList_cons, String.utf8ByteSize_append, String.utf8ByteSize_singleton, hsize, hrest,
      List.length_cons, Nat.add_comm]

theorem validate_fingerprint_ok {fp : String} : validateFingerprint raw = .ok fp ↔
    raw = fp ∧ fp.toList.length = 64 ∧ ∀ c ∈ fp.toList, isHexDigit c = true := by
  unfold validateFingerprint
  simp only [List.all_eq_true]
  split
  · next h =>
    obtain ⟨hsize, hdigits⟩ := h
    have hlength := size_of_hex hdigits
    rw [String.ofList_toList, hsize] at hlength
    constructor
    · rintro ⟨⟩
      exact ⟨rfl, hlength.symm, hdigits⟩
    · rintro ⟨rfl, -⟩
      rfl
  · next h =>
    refine ⟨fun hok => (by cases hok), ?_⟩
    rintro ⟨rfl, hlength, hdigits⟩
    have hsize := size_of_hex hdigits
    rw [String.ofList_toList, hlength] at hsize
    exact absurd ⟨hsize, hdigits⟩ h

theorem validate_name_ok {name : String} : validateName raw = .ok name ↔
    raw = name ∧ name.toList.length ≤ maxNameChars ∧
      ∀ c ∈ name.toList, isControlChar c = false := by
  unfold validateName
  split
  · next h =>
    obtain ⟨hshort, hplain⟩ := h
    have hplain : ∀ c ∈ raw.toList, isControlChar c = false := by simpa using hplain
    constructor
    · rintro ⟨⟩
      exact ⟨rfl, hshort, hplain⟩
    · rintro ⟨rfl, -⟩
      rfl
  · next h =>
    refine ⟨fun hok => (by cases hok), ?_⟩
    rintro ⟨rfl, hshort, hplain⟩
    exact absurd ⟨hshort, by simpa using hplain⟩ h

/-- An endpoint can stand in a line. -/
theorem EndpointForm.in_line (h : EndpointForm raw) : InLine raw ∧ raw ≠ "" := by
  obtain ⟨-, hplain, host, port, htext, -⟩ := h
  refine ⟨⟨⟨?_, ?_⟩, fun hmem => ?_⟩, ?_⟩
  · exact fun c hc => (hplain c (List.mem_of_mem_head? hc)).1
  · exact fun c hc => (hplain c (List.mem_of_mem_getLast? hc)).1
  · have hwhite := (hplain _ hmem).1
    revert hwhite
    decide
  · rintro rfl
    simp at htext

end Fields

/-- What holds of the fields that were read. -/
structure CardDraft.Sound (draft : CardDraft) : Prop where
  name : ∀ n ∈ draft.name, InLine n
  addresses_few : draft.addresses.length ≤ maxAddresses
  addresses_distinct : draft.addresses.Nodup
  addresses_form : ∀ a ∈ draft.addresses, AddressForm a ∧ InLine a
  exit_form : ∀ e ∈ draft.publicExit, EndpointForm e
  relay_form : ∀ r ∈ draft.relayAddr, EndpointForm r

section Accepted

variable {draft next : CardDraft} {line : List Char} {text label value : String}
  {card : BusinessCard}

/-- The value of a line can stand in a line. -/
theorem value_in_line (h : splitLabel line = some (label, value)) (hline : '\n' ∉ line) :
    InLine value := by
  unfold splitLabel at h
  split at h
  · cases h
  · next colon after hsplit =>
    obtain ⟨-, rfl⟩ := Prod.mk.inj (Option.some.inj h)
    unfold InLine
    rw [String.toList_ofList]
    refine ⟨trim_trimmed _ _, fun hmem => hline ?_⟩
    have hafter : '\n' ∈ line.dropWhile fun c => !isColon c := by
      rw [hsplit]
      exact List.mem_cons_of_mem _ (mem_of_mem_trim hmem)
    exact (List.dropWhile_suffix _).subset hafter

/-- An endpoint is written after it was found to have the form of one. -/
theorem endpoint_written {kind : String} {written : CardDraft}
    (h : (do validateEndpoint kind value; .ok written) = Except.ok next) :
    EndpointForm value ∧ written = next := by
  cases hvalid : validateEndpoint kind value with
  | error e =>
    rw [hvalid] at h
    cases h
  | ok _ =>
    rw [hvalid] at h
    exact ⟨validate_endpoint_iff.mp hvalid, Except.ok.inj h⟩

/-- A line that is read leaves sound fields. -/
theorem CardDraft.Sound.read_line (h : draft.Sound) (hline : '\n' ∉ line)
    (hread : readLine draft line = .ok next) : next.Sound := by
  have htrim : '\n' ∉ trim isWhite line := fun hmem => hline (mem_of_mem_trim hmem)
  unfold readLine at hread
  split at hread
  · obtain rfl := Except.ok.inj hread
    exact h
  · next label value hsplit =>
    have hvalue := value_in_line hsplit htrim
    split at hread
    · obtain rfl := Except.ok.inj hread
      exact { h with name := fun n hn => Option.some.inj hn ▸ hvalue }
    split at hread
    · obtain rfl := Except.ok.inj hread
      exact { h with }
    split at hread
    · split at hread
      · cases hread
      · next hfew =>
        cases hvalid : validateAddress value with
        | error e =>
          rw [hvalid] at hread
          cases hread
        | ok _ =>
          rw [hvalid] at hread
          have hform := validate_address_iff.mp hvalid
          change (if value ∈ draft.addresses then Except.ok draft else _) = _ at hread
          split at hread
          · obtain rfl := Except.ok.inj hread
            exact h
          · next hnew =>
            obtain rfl := Except.ok.inj hread
            refine { h with addresses_few := ?_, addresses_distinct := ?_, addresses_form := ?_ }
            · rw [List.length_append, List.length_singleton]
              omega
            · exact List.nodup_append.mpr ⟨h.addresses_distinct, List.nodup_singleton _,
                fun a ha b hb heq => hnew (List.mem_singleton.mp hb ▸ heq ▸ ha)⟩
            · intro a ha
              rcases List.mem_append.mp ha with hold | hlast
              · exact h.addresses_form a hold
              · obtain rfl := List.mem_singleton.mp hlast
                exact ⟨hform, hvalue⟩
    split at hread
    · obtain ⟨hform, rfl⟩ := endpoint_written hread
      exact { h with exit_form := fun e he => Option.some.inj he ▸ hform }
    split at hread
    · obtain ⟨hform, rfl⟩ := endpoint_written hread
      exact { h with relay_form := fun r hr => Option.some.inj hr ▸ hform }
    · obtain rfl := Except.ok.inj hread
      exact h

/-- The lines that are read leave sound fields. -/
theorem CardDraft.Sound.read_lines {lines : List (List Char)} (h : draft.Sound)
    (hlines : ∀ line ∈ lines, '\n' ∉ line) (hread : lines.foldlM readLine draft = .ok next) :
    next.Sound := by
  induction lines generalizing draft with
  | nil =>
    obtain rfl := Except.ok.inj hread
    exact h
  | cons first rest ih =>
    rw [List.foldlM_cons] at hread
    cases hfirst : readLine draft first with
    | error e =>
      rw [hfirst] at hread
      cases hread
    | ok between =>
      rw [hfirst] at hread
      exact ih (h.read_line (hlines first List.mem_cons_self) hfirst)
        (fun line hmem => hlines line (List.mem_cons_of_mem _ hmem)) hread

/-- When a card is made of what was read. -/
theorem finish_ok_iff : draft.finish = .ok card ↔
    draft.name = some card.deviceName ∧ card.deviceName ≠ "" ∧
    validateName card.deviceName = .ok card.deviceName ∧
    draft.fingerprint = some card.fingerprint ∧
    validateFingerprint card.fingerprint = .ok card.fingerprint ∧
    draft.addresses ≠ [] ∧ card.addresses = draft.addresses ∧
    card.publicExit = draft.publicExit ∧ card.relayAddr = draft.relayAddr := by
  constructor
  · intro h
    obtain ⟨name, fingerprint, addresses, publicExit, relayAddr⟩ := draft
    unfold CardDraft.finish at h
    dsimp only at h
    cases name with
    | none => cases h
    | some name =>
      dsimp only at h
      split at h
      · next hsome =>
        cases hname : validateName name with
        | error e =>
          rw [hname] at h
          cases h
        | ok deviceName =>
          obtain ⟨rfl, -⟩ := validate_name_ok.mp hname
          rw [hname] at h
          cases fingerprint with
          | none => cases h
          | some fp =>
            cases hfp : validateFingerprint fp with
            | error e =>
              change (do let fingerprint ← validateFingerprint fp; _) = _ at h
              rw [hfp] at h
              cases h
            | ok fingerprint =>
              obtain ⟨rfl, -⟩ := validate_fingerprint_ok.mp hfp
              change (do let fingerprint ← validateFingerprint fp; _) = _ at h
              rw [hfp] at h
              change (if addresses = [] then _ else _) = _ at h
              split at h
              · cases h
              · next hne =>
                obtain rfl := Except.ok.inj h
                exact ⟨rfl, hsome, hname, rfl, hfp, hne, rfl, rfl, rfl⟩
      · cases h
  · rintro ⟨hname, hsome, hvalid, hfp, hhex, hne, haddresses, hexit, hrelay⟩
    unfold CardDraft.finish
    rw [hname, hfp]
    dsimp only
    rw [if_pos hsome, hvalid, hhex]
    change (if draft.addresses = [] then _ else _) = _
    rw [if_neg hne, ← haddresses, ← hexit, ← hrelay]

/-- A card that is made of sound fields is valid. -/
theorem CardDraft.Sound.finish (h : draft.Sound) (hfinish : draft.finish = .ok card) :
    card.Valid := by
  obtain ⟨hname, hsome, hvalid, -, hhex, hne, haddresses, hexit, hrelay⟩ :=
    finish_ok_iff.mp hfinish
  obtain ⟨-, hlength, hplain⟩ := validate_name_ok.mp hvalid
  obtain ⟨-, hdigits, hall⟩ := validate_fingerprint_ok.mp hhex
  exact {
    name_some := hsome
    name_length := hlength
    name_plain := hplain
    name_trimmed := (h.name _ hname).1
    fingerprint_length := hdigits
    fingerprint_digits := hall
    addresses_some := haddresses ▸ hne
    addresses_few := haddresses ▸ h.addresses_few
    addresses_distinct := haddresses ▸ h.addresses_distinct
    addresses_form := haddresses ▸ h.addresses_form
    exit_form := hexit ▸ h.exit_form
    relay_form := hrelay ▸ h.relay_form }

theorem blank_sound : CardDraft.blank.Sound := by
  constructor <;> simp [CardDraft.blank]

/-- What the parser accepts is valid. -/
theorem parse_valid (h : parseCard text = .ok card) : card.Valid := by
  unfold parseCard at h
  dsimp only at h
  generalize (if text.toList.head? = some '\ufeff' then text.toList.tail else text.toList) = chars
    at h
  split at h
  · cases h
  · cases hread : (chars.splitOn '\n').foldlM readLine .blank with
    | error e =>
      rw [hread] at h
      cases h
    | ok draft =>
      rw [hread] at h
      change (if trim isWhite chars = [] then _ else _) = _ at h
      split at h
      · cases h
      · refine (blank_sound.read_lines (fun line hmem hbreak => ?_) hread).finish h
        exact (mem_split hmem hbreak).1 rfl

end Accepted

section RoundTrip

variable {draft : CardDraft} {label value : String} {card : BusinessCard}

/-- A label that ends where its line has the first colon. -/
structure IsLabel (label : String) : Prop where
  some : label.toList ≠ []
  trimmed : Trimmed isWhite label.toList
  plain : ∀ c ∈ label.toList, isColon c = false

/-- A field is split into its label and its value. -/
theorem split_field (hlabel : IsLabel label) (hvalue : Trimmed isWhite value.toList)
    (hsome : value.toList ≠ []) :
    splitLabel (trim isWhite (label ++ ": " ++ value).toList) = some (label, value) := by
  have htext : (label ++ ": " ++ value).toList = label.toList ++ ':' :: ' ' :: value.toList := by
    simp
  have htrimmed : Trimmed isWhite (label.toList ++ ':' :: ' ' :: value.toList) := by
    have hstart : ∀ c ∈ (label.toList ++ [':', ' ']).head?, isWhite c = false := by
      rw [List.head?_append_of_ne_nil _ hlabel.some]
      exact hlabel.trimmed.1
    simpa using Trimmed.append (by simp) hsome hstart hvalue
  have hcolon : isColon ':' = true := by decide
  have hfront : ∀ c ∈ label.toList, (!isColon c) = true := fun c hmem => by
    simp [hlabel.plain c hmem]
  have htake : (label.toList ++ ':' :: ' ' :: value.toList).takeWhile (fun c => !isColon c) =
      label.toList := by
    rw [List.takeWhile_append_of_pos hfront]
    simp [hcolon]
  have hdrop : (label.toList ++ ':' :: ' ' :: value.toList).dropWhile (fun c => !isColon c) =
      ':' :: ' ' :: value.toList := by
    rw [List.dropWhile_append_of_pos hfront]
    simp [hcolon]
  rw [htext, trim_of_trimmed htrimmed]
  unfold splitLabel
  rw [hdrop, htake]
  dsimp only
  rw [trim_of_trimmed hlabel.trimmed, trim_cons (by decide), trim_of_trimmed hvalue,
    String.ofList_toList, String.ofList_toList]

/-- The labels of a card. -/
theorem card_labels : IsLabel "名称" ∧ IsLabel "指纹" ∧ IsLabel "地址" ∧ IsLabel "公网" ∧
    IsLabel "中继" := by
  refine ⟨?_, ?_, ?_, ?_, ?_⟩ <;>
    exact ⟨by simp, ⟨by simp [isWhite], by simp [isWhite]⟩, by simp [isColon]⟩

/-- A name is read. -/
theorem read_name (hvalue : InLine value) (hsome : value.toList ≠ []) :
    readLine draft ("名称: " ++ value).toList = .ok { draft with name := some value } := by
  unfold readLine
  rw [show "名称: " = "名称" ++ ": " from rfl, split_field card_labels.1 hvalue.1 hsome]
  rfl

/-- A fingerprint is in lower case. -/
theorem lower_of_hex {text : List Char} (h : ∀ c ∈ text, isHexDigit c = true) :
    text.map Char.toLower = text := by
  refine (List.map_congr_left fun c hmem => ?_).trans (List.map_id text)
  have hdigit := h c hmem
  simp only [isHexDigit, Bool.or_eq_true, Bool.and_eq_true, decide_eq_true_eq] at hdigit
  unfold Char.toLower
  rw [dif_neg]
  · rfl
  · rintro ⟨hlow, hhigh⟩
    rcases hdigit with ⟨-, hle⟩ | ⟨hle, -⟩
    · exact absurd (Nat.le_trans hlow hle) (by decide)
    · exact absurd (Nat.le_trans hle hhigh) (by decide)

theorem read_fingerprint (hvalue : Trimmed isWhite value.toList) (hsome : value.toList ≠ [])
    (hhex : ∀ c ∈ value.toList, isHexDigit c = true) :
    readLine draft ("指纹: " ++ value).toList =
      .ok { draft with fingerprint := some value } := by
  unfold readLine
  rw [show "指纹: " = "指纹" ++ ": " from rfl, split_field card_labels.2.1 hvalue hsome]
  show Except.ok { draft with fingerprint := some (.ofList (value.toList.map Char.toLower)) } = _
  rw [lower_of_hex hhex, String.ofList_toList]

theorem read_address (hform : AddressForm value) (hvalue : InLine value)
    (hsome : value.toList ≠ []) (hfew : draft.addresses.length < maxAddresses)
    (hnew : value ∉ draft.addresses) :
    readLine draft ("地址: " ++ value).toList =
      .ok { draft with addresses := draft.addresses ++ [value] } := by
  unfold readLine
  rw [show "地址: " = "地址" ++ ": " from rfl, split_field card_labels.2.2.1 hvalue.1 hsome]
  show (if maxAddresses ≤ draft.addresses.length then _ else _) = _
  rw [if_neg (Nat.not_le_of_lt hfew), validate_address_iff.mpr hform]
  show (if value ∈ draft.addresses then _ else _) = _
  rw [if_neg hnew]

theorem read_exit (hform : EndpointForm value) :
    readLine draft ("公网: " ++ value).toList = .ok { draft with publicExit := some value } := by
  obtain ⟨hvalue, hsome⟩ := hform.in_line
  unfold readLine
  rw [show "公网: " = "公网" ++ ": " from rfl,
    split_field card_labels.2.2.2.1 hvalue.1 (by simpa using hsome)]
  show (do validateEndpoint "公网出口" value; _) = _
  rw [validate_endpoint_iff.mpr hform]
  rfl

theorem read_relay (hform : EndpointForm value) :
    readLine draft ("中继: " ++ value).toList = .ok { draft with relayAddr := some value } := by
  obtain ⟨hvalue, hsome⟩ := hform.in_line
  unfold readLine
  rw [show "中继: " = "中继" ++ ": " from rfl,
    split_field card_labels.2.2.2.2 hvalue.1 (by simpa using hsome)]
  show (do validateEndpoint "中继地址" value; _) = _
  rw [validate_endpoint_iff.mpr hform]
  rfl

/-- An address is not empty. -/
theorem AddressForm.some (h : AddressForm value) : value.toList ≠ [] := by
  obtain ⟨-, sa, hparse, -⟩ := h
  intro hnil
  unfold SocketAddr.parse at hparse
  rw [hnil] at hparse
  cases hparse

/-- The addresses are read in turn. -/
theorem read_addresses {addresses : List String}
    (hfew : (draft.addresses ++ addresses).length ≤ maxAddresses)
    (hdistinct : (draft.addresses ++ addresses).Nodup)
    (hform : ∀ a ∈ addresses, AddressForm a ∧ InLine a) :
    (addresses.map fun a => ("地址: " ++ a).toList).foldlM readLine draft =
      .ok { draft with addresses := draft.addresses ++ addresses } := by
  induction addresses generalizing draft with
  | nil => simp [pure, Except.pure]
  | cons first rest ih =>
    obtain ⟨hfirst, hline⟩ := hform first List.mem_cons_self
    have hroom : draft.addresses.length < maxAddresses := by
      rw [List.length_append, List.length_cons] at hfew
      omega
    have hnew : first ∉ draft.addresses := fun hmem =>
      (List.nodup_append.mp hdistinct).2.2 first hmem first List.mem_cons_self rfl
    rw [List.map_cons, List.foldlM_cons, read_address hfirst hline hfirst.some hroom hnew]
    show (rest.map _).foldlM readLine _ = _
    rw [ih (by simpa using hfew) (by simpa using hdistinct)
      fun a hmem => hform a (List.mem_cons_of_mem _ hmem)]
    simp

/-- A line that a card may have is read, or none is. -/
theorem read_optional {field : Option String} (write : CardDraft → Option String → CardDraft)
    (hnone : write draft none = draft)
    (hsome : ∀ value ∈ field, readLine draft (label ++ value).toList =
      .ok (write draft (some value))) :
    (field.toList.map fun value => (label ++ value).toList).foldlM readLine draft =
      .ok (write draft field) := by
  cases field with
  | none =>
    rw [hnone]
    rfl
  | some value => simpa using hsome value rfl

/-- The name and the fingerprint of a valid card can stand in a line. -/
theorem BusinessCard.Valid.in_line (h : card.Valid) :
    InLine card.deviceName ∧ InLine card.fingerprint ∧ card.deviceName.toList ≠ [] ∧
      card.fingerprint.toList ≠ [] := by
  have hhex : ∀ c ∈ card.fingerprint.toList, isWhite c = false ∧ c ≠ '\n' := by
    intro c hmem
    have hdigit := h.fingerprint_digits c hmem
    refine ⟨?_, ?_⟩
    · simp only [isHexDigit, Bool.or_eq_true, Bool.and_eq_true, decide_eq_true_eq] at hdigit
      have hrange : 0x30 ≤ c.toNat ∧ c.toNat ≤ 0x66 := by
        rcases hdigit with ⟨hlow, hhigh⟩ | ⟨hlow, hhigh⟩
        · exact ⟨hlow, Nat.le_trans hhigh (by decide)⟩
        · exact ⟨Nat.le_trans (by decide) hlow, hhigh⟩
      simp only [isWhite, Bool.or_eq_false_iff, Bool.and_eq_false_iff, decide_eq_false_iff_not]
      omega
    · rintro rfl
      revert hdigit
      decide
  refine ⟨⟨h.name_trimmed, fun hmem => ?_⟩, ⟨⟨?_, ?_⟩, fun hmem => (hhex _ hmem).2 rfl⟩, ?_, ?_⟩
  · have hplain := h.name_plain _ hmem
    revert hplain
    decide
  · exact fun c hc => (hhex c (List.mem_of_mem_head? hc)).1
  · exact fun c hc => (hhex c (List.mem_of_mem_getLast? hc)).1
  · simpa using h.name_some
  · intro hnil
    have hlength := h.fingerprint_length
    rw [hnil] at hlength
    cases hlength

/-- The lines of a valid card are read as the fields of the card. -/
theorem read_card (h : card.Valid) :
    (card.lines.map String.toList).foldlM readLine .blank = .ok {
      name := some card.deviceName, fingerprint := some card.fingerprint
      addresses := card.addresses, publicExit := card.publicExit, relayAddr := card.relayAddr } := by
  obtain ⟨hname, hfingerprint, hsome, hfp⟩ := h.in_line
  have hheader : readLine .blank "LocalTrans 名片".toList = .ok .blank := rfl
  have haddresses := @read_addresses
    { CardDraft.blank with
      name := some card.deviceName, fingerprint := some card.fingerprint } card.addresses
    h.addresses_few h.addresses_distinct h.addresses_form
  have hstart : (["LocalTrans 名片", "名称: " ++ card.deviceName, "指纹: " ++ card.fingerprint].map
      String.toList).foldlM readLine .blank = .ok { CardDraft.blank with
        name := some card.deviceName, fingerprint := some card.fingerprint } := by
    rw [List.map_cons, List.map_cons, List.map_singleton, List.foldlM_cons, hheader]
    show (do let draft ← readLine .blank ("名称: " ++ card.deviceName).toList; _) = _
    rw [read_name hname hsome]
    show (do let draft ← readLine _ ("指纹: " ++ card.fingerprint).toList; _) = _
    rw [read_fingerprint hfingerprint.1 hfp h.fingerprint_digits]
    rfl
  unfold BusinessCard.lines
  rw [List.map_append, List.map_append, List.map_append, List.foldlM_append, List.foldlM_append,
    List.foldlM_append, hstart, List.map_map, List.map_map, List.map_map]
  show (do
    let draft ← (do
      let draft ← (card.addresses.map fun a => ("地址: " ++ a).toList).foldlM readLine _
      (card.publicExit.toList.map fun e => ("公网: " ++ e).toList).foldlM readLine draft)
    (card.relayAddr.toList.map fun r => ("中继: " ++ r).toList).foldlM readLine draft) = _
  rw [haddresses]
  show (do
    let draft ← (card.publicExit.toList.map fun e => ("公网: " ++ e).toList).foldlM readLine _
    (card.relayAddr.toList.map fun r => ("中继: " ++ r).toList).foldlM readLine draft) = _
  rw [read_optional (fun draft publicExit => { draft with publicExit }) rfl
    fun e he => read_exit (h.exit_form e he)]
  exact read_optional (fun draft relayAddr => { draft with relayAddr }) rfl
    fun r hr => read_relay (h.relay_form r hr)

/-- A line of a valid card has an end that is no white space, and no line break. -/
theorem line_of_valid (h : card.Valid) {line : String} (hmem : line ∈ card.lines) :
    line.toList ≠ [] ∧ '\n' ∉ line.toList ∧
      ∀ c ∈ line.toList.getLast?, isWhite c = false := by
  obtain ⟨hname, hfingerprint, hsome, hfp⟩ := h.in_line
  have hfield : ∀ label value : String, '\n' ∉ label.toList → InLine value → value.toList ≠ [] →
      (label ++ value).toList ≠ [] ∧ '\n' ∉ (label ++ value).toList ∧
        ∀ c ∈ (label ++ value).toList.getLast?, isWhite c = false := by
    intro label value hlabel hvalue hne
    rw [String.toList_append]
    refine ⟨by simp [hne], by simp [hlabel, hvalue.2], ?_⟩
    rw [List.getLast?_append_of_ne_nil _ hne]
    exact hvalue.1.2
  unfold BusinessCard.lines at hmem
  simp only [List.mem_append, List.mem_cons, List.not_mem_nil, or_false, List.mem_map,
    Option.mem_toList] at hmem
  rcases hmem with (((rfl | rfl | rfl) | ⟨a, ha, rfl⟩) | ⟨e, he, rfl⟩) | ⟨r, hr, rfl⟩
  · exact ⟨by simp, by simp, by simp [isWhite]⟩
  · exact hfield _ _ (by simp) hname hsome
  · exact hfield _ _ (by simp) hfingerprint hfp
  · obtain ⟨hform, hline⟩ := h.addresses_form a ha
    exact hfield _ _ (by simp) hline hform.some
  · obtain ⟨hline, hne⟩ := (h.exit_form e he).in_line
    exact hfield _ _ (by simp) hline (by simpa using hne)
  · obtain ⟨hline, hne⟩ := (h.relay_form r hr).in_line
    exact hfield _ _ (by simp) hline (by simpa using hne)

/-- The lines of a valid card fit in the input of the parser. -/
theorem lines_short (h : card.Valid) :
    ((card.lines.map String.toList).flatMap (· ++ ['\n'])).length ≤ maxInputChars := by
  have haddresses : ∀ addresses : List String, (∀ a ∈ addresses, a.toList.length ≤ maxAddrChars) →
      ((addresses.map fun a => ("地址: " ++ a).toList).flatMap (· ++ ['\n'])).length ≤
        69 * addresses.length := by
    intro addresses hshort
    induction addresses with
    | nil => simp
    | cons first rest ih =>
      have hfirst : first.toList.length ≤ 64 := hshort first List.mem_cons_self
      have hrest := ih fun a hmem => hshort a (List.mem_cons_of_mem _ hmem)
      simp only [List.map_cons, List.flatMap_cons, List.length_append, String.toList_append,
        List.length_cons, List.length_nil] at hrest ⊢
      have hlabel : "地址: ".toList.length = 4 := by simp
      omega
  have hendpoint : ∀ (label : String) (endpoint : Option String), label.toList.length = 4 →
      (∀ e ∈ endpoint, EndpointForm e) →
      ((endpoint.toList.map fun e => (label ++ e).toList).flatMap (· ++ ['\n'])).length ≤ 133 := by
    intro label endpoint hlabel hform
    cases endpoint with
    | none => simp
    | some e =>
      have hshort : e.toList.length ≤ 128 := (hform e rfl).1
      simp only [Option.toList_some, List.map_singleton, List.flatMap_singleton,
        List.length_append, String.toList_append, List.length_cons, List.length_nil]
      omega
  have hheader : "LocalTrans 名片".toList.length = 13 := by simp
  have hname : "名称: ".toList.length = 4 ∧ "指纹: ".toList.length = 4 := by simp
  have hnameLength : card.deviceName.toList.length ≤ 64 := h.name_length
  have hfew : card.addresses.length ≤ 16 := h.addresses_few
  have hall := haddresses card.addresses fun a hmem => (h.addresses_form a hmem).1.1
  have hexit := hendpoint "公网: " card.publicExit (by simp) h.exit_form
  have hrelay := hendpoint "中继: " card.relayAddr (by simp) h.relay_form
  unfold BusinessCard.lines maxInputChars
  simp only [List.map_append, List.map_cons, List.map_nil, List.map_map, List.flatMap_append,
    List.flatMap_cons, List.flatMap_nil, List.length_append, String.toList_append,
    List.length_cons, List.length_nil, Function.comp_def, h.fingerprint_length] at hall hexit hrelay ⊢
  omega

/-- The text of a valid card has its lines with line breaks between them. -/
theorem to_text_joined (h : card.Valid) : ∃ ls last,
    card.lines.map String.toList = ls ++ [last] ∧
    card.toText.toList = ls.flatMap (· ++ ['\n']) ++ last ∧ last ≠ [] ∧
    ∀ c ∈ last.getLast?, isWhite c = false := by
  have hne : card.lines.map String.toList ≠ [] := by simp [BusinessCard.lines]
  obtain ⟨ls, last, hlines⟩ : ∃ ls last, card.lines.map String.toList = ls ++ [last] :=
    ⟨_, _, (List.dropLast_append_getLast hne).symm⟩
  have hmem : last ∈ card.lines.map String.toList := by simp [hlines]
  obtain ⟨text, htext, rfl⟩ := List.mem_map.mp hmem
  obtain ⟨hsome, -, hend⟩ := line_of_valid h htext
  refine ⟨ls, text.toList, hlines, ?_, hsome, hend⟩
  rw [← joined_lines (by decide) hsome hend, ← hlines]
  exact String.toList_ofList

/-- The text of a valid card begins with the title. -/
theorem head_to_text (h : card.Valid) : card.toText.toList.head? = some 'L' := by
  obtain ⟨ls, last, hlines, htext, -⟩ := to_text_joined h
  have htitle : (ls ++ [last]).head? = some "LocalTrans 名片".toList := by
    rw [← hlines]
    rfl
  have hmany : 1 < (ls ++ [last]).length := by
    rw [← hlines, List.length_map, BusinessCard.lines]
    simp only [List.length_append, List.length_cons, List.length_nil]
    omega
  rw [htext]
  cases ls with
  | nil => simp at hmany
  | cons first rest =>
    obtain rfl : first = "LocalTrans 名片".toList := Option.some.inj htitle
    rw [List.flatMap_cons, List.append_assoc, List.append_assoc]
    rfl

/-- A text that is not too long is parsed by its lines. -/
theorem parse_of_lines {text : String} {draft : CardDraft}
    (hmark : text.toList.head? ≠ some '\ufeff') (hshort : text.toList.length ≤ maxInputChars)
    (hread : (text.toList.splitOn '\n').foldlM readLine .blank = .ok draft)
    (htrim : trim isWhite text.toList ≠ []) (hfinish : draft.finish = .ok card) :
    parseCard text = .ok card := by
  unfold parseCard
  rw [if_neg hmark]
  dsimp only
  rw [if_neg (Nat.not_lt_of_le hshort), hread]
  exact (if_neg htrim).trans hfinish

/-- A valid card is read from its text. -/
theorem parse_to_text (h : card.Valid) : parseCard card.toText = .ok card := by
  obtain ⟨ls, last, hlines, htext, hsome, hend⟩ := to_text_joined h
  have hhead := head_to_text h
  have hplain : ∀ line ∈ ls ++ [last], '\n' ∉ line := by
    intro line hmem
    rw [← hlines] at hmem
    obtain ⟨text, hin, rfl⟩ := List.mem_map.mp hmem
    exact (line_of_valid h hin).2.1
  have hsplit : card.toText.toList.splitOn '\n' = card.lines.map String.toList := by
    rw [htext, hlines]
    exact split_lines (fun line hmem => hplain line (List.mem_append_left _ hmem))
      (hplain last (by simp))
  have hshort : card.toText.toList.length ≤ maxInputChars := by
    refine Nat.le_trans ?_ (lines_short h)
    unfold BusinessCard.toText
    rw [String.toList_ofList]
    exact (List.rdropWhile_prefix _ _).length_le
  have htrim : trim isWhite card.toText.toList ≠ [] := by
    rw [trim_of_trimmed]
    · intro hnil
      rw [hnil] at hhead
      cases hhead
    · constructor
      · rw [hhead]
        rintro c ⟨⟩
        decide
      · rw [htext, List.getLast?_append_of_ne_nil _ hsome]
        exact hend
  have hmark : card.toText.toList.head? ≠ some '\ufeff' := by
    rw [hhead]
    decide
  have hfinish : CardDraft.finish {
      name := some card.deviceName, fingerprint := some card.fingerprint
      addresses := card.addresses, publicExit := card.publicExit
      relayAddr := card.relayAddr } = .ok card :=
    finish_ok_iff.mpr ⟨rfl, h.name_some,
      validate_name_ok.mpr ⟨rfl, h.name_length, h.name_plain⟩, rfl,
      validate_fingerprint_ok.mpr ⟨rfl, h.fingerprint_length, h.fingerprint_digits⟩,
      h.addresses_some, rfl, rfl, rfl⟩
  exact parse_of_lines hmark hshort (hsplit ▸ read_card h) htrim hfinish

end RoundTrip

section Shell

variable {source : CardSource}

/-- A configuration whose card can be read: the name has no white space at its ends, is not empty,
not long and plain, the port is not 0, there are one to sixteen addresses, and what is said of a relay
is an endpoint. -/
structure CardSource.Presentable (source : CardSource) : Prop where
  name_some : source.deviceName ≠ ""
  name_length : source.deviceName.toList.length ≤ maxNameChars
  name_plain : ∀ c ∈ source.deviceName.toList, isControlChar c = false
  name_trimmed : Trimmed isWhite source.deviceName.toList
  port : source.quicPort ≠ 0
  ips_some : source.ips ≠ []
  ips_few : source.ips.length ≤ maxAddresses
  exit : source.relayEnabled = true → ∀ e ∈ source.observed.join, EndpointForm e
  relay : source.relayEnabled = true → trim isWhite source.relayServer.toList ≠ [] →
    EndpointForm (.ofList (trim isWhite source.relayServer.toList))

/-- No address is on the card twice. -/
theorem ips_distinct (source : CardSource) : source.ips.Nodup := by
  unfold CardSource.ips
  dsimp only
  split
  · cases primaryLocalIp source.fallback <;> simp
  · exact local_addresses_distinct _ _

/-- A displayed IPv4 address has the form of an address exactly if its port is not 0. -/
theorem address_form_iff (a b c d : UInt8) (port : UInt16) :
    AddressForm (SocketAddr.text { ip := .v4 a b c d, port }) ↔ port ≠ 0 := by
  unfold AddressForm
  rw [parse_text_v4]
  constructor
  · rintro ⟨-, sa, ⟨⟩, hport⟩
    exact hport
  · intro hport
    exact ⟨Nat.le_trans (text_v4_length a b c d port) (by decide), _, rfl, hport⟩

theorem address_in_line (a b c d : UInt8) (port : UInt16) :
    InLine (SocketAddr.text { ip := .v4 a b c d, port }) := by
  have hplain : ∀ char ∈ (SocketAddr.text { ip := .v4 a b c d, port }).toList,
      isWhite char = false := by
    intro char hmem
    rcases text_v4_chars hmem with hdigit | rfl | rfl
    · obtain ⟨hlow, hhigh⟩ : '0'.toNat ≤ char.toNat ∧ char.toNat ≤ '9'.toNat := by
        simpa [Char.isDigit, UInt32.le_iff_toNat_le] using hdigit
      have hrange : 0x30 ≤ char.toNat ∧ char.toNat ≤ 0x39 := ⟨hlow, hhigh⟩
      simp only [isWhite, Bool.or_eq_false_iff, Bool.and_eq_false_iff, decide_eq_false_iff_not]
      omega
    · decide
    · decide
  refine ⟨⟨fun char hc => hplain char (List.mem_of_mem_head? hc),
    fun char hc => hplain char (List.mem_of_mem_getLast? hc)⟩, fun hmem => ?_⟩
  have hwhite := hplain _ hmem
  revert hwhite
  decide

/-- The digits of a fingerprint. -/
theorem fingerprint_digits (fp : Fingerprint) :
    (hexEncode fp).toList.length = 64 ∧ ∀ c ∈ (hexEncode fp).toList, isHexDigit c = true := by
  have hdigit : ∀ n < 16, isHexDigit (Nat.digitChar n) = true := by decide
  unfold hexEncode
  rw [String.toList_ofList]
  refine ⟨by simp, fun c hmem => ?_⟩
  obtain ⟨i, -, rfl⟩ := List.mem_map.mp hmem
  exact hdigit _ (Nat.mod_lt _ (by decide))

/-- The card of the shell is valid exactly if its configuration is presentable. -/
theorem assemble_valid_iff : source.assemble.Valid ↔ source.Presentable := by
  have hserver : String.ofList (trim isWhite source.relayServer.toList) ≠ "" ↔
      trim isWhite source.relayServer.toList ≠ [] := by
    simp
  have hrelay : source.assemble.relayAddr =
      if source.relayEnabled ∧ String.ofList (trim isWhite source.relayServer.toList) ≠ "" then
        some (.ofList (trim isWhite source.relayServer.toList)) else none := rfl
  have hexit : source.assemble.publicExit =
      if source.relayEnabled then source.observed.join else none := rfl
  have haddresses : source.assemble.addresses = source.ips.map fun (a, b, c, d) =>
      SocketAddr.text { ip := .v4 a b c d, port := source.quicPort } := rfl
  constructor
  · intro h
    have hsome : source.ips ≠ [] := by
      have hne := h.addresses_some
      rw [haddresses] at hne
      simpa using hne
    refine {
      name_some := h.name_some, name_length := h.name_length, name_plain := h.name_plain
      name_trimmed := h.name_trimmed, port := ?_, ips_some := hsome, ips_few := ?_
      exit := ?_, relay := ?_ }
    · obtain ⟨⟨a, b, c, d⟩, hmem⟩ := List.exists_mem_of_ne_nil _ hsome
      exact (address_form_iff a b c d _).mp (h.addresses_form _ (List.mem_map_of_mem hmem)).1
    · have hfew := h.addresses_few
      rwa [haddresses, List.length_map] at hfew
    · intro henabled e he
      refine h.exit_form e ?_
      rwa [hexit, if_pos henabled]
    · intro henabled hne
      refine h.relay_form _ ?_
      rw [hrelay, if_pos ⟨henabled, hserver.mpr hne⟩]
      rfl
  · intro h
    obtain ⟨hlength, hdigits⟩ := fingerprint_digits source.fingerprint
    refine {
      name_some := h.name_some, name_length := h.name_length, name_plain := h.name_plain
      name_trimmed := h.name_trimmed, fingerprint_length := hlength
      fingerprint_digits := hdigits, addresses_some := ?_, addresses_few := ?_
      addresses_distinct := ?_, addresses_form := ?_, exit_form := ?_, relay_form := ?_ }
    · rw [haddresses]
      simpa using h.ips_some
    · rw [haddresses, List.length_map]
      exact h.ips_few
    · rw [haddresses]
      refine (ips_distinct source).map ?_
      rintro ⟨a, b, c, d⟩ ⟨a', b', c', d'⟩ htext
      have hsame := congrArg SocketAddr.parse htext
      dsimp only at hsame
      rw [parse_text_v4, parse_text_v4] at hsame
      simpa using hsame
    · intro text hmem
      rw [haddresses] at hmem
      obtain ⟨⟨a, b, c, d⟩, -, rfl⟩ := List.mem_map.mp hmem
      exact ⟨(address_form_iff a b c d _).mpr h.port, address_in_line a b c d _⟩
    · intro e he
      rw [hexit] at he
      split at he
      · next henabled => exact h.exit henabled e he
      · cases he
    · intro r hr
      rw [hrelay] at hr
      split at hr
      · next henabled =>
        obtain rfl := Option.some.inj hr
        exact h.relay henabled.1 (hserver.mp henabled.2)
      · cases hr

end Shell

/-- What the parser accepts is valid and is read again from its text; the card of the shell is read
from its text exactly if its configuration is presentable. -/
theorem business_card_round_trip (text : String) (source : CardSource) :
    (∀ card, parseCard text = .ok card → parseCard card.toText = .ok card ∧ card.Valid) ∧
    (parseCard source.assemble.toText = .ok source.assemble ↔ source.Presentable) := by
  refine ⟨fun card h => ⟨parse_to_text (parse_valid h), parse_valid h⟩, ?_⟩
  rw [← assemble_valid_iff]
  exact ⟨parse_valid, parse_to_text⟩

/-- A device with one address and no relay. -/
def namedSource (deviceName : String) : CardSource where
  deviceName := deviceName
  quicPort := 47601
  relayEnabled := false
  relayServer := ""
  fingerprint := 7
  interfaces := some [("eth0", .v4 192 168 1 10)]
  route := none
  fallback := none
  observed := none

theorem business_card_round_trip_sample :
    parseCard (namedSource "huss_pc").assemble.toText = .ok (namedSource "huss_pc").assemble := by
  refine (business_card_round_trip "" _).2.mpr {
    name_some := by simp [namedSource], name_length := by simp [namedSource, maxNameChars]
    name_plain := by simp [namedSource, isControlChar]
    name_trimmed := ⟨by simp [namedSource, isWhite], by simp [namedSource, isWhite]⟩
    port := by decide, ips_some := by decide +kernel, ips_few := by decide +kernel
    exit := ?_, relay := ?_ }
  · intro henabled
    cases henabled
  · intro henabled
    cases henabled

/-- The card of a device whose name has a line break is not read again. -/
theorem business_card_misread :
    ¬ ∀ source : CardSource, parseCard source.assemble.toText = .ok source.assemble := by
  intro hclaim
  have hplain := (parse_valid (hclaim (namedSource "pc\nLAN"))).name_plain '\n'
    (by simp [namedSource, CardSource.assemble])
  revert hplain
  decide

end LocalTrans.Discovery
