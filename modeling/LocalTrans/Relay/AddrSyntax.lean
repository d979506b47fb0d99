import LocalTrans.Relay.Messages
import Mathlib.Tactic.IntervalCases

/-!
# Reading socket addresses

`str::parse` for a `SocketAddr`: readers that take what they understand from the front of a text and
leave the rest. The scope of an IPv6 address is read and not kept. `parse_text_v4` says that an IPv4
address is read as it is displayed.
-/

namespace LocalTrans.Relay

/-- `char::to_digit`. -/
def toDigit (radix : Nat) (c : Char) : Option Nat :=
  let value :=
    if '0' ≤ c ∧ c ≤ '9' then c.toNat - '0'.toNat
    else if 'a' ≤ c ∧ c ≤ 'z' then c.toNat - 'a'.toNat + 10
    else if 'A' ≤ c ∧ c ≤ 'Z' then c.toNat - 'A'.toNat + 10
    else radix
  if value < radix then some value else none

/-- The digits at the front of a text. -/
def readDigits (radix : Nat) : List Char → List Nat × List Char
  | [] => ([], [])
  | c :: rest =>
    match toDigit radix c with
    | some digit =>
      let (digits, left) := readDigits radix rest
      (digit :: digits, left)
    | none => ([], c :: rest)

/-- `read_number`, for a type with so many values. -/
def readNumber (radix : Nat) (maxDigits : Option Nat) (allowZeroPrefix : Bool) (bound : Nat)
    (text : List Char) : Option (Nat × List Char) :=
  let (digits, rest) := readDigits radix text
  let value := digits.foldl (fun value digit => radix * value + digit) 0
  if digits = [] then none
  else if maxDigits.any fun most => most < digits.length then none
  else if allowZeroPrefix = false ∧ digits.head? = some 0 ∧ 1 < digits.length then none
  else if value < bound then some (value, rest)
  else none

/-- `read_given_char`. -/
def readGiven (c : Char) : List Char → Option (List Char)
  | first :: rest => if first = c then some rest else none
  | [] => none

/-- The separator that `read_separator` reads before all parts but the first. -/
def readSeparator (separator : Char) (index : Nat) (text : List Char) : Option (List Char) :=
  if index = 0 then some text else readGiven separator text

/-- `read_ipv4_addr`. -/
def readIpv4 (text : List Char) : Option ((UInt8 × UInt8 × UInt8 × UInt8) × List Char) := do
  let (a, text) ← readNumber 10 (some 3) false 256 text
  let text ← readGiven '.' text
  let (b, text) ← readNumber 10 (some 3) false 256 text
  let text ← readGiven '.' text
  let (c, text) ← readNumber 10 (some 3) false 256 text
  let text ← readGiven '.' text
  let (d, text) ← readNumber 10 (some 3) false 256 text
  some ((.ofNat a, .ofNat b, .ofNat c, .ofNat d), text)

/-- `read_groups`, for so many groups from an index on: the groups, whether the last two are an IPv4
address, and the rest of the text. -/
def readGroups (index : Nat) : Nat → List Char → List UInt16 × Bool × List Char
  | 0, text => ([], false, text)
  | left + 1, text =>
    match if left = 0 then none else (readSeparator ':' index text).bind readIpv4 with
    | some ((a, b, c, d), rest) =>
      ([.ofNat (256 * a.toNat + b.toNat), .ofNat (256 * c.toNat + d.toNat)], true, rest)
    | none =>
      match (readSeparator ':' index text).bind (readNumber 16 (some 4) true (2 ^ 16)) with
      | some (group, rest) =>
        let (groups, embedded, rest) := readGroups (index + 1) left rest
        (.ofNat group :: groups, embedded, rest)
      | none => ([], false, text)

/-- Eight groups, as an address. -/
def ofGroups (groups : List UInt16) : Vector UInt16 8 := Vector.ofFn fun i => groups.getD i 0

/-- `read_ipv6_addr`. -/
def readIpv6 (text : List Char) : Option (Vector UInt16 8 × List Char) :=
  let (head, embedded, text) := readGroups 0 8 text
  if head.length = 8 then some (ofGroups head, text)
  else if embedded then none
  else do
    let text ← readGiven ':' text
    let text ← readGiven ':' text
    let (tail, _, text) := readGroups 0 (7 - head.length) text
    some (ofGroups (head ++ List.replicate (8 - head.length - tail.length) 0 ++ tail), text)

/-- `read_port`. -/
def readPort (text : List Char) : Option (UInt16 × List Char) := do
  let text ← readGiven ':' text
  let (port, text) ← readNumber 10 none true (2 ^ 16) text
  some (.ofNat port, text)

/-- What `read_scope_id` leaves, whether it finds a scope or not. -/
def skipScope (text : List Char) : List Char :=
  (((readGiven '%' text).bind (readNumber 10 none true (2 ^ 32))).map Prod.snd).getD text

/-- `read_socket_addr_v4`. -/
def readSocketAddrV4 (text : List Char) : Option (SocketAddr × List Char) := do
  let ((a, b, c, d), text) ← readIpv4 text
  let (port, text) ← readPort text
  some ({ ip := .v4 a b c d, port }, text)

/-- `read_socket_addr_v6`. -/
def readSocketAddrV6 (text : List Char) : Option (SocketAddr × List Char) := do
  let text ← readGiven '[' text
  let (segments, text) ← readIpv6 text
  let text ← readGiven ']' (skipScope text)
  let (port, text) ← readPort text
  some ({ ip := .v6 segments, port }, text)

/-- `SocketAddr::from_str`. -/
def SocketAddr.parse (text : String) : Option SocketAddr :=
  match (readSocketAddrV4 text.toList).or (readSocketAddrV6 text.toList) with
  | some (addr, []) => some addr
  | _ => none

/-- `u16::from_str`: digits, after a plus sign if there is one. -/
def parseU16 (text : List Char) : Option Nat :=
  match readNumber 10 none true (2 ^ 16) (if text.head? = some '+' then text.tail else text) with
  | some (value, []) => some value
  | _ => none

section Display

variable {rest : List Char} {n bound : Nat}

/-- A text that does not begin with a decimal digit. -/
def NoDigit (text : List Char) : Prop := ∀ c ∈ text.head?, toDigit 10 c = none

theorem to_digit_of_isDigit {c : Char} (h : c.isDigit = true) :
    toDigit 10 c = some (c.toNat - '0'.toNat) := by
  obtain ⟨hlow, hhigh⟩ : '0' ≤ c ∧ c ≤ '9' := by
    simpa [Char.isDigit, Char.le_def] using h
  have hsmall : c.toNat - '0'.toNat < 10 := by
    have hle : c.toNat ≤ '9'.toNat := hhigh
    have hnine : '9'.toNat = '0'.toNat + 9 := rfl
    omega
  unfold toDigit
  simp only [hlow, hhigh, and_self, if_true, if_pos hsmall]

theorem read_digits_append {digits : List Char} (h : ∀ c ∈ digits, c.isDigit = true)
    (hrest : NoDigit rest) :
    readDigits 10 (digits ++ rest) = (digits.map fun c => c.toNat - '0'.toNat, rest) := by
  induction digits with
  | nil =>
    cases rest with
    | nil => rfl
    | cons c left =>
      have hnone : toDigit 10 c = none := hrest c rfl
      simp [readDigits, hnone]
  | cons c digits ih =>
    have hdigit := to_digit_of_isDigit (h c List.mem_cons_self)
    have hmore := ih fun c hmem => h c (List.mem_cons_of_mem _ hmem)
    simp [readDigits, hdigit, hmore]

/-- Only the digits of 0 begin with a zero. -/
theorem head_to_digits (h : (Nat.toDigits 10 n).head? = some '0') : n = 0 := by
  induction n using Nat.strongRecOn with
  | ind n ih =>
    by_cases hsmall : n < 10
    · rw [Nat.toDigits_of_lt_base hsmall] at h
      have hdigit : n.digitChar = '0' := by simpa using h
      interval_cases n <;> first | rfl | (revert hdigit; decide)
    · rw [Nat.toDigits_of_base_le (by decide) (Nat.le_of_not_lt hsmall),
        List.head?_append_of_ne_nil _ Nat.toDigits_ne_nil] at h
      have hzero := ih (n / 10) (by omega) h
      omega

/-- A number is read as it is displayed. -/
theorem read_number_display (maxDigits : Option Nat) (allowZeroPrefix : Bool) (hbound : n < bound)
    (hlength : ∀ most ∈ maxDigits, (Nat.toDigits 10 n).length ≤ most) (hrest : NoDigit rest) :
    readNumber 10 maxDigits allowZeroPrefix bound ((toString n).toList ++ rest) =
      some (n, rest) := by
  have htext : (toString n).toList = Nat.toDigits 10 n := by simp
  have hdigits : ∀ c ∈ Nat.toDigits 10 n, c.isDigit = true := fun c hmem =>
    Nat.isDigit_of_mem_toDigits (by decide) (by decide) hmem
  have hvalue : ((Nat.toDigits 10 n).map fun c => c.toNat - '0'.toNat).foldl
      (fun value digit => 10 * value + digit) 0 = n := by
    rw [List.foldl_map]
    exact Nat.ofDigitChars_ten_toDigits
  have hzero : ¬ (allowZeroPrefix = false ∧
      ((Nat.toDigits 10 n).map fun c => c.toNat - '0'.toNat).head? = some 0 ∧
      1 < ((Nat.toDigits 10 n).map fun c => c.toNat - '0'.toNat).length) := by
    rintro ⟨-, hhead, hmany⟩
    rw [List.head?_map] at hhead
    obtain ⟨c, hc, hsame⟩ := Option.map_eq_some_iff.mp hhead
    have hdigit := hdigits c (List.mem_of_mem_head? hc)
    obtain ⟨hlow, -⟩ : '0' ≤ c ∧ c ≤ '9' := by simpa [Char.isDigit, Char.le_def] using hdigit
    have hchar : c = '0' := by
      refine Char.le_antisymm ?_ hlow
      show c.toNat ≤ '0'.toNat
      omega
    rw [hchar] at hc
    have hn := head_to_digits hc
    subst hn
    simp at hmany
  unfold readNumber
  rw [htext, read_digits_append hdigits hrest]
  dsimp only
  rw [if_neg (by simp), if_neg, if_neg hzero, hvalue, if_pos hbound]
  cases maxDigits with
  | none => simp
  | some most => simpa using hlength most rfl

/-- A byte is read as it is displayed. -/
theorem read_octet (byte : UInt8) (hrest : NoDigit rest) :
    readNumber 10 (some 3) false 256 ((toString byte.toNat).toList ++ rest) =
      some (byte.toNat, rest) := by
  refine read_number_display _ _ byte.toNat_lt ?_ hrest
  rintro most ⟨⟩
  rw [Nat.length_toDigits_le_iff (by decide) (by decide)]
  exact Nat.lt_of_lt_of_le byte.toNat_lt (by decide)

/-- The parts of a displayed IPv4 address with a port. -/
theorem text_v4 (a b c d : UInt8) (port : UInt16) :
    (SocketAddr.text { ip := .v4 a b c d, port }).toList =
      (toString a.toNat).toList ++ '.' :: ((toString b.toNat).toList ++ '.' ::
        ((toString c.toNat).toList ++ '.' :: ((toString d.toNat).toList ++ ':' ::
          ((toString port.toNat).toList ++ [])))) := by
  simp [SocketAddr.text, dotted]

/-- It is made of digits, points and a colon. -/
theorem text_v4_chars {a b c d : UInt8} {port : UInt16} {char : Char}
    (h : char ∈ (SocketAddr.text { ip := .v4 a b c d, port }).toList) :
    char.isDigit = true ∨ char = '.' ∨ char = ':' := by
  have hdigit : ∀ n : Nat, char ∈ (toString n).toList → char.isDigit = true := by
    intro n hmem
    have htext : (toString n).toList = Nat.toDigits 10 n := by simp
    rw [htext] at hmem
    exact Nat.isDigit_of_mem_toDigits (by decide) (by decide) hmem
  rw [text_v4] at h
  simp only [List.mem_append, List.mem_cons, List.not_mem_nil, or_false] at h
  rcases h with h | h | h | h | h | h | h | h | h
  all_goals first
    | exact .inl (hdigit _ h)
    | exact .inr (.inl h)
    | exact .inr (.inr h)

theorem text_v4_length (a b c d : UInt8) (port : UInt16) :
    (SocketAddr.text { ip := .v4 a b c d, port }).toList.length ≤ 21 := by
  have hlength : ∀ (n k : Nat), 0 < k → n < 10 ^ k → (toString n).toList.length ≤ k := by
    intro n k hk hn
    have htext : (toString n).toList = Nat.toDigits 10 n := by simp
    rw [htext]
    exact (Nat.length_toDigits_le_iff (by decide) hk).mpr hn
  have hoctet : ∀ byte : UInt8, (toString byte.toNat).toList.length ≤ 3 := fun byte =>
    hlength _ 3 (by decide) (Nat.lt_of_lt_of_le byte.toNat_lt (by decide))
  have hport := hlength port.toNat 5 (by decide) (Nat.lt_of_lt_of_le port.toNat_lt (by decide))
  have ha := hoctet a
  have hb := hoctet b
  have hc := hoctet c
  have hd := hoctet d
  rw [text_v4]
  simp only [List.length_append, List.length_cons, List.length_nil]
  omega

/-- An IPv4 address with a port is read as it is displayed. -/
theorem parse_text_v4 (a b c d : UInt8) (port : UInt16) :
    SocketAddr.parse (SocketAddr.text { ip := .v4 a b c d, port }) =
      some { ip := .v4 a b c d, port } := by
  have hpoint : ∀ text, NoDigit ('.' :: text) := by
    rintro text c ⟨⟩
    decide
  have hcolon : ∀ text, NoDigit (':' :: text) := by
    rintro text c ⟨⟩
    decide
  have hnil : NoDigit [] := by simp [NoDigit]
  have hread : readSocketAddrV4 (SocketAddr.text { ip := .v4 a b c d, port }).toList =
      some ({ ip := .v4 a b c d, port }, []) := by
    rw [text_v4]
    unfold readSocketAddrV4 readIpv4 readPort
    simp only [read_octet _ (hpoint _), read_octet _ (hcolon _), readGiven, if_true,
      read_number_display none true port.toNat_lt (by simp) hnil, Option.bind_eq_bind,
      Option.bind_some]
    simp
  unfold SocketAddr.parse
  rw [hread]
  rfl

end Display

end LocalTrans.Relay
