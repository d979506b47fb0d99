import LocalTrans.Protocol

/-!
# Pairing codes and the pairing machine

`pairing.rs`: the acceptor draws a six-digit code, keeps only its hash, and counts wrong
submissions. `hashCode` stands for the SHA-256 of a code; everything here holds for any hash.
-/

namespace LocalTrans

/-- A SHA-256 digest. -/
abbrev Digest := BitVec 256

/-- `COOLDOWN_SECS`: how long a peer is refused after three wrong codes. -/
def cooldownSecs : Nat := 300

/-- `generate_pair_code`: the drawn value as six decimal digits. -/
def generatePairCode (value : Nat) : String :=
  String.ofList (List.leftpad 6 '0' (Nat.toDigits 10 (value % 1000000)))

/-- `PairingMachine`: the hash of the code on screen, and the wrong submissions so far. -/
structure PairingMachine where
  codeHash : Digest
  submittedOk : Bool
  fails : UInt8
deriving DecidableEq, Repr

namespace PairingMachine

/-- `PairingMachine::new`. -/
def new (codeHash : Digest) : PairingMachine :=
  { codeHash, submittedOk := false, fails := 0 }

/-- `PairingMachine::failed_out`. -/
def failedOut (machine : PairingMachine) : Bool :=
  3 ≤ machine.fails

variable (hashCode : String → Digest)

/-- `verify_code`. -/
def verifyCode (code : String) (hash : Digest) : Bool :=
  hashCode code == hash

/-- `PairingMachine::submit_remote`: mark the machine complete, or count a failure. -/
def submitRemote (machine : PairingMachine) (remoteCode : String) : PairingMachine × Bool :=
  if verifyCode hashCode remoteCode machine.codeHash then
    ({ machine with submittedOk := true }, true)
  else ({ machine with fails := machine.fails + 1 }, false)

variable {hashCode}

/-- No submission changes the code. -/
@[simp] theorem submit_remote_code_hash (machine : PairingMachine) (code : String) :
    (submitRemote hashCode machine code).1.codeHash = machine.codeHash := by
  unfold submitRemote
  split <;> rfl

/-- A submission is accepted exactly when it has the hash of the code. -/
theorem submit_remote_accepts {machine : PairingMachine} {code : String} :
    (submitRemote hashCode machine code).2 = true ↔ hashCode code = machine.codeHash := by
  unfold submitRemote verifyCode
  split <;> simp_all

end PairingMachine

end LocalTrans
