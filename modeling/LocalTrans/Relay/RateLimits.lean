import LocalTrans.Foundation.Execution
import LocalTrans.Relay.Messages
import Mathlib.Logic.Function.Basic

/-!
# The rate limits of the relay server

`auth_failures`, `blocked_ips` and `punch_rate` of `control.rs`, with the tick that cleans them.
An instant is a number of nanoseconds, and `duration_since` is subtraction that stays at zero. A call
keeps the locks it has taken until it ends, so that each call is one step of `RateTables.step`.
-/

namespace LocalTrans.Relay

open Foundation

/-- `Duration::from_secs`. -/
def fromSecs (secs : Nat) : Nat := secs * 1000000000

/-- `Duration::as_secs`. -/
def asSecs (duration : Nat) : Nat := duration / 1000000000

/-- `auth_failures`, with the start of the window and the count of an address; `blocked_ips`, with
the end of the block; `punch_rate`, with the times of the punches of a fingerprint. -/
structure RateTables where
  authFailures : IpAddr → Option (Nat × UInt32)
  blockedIps : IpAddr → Option Nat
  punchRate : Fingerprint → Option (List Nat)

/-- A connection of an address is checked for a block; a registration of an address fails; a
fingerprint asks for a punch; the tables are cleaned. -/
inductive RateInput where
  | connect (ip : IpAddr) (now : Nat)
  | authFailure (ip : IpAddr) (now : Nat)
  | punch (fp : Fingerprint) (now : Nat)
  | tick (now : Nat)
deriving DecidableEq

/-- What became of an input. -/
inductive RateEvent where
  | checked (ip : IpAddr) (now : Nat) (blocked : Bool)
  | failed (ip : IpAddr) (now : Nat)
  | judged (fp : Fingerprint) (now : Nat) (ok : Bool)
  | cleaned (now : Nat)
deriving DecidableEq

/-- The instant an input is taken up. -/
def RateInput.now : RateInput → Nat
  | .connect _ now => now
  | .authFailure _ now => now
  | .punch _ now => now
  | .tick now => now

/-- The instant of an event. -/
def RateEvent.now : RateEvent → Nat
  | .checked _ now _ => now
  | .failed _ now => now
  | .judged _ now _ => now
  | .cleaned now => now

namespace RateTables

/-- The tables of a new server. -/
def new : RateTables where
  authFailures _ := none
  blockedIps _ := none
  punchRate _ := none

/-- The check of `handle_conn`. -/
def isBlocked (tables : RateTables) (ip : IpAddr) (now : Nat) : Bool :=
  (tables.blockedIps ip).any fun expiry => now < expiry

/-- `record_auth_failure`, with the counter of a release build. -/
def recordAuthFailure (authMax : UInt32) (tables : RateTables) (ip : IpAddr) (now : Nat) :
    RateTables :=
  let entry := (tables.authFailures ip).getD (now, 0)
  let count := entry.2 + 1
  { tables with
    authFailures := Function.update tables.authFailures ip (some (entry.1, count))
    blockedIps :=
      if authMax ≤ count then
        Function.update tables.blockedIps ip (some (now + fromSecs 600))
      else tables.blockedIps }

/-- `WINDOW` of `punch_rate_ok`. -/
def punchWindow : Nat := fromSecs 60

/-- `MAX_PER_WINDOW` of `punch_rate_ok`. -/
def maxPerWindow : Nat := 10

/-- `punch_rate_ok`. -/
def punchRateOk (tables : RateTables) (fp : Fingerprint) (now : Nat) : RateTables × Bool :=
  let entry := ((tables.punchRate fp).getD []).filter fun t => now - t < punchWindow
  if maxPerWindow ≤ entry.length then
    ({ tables with punchRate := Function.update tables.punchRate fp (some entry) }, false)
  else
    ({ tables with punchRate := Function.update tables.punchRate fp (some (entry ++ [now])) }, true)

/-- The tick of `run` that cleans the tables. -/
def clean (tables : RateTables) (now : Nat) : RateTables where
  blockedIps ip := (tables.blockedIps ip).filter fun expiry => now < expiry
  authFailures ip := (tables.authFailures ip).filter fun entry => !(60 < asSecs (now - entry.1))
  punchRate fp :=
    ((tables.punchRate fp).filter fun ts => !ts.isEmpty).map fun ts =>
      ts.filter fun t => asSecs (now - t) ≤ 60

/-- One call. -/
def step (authMax : UInt32) : Machine RateTables RateInput RateEvent := fun tables input =>
  match input with
  | .connect ip now => some (tables, [.checked ip now (tables.isBlocked ip now)])
  | .authFailure ip now => some (tables.recordAuthFailure authMax ip now, [.failed ip now])
  | .punch fp now =>
    let (next, ok) := tables.punchRateOk fp now
    some (next, [.judged fp now ok])
  | .tick now => some (tables.clean now, [.cleaned now])

theorem step_punch (authMax : UInt32) (tables : RateTables) (fp : Fingerprint) (now : Nat) :
    step authMax tables (.punch fp now) = some ((tables.punchRateOk fp now).1,
      [.judged fp now (tables.punchRateOk fp now).2]) :=
  rfl

end RateTables

/-- The instants never go back. -/
def Chronological : Guard RateTables RateInput RateEvent := fun trace _ input =>
  ∀ event ∈ trace, event.now ≤ input.now
deriving Decidable

/-- An input is answered by one event, at the same instant. -/
theorem RateTables.step_event {authMax : UInt32} {tables next : RateTables} {input : RateInput}
    {emitted : List RateEvent} (h : step authMax tables input = some (next, emitted)) :
    ∃ event, emitted = [event] ∧ event.now = input.now := by
  cases input with
  | connect ip now | authFailure ip now | tick now =>
    obtain ⟨-, rfl⟩ := answer_inj h
    exact ⟨_, rfl, rfl⟩
  | punch fp now =>
    obtain ⟨-, rfl⟩ := answer_inj h
    exact ⟨_, rfl, rfl⟩

end LocalTrans.Relay
