import LocalTrans.Foundation.SlidingWindow
import LocalTrans.Relay.RateLimits
import Mathlib.Data.List.Infix

/-!
# The block of an address

An address is to be blocked for ten minutes from each failed registration that has `authMax` failures
of the address in the 60 seconds up to it (`ShouldBlock`). `auth_failures` counts from a first failure
on, until a tick finds more than 60 seconds over, so that what it counts are the failures of the last
60 seconds only where every failure finds a fresh window (`FreshWindow`). `blocked_rightly` says that
the blocks are then right.
-/

namespace LocalTrans.Relay

open Foundation SlidingWindow

/-- The instants of the failed registrations of an address. -/
def failures (ip : IpAddr) (trace : List RateEvent) : List Nat :=
  trace.filterMap fun
    | .failed other now => if other = ip then some now else none
    | _ => none

theorem failures_append (ip : IpAddr) (first second : List RateEvent) :
    failures ip (first ++ second) = failures ip first ++ failures ip second :=
  List.filterMap_append ..

theorem failures_failed (ip other : IpAddr) (now : Nat) :
    failures ip [.failed other now] = if other = ip then [now] else [] := by
  by_cases hown : other = ip <;> simp [failures, hown]

theorem mem_failures {ip : IpAddr} {trace : List RateEvent} {t : Nat} :
    t ∈ failures ip trace ↔ .failed ip t ∈ trace := by
  unfold failures
  rw [List.mem_filterMap]
  constructor
  · rintro ⟨event, hmem, hfound⟩
    cases event with
    | failed other now =>
      by_cases hown : other = ip
      · obtain rfl : now = t := by simpa [hown] using hfound
        exact hown ▸ hmem
      · simp [hown] at hfound
    | checked _ _ _ | judged _ _ _ | cleaned _ => cases hfound
  · intro hmem
    exact ⟨_, hmem, by simp⟩

/-- After failures at the given instants, an address is to be blocked: one of them was the last of
`authMax` in 60 seconds, and is less than ten minutes ago. -/
def ShouldBlock (authMax : UInt32) (times : List Nat) (now : Nat) : Prop :=
  ∃ earlier t, earlier ++ [t] <+: times ∧ now < t + fromSecs 600 ∧
    authMax.toNat ≤ (recent (fromSecs 60) t (earlier ++ [t])).length

theorem should_block_append {authMax : UInt32} {times : List Nat} {t now : Nat} :
    ShouldBlock authMax (times ++ [t]) now ↔ ShouldBlock authMax times now ∨
      now < t + fromSecs 600 ∧
        authMax.toNat ≤ (recent (fromSecs 60) t (times ++ [t])).length := by
  constructor
  · rintro ⟨earlier, last, hinit, hnow, hcount⟩
    rcases List.prefix_concat_iff.mp hinit with hall | hbefore
    · obtain ⟨rfl, hlast⟩ := List.append_inj' hall rfl
      obtain rfl : last = t := by simpa using hlast
      exact .inr ⟨hnow, hcount⟩
    · exact .inl ⟨earlier, last, hbefore, hnow, hcount⟩
  · rintro (⟨earlier, last, hinit, hnow, hcount⟩ | ⟨hnow, hcount⟩)
    · exact ⟨earlier, last, hinit.trans (List.prefix_append _ _), hnow, hcount⟩
    · exact ⟨times, t, List.prefix_rfl, hnow, hcount⟩

/-- Exactly the addresses that are to be blocked are blocked, from now on. -/
def BlockedRightly (authMax : UInt32) (trace : List RateEvent) (tables : RateTables) : Prop :=
  ∀ ip now, (∀ event ∈ trace, event.now ≤ now) →
    (tables.isBlocked ip now = true ↔ ShouldBlock authMax (failures ip trace) now)

/-- A failure finds a window of its address that began less than 60 seconds ago and whose counter
has room, or none, and then no failure in the last 60 seconds. -/
def WindowFresh (trace : List RateEvent) (tables : RateTables) : RateInput → Prop
  | .authFailure ip now =>
    (∀ entry ∈ tables.authFailures ip,
      now < entry.1 + fromSecs 60 ∧ entry.2.toNat + 1 < 2 ^ 32) ∧
    (tables.authFailures ip = none → ∀ t ∈ failures ip trace, t + fromSecs 60 ≤ now)
  | _ => True

/-- The instants never go back, and each failure finds a fresh window. -/
def FreshWindow : Guard RateTables RateInput RateEvent := fun trace tables input =>
  Chronological trace tables input ∧ WindowFresh trace tables input

instance (trace : List RateEvent) (tables : RateTables) (input : RateInput) :
    Decidable (WindowFresh trace tables input) :=
  match input with
  | .authFailure ip now => inferInstanceAs (Decidable ((∀ entry ∈ tables.authFailures ip,
        now < entry.1 + fromSecs 60 ∧ entry.2.toNat + 1 < 2 ^ 32) ∧
      (tables.authFailures ip = none → ∀ t ∈ failures ip trace, t + fromSecs 60 ≤ now)))
  | .connect .. | .punch .. | .tick .. => inferInstanceAs (Decidable True)

instance (trace : List RateEvent) (tables : RateTables) (input : RateInput) :
    Decidable (FreshWindow trace tables input) :=
  inferInstanceAs (Decidable (_ ∧ _))

namespace RateTables

variable {authMax : UInt32} {tables : RateTables} {ip other : IpAddr} {now later : Nat}

/-- A failure that reaches the limit blocks its address for ten minutes. -/
theorem record_auth_failure_blocked :
    (tables.recordAuthFailure authMax ip now).isBlocked other later =
      if other = ip ∧ authMax ≤ ((tables.authFailures ip).getD (now, 0)).2 + 1 then
        decide (later < now + fromSecs 600)
      else tables.isBlocked other later := by
  by_cases hreached : authMax ≤ ((tables.authFailures ip).getD (now, 0)).2 + 1
  · have hblocked : (tables.recordAuthFailure authMax ip now).blockedIps =
        Function.update tables.blockedIps ip (some (now + fromSecs 600)) := if_pos hreached
    unfold isBlocked
    rw [hblocked]
    by_cases hown : other = ip
    · rw [if_pos ⟨hown, hreached⟩, hown, Function.update_self, Option.any_some]
    · rw [if_neg fun h => hown h.1, Function.update_of_ne hown]
  · have hblocked : (tables.recordAuthFailure authMax ip now).blockedIps = tables.blockedIps :=
      if_neg hreached
    rw [if_neg fun h => hreached h.2, isBlocked, hblocked, isBlocked]

/-- A failure leaves the windows of other addresses alone. -/
theorem record_auth_failure_other (hne : other ≠ ip) :
    (tables.recordAuthFailure authMax ip now).authFailures other = tables.authFailures other :=
  Function.update_of_ne hne _ _

/-- A failure is counted in the window of its address. -/
theorem record_auth_failure_own :
    (tables.recordAuthFailure authMax ip now).authFailures ip =
      some (((tables.authFailures ip).getD (now, 0)).1,
        ((tables.authFailures ip).getD (now, 0)).2 + 1) :=
  Function.update_self ..

/-- The tick ends no block before its time. -/
theorem clean_blocked (hle : now ≤ later) :
    (tables.clean now).isBlocked ip later = tables.isBlocked ip later := by
  show ((tables.blockedIps ip).filter fun expiry => now < expiry).any _ =
    (tables.blockedIps ip).any _
  cases tables.blockedIps ip with
  | none => rfl
  | some expiry =>
    by_cases hopen : now < expiry
    · simp [hopen]
    · have hover : ¬ later < expiry := by omega
      simp [hopen, hover]

/-- A punch leaves the failures and the blocks alone. -/
theorem punch_rate_ok_failures {fp : Fingerprint} :
    (tables.punchRateOk fp now).1.authFailures = tables.authFailures := by
  unfold punchRateOk
  dsimp only
  split
  · rfl
  · rfl

theorem punch_rate_ok_blocked {fp : Fingerprint} :
    (tables.punchRateOk fp now).1.isBlocked = tables.isBlocked := by
  unfold punchRateOk
  dsimp only
  split
  · rfl
  · rfl

/-- What the tick leaves in the table of failures was there. -/
theorem clean_failures {entry : Nat × UInt32}
    (h : (tables.clean now).authFailures ip = some entry) : tables.authFailures ip = some entry :=
  (Option.filter_eq_some_iff.mp h).1

end RateTables

/-- A window counts the failures since it began, and those before are 60 seconds older. -/
def Counts (trace : List RateEvent) (ip : IpAddr) (entry : Nat × UInt32) : Prop :=
  ∃ old fresh, failures ip trace = old ++ fresh ∧ fresh.length = entry.2.toNat ∧
    entry.1 ∈ fresh ∧ (∀ t ∈ fresh, entry.1 ≤ t) ∧ ∀ t ∈ old, t + fromSecs 60 ≤ entry.1

/-- Every window counts so. -/
def Counted (trace : List RateEvent) (tables : RateTables) : Prop :=
  ∀ ip entry, tables.authFailures ip = some entry → Counts trace ip entry

variable {authMax : UInt32} {trace emitted : List RateEvent} {tables next : RateTables}
  {input : RateInput} {inputs : List RateInput} {ip : IpAddr} {now : Nat}

/-- A failure that finds a fresh window is counted with the failures of the last 60 seconds. -/
theorem Counted.failure (h : Counted trace tables)
    (hguard : FreshWindow trace tables (.authFailure ip now)) :
    Counts (trace ++ [.failed ip now]) ip (((tables.authFailures ip).getD (now, 0)).1,
      ((tables.authFailures ip).getD (now, 0)).2 + 1) ∧
    (recent (fromSecs 60) now (failures ip trace ++ [now])).length =
      (((tables.authFailures ip).getD (now, 0)).2 + 1).toNat := by
  obtain ⟨horder, hopen, hclosed⟩ := hguard
  have hfailures : failures ip (trace ++ [.failed ip now]) = failures ip trace ++ [now] := by
    rw [failures_append, failures_failed, if_pos rfl]
  cases hentry : tables.authFailures ip with
  | none =>
    have hold := hclosed hentry
    show Counts _ _ (now, 1) ∧ _ = 1
    refine ⟨⟨failures ip trace, [now], hfailures, rfl, List.mem_singleton.mpr rfl, ?_, hold⟩, ?_⟩
    · intro t hmem
      exact Nat.le_of_eq (List.mem_singleton.mp hmem).symm
    · rw [recent_append, recent_eq_nil hold]
      simp [recent, fromSecs]
  | some entry =>
    obtain ⟨start, count⟩ := entry
    obtain ⟨hnow, hroom⟩ := hopen (start, count) hentry
    obtain ⟨old, fresh, hsplit, hlength, hstart, hsince, hold⟩ := h ip (start, count) hentry
    have hbegan : start ≤ now := by
      refine horder (.failed ip start) (mem_failures.mp ?_)
      rw [hsplit]
      exact List.mem_append_right _ hstart
    have hcount : (count + 1).toNat = count.toNat + 1 := by
      rw [UInt32.toNat_add]
      exact Nat.mod_eq_of_lt hroom
    show Counts _ _ (start, count + 1) ∧ _ = (count + 1).toNat
    refine ⟨⟨old, fresh ++ [now], ?_, ?_, List.mem_append_left _ hstart, ?_, hold⟩, ?_⟩
    · rw [hfailures, hsplit, List.append_assoc]
    · rw [List.length_append, List.length_singleton, hlength, hcount]
    · intro t hmem
      rcases List.mem_append.mp hmem with hfresh | hlast
      · exact hsince t hfresh
      · rw [List.mem_singleton.mp hlast]
        exact hbegan
    · have hfresh : recent (fromSecs 60) now (fresh ++ [now]) = fresh ++ [now] := by
        refine List.filter_eq_self.mpr fun t hmem => decide_eq_true ?_
        simp only [fromSecs] at hnow ⊢
        rcases List.mem_append.mp hmem with hbefore | hlast
        · have hlater := hsince t hbefore
          simp only at hlater
          omega
        · rw [List.mem_singleton.mp hlast]
          omega
      have hgone : recent (fromSecs 60) now old = [] := by
        refine recent_eq_nil fun t hmem => ?_
        have hbefore := hold t hmem
        simp only at hbefore
        omega
      rw [hsplit, List.append_assoc, recent_append, hgone, hfresh, List.nil_append,
        List.length_append, List.length_singleton, hlength, hcount]

/-- A window that is left alone counts as before, as long as its address does not fail. -/
theorem Counts.append {entry : Nat × UInt32} (h : Counts trace ip entry)
    (hsilent : failures ip emitted = []) : Counts (trace ++ emitted) ip entry := by
  unfold Counts
  rw [failures_append, hsilent, List.append_nil]
  exact h

/-- A guarded step keeps the windows counting. -/
theorem Counted.step (h : Counted trace tables) (hguard : FreshWindow trace tables input)
    (hnext : RateTables.step authMax tables input = some (next, emitted)) :
    Counted (trace ++ emitted) next := by
  intro ip entry hentry
  cases input with
  | connect other now =>
    obtain ⟨rfl, rfl⟩ := answer_inj hnext
    exact (h ip entry hentry).append rfl
  | punch fp now =>
    rw [RateTables.step_punch] at hnext
    obtain ⟨rfl, rfl⟩ := answer_inj hnext
    rw [RateTables.punch_rate_ok_failures] at hentry
    exact (h ip entry hentry).append rfl
  | tick now =>
    obtain ⟨rfl, rfl⟩ := answer_inj hnext
    exact (h ip entry (RateTables.clean_failures hentry)).append rfl
  | authFailure other now =>
    obtain ⟨rfl, rfl⟩ := answer_inj hnext
    by_cases hown : ip = other
    · subst hown
      rw [RateTables.record_auth_failure_own] at hentry
      obtain rfl := Option.some.inj hentry
      exact (h.failure hguard).1
    · rw [RateTables.record_auth_failure_other hown] at hentry
      refine (h ip entry hentry).append ?_
      rw [failures_failed, if_neg (Ne.symm hown)]

/-- A guarded step keeps the blocks right. -/
theorem BlockedRightly.step (h : BlockedRightly authMax trace tables)
    (hcounted : Counted trace tables) (hguard : FreshWindow trace tables input)
    (hnext : RateTables.step authMax tables input = some (next, emitted)) :
    BlockedRightly authMax (trace ++ emitted) next := by
  intro ip later hlater
  have hbefore := h ip later fun event hmem => hlater event (List.mem_append_left _ hmem)
  rw [failures_append]
  cases input with
  | connect other now =>
    obtain ⟨rfl, rfl⟩ := answer_inj hnext
    exact (List.append_nil (failures ip trace)).symm ▸ hbefore
  | punch fp now =>
    rw [RateTables.step_punch] at hnext
    obtain ⟨rfl, rfl⟩ := answer_inj hnext
    rw [RateTables.punch_rate_ok_blocked]
    exact (List.append_nil (failures ip trace)).symm ▸ hbefore
  | tick now =>
    obtain ⟨rfl, rfl⟩ := answer_inj hnext
    have hle : now ≤ later :=
      hlater (.cleaned now) (List.mem_append_right _ (List.mem_singleton.mpr rfl))
    rw [RateTables.clean_blocked hle]
    exact (List.append_nil (failures ip trace)).symm ▸ hbefore
  | authFailure other now =>
    obtain ⟨rfl, rfl⟩ := answer_inj hnext
    rw [RateTables.record_auth_failure_blocked, failures_failed]
    by_cases hown : ip = other
    · subst hown
      have hcount := (hcounted.failure hguard).2
      rw [if_pos rfl, should_block_append, hcount]
      by_cases hreached : authMax ≤ ((tables.authFailures ip).getD (now, 0)).2 + 1
      · rw [if_pos ⟨rfl, hreached⟩, decide_eq_true_iff]
        refine ⟨fun hnow => .inr ⟨hnow, hreached⟩, ?_⟩
        rintro (⟨earlier, t, hinit, hnow, -⟩ | ⟨hnow, -⟩)
        · -- an earlier failure would block no longer than this one
          have hpast : t ≤ now := hguard.1 (.failed ip t)
            (mem_failures.mp (hinit.subset (by simp)))
          omega
        · exact hnow
      · rw [if_neg fun h => hreached h.2, hbefore]
        refine ⟨.inl, ?_⟩
        rintro (hsame | ⟨-, hlimit⟩)
        · exact hsame
        · exact absurd hlimit hreached
    · rw [if_neg fun h => hown h.1, if_neg (Ne.symm hown), List.append_nil]
      exact hbefore

/-- Where every failure finds a fresh window, exactly those addresses are blocked that are to be. -/
theorem blocked_rightly (h : Exec (RateTables.step authMax) FreshWindow .new inputs trace tables) :
    BlockedRightly authMax trace tables := by
  have hboth : Counted trace tables ∧ BlockedRightly authMax trace tables := by
    induction h with
    | start =>
      refine ⟨fun ip entry hentry => ?_, fun ip now _ => ?_⟩
      · cases hentry
      · refine iff_of_false Bool.false_ne_true ?_
        rintro ⟨earlier, t, hinit, -⟩
        simp [failures] at hinit
    | step _ hguard hnext ih => exact ⟨ih.1.step hguard hnext, ih.2.step ih.1 hguard hnext⟩
  exact hboth.2

/-- Five failures in twenty seconds, with the ticks between and after them. -/
def rapidFailures : List RateInput :=
  [.tick 0, .authFailure (.v4 203 0 113 9) (fromSecs 20), .authFailure (.v4 203 0 113 9) (fromSecs 25),
    .authFailure (.v4 198 51 100 4) (fromSecs 26), .authFailure (.v4 203 0 113 9) (fromSecs 29),
    .tick (fromSecs 30), .authFailure (.v4 203 0 113 9) (fromSecs 35),
    .authFailure (.v4 203 0 113 9) (fromSecs 40), .tick (fromSecs 600)]

theorem blocked_rightly_sample :
    ∃ trace tables, Exec (RateTables.step 5) FreshWindow .new rapidFailures trace tables ∧
      tables.isBlocked (.v4 203 0 113 9) (fromSecs 639) = true ∧
      ShouldBlock 5 (failures (.v4 203 0 113 9) trace) (fromSecs 639) := by
  obtain ⟨⟨tables, trace⟩, hrun, hview⟩ := Option.map_eq_some_iff.mp
    (show (Machine.run (RateTables.step 5) FreshWindow [] .new rapidFailures).map
        (fun result => (result.2.all fun event => event.now ≤ fromSecs 639,
          result.1.isBlocked (.v4 203 0 113 9) (fromSecs 639))) = some (true, true) by
      decide +kernel)
  have hexec := Exec.start.append_run hrun
  obtain ⟨htimes, hblocked⟩ := Prod.mk.inj hview
  refine ⟨trace, tables, hexec, hblocked, ?_⟩
  exact (blocked_rightly hexec _ _ (by simpa using htimes)).mp hblocked

/-- An address is not to be blocked when no failure of it is the last of `authMax` in 60 seconds. -/
theorem not_should_block {times : List Nat} {now : Nat}
    (h : ∀ past ∈ times.inits,
      (recent (fromSecs 60) (past.getLastD 0) past).length < authMax.toNat) :
    ¬ ShouldBlock authMax times now := by
  rintro ⟨earlier, t, hinit, -, hcount⟩
  have hfew := h _ ((List.mem_inits _ _).mpr hinit)
  rw [List.getLastD_concat] at hfew
  omega

/-- Four failures in a second and one 84 seconds later, with the ticks between them. -/
def spreadFailures : List RateInput :=
  .tick 0 :: List.replicate 4 (.authFailure (.v4 203 0 113 9) (fromSecs 1)) ++
    [.tick (fromSecs 30), .tick (fromSecs 60), .authFailure (.v4 203 0 113 9) (fromSecs 85)]

/-- One failure, and five in three seconds around the tick after 90 seconds. -/
def splitFailures : List RateInput :=
  [.tick 0, .authFailure (.v4 203 0 113 9) 0, .tick (fromSecs 30), .tick (fromSecs 60)] ++
    List.replicate 3 (.authFailure (.v4 203 0 113 9) (fromSecs 89)) ++
    [.tick (fromSecs 90), .authFailure (.v4 203 0 113 9) (fromSecs 91),
      .authFailure (.v4 203 0 113 9) (fromSecs 92)]

theorem blocked_wrongly :
    (∃ trace tables, Exec (RateTables.step 5) Chronological .new spreadFailures trace tables ∧
      tables.isBlocked (.v4 203 0 113 9) (fromSecs 85) = true ∧
      ¬ ShouldBlock 5 (failures (.v4 203 0 113 9) trace) (fromSecs 85) ∧
      ¬ BlockedRightly 5 trace tables) ∧
    ∃ trace tables, Exec (RateTables.step 5) Chronological .new splitFailures trace tables ∧
      tables.isBlocked (.v4 203 0 113 9) (fromSecs 92) = false ∧
      ShouldBlock 5 (failures (.v4 203 0 113 9) trace) (fromSecs 92) ∧
      ¬ BlockedRightly 5 trace tables := by
  constructor
  · obtain ⟨⟨tables, trace⟩, hrun, hview⟩ := Option.map_eq_some_iff.mp
      (show (Machine.run (RateTables.step 5) Chronological [] .new spreadFailures).map
          (fun result => (result.2.all fun event => event.now ≤ fromSecs 85,
            result.1.isBlocked (.v4 203 0 113 9) (fromSecs 85),
            (failures (.v4 203 0 113 9) result.2).inits.all fun past =>
              (recent (fromSecs 60) (past.getLastD 0) past).length < 5)) = some (true, true, true) by
        decide +kernel)
    obtain ⟨htimes, hrest⟩ := Prod.mk.inj hview
    obtain ⟨hblocked, hfew⟩ := Prod.mk.inj hrest
    have hwrong : ¬ ShouldBlock 5 (failures (.v4 203 0 113 9) trace) (fromSecs 85) :=
      not_should_block (by simpa using hfew)
    refine ⟨trace, tables, Exec.start.append_run hrun, hblocked, hwrong, fun hright => ?_⟩
    exact hwrong ((hright _ _ (by simpa using htimes)).mp hblocked)
  · obtain ⟨⟨tables, trace⟩, hrun, hview⟩ := Option.map_eq_some_iff.mp
      (show (Machine.run (RateTables.step 5) Chronological [] .new splitFailures).map
          (fun result => (result.2.all fun event => event.now ≤ fromSecs 92,
            result.1.isBlocked (.v4 203 0 113 9) (fromSecs 92),
            failures (.v4 203 0 113 9) result.2)) =
          some (true, false, [0, fromSecs 89, fromSecs 89, fromSecs 89, fromSecs 91, fromSecs 92]) by
        decide +kernel)
    obtain ⟨htimes, hrest⟩ := Prod.mk.inj hview
    obtain ⟨hblocked, hfailures⟩ := Prod.mk.inj hrest
    have hwrong : ShouldBlock 5 (failures (.v4 203 0 113 9) trace) (fromSecs 92) := by
      refine ⟨[0, fromSecs 89, fromSecs 89, fromSecs 89, fromSecs 91], fromSecs 92, ?_, ?_, ?_⟩
      · exact hfailures ▸ List.prefix_rfl
      · decide +kernel
      · decide +kernel
    refine ⟨trace, tables, Exec.start.append_run hrun, hblocked, hwrong, fun hright => ?_⟩
    have hshould := (hright _ _ (by simpa using htimes)).mpr hwrong
    exact Bool.false_ne_true (hblocked ▸ hshould)

end LocalTrans.Relay
