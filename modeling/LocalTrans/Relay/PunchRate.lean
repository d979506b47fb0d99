import LocalTrans.Foundation.SlidingWindow
import LocalTrans.Relay.RateLimits

/-!
# The rate of punches

What `punch_rate` keeps of a fingerprint has the same recent times as all its granted punches
(`PunchesKept`), whatever the tick has cleaned and the other fingerprints have asked. So the
verdicts on the punches of a fingerprint are those of `limiter` on their times
(`punches_eq_limiter`), and `punch_rate_limited` says what follows.
-/

namespace LocalTrans.Relay

open Foundation SlidingWindow

/-- The instants of the punches a fingerprint asks for. -/
def punchTimes (fp : Fingerprint) (inputs : List RateInput) : List Nat :=
  inputs.filterMap fun
    | .punch other now => if other = fp then some now else none
    | _ => none

/-- The verdicts on the punches of a fingerprint, with their instants. -/
def punches (fp : Fingerprint) (trace : List RateEvent) : List (Nat × Bool) :=
  trace.filterMap fun
    | .judged other now ok => if other = fp then some (now, ok) else none
    | _ => none

theorem punch_times_append (fp : Fingerprint) (first second : List RateInput) :
    punchTimes fp (first ++ second) = punchTimes fp first ++ punchTimes fp second :=
  List.filterMap_append ..

theorem punches_append (fp : Fingerprint) (first second : List RateEvent) :
    punches fp (first ++ second) = punches fp first ++ punches fp second :=
  List.filterMap_append ..

theorem punches_judged (fp other : Fingerprint) (now : Nat) (ok : Bool) :
    punches fp [.judged other now ok] = if other = fp then [(now, ok)] else [] := by
  by_cases hown : other = fp <;> simp [punches, hown]

namespace RateTables

/-- The punches kept of a fingerprint. -/
def kept (tables : RateTables) (fp : Fingerprint) : List Nat := (tables.punchRate fp).getD []

variable {authMax : UInt32} {tables : RateTables} {fp other : Fingerprint} {now later : Nat}

/-- A punch where ten are recent. -/
theorem punch_rate_ok_full
    (h : maxPerWindow ≤ (recent punchWindow now (tables.kept fp)).length) :
    tables.punchRateOk fp now =
      ({ tables with
          punchRate := Function.update tables.punchRate fp
            (some (recent punchWindow now (tables.kept fp))) }, false) :=
  if_pos h

/-- A punch where fewer than ten are recent. -/
theorem punch_rate_ok_room
    (h : ¬ maxPerWindow ≤ (recent punchWindow now (tables.kept fp)).length) :
    tables.punchRateOk fp now =
      ({ tables with
          punchRate := Function.update tables.punchRate fp
            (some (recent punchWindow now (tables.kept fp) ++ [now])) }, true) :=
  if_neg h

/-- A punch is granted when fewer than ten of those kept are recent. -/
theorem punch_rate_ok_verdict : (tables.punchRateOk fp now).2 =
    decide ((recent punchWindow now (tables.kept fp)).length < maxPerWindow) := by
  by_cases hfull : maxPerWindow ≤ (recent punchWindow now (tables.kept fp)).length
  · rw [punch_rate_ok_full hfull]
    exact (decide_eq_false (Nat.not_lt.mpr hfull)).symm
  · rw [punch_rate_ok_room hfull]
    exact (decide_eq_true (Nat.lt_of_not_ge hfull)).symm

/-- A punch leaves the recent ones of its fingerprint, and itself where it is granted. -/
theorem punch_rate_ok_kept : (tables.punchRateOk fp now).1.kept fp =
    recent punchWindow now (tables.kept fp) ++
      granted [(now, (tables.punchRateOk fp now).2)] := by
  by_cases hfull : maxPerWindow ≤ (recent punchWindow now (tables.kept fp)).length
  · rw [punch_rate_ok_full hfull]
    simp [kept]
  · rw [punch_rate_ok_room hfull]
    simp [kept]

/-- A punch leaves the other fingerprints alone. -/
theorem punch_rate_ok_other (hne : other ≠ fp) :
    (tables.punchRateOk fp now).1.kept other = tables.kept other := by
  by_cases hfull : maxPerWindow ≤ (recent punchWindow now (tables.kept fp)).length
  · rw [punch_rate_ok_full hfull]
    simp [kept, hne]
  · rw [punch_rate_ok_room hfull]
    simp [kept, hne]

/-- The tick leaves what is recent later on. -/
theorem clean_kept (hle : now ≤ later) : recent punchWindow later ((tables.clean now).kept fp) =
    recent punchWindow later (tables.kept fp) := by
  have hkeep : ∀ t ∈ tables.kept fp, now - t < punchWindow →
      decide (asSecs (now - t) ≤ 60) = true := by
    intro t _ hrecent
    simp only [punchWindow, fromSecs] at hrecent
    refine decide_eq_true ?_
    show (now - t) / 1000000000 ≤ 60
    omega
  show recent punchWindow later ((((tables.punchRate fp).filter fun ts => !ts.isEmpty).map
    fun ts => ts.filter fun t => asSecs (now - t) ≤ 60).getD []) = _
  unfold kept at hkeep ⊢
  cases htimes : tables.punchRate fp with
  | none => rfl
  | some times =>
    rw [htimes] at hkeep
    cases times with
    | nil => rfl
    | cons first rest => exact recent_filter hle hkeep

end RateTables

/-- From now on, what is kept of a fingerprint has the same recent times as its granted punches. -/
def PunchesKept (trace : List RateEvent) (tables : RateTables) : Prop :=
  ∀ fp later, (∀ event ∈ trace, event.now ≤ later) →
    recent RateTables.punchWindow later (tables.kept fp) =
      recent RateTables.punchWindow later (granted (punches fp trace))

variable {authMax : UInt32} {trace emitted : List RateEvent} {tables next : RateTables}
  {input : RateInput} {inputs : List RateInput}

/-- A step keeps them so. -/
theorem PunchesKept.step (h : PunchesKept trace tables)
    (hnext : RateTables.step authMax tables input = some (next, emitted)) :
    PunchesKept (trace ++ emitted) next := by
  intro fp later hlater
  have hbefore : ∀ event ∈ trace, event.now ≤ later := fun event hmem =>
    hlater event (List.mem_append_left _ hmem)
  have hsame := h fp later hbefore
  rw [punches_append, granted_append, recent_append, ← hsame]
  cases input with
  | connect ip now | authFailure ip now =>
    obtain ⟨rfl, rfl⟩ := answer_inj hnext
    exact (List.append_nil _).symm
  | tick now =>
    obtain ⟨rfl, rfl⟩ := answer_inj hnext
    have hle : now ≤ later := hlater (.cleaned now) (by simp)
    rw [RateTables.clean_kept hle]
    exact (List.append_nil _).symm
  | punch asked now =>
    rw [RateTables.step_punch] at hnext
    obtain ⟨rfl, rfl⟩ := answer_inj hnext
    have hle : now ≤ later := hlater (.judged asked now (tables.punchRateOk asked now).2)
      (List.mem_append_right _ (List.mem_singleton.mpr rfl))
    rw [punches_judged]
    by_cases hown : asked = fp
    · subst hown
      rw [if_pos rfl, RateTables.punch_rate_ok_kept, recent_append]
      congr 1
      exact recent_filter hle fun t _ hrecent => decide_eq_true hrecent
    · rw [if_neg hown, RateTables.punch_rate_ok_other (Ne.symm hown)]
      exact (List.append_nil _).symm

theorem punches_kept (h : Exec (RateTables.step authMax) Chronological .new inputs trace tables) :
    PunchesKept trace tables := by
  refine h.invariant ?_ ?_
  · intro fp later _
    rfl
  · intro trace tables input next emitted hkept _ hnext
    exact hkept.step hnext

/-- The verdicts on the punches of a fingerprint are those of the limiter on their instants. -/
theorem punches_eq_limiter (h : Exec (RateTables.step authMax) Chronological .new inputs trace tables)
    (fp : Fingerprint) :
    punches fp trace =
      limiter RateTables.punchWindow RateTables.maxPerWindow (punchTimes fp inputs) := by
  induction h with
  | start => rfl
  | @step inputs trace tables next input emitted hrun hguard hnext ih =>
    rw [punches_append, punch_times_append, ih]
    cases input with
    | connect ip now | authFailure ip now | tick now =>
      obtain ⟨-, rfl⟩ := answer_inj hnext
      exact (List.append_nil _).trans (congrArg _ (List.append_nil _).symm)
    | punch asked now =>
      rw [RateTables.step_punch] at hnext
      obtain ⟨-, rfl⟩ := answer_inj hnext
      rw [punches_judged]
      by_cases hown : asked = fp
      · subst hown
        have hkept := punches_kept hrun asked now hguard
        have htime : punchTimes asked [.punch asked now] = [now] := by simp [punchTimes]
        rw [if_pos rfl, htime, limiter_append_singleton, judge,
          RateTables.punch_rate_ok_verdict, hkept, ih]
      · have htime : punchTimes fp [.punch asked now] = [] := by simp [punchTimes, hown]
        rw [if_neg hown, htime, List.append_nil, List.append_nil]

/-- A punch is granted exactly when fewer than ten of those granted before it are recent. -/
theorem punches_judged_recent (h : Exec (RateTables.step authMax) Chronological .new inputs trace tables) :
    EachEvent (fun before event => ∀ fp now ok, event = .judged fp now ok →
      (ok = true ↔ (recent (fromSecs 60) now (granted (punches fp before))).length < 10)) trace := by
  induction h with
  | start => exact each_event_nil
  | @step inputs trace tables next input emitted hrun hguard hnext ih =>
    refine each_event_append.mpr ⟨ih, ?_⟩
    obtain ⟨event, rfl, -⟩ := RateTables.step_event hnext
    refine each_event_singleton.mpr fun fp now ok hevent => ?_
    subst hevent
    cases input with
    | connect ip now | authFailure ip now | tick now => simp [RateTables.step] at hnext
    | punch asked now =>
      rw [RateTables.step_punch] at hnext
      obtain ⟨rfl, rfl, rfl⟩ : asked = fp ∧ now = _ ∧ _ = ok := by
        simpa using (answer_inj hnext).2
      rw [RateTables.punch_rate_ok_verdict, punches_kept hrun asked now hguard, List.append_nil]
      exact decide_eq_true_iff

/-- In any 60 seconds at most ten punches of a fingerprint are granted; each is granted exactly when
fewer than ten were granted in the 60 seconds before it; and the verdicts are the same in any other
run in which the fingerprint asks at the same instants, whatever else is asked and cleaned. -/
theorem punch_rate_limited (h : Exec (RateTables.step authMax) Chronological .new inputs trace tables)
    (fp : Fingerprint) :
    (∀ start, ((granted (punches fp trace)).filter
      fun t => start ≤ t && t < start + fromSecs 60).length ≤ 10) ∧
    EachEvent (fun before event => ∀ now ok, event = .judged fp now ok →
      (ok = true ↔ (recent (fromSecs 60) now (granted (punches fp before))).length < 10)) trace ∧
    ∀ (otherMax : UInt32) (others : List RateInput) (otherTrace : List RateEvent)
      (otherTables : RateTables),
      Exec (RateTables.step otherMax) Chronological .new others otherTrace otherTables →
      punchTimes fp others = punchTimes fp inputs → punches fp otherTrace = punches fp trace := by
  refine ⟨fun start => ?_, ?_, ?_⟩
  · rw [punches_eq_limiter h fp]
    exact interval_bounded _ _ _ start
  · intro before event after hsplit now ok hevent
    exact punches_judged_recent h before event after hsplit fp now ok hevent
  · intro otherMax others otherTrace otherTables hother hsame
    rw [punches_eq_limiter h fp, punches_eq_limiter hother fp, hsame]

/-- A fingerprint asks eleven times in eleven seconds, and again after 59 and 60 seconds. -/
def busyPunches : List RateInput :=
  (List.range 11).map (fun secs => .punch 1 (fromSecs secs)) ++
    [.tick (fromSecs 30), .punch 2 (fromSecs 31), .punch 1 (fromSecs 59), .tick (fromSecs 60),
      .punch 1 (fromSecs 60)]

theorem punch_rate_limited_sample :
    ∃ trace tables, Exec (RateTables.step 5) Chronological .new busyPunches trace tables ∧
      (punches 1 trace).map Prod.snd =
        [true, true, true, true, true, true, true, true, true, true, false, false, true] ∧
      ∀ start, ((granted (punches 1 trace)).filter
        fun t => start ≤ t && t < start + fromSecs 60).length ≤ 10 := by
  obtain ⟨tables, hrun⟩ := exec_of_run (RateTables.step 5) Chronological .new busyPunches
    (by decide +kernel)
  exact ⟨_, tables, hrun, by decide +kernel, (punch_rate_limited hrun 1).1⟩

end LocalTrans.Relay
